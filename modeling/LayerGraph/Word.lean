/-!
# Signed words

Sizes, bounds and integer parameters are signed words of 64 bits. They are held as `Int`, and
every operation that could leave the range goes through `Word.checked`. The one that does not is the
last `+ 1` of `Window.count`, which leaves it only for a kernel below one
(`Window.countSteps_eq_ite`).

* `Word.Fits i` says that `i` is a signed word; it is decidable.
* `Word.checked i` is `i` when it fits, and nothing otherwise.
-/

namespace LayerGraph.Word
set_option autoImplicit false

def least : Int := -9223372036854775808

def greatest : Int := 9223372036854775807

def Fits (i : Int) : Prop := least ≤ i ∧ i ≤ greatest

instance (i : Int) : Decidable (Fits i) := inferInstanceAs (Decidable (_ ∧ _))

def checked (i : Int) : Option Int := if Fits i then some i else none

@[simp] theorem checked_eq_some_iff {i j : Int} : checked i = some j ↔ Fits i ∧ i = j := by
  unfold checked
  split <;> simp [*]

@[simp] theorem checked_eq_none_iff {i : Int} : checked i = none ↔ ¬ Fits i := by
  unfold checked
  split <;> simp [*]

end LayerGraph.Word
