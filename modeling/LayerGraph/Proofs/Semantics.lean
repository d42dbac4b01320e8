import LayerGraph.Program.Model
import Std.Data.String.ToInt
/-!
# Running a model

* `Interpretation α` says what sums, fields, flattening and concatenation do on a carrier.
* `Expr.eval`, `Stmt.exec` and `Model.run` run the forward method. They give nothing when a variable
  is read that has not been assigned, or a call is not one of those that models make.
* `Interpretation.run_append_returns` runs statements one after the other, and `exec_additions` the
  additions to one variable.
-/

namespace LayerGraph
set_option autoImplicit false

universe u

/-- What the operators do on a carrier. A field may do anything that its name and its constructor
determine; addition need not be associative. -/
structure Interpretation (α : Type u) where
  add : α → α → α
  field : FieldDecl → α → α
  flatten : Int → α → α
  concat : Int → List α → α

/-- The values of the variables that have been assigned. -/
abbrev Store (α : Type u) := String → Option α

namespace Store

variable {α : Type u}

/-- Assigns a variable. -/
def set (store : Store α) (name : String) (a : α) : Store α :=
  fun other => if other = name then some a else store other

@[simp] theorem set_self (store : Store α) (name : String) (a : α) :
    store.set name a name = some a := if_pos rfl

theorem set_of_ne (store : Store α) {name other : String} (h : other ≠ name) (a : α) :
    store.set name a other = store other := if_neg h

@[simp] theorem set_set (store : Store α) (name : String) (a b : α) :
    (store.set name a).set name b = store.set name b := by
  funext other
  by_cases h : other = name
  · rw [h, set_self, set_self]
  · rw [set_of_ne _ h, set_of_ne _ h, set_of_ne _ h]

theorem set_eq_self {store : Store α} {name : String} {a : α} (h : store name = some a) :
    store.set name a = store := by
  funext other
  by_cases hother : other = name
  · rw [hother, set_self, h]
  · rw [set_of_ne _ hother]

end Store

/-! ## Running statements -/

namespace Interpretation

variable {α : Type u} (I : Interpretation α)

/-- The sum from the left; there is none of no values. -/
def sum? : List α → Option α
  | [] => none
  | a :: rest => some (rest.foldl I.add a)

/-- What a call gives: that of a field, or flattening from a dimension on. -/
def call? (fields : List FieldDecl) (callee : String) :
    List (String × String) → List α → Option α
  | [], [a] => (fields.find? fun f => "self." ++ f.name = callee).map fun f => I.field f a
  | [(name, text)], [a] =>
    if callee = "torch.flatten" ∧ name = "start_dim" then
      text.toInt?.map fun start => I.flatten start a
    else none
  | _, _ => none

end Interpretation

section Evaluation

variable {α : Type u} (I : Interpretation α) (fields : List FieldDecl)

mutual

/-- The value of an expression. -/
def Expr.eval (store : Store α) : Expr → Option α
  | .var name => store name
  | .call callee args keywords =>
    (Expr.evalAll store args).bind (I.call? fields callee keywords)
  | .sum items => (Expr.evalAll store items).bind I.sum?
  | .concat items dim => (Expr.evalAll store items).map (I.concat dim)

/-- The values of several expressions. -/
def Expr.evalAll (store : Store α) : List Expr → Option (List α)
  | [] => some []
  | e :: rest => do
    let a ← Expr.eval store e
    let more ← Expr.evalAll store rest
    return a :: more

end

/-- The variables behind an assignment or an addition. -/
def Stmt.exec (store : Store α) : Stmt → Option (Store α)
  | .assign target value => (value.eval I fields store).map (store.set target)
  | .accumulate target operand _ => do
    let a ← store target
    let b ← store operand
    return store.set target (I.add a b)
  | .returns _ => none

/-- Runs statements up to a return: the variables there and the value returned. -/
def Interpretation.run : List Stmt → Store α → Option (Store α × α)
  | [], _ => none
  | .returns value :: _, store => (value.eval I fields store).map fun a => (store, a)
  | stmt :: rest, store => (stmt.exec I fields store).bind (run rest)

end Evaluation

/-- Runs the forward method of a model. -/
def Model.run {α : Type u} (model : Model) (I : Interpretation α) (input : α) :
    Option (Store α × α) :=
  I.run model.fields model.forward (Store.set (fun _ => none) "x" input)

/-! ## Expressions and runs -/

section Evaluation

variable {α : Type u} {I : Interpretation α} {fields : List FieldDecl} {store : Store α}

theorem evalAll_vars {f : String → String} {value : String → α} {ids : List String}
    (h : ∀ id ∈ ids, store (f id) = some (value id)) :
    Expr.evalAll I fields store (ids.map fun id => .var (f id)) = some (ids.map value) := by
  induction ids with
  | nil => rfl
  | cons id rest ih =>
    have hfirst : Expr.eval I fields store (.var (f id)) = some (value id) :=
      h id List.mem_cons_self
    rw [List.map_cons, Expr.evalAll, hfirst, ih fun other hother =>
      h other (List.mem_cons_of_mem _ hother)]
    rfl

theorem Interpretation.run_append_returns {stmts : List Stmt} {last : Store α}
    (h : stmts.foldlM (Stmt.exec I fields) store = some last) {value : Expr} {a : α}
    (hvalue : value.eval I fields last = some a) :
    I.run fields (stmts ++ [.returns value]) store = some (last, a) := by
  induction stmts generalizing store with
  | nil =>
    obtain rfl := Option.some.inj h
    rw [List.nil_append, Interpretation.run, hvalue]
    rfl
  | cons stmt rest ih =>
    obtain ⟨next, hnext, hrest⟩ := Option.bind_eq_some_iff.1 h
    cases stmt with
    | returns => cases hnext
    | assign target e =>
      rw [List.cons_append, Interpretation.run, hnext]
      · exact ih hrest
      · exact fun _ => nofun
    | accumulate target operand kind =>
      rw [List.cons_append, Interpretation.run, hnext]
      · exact ih hrest
      · exact fun _ => nofun

/-- Additions to a variable add the values of their operands, from the left. -/
theorem exec_additions {target : String} {kind : EdgeKind} {f : String → String}
    {value : String → α} {ids : List String} {a : α} (htarget : store target = some a)
    (h : ∀ id ∈ ids, f id ≠ target ∧ store (f id) = some (value id)) :
    (additions target kind (ids.map f)).foldlM (Stmt.exec I fields) store =
      some (store.set target (ids.foldl (fun sum id => I.add sum (value id)) a)) := by
  induction ids generalizing store a with
  | nil =>
    rw [List.foldl_nil, Store.set_eq_self htarget]
    rfl
  | cons id rest ih =>
    obtain ⟨hne, hvalue⟩ := h id List.mem_cons_self
    have hfirst : Stmt.exec I fields store (.accumulate target (f id) kind) =
        some (store.set target (I.add a (value id))) := by
      rw [Stmt.exec, htarget, hvalue]
      rfl
    have hrest := ih (store.set_self target (I.add a (value id))) fun other hother => by
      obtain ⟨hother', hvalue'⟩ := h other (List.mem_cons_of_mem _ hother)
      exact ⟨hother', (store.set_of_ne hother' _).trans hvalue'⟩
    rw [Store.set_set] at hrest
    rw [List.map_cons, additions, List.map_cons, List.foldlM_cons, hfirst]
    exact hrest

end Evaluation

end LayerGraph
