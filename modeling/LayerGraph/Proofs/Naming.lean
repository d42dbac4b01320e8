import LayerGraph.Program.Model
import Mathlib.Data.List.Nodup
import Mathlib.Data.List.Range
import Mathlib.Data.List.Perm.Subperm
import Std.Data.String.ToNat
/-!
# Names stay apart

* `firstFree_not_mem`: among the candidates for an identifier one is not in use. So the search for
  it, which needs no bound (`Found`), stops after at most as many tries as there are names in use,
  and one more (`found_firstFree`).
* `Names.ident_cases`: all that naming an id can do.
* `Names.IsTable names`: no two ids have one identifier. Naming one more id keeps this and what was
  given before (`Names.ident_spec`).
* `Names.variableOf`: the variable of an id in a table that no longer grows. Different ids have
  different variables (`Names.variableOf_inj`).
-/

namespace LayerGraph
set_option autoImplicit false

/-! ## Candidates -/

theorem candidateName_inj {base : String} {m n : Nat}
    (h : candidateName base m = candidateName base n) : m = n := by
  have hnumber : ∀ k, base ≠ base ++ "_" ++ (k + 1).repr := fun k heq => by
    have hlength := congrArg String.length heq
    simp only [String.length_append] at hlength
    have hone : "_".length = 1 := rfl
    omega
  rw [candidateName, candidateName] at h
  split at h
  · split at h
    · omega
    · exact absurd h (hnumber n)
  · split at h
    · exact absurd h.symm (hnumber m)
    · exact Nat.succ.inj (Nat.repr_injective ((String.append_right_inj _).1 h))

theorem candidateName_mem_of_firstFree_mem {used : List String} {base : String} {tries n : Nat}
    (h : firstFree used base tries n ∈ used) :
    ∀ k ≤ tries, candidateName base (n + k) ∈ used := by
  induction tries generalizing n with
  | zero =>
    intro k hk
    obtain rfl := Nat.le_zero.1 hk
    exact h
  | succ tries ih =>
    unfold firstFree at h
    split at h
    · rename_i hfirst
      intro k hk
      cases k with
      | zero => exact hfirst
      | succ k =>
        have hnext := ih h k (Nat.le_of_succ_le_succ hk)
        rwa [Nat.add_right_comm] at hnext
    · rename_i hfirst
      exact absurd h hfirst

theorem firstFree_not_mem (used : List String) (base : String) :
    firstFree used base used.length 0 ∉ used := by
  intro h
  have hnodup : ((List.range (used.length + 1)).map (candidateName base)).Nodup :=
    List.Nodup.map (fun _ _ => candidateName_inj) List.nodup_range
  have hsub : (List.range (used.length + 1)).map (candidateName base) ⊆ used := by
    intro name hname
    obtain ⟨k, hk, rfl⟩ := List.mem_map.1 hname
    have hmem := candidateName_mem_of_firstFree_mem h k (Nat.le_of_lt_succ (List.mem_range.1 hk))
    rwa [Nat.zero_add] at hmem
  have hlength := (List.subperm_of_subset hnodup hsub).length_le
  simp only [List.length_map, List.length_range] at hlength
  omega

/-! ## The search -/

/-- The search that starts at the `n`th candidate, and has no bound, takes `name` at its `tries`th
candidate: the first that is not in use. -/
inductive Found (used : List String) (base : String) : (n tries : Nat) → (name : String) → Prop
  | free {n : Nat} (h : candidateName base n ∉ used) : Found used base n 1 (candidateName base n)
  | taken {n tries : Nat} {name : String} (h : candidateName base n ∈ used)
      (rest : Found used base (n + 1) tries name) : Found used base n (tries + 1) name

theorem Found.not_mem {used : List String} {base : String} {n tries : Nat} {name : String}
    (h : Found used base n tries name) : name ∉ used := by
  induction h with
  | free h => exact h
  | taken _ _ ih => exact ih

theorem Found.exists_candidate {used : List String} {base : String} {n tries : Nat}
    {name : String} (h : Found used base n tries name) : ∃ k, name = candidateName base k := by
  induction h with
  | free => exact ⟨_, rfl⟩
  | taken _ _ ih => exact ih

/-- A bound that is large enough does not show. -/
theorem found_of_firstFree_not_mem {used : List String} {base : String} {bound n : Nat}
    (h : firstFree used base bound n ∉ used) :
    ∃ tries ≤ bound + 1, Found used base n tries (firstFree used base bound n) := by
  induction bound generalizing n with
  | zero => exact ⟨1, Nat.le_refl 1, .free h⟩
  | succ bound ih =>
    unfold firstFree at h ⊢
    split at h
    · rename_i htaken
      obtain ⟨tries, hle, hfound⟩ := ih h
      rw [if_pos htaken]
      exact ⟨tries + 1, Nat.succ_le_succ hle, .taken htaken hfound⟩
    · rename_i hfree
      rw [if_neg hfree]
      exact ⟨1, Nat.le_add_left 1 _, .free hfree⟩

theorem found_firstFree (used : List String) (base : String) :
    ∃ tries ≤ used.length + 1,
      Found used base 0 tries (firstFree used base used.length 0) :=
  found_of_firstFree_not_mem (firstFree_not_mem used base)

namespace Names

/-! ## Tables of names -/

/-- The identifier of an id, if it was given one. -/
def name? (names : Names) (id : String) : Option String := names.given.lookup id

/-- No two ids have one identifier. -/
def IsTable (names : Names) : Prop :=
  ∀ a b name, names.name? a = some name → names.name? b = some name → a = b

/-- What was given stays given. -/
def Extends (names later : Names) : Prop :=
  ∀ id name, names.name? id = some name → later.name? id = some name

theorem isTable_empty : ({} : Names).IsTable := fun _ _ _ h => nomatch h

theorem Extends.refl (names : Names) : names.Extends names := fun _ _ h => h

theorem Extends.trans {first second third : Names} (h : first.Extends second)
    (h' : second.Extends third) : first.Extends third := fun id name hid => h' id name (h id name hid)

theorem mem_used {names : Names} {id name : String} (h : names.name? id = some name) :
    name ∈ names.used := by
  obtain ⟨given⟩ := names
  induction given with
  | nil => cases h
  | cons head rest ih =>
    rw [name?, Table.lookup_cons_eq] at h
    split at h
    · exact Option.some.inj h ▸ List.mem_cons_self
    · exact List.mem_cons_of_mem _ (ih h)

theorem ident_of_name? {names : Names} {id name : String} (h : names.name? id = some name) :
    names.ident id = (name, names) := by
  unfold ident
  split
  · rename_i found hfound
    rw [Option.some.inj (hfound.symm.trans h)]
  · rename_i hnone
    exact nomatch hnone.symm.trans h

/-- An id that has an identifier gets it again, and any other id the one that the search finds. -/
theorem ident_cases (names : Names) (id : String) :
    (∃ name, names.name? id = some name ∧ names.ident id = (name, names)) ∨
      names.name? id = none ∧ ∃ tries ≤ names.used.length + 1, ∃ name,
        Found names.used (baseName id) 0 tries name ∧
          names.ident id = (name, ⟨(id, name) :: names.given⟩) := by
  cases hname : names.name? id with
  | some name => exact .inl ⟨name, rfl, ident_of_name? hname⟩
  | none =>
    obtain ⟨tries, hle, hfound⟩ := found_firstFree names.used (baseName id)
    refine .inr ⟨rfl, tries, hle, _, hfound, ?_⟩
    have hlength : names.used.length = names.given.length := List.length_map _
    unfold ident
    rw [show names.given.lookup id = none from hname, hlength]

/-- Naming an id gives it an identifier of its own and keeps the others. -/
theorem ident_spec {names : Names} (h : names.IsTable) (id : String) :
    (names.ident id).2.IsTable ∧ names.Extends (names.ident id).2 ∧
      (names.ident id).2.name? id = some (names.ident id).1 := by
  rcases names.ident_cases id with ⟨name, hname, heq⟩ | ⟨hnone, _, _, name, hfound, heq⟩
  · rw [heq]
    exact ⟨h, Extends.refl names, hname⟩
  · rw [heq]
    have hfresh := hfound.not_mem
    have hlookup : ∀ other, (⟨(id, name) :: names.given⟩ : Names).name? other =
        if other = id then some name else names.name? other := fun other =>
      Table.lookup_cons_eq other (id, name) names.given
    refine ⟨fun a b found ha hb => ?_, fun other found hother => ?_, ?_⟩
    · simp only [hlookup] at ha hb
      split at ha <;> split at hb
      · rename_i ha' hb'
        rw [ha', hb']
      · exact absurd (mem_used (Option.some.inj ha ▸ hb)) hfresh
      · exact absurd (mem_used (Option.some.inj hb ▸ ha)) hfresh
      · exact h a b found ha hb
    · have hne : other ≠ id := fun hsame => by
        rw [hsame, hnone] at hother
        cases hother
      simp only [hlookup, if_neg hne]
      exact hother
    · simp only [hlookup, if_true]

/-! ## Variables -/

/-- The identifier of an id, in a table that has one. -/
def nameOf (names : Names) (id : String) : String := (names.name? id).getD ""

/-- The variable of an id. -/
def variableOf (names : Names) (root id : String) : String :=
  if id = root then "x" else names.nameOf id ++ "_out"

/-- The table has what the variable of an id is made of. -/
def Covers (names : Names) (root id : String) : Prop :=
  id = root ∨ ∃ name, names.name? id = some name

theorem nameOf_eq {names : Names} {id name : String} (h : names.name? id = some name) :
    names.nameOf id = name := by
  rw [nameOf, h]
  rfl

theorem x_ne_output (name : String) : "x" ≠ name ++ "_out" := fun heq => by
  have hlength := congrArg String.length heq
  rw [String.length_append] at hlength
  have hx : "x".length = 1 := rfl
  have hout : "_out".length = 4 := rfl
  omega

theorem variableOf_inj {names : Names} (h : names.IsTable) {root a b : String}
    (ha : names.Covers root a) (hb : names.Covers root b)
    (heq : names.variableOf root a = names.variableOf root b) : a = b := by
  rw [variableOf, variableOf] at heq
  split at heq
  · rename_i haroot
    split at heq
    · rename_i hbroot
      rw [haroot, hbroot]
    · exact absurd heq (x_ne_output _)
  · rename_i haroot
    split at heq
    · exact absurd heq.symm (x_ne_output _)
    · rename_i hbroot
      obtain ⟨first, hfirst⟩ := ha.resolve_left haroot
      obtain ⟨second, hsecond⟩ := hb.resolve_left hbroot
      rw [nameOf_eq hfirst, nameOf_eq hsecond, String.append_left_inj] at heq
      exact h a b first hfirst (heq ▸ hsecond)

end Names
end LayerGraph
