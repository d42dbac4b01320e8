import LayerGraph.Proofs.Drawing
import LayerGraph.Program.Training
/-!
# What the catalogs hold

* Every default passes its own check (`checks_default`), so each resolved parameter does when the
  node has no problems (`checks_resolve`). A dataset node therefore names a known dataset
  (`exists_dataset`), and integer parameters are integers within their bounds.
* The operators of a catalog are told apart by their rules: roots have the dataset rule, criteria
  the scalar one, and all that the program constructs has something to call.
* What a criterion produces suits no operator (`not_accepts_loss`).
-/

namespace LayerGraph
set_option autoImplicit false

theorem Catalog.mem_operators {mode : Mode} {id : String} {o : Operator}
    (h : Catalog.find? mode id = some o) : o ∈ Catalog.operators mode ∧ o.id = id :=
  ⟨List.mem_of_find?_eq_some h, by simpa using List.find?_some h⟩

theorem Node.operator_eq_ok_iff {n : Node} {o : Operator} :
    n.operator = .ok o ↔ Catalog.find? n.mode n.operatorId = some o := by
  unfold Node.operator
  split
  · rename_i found hfound
    rw [hfound]
    exact ⟨fun h => congrArg some (Except.ok.inj h), fun h => congrArg _ (Option.some.inj h)⟩
  · rename_i hnone
    rw [hnone]
    exact ⟨(nomatch ·), (nomatch ·)⟩

/-! ## Parameters -/

namespace ParamDecl

/-- The value passes the test of the declaration. -/
def Checks (decl : ParamDecl) (value : ParamValue) : Prop := decl.check value = .ok ()

instance (decl : ParamDecl) (value : ParamValue) : Decidable (decl.Checks value) :=
  inferInstanceAs (Decidable (_ = _))

theorem le_of_checks_int {decl : ParamDecl} {value : ParamValue} {least : Int}
    {greatest : Option Int} (hkind : decl.kind = .int (some least) greatest)
    (h : decl.Checks value) : ∃ i, value.int? = some i ∧ least ≤ i := by
  simp only [Checks, check, hkind] at h
  split at h
  · cases h
  · rename_i i hint
    refine ⟨i, hint, ?_⟩
    unfold checkInt at h
    split at h
    · cases h
    · cases h
    · rename_i hleast _
      simpa using hleast

theorem mem_options_of_checks {decl : ParamDecl} {value : ParamValue} {options : List String}
    (hkind : decl.kind = .choice options) (h : decl.Checks value) :
    ∃ text, value.text? = some text ∧ text ∈ options := by
  simp only [Checks, check, hkind] at h
  split at h
  · cases h
  · rename_i text htext
    split at h
    · rename_i hmem
      exact ⟨text, htext, hmem⟩
    · cases h

end ParamDecl

namespace Operator

/-- The names of the parameters are distinct, and every default passes its own check. -/
def WellDeclared (o : Operator) : Prop :=
  (o.params.map ParamDecl.name).Nodup ∧
    ∀ decl ∈ o.params, ∀ value, decl.default = some value → decl.Checks value

instance (o : Operator) : Decidable o.WellDeclared :=
  inferInstanceAs (Decidable (_ ∧ ∀ decl ∈ o.params, ∀ value, decl.default = some value → _))

theorem wellDeclared (mode : Mode) {o : Operator} (h : o ∈ Catalog.operators mode) :
    o.WellDeclared := by
  revert o
  cases mode <;> decide +kernel

theorem get?_defaults {o : Operator} (h : o.WellDeclared) {decl : ParamDecl}
    (hdecl : decl ∈ o.params) : o.defaults.get? decl.name = decl.default := by
  have hfst : (o.params.filterMap fun decl => decl.default.map (decl.name, ·)).map Prod.fst =
      (o.params.filter (·.default.isSome)).map ParamDecl.name := by
    induction o.params with
    | nil => rfl
    | cons first rest ih =>
      cases hdefault : first.default with
      | none => simpa [hdefault] using ih
      | some value => simpa [hdefault] using ih
  have hnodup : ((o.params.filterMap fun decl => decl.default.map (decl.name, ·)).map
      Prod.fst).Nodup := hfst ▸ (List.filter_sublist.map _).nodup h.1
  apply Option.ext
  intro value
  rw [defaults, Table.get?_ofList_eq_some_iff hnodup, List.mem_filterMap]
  constructor
  · rintro ⟨other, hother, heq⟩
    obtain ⟨value, hvalue, heq⟩ := Option.map_eq_some_iff.1 heq
    obtain ⟨hname, rfl⟩ := Prod.mk.inj heq
    exact List.inj_on_of_nodup_map h.1 hother hdecl hname ▸ hvalue
  · exact fun hvalue => ⟨decl, hdecl, Option.map_eq_some_iff.2 ⟨value, hvalue, rfl⟩⟩

/-- A set parameter without problems passes the test of its declaration. -/
theorem checks_of_problems_eq_nil {o : Operator} {params : Params} (h : o.problems params = [])
    {decl : ParamDecl} (hdecl : decl ∈ o.params) {value : ParamValue}
    (hvalue : params.get? decl.name = some value) : decl.Checks value := by
  have hnone := List.filterMap_eq_nil_iff.1 (List.append_eq_nil_iff.1 h).1 decl hdecl
  rw [declProblem?, hvalue] at hnone
  unfold ParamDecl.Checks
  cases hcheck : decl.check value with
  | ok => rfl
  | error problem => simp [hcheck] at hnone

/-- Every parameter that has a value over the defaults passes the test of its declaration. -/
theorem checks_resolve {o : Operator} (hdeclared : o.WellDeclared) {params : Params}
    (h : o.problems params = []) {decl : ParamDecl} (hdecl : decl ∈ o.params)
    {value : ParamValue} (hvalue : (o.resolve params).get? decl.name = some value) :
    decl.Checks value := by
  rw [resolve, Table.get?_overlay, get?_defaults hdeclared hdecl, Option.or_eq_some_iff] at hvalue
  rcases hvalue with hset | ⟨-, hdefault⟩
  · exact checks_of_problems_eq_nil h hdecl hset
  · exact hdeclared.2 decl hdecl value hdefault

theorem resolve_empty (o : Operator) : o.resolve .empty = o.defaults := by
  apply Table.ext_get?
  intro key
  rw [resolve, Table.get?_overlay]
  rfl

theorem exists_resolve {o : Operator} (hdeclared : o.WellDeclared) (params : Params)
    {decl : ParamDecl} (hdecl : decl ∈ o.params) (hdefault : decl.default.isSome) :
    ∃ value, (o.resolve params).get? decl.name = some value := by
  obtain ⟨value, hvalue⟩ := Option.isSome_iff_exists.1 hdefault
  rw [resolve, Table.get?_overlay, get?_defaults hdeclared hdecl, hvalue]
  cases params.get? decl.name with
  | none => exact ⟨value, rfl⟩
  | some set => exact ⟨set, rfl⟩

theorem exists_int {o : Operator} (hdeclared : o.WellDeclared) {params : Params}
    (h : o.problems params = []) {name : String} {default least : Int} {greatest : Option Int}
    (hdecl : ParamDecl.int name default (some least) greatest ∈ o.params) :
    ∃ i, (o.resolve params).int? name = some i ∧ least ≤ i := by
  obtain ⟨value, hvalue⟩ := exists_resolve hdeclared params hdecl rfl
  obtain ⟨i, hint, hle⟩ :=
    ParamDecl.le_of_checks_int rfl (checks_resolve hdeclared h hdecl hvalue)
  refine ⟨i, ?_, hle⟩
  have hget : (o.resolve params).get? name = some value := hvalue
  rw [Params.int?, hget]
  exact hint

/-! ## The operators -/

theorem isRoot_iff {o : Operator} (h : o ∈ Architecture.all) :
    o.isRoot = true ↔ o.rule = .dataset := by
  revert o
  decide

theorem rule_of_isLoss {o : Operator} (h : o ∈ Architecture.all) (hloss : o.isLoss = true) :
    o.rule = .scalar ∧ o.outputTypes = [.loss] := by
  revert o
  decide

theorem isLoss_of_rule {o : Operator} (h : o ∈ Architecture.all) (hrule : o.rule = .scalar) :
    o.isLoss = true := by
  revert o
  decide

theorem not_accepts_loss {o : Operator} (h : o ∈ Architecture.all) : o.accepts [.loss] = false := by
  revert o
  decide

/-- What is not a dataset and not a sum has something to call. -/
theorem exists_callee {o : Operator} (h : o ∈ Architecture.all) (hdataset : o.rule ≠ .dataset)
    (hadd : o.rule ≠ .add) : ∃ callee, o.callee = some callee := by
  have hall : ∀ o ∈ Architecture.all, o.rule ≠ .dataset → o.rule ≠ .add →
      o.callee.isSome = true := by decide
  exact Option.isSome_iff_exists.1 (hall o h hdataset hadd)

/-- Transforms, optimizers and metrics have something to call. -/
theorem exists_callee_of_category {o : Operator} (h : o ∈ Pipeline.all)
    (hcategory : o.category ∈ [Category.dataAugmentation, .optimization, .metrics]) :
    ∃ callee, o.callee = some callee := by
  have hall : ∀ o ∈ Pipeline.all,
      o.category ∈ [Category.dataAugmentation, .optimization, .metrics] →
        o.callee.isSome = true := by decide
  exact Option.isSome_iff_exists.1 (hall o h hcategory)

theorem exists_dataset {o : Operator} (h : o ∈ Architecture.all) (hrule : o.rule = .dataset)
    {params : Params} (hproblems : o.problems params = []) :
    ∃ name dataset, (o.resolve params).text? "dataset" = some name ∧
      Dataset.find? name = some dataset := by
  have hall : ∀ o ∈ Architecture.all, o.rule = .dataset → o = Architecture.dataset := by
    decide
  obtain rfl := hall o h hrule
  have hdeclared : Architecture.dataset.WellDeclared := wellDeclared .architecture h
  obtain ⟨decl, hdecl⟩ : ∃ decl, decl ∈ Architecture.dataset.params := ⟨_, List.mem_cons_self⟩
  have hoptions : ∀ decl ∈ Architecture.dataset.params, decl.name = "dataset" ∧
      decl.default.isSome ∧ ∃ options, decl.kind = .choice options ∧
        ∀ name ∈ options, (Dataset.find? name).isSome := by
    intro decl hdecl
    obtain rfl := List.mem_singleton.1 hdecl
    exact ⟨rfl, rfl, _, rfl, by decide⟩
  obtain ⟨hname, hdefault, options, hkind, hknown⟩ := hoptions decl hdecl
  obtain ⟨value, hvalue⟩ := exists_resolve hdeclared params hdecl hdefault
  obtain ⟨text, htext, hmem⟩ :=
    ParamDecl.mem_options_of_checks hkind (checks_resolve hdeclared hproblems hdecl hvalue)
  obtain ⟨dataset, hdataset⟩ := Option.isSome_iff_exists.1 (hknown text hmem)
  refine ⟨text, dataset, ?_, hdataset⟩
  rw [Params.text?, ← hname, hvalue]
  exact htext

theorem exists_startDim {o : Operator} (h : o ∈ Architecture.all) (hrule : o.rule = .flatten)
    {params : Params} (hproblems : o.problems params = []) :
    ∃ start, (o.resolve params).int? "start_dim" = some start ∧ 1 ≤ start := by
  have hall : ∀ o ∈ Architecture.all, o.rule = .flatten →
      ParamDecl.int "start_dim" 1 (some 1) none ∈ o.params := by decide
  exact exists_int (wellDeclared .architecture h) hproblems (hall o h hrule)

end Operator
end LayerGraph
