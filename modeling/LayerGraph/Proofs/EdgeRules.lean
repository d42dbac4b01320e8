import LayerGraph.Proofs.Drawing
import LayerGraph.Proofs.Search
/-!
# What the rules for edges say

Each test of an edge as a statement: the connection (`checkConnection_eq_ok_iff`,
`checkArchitecture_eq_ok_iff`, `checkWorkflow_eq_ok_iff`), the cycle (`closesCycle_iff`) and the
shapes (`checkShapes_addend_iff`, `checkShapes_operand_iff`). The shapes that an edge is tested with
are those at its source, at the sources beside it and, for an addend, at its target
(`checkShapes_congr_of_inputs`). The tests of shapes find no other faults
(`isShapeTest_checkShapes`).
-/

namespace LayerGraph
set_option autoImplicit false
open Relation

variable {e : Edge} {ends : Ends} {others : List Edge}

/-! ## Connections -/

theorem checkLayout_eq_ok_iff {layout : Layout} {shape : Option Shape} :
    checkLayout layout shape ends = .ok () ↔
      ¬ (ends.target.operator.rule = .linear ∧ layout = .spatial) ∧
        ¬ (ends.target.operator.rule.isSpatial = true ∧ layout = .flat) := by
  rw [checkLayout, refuse_eq_ok_iff, refuse_eq_ok_iff]
  exact and_congr_right fun _ => and_iff_left rfl

theorem checkArchitecture_eq_ok_iff :
    checkArchitecture e ends others = .ok () ↔
      ends.target.operator.isRoot = false ∧
        (e.kind = .normal → ends.target.operator.isMerge = false →
          ∀ d ∈ others, d.target = e.target → d.kind ≠ .normal) ∧
        ends.target.operator.accepts ends.source.operator.outputTypes = true ∧
        (e.kind = .normal ∨ ends.target.operator.isMerge = true →
          ∀ layout, declaredLayout? ends.source = some layout →
            checkLayout layout none ends = .ok ()) := by
  rw [checkArchitecture, refuse_eq_ok_iff, refuse_eq_ok_iff, refuse_eq_ok_iff]
  refine and_congr (by simp) (and_congr (by simp) (and_congr (by simp) ?_))
  by_cases hoperand : e.kind = .normal ∨ ends.target.operator.isMerge = true
  · rw [if_pos hoperand]
    cases declaredLayout? ends.source <;> simp [hoperand]
  · simp [hoperand]

theorem checkWorkflow_eq_ok_iff :
    checkWorkflow ends = .ok () ↔
      ends.source.operator.category ≠ .callbacks ∧
        ends.target.operator.category ∈ ends.source.operator.category.successors ∧
        ends.target.operator.accepts
          (ends.source.operator.presentedTo ends.target.operator) = true := by
  rw [checkWorkflow, refuse_eq_ok_iff, refuse_eq_ok_iff, not_not]
  refine and_congr_right fun _ => and_congr_right fun _ => ?_
  by_cases haccepts : ends.target.operator.accepts
      (ends.source.operator.presentedTo ends.target.operator) = true <;> simp [haccepts]

/-- The rules without shapes: no two edges join the same ends, and the rules of the graph hold. -/
theorem checkConnection_eq_ok_iff :
    checkConnection e ends others = .ok () ↔
      (∀ d ∈ others, d.source = e.source → d.target ≠ e.target) ∧
        (if ends.source.node.isPipeline then checkWorkflow ends
          else checkArchitecture e ends others) = .ok () := by
  rw [checkConnection, refuse_eq_ok_iff]
  exact and_congr (by simp) Iff.rfl

/-! ## Cycles -/

theorem feeds_iff_mem {edges : List Edge} {a b : String} :
    (a, b) ∈ edges.map (fun e => (e.source, e.target)) ↔ Feeds edges a b := by
  simp [Feeds]

/-- The candidate closes a cycle exactly when its target leads to its source. -/
theorem closesCycle_iff (h : e.source ≠ e.target) :
    closesCycle e others = true ↔ TransGen (Feeds others) e.target e.source := by
  rw [closesCycle, Search.reaches_iff (Ne.symm h)]
  simp only [feeds_iff_mem]

/-! ## Shapes -/

theorem checkShapes_addend_iff {overlay : Propagation} (hkind : e.kind ≠ .normal)
    (hmerge : ends.target.operator.isMerge = false) :
    checkShapes e ends others overlay = .ok () ↔
      ∀ produced output, overlay.shape? ends.source.id = some produced →
        overlay.shape? ends.target.id = some output → output = produced := by
  unfold checkShapes
  cases overlay.shape? ends.source.id with
  | none => simp
  | some produced =>
    simp only [hkind, hmerge, ne_eq, not_false_eq_true, Bool.false_eq_true, and_self, if_true,
      checkAddend]
    cases overlay.shape? ends.target.id with
    | none => simp
    | some output =>
      by_cases heq : output = produced <;> simp [heq]

/-- What is read has a layout, a number of features and a shape that suit the rule. -/
theorem checkShapes_operand_iff {overlay : Propagation}
    (hoperand : e.kind = .normal ∨ ends.target.operator.isMerge = true) :
    checkShapes e ends others overlay = .ok () ↔
      ∀ produced, overlay.shape? ends.source.id = some produced →
        checkProducedLayout ends produced = .ok () ∧
          (ends.target.operator.rule = .linear → checkFeatures produced ends = .ok ()) ∧
          checkInputs e ends others overlay produced = .ok () := by
  have hnot : ¬ (e.kind ≠ .normal ∧ ¬ ends.target.operator.isMerge = true) :=
    fun h => hoperand.elim h.1 h.2
  have hunit : ∀ {P : Unit → Prop}, (∃ a, P a) ↔ P () :=
    ⟨fun ⟨_, h⟩ => h, fun h => ⟨(), h⟩⟩
  unfold checkShapes
  cases overlay.shape? ends.source.id with
  | none => simp
  | some produced =>
    simp only [if_neg hnot, Option.some.injEq, forall_eq', bind_eq_ok_iff, hunit]
    refine and_congr_right fun _ => ?_
    by_cases hlinear : ends.target.operator.rule = .linear
    · simp only [hlinear, if_true, bind_eq_ok_iff, hunit, true_implies]
    · simp [hlinear]

/-- A number of features that is set, and that is provided, has to be the same. -/
theorem checkFeatures_eq_ok_iff {produced : Shape} :
    checkFeatures produced ends = .ok () ↔
      ∀ declared provided, ends.target.node.params.int? "in_features" = some declared →
        produced.last?.bind Dim.size? = some provided → declared = provided := by
  unfold checkFeatures
  cases ends.target.node.params.int? "in_features" with
  | none => simp
  | some declared =>
    cases produced.last?.bind Dim.size? with
    | none => simp
    | some provided => by_cases heq : declared = provided <;> simp [heq]

theorem checkInputs_of_not_isMerge {overlay : Propagation} {produced : Shape}
    (hmerge : ends.target.operator.isMerge = false) :
    checkInputs e ends others overlay produced = checkRule ends [produced] := by
  rw [checkInputs, hmerge, if_neg Bool.false_ne_true]

theorem checkInputs_of_isMerge {overlay : Propagation} {produced : Shape}
    (hmerge : ends.target.operator.isMerge = true)
    (hothers : otherInputs e others overlay ≠ []) :
    checkInputs e ends others overlay produced =
      checkRule ends (otherInputs e others overlay ++ [produced]) := by
  rw [checkInputs, if_pos hmerge, if_neg (by simpa using hothers)]

theorem checkRule_eq_ok_iff {inputs : List Shape} :
    checkRule ends inputs = .ok () ↔
      ∃ result, ends.target.operator.rule.apply
        (ends.target.operator.resolve ends.target.node.params) inputs = .ok result := by
  rw [checkRule]
  split
  · rename_i result hresult
    exact ⟨fun _ => ⟨result, hresult⟩, fun _ => rfl⟩
  · rename_i fault hfault
    exact ⟨(nomatch ·), fun ⟨_, h⟩ => nomatch hfault.symm.trans h⟩

/-! ### Their faults -/

/-- The test finds no other faults than those of shapes. -/
def IsShapeTest (test : Except Fault Unit) : Prop :=
  ∀ fault, test = .error fault → fault.kind = .shapeMismatch

theorem isShapeTest_ok : IsShapeTest (.ok ()) := fun _ h => nomatch h

theorem isShapeTest_error (target : String) (cause : EdgeShapeFault) :
    IsShapeTest (.error (.edgeShape target cause)) := fun _ h => Except.error.inj h ▸ rfl

theorem IsShapeTest.bind {test : Except Fault Unit} {rest : Unit → Except Fault Unit}
    (htest : IsShapeTest test) (hrest : IsShapeTest (rest ())) : IsShapeTest (test >>= rest) := by
  cases test with
  | error fault => exact htest
  | ok => exact hrest

theorem isShapeTest_checkLayout (layout : Layout) (shape : Option Shape) :
    IsShapeTest (checkLayout layout shape ends) := by
  simp only [checkLayout]
  split
  · exact isShapeTest_error _ _
  · split
    · exact isShapeTest_error _ _
    · exact isShapeTest_ok

theorem isShapeTest_checkProducedLayout (produced : Shape) :
    IsShapeTest (checkProducedLayout ends produced) := by
  unfold checkProducedLayout
  split
  · exact isShapeTest_checkLayout _ _
  · exact isShapeTest_ok

theorem isShapeTest_checkFeatures (produced : Shape) :
    IsShapeTest (checkFeatures produced ends) := by
  unfold checkFeatures
  split
  · split
    · exact isShapeTest_ok
    · exact isShapeTest_error _ _
  · exact isShapeTest_ok

theorem isShapeTest_checkAddend (produced : Shape) (overlay : Propagation) :
    IsShapeTest (checkAddend e ends produced overlay) := by
  unfold checkAddend
  split
  · split
    · exact isShapeTest_ok
    · exact isShapeTest_error _ _
  · exact isShapeTest_ok

theorem isShapeTest_checkRule (inputs : List Shape) : IsShapeTest (checkRule ends inputs) := by
  simp only [checkRule]
  split
  · exact isShapeTest_ok
  · exact isShapeTest_error _ _

theorem isShapeTest_checkInputs (overlay : Propagation) (produced : Shape) :
    IsShapeTest (checkInputs e ends others overlay produced) := by
  simp only [checkInputs]
  split
  · split
    · exact isShapeTest_ok
    · exact isShapeTest_checkRule _
  · exact isShapeTest_checkRule _

/-- Whatever the shapes are, the test with shapes gives a fault of shapes. -/
theorem isShapeTest_checkShapes (overlay : Propagation) :
    IsShapeTest (checkShapes e ends others overlay) := by
  simp only [checkShapes]
  split
  · exact isShapeTest_ok
  · split
    · exact isShapeTest_checkAddend _ _
    · apply (isShapeTest_checkProducedLayout _).bind
      split
      · exact (isShapeTest_checkFeatures _).bind (isShapeTest_checkInputs _ _)
      · exact isShapeTest_checkInputs _ _

/-- The test of shapes looks at the source, at the other inputs and at the target of an addend. -/
theorem checkShapes_congr_of_inputs {others' : List Edge} {overlay overlay' : Propagation}
    (hsource : overlay.shape? ends.source.id = overlay'.shape? ends.source.id)
    (hinputs : otherInputs e others overlay = otherInputs e others' overlay')
    (htarget : e.kind ≠ .normal → ends.target.operator.isMerge = false →
      overlay.shape? ends.target.id = overlay'.shape? ends.target.id) :
    checkShapes e ends others overlay = checkShapes e ends others' overlay' := by
  rw [checkShapes, checkShapes, hsource]
  cases overlay'.shape? ends.source.id with
  | none => rfl
  | some produced =>
    by_cases haddend : e.kind ≠ .normal ∧ ¬ ends.target.operator.isMerge = true
    · simp only [if_pos haddend, checkAddend,
        htarget haddend.1 (Bool.eq_false_iff.2 haddend.2)]
    · simp only [if_neg haddend, checkInputs, hinputs]

theorem checkShapes_congr {overlay overlay' : Propagation}
    (hsource : overlay.shape? ends.source.id = overlay'.shape? ends.source.id)
    (hothers : ∀ d ∈ others, d.target = e.target →
      overlay.shape? d.source = overlay'.shape? d.source)
    (htarget : e.kind ≠ .normal → ends.target.operator.isMerge = false →
      overlay.shape? ends.target.id = overlay'.shape? ends.target.id) :
    checkShapes e ends others overlay = checkShapes e ends others overlay' := by
  refine checkShapes_congr_of_inputs hsource (List.filterMap_congr fun d hd => ?_) htarget
  obtain ⟨hd, hdtarget⟩ := List.mem_filter.1 hd
  exact hothers d hd (of_decide_eq_true hdtarget)

end LayerGraph
