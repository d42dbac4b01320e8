import LayerGraph.Proofs.Sound
/-!
# Propagation as equations

Propagation goes through the nodes once, in topological order. What it computes is the solution of
equations that mention no order:

* `Network.Reads net p sources`: the operands of a node, read off the edges.
* `Network.Gives net shape p result`: what the rule of a node gives over shapes of the others. It
  gives nothing while the node is detached.
* `Network.SolvesAt net shape id`: the id has a shape exactly when it stands for a node of the
  architecture whose rule gives this shape.

`propagatePartial_spec` says that the propagated shapes solve the equations, that nothing else does,
and what the faults, the learned parameters and the types are.
-/

namespace LayerGraph
set_option autoImplicit false
open Relation

namespace Network

variable {net : Network} {p : Placed} {sources : List String}
  {shape first second : String → Option Shape} {result : Except RuleFault RuleResult}

/-! ## The equations -/

/-- The operands of a node. -/
inductive Reads (net : Network) (p : Placed) : List String → Prop
  /-- A merge reads the sources of all its edges, in their order. -/
  | merge (hmerge : p.operator.isMerge = true) :
    Reads net p ((net.edges.filter fun e => e.target = p.id).map Edge.source)
  /-- Any other node reads the source of its first normal edge. -/
  | first (before : List Edge) (e : Edge) (after : List Edge)
      (hmerge : p.operator.isMerge = false) (hedges : net.edges = before ++ e :: after)
      (htarget : e.target = p.id) (hkind : e.kind = .normal)
      (hfirst : ∀ d ∈ before, d.target = p.id → d.kind ≠ .normal) :
    Reads net p [e.source]

/-- What the rule of a node gives over shapes. -/
inductive Gives (net : Network) (shape : String → Option Shape) (p : Placed) :
    Except RuleFault RuleResult → Prop
  | dataset (hrule : p.operator.rule = .dataset) :
    Gives net shape p (Rule.datasetShape (p.operator.resolve p.node.params))
  | rule (sources : List String) (inputs : List Shape) (hrule : p.operator.rule ≠ .dataset)
      (hreads : net.Reads p sources) (hnonempty : sources ≠ [])
      (htwo : p.operator.isMerge = true → 2 ≤ sources.length)
      (hinputs : List.Forall₂ (fun s input => shape s = some input) sources inputs) :
    Gives net shape p (p.operator.rule.apply (p.operator.resolve p.node.params) inputs)

/-- The equation for an id. -/
def SolvesAt (net : Network) (shape : String → Option Shape) (id : String) : Prop :=
  ∀ s, shape id = some s ↔ ∃ p ∈ net.nodes, p.id = id ∧ p.node.isPipeline = false ∧
    ∃ result, net.Gives shape p (.ok result) ∧ result.shape = s

theorem Reads.feeds (h : net.Reads p sources) {s : String} (hs : s ∈ sources) :
    Feeds net.edges s p.id := by
  cases h with
  | merge =>
    obtain ⟨e, he, rfl⟩ := List.mem_map.1 hs
    obtain ⟨he, htarget⟩ := List.mem_filter.1 he
    exact ⟨e, he, rfl, of_decide_eq_true htarget⟩
  | first before e after hmerge hedges htarget =>
    rw [List.mem_singleton.1 hs]
    exact ⟨e, hedges ▸ List.mem_append_right _ List.mem_cons_self, rfl, htarget⟩

/-- What a rule gives depends on the sources of the edges into the node only. -/
theorem Gives.congr (h : net.Gives first p result)
    (hsame : ∀ s, Feeds net.edges s p.id → first s = second s) : net.Gives second p result := by
  cases h with
  | dataset hrule => exact .dataset hrule
  | rule sources inputs hrule hreads hnonempty htwo hinputs =>
    apply Gives.rule sources inputs hrule hreads hnonempty htwo
    apply List.forall₂_iff_zip.2
    obtain ⟨hlength, hzip⟩ := List.forall₂_iff_zip.1 hinputs
    refine ⟨hlength, fun {s input} hmem => ?_⟩
    rw [← hsame s (hreads.feeds (List.of_mem_zip hmem).1)]
    exact hzip hmem

theorem Gives.exists_apply (h : net.Gives shape p result) :
    ∃ inputs, p.operator.rule.apply (p.operator.resolve p.node.params) inputs = result := by
  cases h with
  | dataset hrule =>
    rw [hrule]
    exact ⟨[], rfl⟩
  | rule sources inputs => exact ⟨inputs, rfl⟩

/-- Solutions are equal on a part that contains whatever feeds it. -/
theorem eq_of_solvesAt (hacyclic : Acyclic net.edges) (scope : String → Prop)
    (hclosed : ∀ id, scope id → ∀ s, Feeds net.edges s id → scope s)
    (hfirst : ∀ id, scope id → net.SolvesAt first id)
    (hsecond : ∀ id, scope id → net.SolvesAt second id) {id : String} (hid : scope id) :
    first id = second id := by
  revert hid
  -- Along the edges: both equations of a node read what feeds it.
  apply hacyclic.wellFounded.induction (C := fun id => scope id → first id = second id) id
  intro id ih hid
  have hsame : ∀ p ∈ net.nodes, p.id = id → ∀ s, Feeds net.edges s p.id → first s = second s := by
    rintro p - rfl s hs
    exact ih s hs (hclosed _ hid s hs)
  apply Option.ext
  intro s
  rw [hfirst id hid s, hsecond id hid s]
  constructor
  · rintro ⟨p, hp, heq, hgraph, result, hgives, hshape⟩
    exact ⟨p, hp, heq, hgraph, result, hgives.congr (hsame p hp heq), hshape⟩
  · rintro ⟨p, hp, heq, hgraph, result, hgives, hshape⟩
    have hback := hgives.congr fun s hs => (hsame p hp heq s hs).symm
    exact ⟨p, hp, heq, hgraph, result, hback, hshape⟩

/-! ## The overlay solves them -/

theorem reads_iff (hp : p ∈ net.nodes) :
    net.Reads p sources ↔
      net.operands p.id = sources ∧ (p.operator.isMerge = false → sources ≠ []) := by
  have hincoming : net.incoming p.id = net.edges.filter fun e => e.target = p.id :=
    List.filter_congr fun e _ => beq_eq_decide _ _
  constructor
  · intro h
    cases h with
    | merge hmerge =>
      rw [operands_of_isMerge hp hmerge, hincoming]
      exact ⟨rfl, fun hnot => absurd (hnot.symm.trans hmerge) Bool.false_ne_true⟩
    | first before e after hmerge hedges htarget hkind hfirst =>
      have hnone : (before.filter fun e => e.target = p.id).filter (·.kind = .normal) = [] := by
        rw [List.filter_filter, List.filter_eq_nil_iff]
        intro d hd
        simpa using fun hnormal htarget => hfirst d hd htarget hnormal
      rw [operands_of_not_isMerge hp hmerge, hincoming, hedges, List.filter_append,
        List.filter_append, hnone]
      simp [htarget, hkind]
  · rintro ⟨rfl, hnonempty⟩
    cases hmerge : p.operator.isMerge with
    | true =>
      rw [operands_of_isMerge hp hmerge, hincoming]
      exact .merge hmerge
    | false =>
      have hne := hnonempty hmerge
      rw [operands_of_not_isMerge hp hmerge, hincoming, List.filter_filter] at hne ⊢
      cases hfilter : net.edges.filter fun e => decide (e.kind = .normal) && decide (e.target = p.id)
        with
      | nil => simp [hfilter] at hne
      | cons e rest =>
        obtain ⟨before, after, hedges, hbefore, he, -⟩ := List.filter_eq_cons_iff.1 hfilter
        simp only [Bool.and_eq_true, decide_eq_true_iff, not_and] at hbefore he
        exact .first before e after hmerge hedges he.2 he.1
          fun d hd htarget hkind => hbefore d hd hkind htarget

end Network

/-- The fault of a node whose rule fails. -/
def Placed.ruleFault (p : Placed) (cause : RuleFault) : Fault :=
  if p.operator.rule = .dataset then .datasetRule p.id cause else .rule p.id cause

theorem Placed.complaint_ruleFault (p : Placed) (cause : RuleFault) :
    (p.ruleFault cause).complaint =
      if p.operator.rule = .dataset then .parameter p.id cause.message
      else .shapeMismatch p.id cause.message := by
  rw [Placed.ruleFault]
  split <;> rfl

namespace Propagation

variable {net : Network} {overlay : Propagation} {p : Placed}

theorem outcome?_eq_some_iff (hp : p ∈ net.nodes) {outcome : Except Fault RuleResult} :
    overlay.outcome? net p = some outcome ↔
      ∃ result, net.Gives overlay.shape? p result ∧ result.mapError p.ruleFault = outcome := by
  by_cases hrule : p.operator.rule = .dataset
  · have hfault : p.ruleFault = .datasetRule p.id := by
      funext cause
      exact if_pos hrule
    rw [outcome?_of_dataset hrule, hfault, Option.some_inj]
    constructor
    · intro houtcome
      exact ⟨_, .dataset hrule, houtcome⟩
    · rintro ⟨result, hgives, houtcome⟩
      cases hgives with
      | dataset => exact houtcome
      | rule _ _ hnot => exact absurd hrule hnot
  · have hfault : p.ruleFault = .rule p.id := by
      funext cause
      exact if_neg hrule
    rw [outcome?_of_not_dataset hrule, hfault]
    constructor
    · rintro ⟨inputs, hinputs, rfl⟩
      obtain ⟨hne, htwo, hmapM⟩ := inputs?_eq_some_iff.1 hinputs
      have hreads := (Network.reads_iff hp).2 ⟨rfl, fun _ => hne⟩
      exact ⟨_, .rule _ inputs hrule hreads hne htwo (mapM_eq_some_iff.1 hmapM), rfl⟩
    · rintro ⟨result, hgives, rfl⟩
      cases hgives with
      | dataset hdataset => exact absurd hdataset hrule
      | rule sources inputs _ hreads hnonempty htwo hinputs =>
        obtain ⟨rfl, -⟩ := (Network.reads_iff hp).1 hreads
        refine ⟨inputs, inputs?_eq_some_iff.2 ⟨hnonempty, htwo, ?_⟩, rfl⟩
        exact mapM_eq_some_iff.2 hinputs

theorem outcome?_eq_ok_iff (hp : p ∈ net.nodes) {result : RuleResult} :
    overlay.outcome? net p = some (.ok result) ↔ net.Gives overlay.shape? p (.ok result) := by
  rw [outcome?_eq_some_iff hp]
  simp only [mapError_eq_ok_iff, exists_eq_right]

/-! ## What else is recorded -/

/-- The fault of a node over an overlay, if its rule fails. -/
def fault? (overlay : Propagation) (net : Network) (p : Placed) : Option Fault :=
  if p.node.isPipeline then none
  else
    match overlay.outcome? net p with
    | some (.error fault) => some fault
    | _ => none

theorem types_recordTypes (overlay : Propagation) (p : Placed) (id : String) :
    (overlay.recordTypes p).types.get? id =
      if id = p.id then p.operator.outputType.or (overlay.types.get? id)
      else overlay.types.get? id := by
  simp only [recordTypes]
  cases p.operator.outputType with
  | none => simp
  | some type => simp

theorem typesOf_recordTypes (overlay : Propagation) (p : Placed) (id : String) :
    (overlay.recordTypes p).typesOf id =
      if id = p.id ∧ p.operator.outputTypes ≠ [] then p.operator.outputTypes
      else overlay.typesOf id := by
  simp only [recordTypes, typesOf]
  cases p.operator.outputTypes with
  | nil => simp
  | cons type rest => by_cases hid : id = p.id <;> simp [hid]

/-- All that one more node can do. -/
theorem advance_cases (net : Network) (state : Propagation × List Fault) (p : Placed) :
    (p.node.isPipeline = true ∧ state.1.fault? net p = none ∧
      advance net state p = (state.1.recordTypes p, state.2)) ∨
    (p.node.isPipeline = false ∧ ∃ result, state.1.outcome? net p = some (.ok result) ∧
      state.1.fault? net p = none ∧
      advance net state p = (state.1.record p result, state.2)) ∨
    (p.node.isPipeline = false ∧ (∀ result, state.1.outcome? net p ≠ some (.ok result)) ∧
      advance net state p = (state.1, state.2 ++ (state.1.fault? net p).toList)) := by
  unfold advance fault?
  cases hgraph : p.node.isPipeline with
  | true => exact .inl ⟨rfl, rfl, rfl⟩
  | false =>
    refine .inr ?_
    cases houtcome : state.1.outcome? net p with
    | none => exact .inr ⟨rfl, by simp, by simp⟩
    | some outcome =>
      cases outcome with
      | ok result => exact .inl ⟨rfl, result, rfl, rfl, rfl⟩
      | error fault => exact .inr ⟨rfl, by simp, by simp⟩

/-- What holds of the records after some nodes have been gone through. -/
structure Records (net : Network) (seen : List Placed) (state : Propagation × List Fault) :
    Prop where
  faults : state.2 = seen.filterMap (state.1.fault? net)
  learned : ∀ id, state.1.learned.get? id ≠ none →
    ∃ p ∈ seen, p.id = id ∧ p.node.isPipeline = false
  typed : ∀ p ∈ seen, p.node.isPipeline = true ∨ state.1.shape? p.id ≠ none →
    state.1.types.get? p.id = p.operator.outputType ∧
      state.1.typesOf p.id = p.operator.outputTypes
  untyped : ∀ id, (∀ p ∈ seen, p.id = id →
      p.node.isPipeline = false ∧ state.1.shape? id = none) →
    state.1.types.get? id = none ∧ state.1.typesOf id = []

theorem records_nil : Records net [] ({}, []) where
  faults := rfl
  learned := fun _ h => absurd rfl h
  typed := fun _ hp => nomatch hp
  untyped := fun _ _ => ⟨rfl, rfl⟩

theorem faults_advance (net : Network) (state : Propagation × List Fault) (p : Placed) :
    (advance net state p).2 = state.2 ++ (state.1.fault? net p).toList := by
  rcases advance_cases net state p with ⟨-, hfault, h⟩ | ⟨-, result, -, hfault, h⟩ | ⟨-, -, h⟩
  · simp [h, hfault]
  · simp [h, hfault]
  · rw [h]

theorem types_advance_of_ne (net : Network) (state : Propagation × List Fault) {p : Placed}
    {id : String} (hne : id ≠ p.id) :
    (advance net state p).1.types.get? id = state.1.types.get? id ∧
      (advance net state p).1.typesOf id = state.1.typesOf id := by
  have hrecord : (state.1.recordTypes p).types.get? id = state.1.types.get? id ∧
      (state.1.recordTypes p).typesOf id = state.1.typesOf id := by
    rw [types_recordTypes, typesOf_recordTypes, if_neg hne, if_neg fun h => hne h.1]
    exact ⟨rfl, rfl⟩
  rcases advance_cases net state p with ⟨-, -, h⟩ | ⟨-, result, -, -, h⟩ | ⟨-, -, h⟩
  · rw [h]
    exact hrecord
  · rw [h]
    exact hrecord
  · rw [h]
    exact ⟨rfl, rfl⟩

/-- A node without types so far gets those of its operator, unless it gets no shape. -/
theorem types_advance (net : Network) {state : Propagation × List Fault}
    (hshape : state.1.shape? p.id = none)
    (htypes : state.1.types.get? p.id = none) (htypesOf : state.1.typesOf p.id = []) :
    if p.node.isPipeline = true ∨ (advance net state p).1.shape? p.id ≠ none then
      (advance net state p).1.types.get? p.id = p.operator.outputType ∧
        (advance net state p).1.typesOf p.id = p.operator.outputTypes
    else
      (advance net state p).1.types.get? p.id = none ∧
        (advance net state p).1.typesOf p.id = [] := by
  have hrecord : (state.1.recordTypes p).types.get? p.id = p.operator.outputType ∧
      (state.1.recordTypes p).typesOf p.id = p.operator.outputTypes := by
    rw [types_recordTypes, typesOf_recordTypes, if_pos rfl, htypes, htypesOf]
    cases p.operator.outputTypes <;> simp
  rcases advance_cases net state p with ⟨hgraph, -, h⟩ | ⟨-, result, -, -, h⟩ | ⟨hgraph, -, h⟩
  · rw [h, if_pos (.inl hgraph)]
    exact hrecord
  · have hshaped : (state.1.record p result).shape? p.id ≠ none := by simp [shape?_record]
    rw [h, if_pos (.inr hshaped)]
    exact hrecord
  · rw [h, if_neg (by simp [hgraph, hshape])]
    exact ⟨htypes, htypesOf⟩

theorem Records.step {seen : List Placed} {state : Propagation × List Fault}
    (hprogress : Progress net seen state) (h : Records net seen state)
    (hp : p.id ∉ seen.map Placed.id)
    (hoperands : ∀ q ∈ seen ++ [p], ∀ s ∈ net.operands q.id, s ∈ seen.map Placed.id) :
    Records net (seen ++ [p]) (advance net state p) := by
  have hother : ∀ q ∈ seen, q.id ≠ p.id := fun q hq heq => hp (heq ▸ List.mem_map_of_mem hq)
  have hfault : ∀ q ∈ seen ++ [p],
      (advance net state p).1.fault? net q = state.1.fault? net q := by
    intro q hq
    have houtcome : (advance net state p).1.outcome? net q = state.1.outcome? net q := by
      apply outcome?_congr rfl
      intro s hs
      have hne : s ≠ p.id := fun heq => hp (heq ▸ hoperands q hq s hs)
      exact (advance_of_ne state p hne).1
    rw [fault?, fault?, houtcome]
  have hshape : state.1.shape? p.id = none := (hprogress.untouched p.id hp).1
  obtain ⟨htypes, htypesOf⟩ := h.untyped p.id fun q hq heq => absurd heq (hother q hq)
  have hown := types_advance net hshape htypes htypesOf
  refine ⟨?_, fun id hid => ?_, fun q hq hrecorded => ?_, fun id hnone => ?_⟩
  · rw [faults_advance, h.faults, List.filterMap_congr hfault, List.filterMap_append]
    cases hlast : state.1.fault? net p <;> simp [hlast]
  · by_cases heq : id = p.id
    · subst heq
      refine ⟨p, by simp, rfl, Bool.eq_false_iff.2 fun hgraph => hid ?_⟩
      rw [advance, if_pos hgraph]
      exact (hprogress.untouched p.id hp).2
    · rw [(advance_of_ne state p heq).2] at hid
      obtain ⟨q, hq, hqid, hgraph⟩ := h.learned id hid
      exact ⟨q, List.mem_append_left _ hq, hqid, hgraph⟩
  · rcases List.mem_append.1 hq with hq | hq
    · have hne := hother q hq
      rw [(advance_of_ne state p hne).1] at hrecorded
      rw [(types_advance_of_ne net state hne).1, (types_advance_of_ne net state hne).2]
      exact h.typed q hq hrecorded
    · obtain rfl := List.mem_singleton.1 hq
      rwa [if_pos hrecorded] at hown
  · by_cases heq : id = p.id
    · subst heq
      obtain ⟨hgraph, hunshaped⟩ := hnone p (by simp) rfl
      rwa [if_neg (by simp [hgraph, hunshaped])] at hown
    · rw [(types_advance_of_ne net state heq).1, (types_advance_of_ne net state heq).2]
      apply h.untyped id
      intro q hq hqid
      have hbefore := hnone q (List.mem_append_left _ hq) hqid
      rwa [(advance_of_ne state p heq).1] at hbefore

theorem fault?_eq_some_iff (hp : p ∈ net.nodes) {fault : Fault} :
    overlay.fault? net p = some fault ↔ p.node.isPipeline = false ∧
      ∃ cause, net.Gives overlay.shape? p (.error cause) ∧ p.ruleFault cause = fault := by
  have herror : overlay.outcome? net p = some (.error fault) ↔
      ∃ cause, net.Gives overlay.shape? p (.error cause) ∧ p.ruleFault cause = fault := by
    rw [outcome?_eq_some_iff hp]
    constructor
    · rintro ⟨result, hgives, hfault⟩
      cases result with
      | ok value => cases hfault
      | error cause => exact ⟨cause, hgives, Except.error.inj hfault⟩
    · rintro ⟨cause, hgives, rfl⟩
      exact ⟨_, hgives, rfl⟩
  rw [← herror, fault?]
  cases p.node.isPipeline with
  | true => simp
  | false =>
    rw [if_neg Bool.false_ne_true]
    cases overlay.outcome? net p with
    | none => simp
    | some outcome => cases outcome <;> simp

end Propagation

namespace Network

/-! ## The specification -/

/-- The rule of a node of the architecture fails. -/
def FailsWith (net : Network) (shape : String → Option Shape) (p : Placed) (cause : RuleFault) :
    Prop :=
  p ∈ net.nodes ∧ p.node.isPipeline = false ∧ net.Gives shape p (.error cause)

/-- What propagation computes, whatever the order in which it goes through the nodes. -/
structure IsSolved (net : Network) (overlay : Propagation) (faults : List Fault) : Prop where
  solves : ∀ id, net.SolvesAt overlay.shape? id
  unique : ∀ shape, (∀ id, net.SolvesAt shape id) → shape = overlay.shape?
  dataset : ∀ p ∈ net.nodes, p.node.isPipeline = false → p.operator.rule = .dataset →
    overlay.shape? p.id =
      (((p.operator.resolve p.node.params).text? "dataset").bind Dataset.find?).map Dataset.shape
  /-- Whatever one node gets instead, other shapes are only to be had behind it. -/
  confined : ∀ failing shape, (∀ id, id ≠ failing → net.SolvesAt shape id) →
    ∀ id, ¬ ReflTransGen (Feeds net.edges) failing id → shape id = overlay.shape? id
  /-- One fault for each node that fails. -/
  faults : ∃ failing : List Placed, failing.Nodup ∧
    (∀ p, p ∈ failing ↔ ∃ cause, net.FailsWith overlay.shape? p cause) ∧
    List.Forall₂ (fun p fault => ∃ cause, net.FailsWith overlay.shape? p cause ∧
      fault.complaint =
        if p.operator.rule = .dataset then .parameter p.id cause.message
        else .shapeMismatch p.id cause.message) failing faults
  learned : ∀ id params, overlay.learned.get? id = some params ↔
    ∃ p ∈ net.nodes, p.id = id ∧ p.node.isPipeline = false ∧
      ∃ result, net.Gives overlay.shape? p (.ok result) ∧
        Propagation.learnedOf result = some params
  typed : ∀ p ∈ net.nodes, p.node.isPipeline = true ∨ overlay.shape? p.id ≠ none →
    overlay.types.get? p.id = p.operator.outputType ∧
      overlay.typesOf p.id = p.operator.outputTypes
  untyped : ∀ id, (∀ p ∈ net.nodes, p.id = id →
      p.node.isPipeline = false ∧ overlay.shape? id = none) →
    overlay.types.get? id = none ∧ overlay.typesOf id = []

variable {net : Network} {overlay : Propagation} {faults : List Fault} {p : Placed}

theorem IsPropagation.solvesAt (h : net.IsPropagation overlay faults) (id : String) :
    net.SolvesAt overlay.shape? id := by
  intro s
  rw [h.shape?_eq_some_iff]
  constructor
  · rintro ⟨p, hp, hid, hgraph, result, hok, hshape⟩
    exact ⟨p, hp, hid, hgraph, result, (Propagation.outcome?_eq_ok_iff hp).1 hok, hshape⟩
  · rintro ⟨p, hp, hid, hgraph, result, hgives, hshape⟩
    exact ⟨p, hp, hid, hgraph, result, (Propagation.outcome?_eq_ok_iff hp).2 hgives, hshape⟩

theorem IsPropagation.confined (h : net.IsPropagation overlay faults) {failing : String}
    {shape : String → Option Shape} (hshape : ∀ id, id ≠ failing → net.SolvesAt shape id)
    {id : String} (hid : ¬ ReflTransGen (Feeds net.edges) failing id) :
    shape id = overlay.shape? id := by
  apply eq_of_solvesAt h.acyclic (fun id => ¬ ReflTransGen (Feeds net.edges) failing id) _ _ _ hid
  · intro id hid s hs hback
    exact hid (hback.tail hs)
  · intro id hid
    apply hshape
    rintro rfl
    exact hid .refl
  · intro id _
    exact h.solvesAt id

theorem gives_iff_of_dataset {shape : String → Option Shape}
    {result : Except RuleFault RuleResult} (hrule : p.operator.rule = .dataset) :
    net.Gives shape p result ↔
      Rule.datasetShape (p.operator.resolve p.node.params) = result := by
  constructor
  · intro h
    cases h with
    | dataset => rfl
    | rule _ _ hnot => exact absurd hrule hnot
  · rintro rfl
    exact .dataset hrule

theorem datasetShape_eq_ok_iff {params : Params} {s : Shape} :
    (∃ result, Rule.datasetShape params = .ok result ∧ result.shape = s) ↔
      ((params.text? "dataset").bind Dataset.find?).map Dataset.shape = some s := by
  unfold Rule.datasetShape
  cases params.text? "dataset" with
  | none => simp
  | some name =>
    rw [Option.bind_some]
    cases hfind : Dataset.find? name <;> simp [hfind]

theorem SolvesAt.dataset {shape : String → Option Shape} (h : net.SolvesAt shape p.id)
    (hp : p ∈ net.nodes) (hgraph : p.node.isPipeline = false)
    (hrule : p.operator.rule = .dataset) :
    shape p.id =
      (((p.operator.resolve p.node.params).text? "dataset").bind Dataset.find?).map
        Dataset.shape := by
  apply Option.ext
  intro s
  rw [h s, ← datasetShape_eq_ok_iff]
  constructor
  · rintro ⟨q, hq, hid, -, result, hgives, hshape⟩
    obtain rfl := List.inj_on_of_nodup_map net.nodup_ids hq hp hid
    exact ⟨result, (gives_iff_of_dataset hrule).1 hgives, hshape⟩
  · rintro ⟨result, hresult, hshape⟩
    exact ⟨p, hp, rfl, hgraph, result, (gives_iff_of_dataset hrule).2 hresult, hshape⟩

theorem IsPropagation.learned_iff (h : net.IsPropagation overlay faults) (hp : p ∈ net.nodes)
    (hgraph : p.node.isPipeline = false) {params : Params} :
    overlay.learned.get? p.id = some params ↔
      ∃ result, net.Gives overlay.shape? p (.ok result) ∧
        Propagation.learnedOf result = some params := by
  have hholds := h.holds p hp hgraph
  constructor
  · intro hlearned
    unfold Propagation.Holds at hholds
    split at hholds
    · rename_i result hok
      exact ⟨result, (Propagation.outcome?_eq_ok_iff hp).1 hok, hholds.2.symm.trans hlearned⟩
    · rw [hholds.2] at hlearned
      cases hlearned
  · rintro ⟨result, hgives, hresult⟩
    have hok := (Propagation.outcome?_eq_ok_iff hp).2 hgives
    rw [((Propagation.holds_of_ok hok).1 hholds).2, hresult]

theorem forall₂_filterMap {α β : Type} (f : α → Option β) (items : List α) :
    List.Forall₂ (fun a b => a ∈ items ∧ f a = some b) (items.filter fun a => (f a).isSome)
      (items.filterMap f) := by
  induction items with
  | nil => exact .nil
  | cons a rest ih =>
    have hrest := ih.imp fun _ _ ⟨hmem, hb⟩ => And.intro (List.mem_cons_of_mem a hmem) hb
    cases hfa : f a with
    | none =>
      rw [List.filter_cons_of_neg (by simp [hfa]), List.filterMap_cons_none hfa]
      exact hrest
    | some b =>
      rw [List.filter_cons_of_pos (by simp [hfa]), List.filterMap_cons_some hfa]
      exact .cons ⟨List.mem_cons_self, hfa⟩ hrest

theorem exists_failing {order : List Placed} (hmem : ∀ p, p ∈ order ↔ p ∈ net.nodes)
    (hnodup : order.Nodup) (hfaults : faults = order.filterMap (overlay.fault? net)) :
    ∃ failing : List Placed, failing.Nodup ∧
      (∀ p, p ∈ failing ↔ ∃ cause, net.FailsWith overlay.shape? p cause) ∧
      List.Forall₂ (fun p fault => ∃ cause, net.FailsWith overlay.shape? p cause ∧
        fault.complaint =
          if p.operator.rule = .dataset then .parameter p.id cause.message
          else .shapeMismatch p.id cause.message) failing faults := by
  have hfails : ∀ p ∈ order, ∀ fault, overlay.fault? net p = some fault ↔
      ∃ cause, net.FailsWith overlay.shape? p cause ∧ p.ruleFault cause = fault := by
    intro p hp fault
    rw [Propagation.fault?_eq_some_iff ((hmem p).1 hp)]
    constructor
    · rintro ⟨hgraph, cause, hgives, hfault⟩
      exact ⟨cause, ⟨(hmem p).1 hp, hgraph, hgives⟩, hfault⟩
    · rintro ⟨cause, ⟨-, hgraph, hgives⟩, hfault⟩
      exact ⟨hgraph, cause, hgives, hfault⟩
  refine ⟨order.filter fun p => (overlay.fault? net p).isSome, hnodup.filter _, fun p => ?_, ?_⟩
  · rw [List.mem_filter, Option.isSome_iff_exists]
    constructor
    · rintro ⟨hp, fault, hfault⟩
      obtain ⟨cause, hcause, -⟩ := (hfails p hp fault).1 hfault
      exact ⟨cause, hcause⟩
    · rintro ⟨cause, hcause⟩
      have hp := (hmem p).2 hcause.1
      exact ⟨hp, _, (hfails p hp _).2 ⟨cause, hcause, rfl⟩⟩
  · rw [hfaults]
    apply (forall₂_filterMap (overlay.fault? net) order).imp
    rintro p fault ⟨hp, hfault⟩
    obtain ⟨cause, hcause, rfl⟩ := (hfails p hp fault).1 hfault
    exact ⟨cause, hcause, p.complaint_ruleFault cause⟩

theorem exists_records_of_propagateAll (h : net.propagateAll = .ok (overlay, faults)) :
    ∃ order : List Placed, (∀ p, p ∈ order ↔ p ∈ net.nodes) ∧ (order.map Placed.id).Nodup ∧
      Propagation.Records net order (overlay, faults) := by
  obtain ⟨-, order, hmem, hnodup, hoperands, hfold⟩ := exists_order_of_propagateAll h
  obtain ⟨-, hrecords⟩ : Propagation.Progress net order (overlay, faults) ∧
      Propagation.Records net order (overlay, faults) := by
    rw [← hfold]
    apply Propagation.foldl_advance_induction
      (fun seen state => Propagation.Progress net seen state ∧ Propagation.Records net seen state)
      ⟨Propagation.progress_nil, Propagation.records_nil⟩ _ hnodup hoperands
    rintro seen state p ⟨hprogress, hrecords⟩ hp hbehind
    exact ⟨hprogress.step hp hbehind, hrecords.step hprogress hp hbehind⟩
  exact ⟨order, hmem, hnodup, hrecords⟩

theorem isSolved_of_propagateAll (h : net.propagateAll = .ok (overlay, faults)) :
    net.IsSolved overlay faults := by
  have hpropagation := isPropagation_of_propagateAll h
  obtain ⟨hacyclic, -⟩ := exists_order_of_propagateAll h
  obtain ⟨order, hmem, hnodup, hrecords⟩ := exists_records_of_propagateAll h
  refine ⟨hpropagation.solvesAt, fun shape hshape => ?_, fun p hp hgraph hrule => ?_,
    fun failing shape hshape id hid => hpropagation.confined hshape hid,
    exists_failing hmem hnodup.of_map hrecords.faults, fun id params => ?_,
    fun p hp => hrecords.typed p ((hmem p).2 hp), fun id hnone => ?_⟩
  · funext id
    exact eq_of_solvesAt hacyclic (fun _ => True) (fun _ _ _ _ => trivial)
      (fun id _ => hshape id) (fun id _ => hpropagation.solvesAt id) trivial
  · exact (hpropagation.solvesAt p.id).dataset hp hgraph hrule
  · constructor
    · intro hlearned
      obtain ⟨p, hp, rfl, hgraph⟩ := hrecords.learned id (by simp [hlearned])
      have hp := (hmem p).1 hp
      exact ⟨p, hp, rfl, hgraph, (hpropagation.learned_iff hp hgraph).1 hlearned⟩
    · rintro ⟨p, hp, rfl, hgraph, hresult⟩
      exact (hpropagation.learned_iff hp hgraph).2 hresult
  · apply hrecords.untyped id
    intro p hp
    exact hnone p ((hmem p).1 hp)

end Network

/-- Shapes are propagated exactly as the equations say. -/
theorem propagatePartial_spec (nodes : List Node) (edges : List Edge) (overlay : Propagation)
    (faults : List Fault) (h : propagatePartial nodes edges = .ok (overlay, faults)) :
    ∃ net, Network.ofGraph nodes edges = .ok net ∧ net.IsOf nodes edges ∧
      net.IsSolved overlay faults := by
  obtain ⟨net, hnet, hall⟩ := bind_eq_ok_iff.1 h
  exact ⟨net, hnet, Network.isOf_of_ofGraph hnet, Network.isSolved_of_propagateAll hall⟩

/-- One branch fails, since its window is wider than the image. -/
def Graph.failing : Graph where
  nodes :=
    [{ id := "data", operatorId := "dataset" },
     { id := "pool", operatorId := "maxpool2d", params := .ofList [("kernel_size", .int 64)] },
     { id := "behind", operatorId := "relu" },
     { id := "beside", operatorId := "relu" }]
  edges :=
    [{ id := "1", source := "data", target := "pool" },
     { id := "2", source := "pool", target := "behind" },
     { id := "3", source := "data", target := "beside" }]

theorem propagatePartial_spec_failing :
    ∃ (net : Network) (overlay : Propagation) (faults : List Fault),
      propagatePartial Graph.failing.nodes Graph.failing.edges = .ok (overlay, faults) ∧
      net.IsOf Graph.failing.nodes Graph.failing.edges ∧ net.IsSolved overlay faults ∧
      faults.length = 1 ∧ overlay.shape? "behind" = none ∧
      overlay.shape? "beside" = some ⟨[.batch, .fixed 1, .fixed 28, .fixed 28]⟩ := by
  have hvalue : (propagatePartial Graph.failing.nodes Graph.failing.edges).toOption.any
      (fun found => decide (found.2.length = 1 ∧ found.1.shape? "behind" = none ∧
        found.1.shape? "beside" = some ⟨[.batch, .fixed 1, .fixed 28, .fixed 28]⟩)) = true := by
    decide +kernel
  obtain ⟨⟨overlay, faults⟩, hfound, hshapes⟩ := exists_of_toOption_any hvalue
  obtain ⟨net, -, hisOf, hsolved⟩ := propagatePartial_spec _ _ overlay faults hfound
  exact ⟨net, overlay, faults, hfound, hisOf, hsolved, of_decide_eq_true hshapes⟩

end LayerGraph
