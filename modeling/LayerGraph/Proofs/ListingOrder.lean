import LayerGraph.Proofs.SizedShapes
/-!
# Propagation does not depend on the order of the drawing

Listing the nodes and the edges of a graph in another order changes the topological order, and the
order in which a merge reads its operands. Neither can be seen in what is propagated:

* `Network.IsPropagation.shape?_eq_of_outcome`: two networks give the same shapes where their rules
  make the same of what lies before.
* `Network.Permutes net net'`: the networks have the same nodes and the same edges, in some order. A
  merge of sized shapes then comes to the same (`Permutes.outcome?_iff`); any other node has one
  default input at most, so that there is no first one to choose.
* `propagatePartial_perm`: the overlay is the same, and so are the nodes that fail.
-/

namespace LayerGraph
set_option autoImplicit false
open Relation

/-- The node that a complaint names. -/
def Complaint.node? : Complaint → Option String
  | .shapeMismatch node _ => some node
  | .parameter node _ => some node
  | .cycle node => some node
  | .unknownOperator node _ => some node
  | _ => none

namespace Propagation

variable {net : Network} {overlay : Propagation}

/-! ## Recorded types -/

theorem typeSets_advance_ne_nil (net : Network) {state : Propagation × List Fault}
    (h : ∀ id, state.1.typeSets.get? id ≠ some []) (p : Placed) (id : String) :
    (advance net state p).1.typeSets.get? id ≠ some [] := by
  have hrecord : (state.1.recordTypes p).typeSets.get? id ≠ some [] := by
    rw [recordTypes]
    split
    · exact h id
    · rename_i hnonempty
      rw [Table.get?_insert]
      split
      · simpa using hnonempty
      · exact h id
  rcases advance_cases net state p with ⟨-, -, hstate⟩ | ⟨-, result, -, -, hstate⟩ | ⟨-, -, hstate⟩
  · rw [hstate]
    exact hrecord
  · rw [hstate]
    exact hrecord
  · rw [hstate]
    exact h id

/-- An empty set of types is not recorded. -/
theorem typeSets_ne_nil {faults : List Fault} (h : net.propagateAll = .ok (overlay, faults))
    (id : String) : overlay.typeSets.get? id ≠ some [] := by
  obtain ⟨order, -, hfold⟩ := bind_eq_ok_iff.1 h
  have hall : ∀ (placed : List Placed) (state : Propagation × List Fault),
      (∀ id, state.1.typeSets.get? id ≠ some []) →
        ∀ id, (placed.foldl (advance net) state).1.typeSets.get? id ≠ some [] := by
    intro placed
    induction placed with
    | nil => exact fun _ hstate => hstate
    | cons p rest ih => exact fun state hstate => ih _ (typeSets_advance_ne_nil net hstate p)
  have hlast := hall (order.filterMap net.find?) ({}, []) (fun _ => nofun) id
  rwa [Except.ok.inj hfold] at hlast

/-- What is propagated is known by what is read of it. -/
theorem eq_of_reads {net' : Network} {overlay' : Propagation} {faults faults' : List Fault}
    (h : net.propagateAll = .ok (overlay, faults)) (h' : net'.propagateAll = .ok (overlay', faults'))
    (hshapes : ∀ id, overlay.shape? id = overlay'.shape? id)
    (htypes : ∀ id, overlay.types.get? id = overlay'.types.get? id)
    (htypesOf : ∀ id, overlay.typesOf id = overlay'.typesOf id)
    (hlearned : ∀ id, overlay.learned.get? id = overlay'.learned.get? id) :
    overlay = overlay' := by
  have htypeSets : ∀ id, overlay.typeSets.get? id = overlay'.typeSets.get? id := by
    intro id
    have hsame := htypesOf id
    have hne := typeSets_ne_nil h id
    have hne' := typeSets_ne_nil h' id
    rw [typesOf, typesOf] at hsame
    cases hfirst : overlay.typeSets.get? id <;> cases hsecond : overlay'.typeSets.get? id <;>
      simp_all
  have hshapeTables : overlay.shapes = overlay'.shapes := Table.ext_get? hshapes
  have htypeTables : overlay.types = overlay'.types := Table.ext_get? htypes
  have htypeSetTables : overlay.typeSets = overlay'.typeSets := Table.ext_get? htypeSets
  have hlearnedTables : overlay.learned = overlay'.learned := Table.ext_get? hlearned
  cases overlay
  cases overlay'
  simp_all only

end Propagation

namespace Network

variable {net net' : Network} {overlay overlay' : Propagation} {faults faults' : List Fault}

/-! ## Two networks with the same shapes -/

/-- On a part where two networks have the same nodes, they give the same shapes if their rules make
the same of what lies before. -/
theorem IsPropagation.shape?_eq_of_outcome (h : net.IsPropagation overlay faults)
    (h' : net'.IsPropagation overlay' faults') (scope : String → Prop)
    (hnodes : ∀ p, scope p.id → (p ∈ net.nodes ↔ p ∈ net'.nodes))
    (houtcome : ∀ p ∈ net.nodes, scope p.id → p.node.isPipeline = false →
      (∀ s, scope s → Feeds net.edges s p.id → overlay.shape? s = overlay'.shape? s) →
      ∀ result, overlay.outcome? net p = some (.ok result) ↔
        overlay'.outcome? net' p = some (.ok result)) {id : String} (hid : scope id) :
    overlay.shape? id = overlay'.shape? id := by
  revert hid
  -- Along the edges of the first network; the second one is only compared with it.
  apply h.acyclic.wellFounded.induction
    (C := fun id => scope id → overlay.shape? id = overlay'.shape? id) id
  intro id ih hid
  apply Option.ext
  intro shape
  rw [h.shape?_eq_some_iff, h'.shape?_eq_some_iff]
  constructor
  · rintro ⟨p, hp, rfl, hgraph, result, hok, hshape⟩
    have hsame := houtcome p hp hid hgraph fun s hs hfeeds => ih s hfeeds hs
    exact ⟨p, (hnodes p hid).1 hp, rfl, hgraph, result, (hsame result).1 hok, hshape⟩
  · rintro ⟨p, hp, rfl, hgraph, result, hok, hshape⟩
    have hp := (hnodes p hid).2 hp
    have hsame := houtcome p hp hid hgraph fun s hs hfeeds => ih s hfeeds hs
    exact ⟨p, hp, rfl, hgraph, result, (hsame result).2 hok, hshape⟩

/-- Two networks learn the same at a node where their rules give the same. -/
theorem IsSolved.learned_eq_of_outcome (h : net.IsSolved overlay faults)
    (h' : net'.IsSolved overlay' faults') {id : String}
    (hnodes : ∀ p, p.id = id → (p ∈ net.nodes ↔ p ∈ net'.nodes))
    (houtcome : ∀ p ∈ net.nodes, p.id = id → p.node.isPipeline = false → ∀ result,
      overlay.outcome? net p = some (.ok result) ↔ overlay'.outcome? net' p = some (.ok result)) :
    overlay.learned.get? id = overlay'.learned.get? id := by
  have hgives : ∀ p ∈ net.nodes, p.id = id → p.node.isPipeline = false → ∀ result,
      net.Gives overlay.shape? p (.ok result) ↔ net'.Gives overlay'.shape? p (.ok result) := by
    intro p hp hid hgraph result
    rw [← Propagation.outcome?_eq_ok_iff hp,
      ← Propagation.outcome?_eq_ok_iff ((hnodes p hid).1 hp)]
    exact houtcome p hp hid hgraph result
  apply Option.ext
  intro params
  rw [h.learned, h'.learned]
  constructor
  · rintro ⟨p, hp, hid, hgraph, result, hresult, hparams⟩
    have hresult := (hgives p hp hid hgraph result).1 hresult
    exact ⟨p, (hnodes p hid).1 hp, hid, hgraph, result, hresult, hparams⟩
  · rintro ⟨p, hp, hid, hgraph, result, hresult, hparams⟩
    have hp := (hnodes p hid).2 hp
    exact ⟨p, hp, hid, hgraph, result, (hgives p hp hid hgraph result).2 hresult, hparams⟩

/-! ## The same network in another order -/

/-- Two networks with the same nodes and edges, without a choice between default inputs. -/
structure Permutes (net net' : Network) : Prop where
  nodes : ∀ p, p ∈ net.nodes ↔ p ∈ net'.nodes
  edges : net.edges.Perm net'.edges
  single : ∀ p ∈ net.nodes, p.node.isPipeline = false → p.operator.isMerge = false →
    ((net.incoming p.id).filter (·.kind = .normal)).length ≤ 1

theorem eq_of_perm_of_length_le_one {α : Type} {items items' : List α} (h : items.Perm items')
    (hlength : items.length ≤ 1) : items = items' := by
  match items, hlength with
  | [], _ => exact (List.nil_perm.1 h).symm
  | [_], _ => exact List.singleton_perm.1 h

namespace Permutes

variable {p : Placed}

theorem perm_incoming (h : net.Permutes net') (id : String) :
    (net.incoming id).Perm (net'.incoming id) := h.edges.filter _

theorem perm_operands (h : net.Permutes net') (hp : p ∈ net.nodes)
    (hmerge : p.operator.isMerge = true) : (net.operands p.id).Perm (net'.operands p.id) := by
  rw [operands_of_isMerge hp hmerge, operands_of_isMerge ((h.nodes p).1 hp) hmerge]
  exact (h.perm_incoming p.id).map _

theorem operands_eq (h : net.Permutes net') (hp : p ∈ net.nodes)
    (hgraph : p.node.isPipeline = false) (hmerge : p.operator.isMerge = false) :
    net.operands p.id = net'.operands p.id := by
  have hsame := eq_of_perm_of_length_le_one ((h.perm_incoming p.id).filter (·.kind = .normal))
    (h.single p hp hgraph hmerge)
  rw [operands_of_not_isMerge hp hmerge, operands_of_not_isMerge ((h.nodes p).1 hp) hmerge, hsame]

/-- A merge reads the same shapes in some order. -/
theorem exists_inputs (h : net.Permutes net') (hp : p ∈ net.nodes)
    (hmerge : p.operator.isMerge = true)
    (hshapes : ∀ s ∈ net.operands p.id, overlay.shape? s = overlay'.shape? s)
    {inputs : List Shape} (hinputs : overlay.inputs? net p = some inputs) :
    ∃ inputs', overlay'.inputs? net' p = some inputs' ∧ inputs.Perm inputs' := by
  have hperm := h.perm_operands hp hmerge
  obtain ⟨hne, htwo, hread⟩ := Propagation.inputs?_eq_some_iff.1 hinputs
  rw [Propagation.mapM_congr hshapes] at hread
  obtain ⟨inputs', hread'⟩ :
      ∃ inputs', (net'.operands p.id).mapM overlay'.shape? = some inputs' := by
    apply exists_mapM_shape?
    intro s hs
    obtain ⟨shape, -, hshape⟩ := Propagation.exists_of_mapM_eq_some hread (hperm.mem_iff.2 hs)
    exact ⟨shape, hshape⟩
  refine ⟨inputs', Propagation.inputs?_eq_some_iff.2 ⟨fun hempty => hne ?_, ?_, hread'⟩, ?_⟩
  · rw [hempty] at hperm
    exact hperm.eq_nil
  · rw [← hperm.length_eq]
    exact htwo
  · rw [← Propagation.filterMap_eq_of_mapM_eq_some hread,
      ← Propagation.filterMap_eq_of_mapM_eq_some hread']
    exact hperm.filterMap _

theorem symm (h : net.Permutes net') : net'.Permutes net where
  nodes := fun p => (h.nodes p).symm
  edges := h.edges.symm
  single := by
    intro p hp hgraph hmerge
    rw [((h.perm_incoming p.id).symm.filter _).length_eq]
    exact h.single p ((h.nodes p).2 hp) hgraph hmerge

theorem inputs?_eq_none (h : net.Permutes net') (hp : p ∈ net.nodes)
    (hmerge : p.operator.isMerge = true)
    (hshapes : ∀ s ∈ net.operands p.id, overlay.shape? s = overlay'.shape? s)
    (hinputs : overlay.inputs? net p = none) : overlay'.inputs? net' p = none := by
  have hback : ∀ s ∈ net'.operands p.id, overlay'.shape? s = overlay.shape? s :=
    fun s hs => (hshapes s ((h.perm_operands hp hmerge).mem_iff.2 hs)).symm
  cases hother : overlay'.inputs? net' p with
  | none => rfl
  | some inputs =>
    obtain ⟨inputs', hinputs', -⟩ := h.symm.exists_inputs ((h.nodes p).1 hp) hmerge hback hother
    rw [hinputs] at hinputs'
    cases hinputs'

/-- At each node either both networks wait for inputs, or their rules succeed alike. -/
theorem outcome?_cases (h : net.Permutes net') (hp : p ∈ net.nodes)
    (hgraph : p.node.isPipeline = false)
    (hsized : ∀ id shape, overlay.shape? id = some shape → shape.IsSized)
    (hshapes : ∀ s ∈ net.operands p.id, overlay.shape? s = overlay'.shape? s) :
    (overlay.outcome? net p = none ∧ overlay'.outcome? net' p = none) ∨
      ∃ first second, overlay.outcome? net p = some first ∧
        overlay'.outcome? net' p = some second ∧
          ∀ result, first = .ok result ↔ second = .ok result := by
  cases hmerge : p.operator.isMerge with
  | false =>
    have hsame := Propagation.outcome?_congr (h.operands_eq hp hgraph hmerge) hshapes
    rw [← hsame]
    cases overlay.outcome? net p with
    | none => exact .inl ⟨rfl, rfl⟩
    | some outcome => exact .inr ⟨outcome, outcome, rfl, rfl, fun _ => Iff.rfl⟩
  | true =>
    have hrule : p.operator.rule ≠ .dataset := by
      intro hdataset
      rw [Operator.isMerge, hdataset] at hmerge
      cases hmerge
    cases hinputs : overlay.inputs? net p with
    | none =>
      have hinputs' := h.inputs?_eq_none hp hmerge hshapes hinputs
      refine .inl ⟨?_, ?_⟩
      · rw [Propagation.outcome?, if_neg hrule, hinputs, Option.map_none]
      · rw [Propagation.outcome?, if_neg hrule, hinputs', Option.map_none]
    | some inputs =>
      obtain ⟨inputs', hinputs', hperm⟩ := h.exists_inputs hp hmerge hshapes hinputs
      obtain ⟨-, -, hread⟩ := Propagation.inputs?_eq_some_iff.1 hinputs
      have hinputsSized : ∀ input ∈ inputs, input.IsSized := by
        intro input hinput
        obtain ⟨s, -, hshape⟩ := mem_of_mapM_eq_some hread hinput
        exact hsized s input hshape
      refine .inr ⟨_, _, (Propagation.outcome?_of_not_dataset hrule).2 ⟨inputs, hinputs, rfl⟩,
        (Propagation.outcome?_of_not_dataset hrule).2 ⟨inputs', hinputs', rfl⟩, fun result => ?_⟩
      rw [mapError_eq_ok_iff, mapError_eq_ok_iff]
      exact Rule.apply_perm hmerge _ hperm hinputsSized

theorem outcome?_iff (h : net.Permutes net') (hp : p ∈ net.nodes)
    (hgraph : p.node.isPipeline = false)
    (hsized : ∀ id shape, overlay.shape? id = some shape → shape.IsSized)
    (hshapes : ∀ s ∈ net.operands p.id, overlay.shape? s = overlay'.shape? s)
    (result : RuleResult) :
    overlay.outcome? net p = some (.ok result) ↔ overlay'.outcome? net' p = some (.ok result) := by
  obtain ⟨hnone, hnone'⟩ | ⟨first, second, hfirst, hsecond, hsame⟩ :=
    h.outcome?_cases hp hgraph hsized hshapes
  · rw [hnone, hnone']
  · rw [hfirst, hsecond, Option.some_inj, Option.some_inj]
    exact hsame result

/-- A rule fails in one order exactly when it fails in the other, though perhaps with another
cause. -/
theorem exists_error_iff (h : net.Permutes net') (hp : p ∈ net.nodes)
    (hgraph : p.node.isPipeline = false)
    (hsized : ∀ id shape, overlay.shape? id = some shape → shape.IsSized)
    (hshapes : ∀ s ∈ net.operands p.id, overlay.shape? s = overlay'.shape? s) :
    (∃ fault, overlay.outcome? net p = some (.error fault)) ↔
      ∃ fault, overlay'.outcome? net' p = some (.error fault) := by
  obtain ⟨hnone, hnone'⟩ | ⟨first, second, hfirst, hsecond, hsame⟩ :=
    h.outcome?_cases hp hgraph hsized hshapes
  · rw [hnone, hnone']
  · rw [hfirst, hsecond]
    cases first with
    | ok result => simp [(hsame result).1 rfl]
    | error fault =>
      cases second with
      | ok result => cases (hsame result).2 rfl
      | error fault' => simp

/-! ## The same overlay -/

theorem shape?_eq (h : net.Permutes net') (hprop : net.IsPropagation overlay faults)
    (hprop' : net'.IsPropagation overlay' faults')
    (hsized : ∀ id shape, overlay.shape? id = some shape → shape.IsSized) (id : String) :
    overlay.shape? id = overlay'.shape? id := by
  apply hprop.shape?_eq_of_outcome hprop' (fun _ => True) (fun p _ => h.nodes p) _ trivial
  intro p hp _ hgraph hbefore result
  exact h.outcome?_iff hp hgraph hsized
    (fun s hs => hbefore s trivial (feeds_of_mem_operands hs)) result

theorem types_eq (h : net.Permutes net') (hsolved : net.IsSolved overlay faults)
    (hsolved' : net'.IsSolved overlay' faults')
    (hshapes : ∀ id, overlay.shape? id = overlay'.shape? id) (id : String) :
    overlay.types.get? id = overlay'.types.get? id ∧ overlay.typesOf id = overlay'.typesOf id := by
  by_cases hrecorded : ∃ p ∈ net.nodes, p.id = id ∧
      (p.node.isPipeline = true ∨ overlay.shape? p.id ≠ none)
  · obtain ⟨p, hp, rfl, hrecorded⟩ := hrecorded
    obtain ⟨htypes, htypesOf⟩ := hsolved.typed p hp hrecorded
    obtain ⟨htypes', htypesOf'⟩ := hsolved'.typed p ((h.nodes p).1 hp) (hshapes p.id ▸ hrecorded)
    exact ⟨htypes.trans htypes'.symm, htypesOf.trans htypesOf'.symm⟩
  · have hnot : ∀ p ∈ net.nodes, p.id = id →
        p.node.isPipeline = false ∧ overlay.shape? id = none := by
      rintro p hp rfl
      have hneither := fun hor => hrecorded ⟨p, hp, rfl, hor⟩
      obtain ⟨hgraph, hshape⟩ := not_or.1 hneither
      exact ⟨Bool.eq_false_iff.2 hgraph, not_not.1 hshape⟩
    obtain ⟨htypes, htypesOf⟩ := hsolved.untyped id hnot
    obtain ⟨htypes', htypesOf'⟩ := hsolved'.untyped id fun p hp hid =>
      hshapes id ▸ hnot p ((h.nodes p).2 hp) hid
    exact ⟨htypes.trans htypes'.symm, htypesOf.trans htypesOf'.symm⟩

theorem learned_eq (h : net.Permutes net') (hsolved : net.IsSolved overlay faults)
    (hsolved' : net'.IsSolved overlay' faults')
    (hsized : ∀ id shape, overlay.shape? id = some shape → shape.IsSized)
    (hshapes : ∀ id, overlay.shape? id = overlay'.shape? id) (id : String) :
    overlay.learned.get? id = overlay'.learned.get? id := by
  apply hsolved.learned_eq_of_outcome hsolved' fun p _ => h.nodes p
  intro p hp _ hgraph result
  exact h.outcome?_iff hp hgraph hsized (fun s _ => hshapes s) result

theorem exists_failsWith_iff (h : net.Permutes net')
    (hsized : ∀ id shape, overlay.shape? id = some shape → shape.IsSized)
    (hshapes : ∀ id, overlay.shape? id = overlay'.shape? id) :
    (∃ cause, net.FailsWith overlay.shape? p cause) ↔
      ∃ cause, net'.FailsWith overlay'.shape? p cause := by
  have hfails : ∀ {net : Network} {overlay : Propagation},
      (∃ cause, net.FailsWith overlay.shape? p cause) ↔ p ∈ net.nodes ∧
        p.node.isPipeline = false ∧ ∃ fault, overlay.outcome? net p = some (.error fault) := by
    intro net overlay
    constructor
    · rintro ⟨cause, hp, hgraph, hgives⟩
      exact ⟨hp, hgraph, _, (Propagation.outcome?_eq_some_iff hp).2 ⟨_, hgives, rfl⟩⟩
    · rintro ⟨hp, hgraph, fault, hfault⟩
      obtain ⟨result, hgives, hresult⟩ := (Propagation.outcome?_eq_some_iff hp).1 hfault
      cases result with
      | ok value => cases hresult
      | error cause => exact ⟨cause, hp, hgraph, hgives⟩
  rw [hfails, hfails, ← h.nodes p]
  apply and_congr_right
  intro hp
  apply and_congr_right
  intro hgraph
  exact h.exists_error_iff hp hgraph hsized fun s _ => hshapes s

end Permutes

/-! ## Failing nodes -/

theorem IsSolved.exists_names (h : net.IsSolved overlay faults) :
    ∃ failing : List Placed, failing.Nodup ∧
      (∀ p, p ∈ failing ↔ ∃ cause, net.FailsWith overlay.shape? p cause) ∧
      faults.map (·.complaint.node?) = failing.map fun p => some p.id := by
  obtain ⟨failing, hnodup, hmem, hfaults⟩ := h.faults
  refine ⟨failing, hnodup, hmem, ?_⟩
  clear h hnodup hmem
  induction hfaults with
  | nil => rfl
  | cons hfirst _ ih =>
    obtain ⟨cause, -, hcomplaint⟩ := hfirst
    rw [List.map_cons, List.map_cons, ih, hcomplaint]
    split <;> rfl

theorem Permutes.perm_faults (h : net.Permutes net') (hsolved : net.IsSolved overlay faults)
    (hsolved' : net'.IsSolved overlay' faults')
    (hsized : ∀ id shape, overlay.shape? id = some shape → shape.IsSized)
    (hshapes : ∀ id, overlay.shape? id = overlay'.shape? id) :
    (faults.map (·.complaint.node?)).Perm (faults'.map (·.complaint.node?)) := by
  obtain ⟨failing, hnodup, hmem, hnames⟩ := hsolved.exists_names
  obtain ⟨failing', hnodup', hmem', hnames'⟩ := hsolved'.exists_names
  have hperm : failing.Perm failing' := by
    apply (List.perm_ext_iff_of_nodup hnodup hnodup').2
    intro p
    rw [hmem, hmem', h.exists_failsWith_iff hsized hshapes]
  rw [hnames, hnames']
  exact hperm.map _

/-! ## Drawings in another order -/

variable {nodes nodes' : List Node} {edges edges' : List Edge}

theorem IsOf.mem_nodes (h : net.IsOf nodes edges) {p : Placed} :
    p ∈ net.nodes ↔ p.node ∈ nodes ∧ p.node.operator = .ok p.operator := by
  constructor
  · exact fun hp => ⟨h.node_mem hp, h.operator p hp⟩
  · rintro ⟨hnode, hoperator⟩
    rw [← h.nodes_eq] at hnode
    obtain ⟨q, hq, hsame⟩ := List.mem_map.1 hnode
    have hqoperator := h.operator q hq
    rw [hsame, hoperator] at hqoperator
    obtain ⟨n, o⟩ := q
    obtain rfl : n = p.node := hsame
    obtain rfl := Except.ok.inj hqoperator
    exact hq

/-- A graph is propagated when its ids are distinct, its operators known, and the edges between its
nodes without a cycle. -/
theorem exists_propagatePartial_iff :
    (∃ state, propagatePartial nodes edges = .ok state) ↔
      (nodes.map Node.id).Nodup ∧ (∀ n ∈ nodes, ∃ o, n.operator = .ok o) ∧
        Acyclic (edges.filter fun e =>
          e.source ∈ nodes.map Node.id ∧ e.target ∈ nodes.map Node.id) := by
  constructor
  · rintro ⟨⟨overlay, faults⟩, h⟩
    obtain ⟨net, hnet, hall⟩ := bind_eq_ok_iff.1 h
    have hisOf := isOf_of_ofGraph hnet
    have hacyclic := (isPropagation_of_propagateAll hall).acyclic
    rw [hisOf.edges_eq, hisOf.ids_eq] at hacyclic
    refine ⟨hisOf.nodup_ids, fun n hn => ?_, hacyclic⟩
    rw [← hisOf.nodes_eq] at hn
    obtain ⟨p, hp, rfl⟩ := List.mem_map.1 hn
    exact ⟨p.operator, hisOf.operator p hp⟩
  · rintro ⟨hids, hoperators, hacyclic⟩
    obtain ⟨net, hnet⟩ := exists_ofGraph edges hids hoperators
    have hisOf := isOf_of_ofGraph hnet
    rw [← hisOf.ids_eq, ← hisOf.edges_eq] at hacyclic
    obtain ⟨overlay, faults, hall⟩ := exists_propagateAll hacyclic
    exact ⟨(overlay, faults), by rw [propagatePartial_eq hnet, hall]⟩

theorem perm_between (hnodes : nodes.Perm nodes') (hedges : edges.Perm edges') :
    (edges.filter fun e => e.source ∈ nodes.map Node.id ∧ e.target ∈ nodes.map Node.id).Perm
      (edges'.filter fun e => e.source ∈ nodes'.map Node.id ∧ e.target ∈ nodes'.map Node.id) := by
  have hids : ∀ id, id ∈ nodes.map Node.id ↔ id ∈ nodes'.map Node.id := fun _ =>
    (hnodes.map Node.id).mem_iff
  simp only [hids]
  exact hedges.filter _

theorem exists_propagatePartial_of_perm (hnodes : nodes.Perm nodes') (hedges : edges.Perm edges')
    (h : ∃ state, propagatePartial nodes edges = .ok state) :
    ∃ state, propagatePartial nodes' edges' = .ok state := by
  obtain ⟨hids, hoperators, hacyclic⟩ := exists_propagatePartial_iff.1 h
  refine exists_propagatePartial_iff.2 ⟨(hnodes.map Node.id).nodup_iff.1 hids,
    fun n hn => hoperators n (hnodes.mem_iff.2 hn), hacyclic.mono fun e he => ?_⟩
  exact (perm_between hnodes hedges).mem_iff.2 he

theorem permutes_of_isOf (hnodes : nodes.Perm nodes') (hedges : edges.Perm edges')
    (hsingle : ∀ n ∈ nodes, n.isPipeline = false → ∀ o, n.operator = .ok o → o.isMerge = false →
      (edges.filter fun e => e.target = n.id ∧ e.kind = .normal).length ≤ 1)
    (h : net.IsOf nodes edges) (h' : net'.IsOf nodes' edges') : net.Permutes net' where
  nodes := by
    intro p
    rw [h.mem_nodes, h'.mem_nodes, hnodes.mem_iff]
  edges := by
    rw [h.edges_eq, h'.edges_eq, h.ids_eq, h'.ids_eq]
    exact perm_between hnodes hedges
  single := by
    intro p hp hgraph hmerge
    have hnormal : ((net.incoming p.id).filter (·.kind = .normal)).Sublist
        (edges.filter fun e => e.target = p.id ∧ e.kind = .normal) := by
      have hboth : (net.incoming p.id).filter (·.kind = .normal) =
          net.edges.filter fun e => e.target = p.id ∧ e.kind = .normal := by
        rw [incoming, List.filter_filter]
        apply List.filter_congr
        intro e _
        rw [Bool.and_comm, Bool.decide_and, beq_eq_decide]
      rw [hboth, h.edges_eq]
      exact List.filter_sublist.filter _
    exact hnormal.length_le.trans
      (hsingle p.node (h.node_mem hp) hgraph p.operator (h.operator p hp) hmerge)

end Network

/-- Propagation does not see the order in which a graph is listed. The causes of faults may differ,
since a merge names the inputs in their order. -/
theorem propagatePartial_perm {nodes nodes' : List Node} {edges edges' : List Edge}
    (hnodes : nodes.Perm nodes') (hedges : edges.Perm edges')
    (hparams : ∀ n ∈ nodes, n.isPipeline = false → ∀ o, n.operator = .ok o →
      o.problems n.params = [])
    (hsingle : ∀ n ∈ nodes, n.isPipeline = false → ∀ o, n.operator = .ok o → o.isMerge = false →
      (edges.filter fun e => e.target = n.id ∧ e.kind = .normal).length ≤ 1) :
    ((∃ state, propagatePartial nodes edges = .ok state) ↔
        ∃ state, propagatePartial nodes' edges' = .ok state) ∧
      ∀ overlay faults overlay' faults', propagatePartial nodes edges = .ok (overlay, faults) →
        propagatePartial nodes' edges' = .ok (overlay', faults') →
          overlay = overlay' ∧
            (faults.map (·.complaint.node?)).Perm (faults'.map (·.complaint.node?)) := by
  refine ⟨⟨Network.exists_propagatePartial_of_perm hnodes hedges,
    Network.exists_propagatePartial_of_perm hnodes.symm hedges.symm⟩, ?_⟩
  intro overlay faults overlay' faults' h h'
  obtain ⟨net, hnet, hall⟩ := bind_eq_ok_iff.1 h
  obtain ⟨net', hnet', hall'⟩ := bind_eq_ok_iff.1 h'
  have hisOf := Network.isOf_of_ofGraph hnet
  have hpermutes := Network.permutes_of_isOf hnodes hedges hsingle hisOf
    (Network.isOf_of_ofGraph hnet')
  have hprop := Network.isPropagation_of_propagateAll hall
  have hsolved := Network.isSolved_of_propagateAll hall
  have hsolved' := Network.isSolved_of_propagateAll hall'
  have hsized : ∀ id shape, overlay.shape? id = some shape → shape.IsSized :=
    fun id shape hshape => (hprop.isFormed (hisOf.hasParams hparams) hshape).sized
  have hshapes := hpermutes.shape?_eq hprop (Network.isPropagation_of_propagateAll hall') hsized
  have htypes := hpermutes.types_eq hsolved hsolved' hshapes
  have hlearned := hpermutes.learned_eq hsolved hsolved' hsized hshapes
  exact ⟨Propagation.eq_of_reads hall hall' hshapes (fun id => (htypes id).1)
    (fun id => (htypes id).2) hlearned, hpermutes.perm_faults hsolved hsolved' hsized hshapes⟩

/-- A concatenation along a negative axis, and a sum that fails with a cause that names its inputs
in their order. -/
def Graph.merging : Graph where
  nodes :=
    [{ id := "data", operatorId := "dataset" },
     { id := "conv", operatorId := "conv2d" },
     { id := "same", operatorId := "relu" },
     { id := "join", operatorId := "concat", params := .ofList [("dim", .int (-3))] },
     { id := "sum", operatorId := "add" }]
  edges :=
    [{ id := "1", source := "data", target := "conv" },
     { id := "2", source := "data", target := "same" },
     { id := "3", source := "data", target := "join" },
     { id := "4", source := "same", target := "join" },
     { id := "5", source := "data", target := "sum" },
     { id := "6", source := "conv", target := "sum", kind := .sum }]

theorem propagatePartial_perm_merging :
    ∃ overlay faults faults',
      propagatePartial Graph.merging.nodes Graph.merging.edges = .ok (overlay, faults) ∧
      propagatePartial Graph.merging.nodes.reverse Graph.merging.edges.reverse =
        .ok (overlay, faults') ∧
      overlay.shape? "join" = some ⟨[.batch, .fixed 2, .fixed 28, .fixed 28]⟩ ∧ faults ≠ faults' ∧
      (faults.map (·.complaint.node?)).Perm (faults'.map (·.complaint.node?)) := by
  have hvalue : (propagatePartial Graph.merging.nodes Graph.merging.edges).toOption.any
      (fun found => (propagatePartial Graph.merging.nodes.reverse
          Graph.merging.edges.reverse).toOption.any (fun found' =>
        decide (found.1.shape? "join" = some ⟨[.batch, .fixed 2, .fixed 28, .fixed 28]⟩ ∧
          found.2 ≠ found'.2))) = true := by
    decide +kernel
  have hparams : ∀ n ∈ Graph.merging.nodes, n.isPipeline = false → ∀ o, n.operator = .ok o →
      o.problems n.params = [] := by
    have hall : ∀ n ∈ Graph.merging.nodes,
        n.operator.toOption.all (fun o => (o.problems n.params).isEmpty) = true := by
      decide +kernel
    intro n hn _ o ho
    exact List.isEmpty_iff.1 (of_toOption_all (hall n hn) ho)
  have hsingle : ∀ n ∈ Graph.merging.nodes, n.isPipeline = false → ∀ o, n.operator = .ok o →
      o.isMerge = false →
        (Graph.merging.edges.filter fun e => e.target = n.id ∧ e.kind = .normal).length ≤ 1 := by
    have hall : ∀ n ∈ Graph.merging.nodes, n.operator.toOption.all (fun o => o.isMerge ||
        decide ((Graph.merging.edges.filter fun e =>
          e.target = n.id ∧ e.kind = .normal).length ≤ 1)) = true := by
      decide +kernel
    intro n hn _ o ho hmerge
    have hcount := of_toOption_all (hall n hn) ho
    rw [hmerge, Bool.false_or] at hcount
    exact of_decide_eq_true hcount
  obtain ⟨⟨overlay, faults⟩, hfound, hrest⟩ := exists_of_toOption_any hvalue
  obtain ⟨⟨overlay', faults'⟩, hfound', hshapes⟩ := exists_of_toOption_any hrest
  obtain ⟨hjoin, hne⟩ := of_decide_eq_true hshapes
  obtain ⟨hoverlay, hperm⟩ := (propagatePartial_perm (List.reverse_perm Graph.merging.nodes).symm
    (List.reverse_perm Graph.merging.edges).symm hparams hsingle).2 overlay faults overlay' faults'
      hfound hfound'
  exact ⟨overlay, faults, faults', hfound, hoverlay ▸ hfound', hjoin, hne, hperm⟩

end LayerGraph
