import LayerGraph.Program.Training
import LayerGraph.Proofs.Semantics
import LayerGraph.Proofs.Sound
/-!
# What a graph computes

An interpretation of the operators turns a graph into equations, one for each emitted node: a merge
has what its operator makes of the sources of all its edges, any other node what its operator makes
of the source of its one normal edge, and the values of its residual and then of its sum sources
added.

* `Interpretation.nodeValue?` is the right side of the equation of a node, and
  `Interpretation.IsValuation` says that values satisfy the equations.
* `IsSound.exists_valuation`, `IsSound.valuation_unique`: without cycles the input determines all
  values.
-/

namespace LayerGraph
set_option autoImplicit false

universe u

/-! ## Edges into a node -/

namespace Graph

variable (g : Graph)

/-- The sources of the edges into a node, in the order of the edges. -/
def sources (id : String) : List String :=
  (g.edges.filter fun e => e.target = id).map Edge.source

/-- The normal edges into a node. -/
def normalEdges (id : String) : List Edge :=
  g.edges.filter fun e => e.target = id ∧ e.kind = .normal

/-- The nodes from which an edge of a kind leads into a node, in the order of the nodes. -/
def addends (kind : EdgeKind) (id : String) : List String :=
  (g.nodes.map Node.id).filter fun s =>
    g.edges.any fun e => e.source = s ∧ e.target = id ∧ e.kind = kind

variable {g}

theorem feeds_of_mem_sources {s id : String} (h : s ∈ g.sources id) : Feeds g.edges s id := by
  obtain ⟨e, he, rfl⟩ := List.mem_map.1 h
  obtain ⟨he, htarget⟩ := List.mem_filter.1 he
  exact ⟨e, he, rfl, of_decide_eq_true htarget⟩

theorem feeds_of_mem_normalEdges {e : Edge} {id : String} (h : e ∈ g.normalEdges id) :
    Feeds g.edges e.source id := by
  obtain ⟨he, hkeep⟩ := List.mem_filter.1 h
  exact ⟨e, he, rfl, (of_decide_eq_true hkeep).1⟩

theorem feeds_of_mem_addends {kind : EdgeKind} {s id : String} (h : s ∈ g.addends kind id) :
    Feeds g.edges s id := by
  obtain ⟨e, he, hkeep⟩ := List.any_eq_true.1 (List.mem_filter.1 h).2
  obtain ⟨hsource, htarget, -⟩ := of_decide_eq_true hkeep
  exact ⟨e, he, hsource, htarget⟩

end Graph

/-! ## Equations -/

/-- The operator of the node is a field of the model. -/
def Placed.isLayer (p : Placed) : Bool := !p.operator.isMerge && p.operator.rule ≠ .flatten

namespace Interpretation

variable {α : Type u} (I : Interpretation α) (fieldOf : Placed → FieldDecl)

/-- What the operator of a merge makes of values. -/
def merge? (p : Placed) (values : List α) : Option α :=
  if p.operator.rule = .concat then some (I.concat ((p.params.int? "dim").getD 1) values)
  else I.sum? values

/-- What the operator of any other node makes of a value. -/
def operate (p : Placed) (a : α) : α :=
  if p.operator.rule = .flatten then I.flatten ((p.params.int? "start_dim").getD 1) a
  else I.field (fieldOf p) a

/-- What the graph gives a node, over the values of other nodes. -/
def nodeValue? (g : Graph) (value : String → α) (p : Placed) : Option α :=
  if p.operator.isMerge then I.merge? p ((g.sources p.id).map value)
  else
    match g.normalEdges p.id with
    | [e] =>
      some ((g.addends .residual p.id ++ g.addends .sum p.id).foldl
        (fun sum s => I.add sum (value s)) (I.operate fieldOf p (value e.source)))
    | _ => none

/-- The root has the input as its value, and every emitted node what the graph gives it. -/
structure IsValuation (g : Graph) (order : Emission) (input : α) (value : String → α) :
    Prop where
  root : value order.root.id = input
  node : ∀ p ∈ order.nodes, I.nodeValue? fieldOf g value p = some (value p.id)

variable {I fieldOf}

theorem nodeValue?_congr {g : Graph} {value value' : String → α} {p : Placed}
    (h : ∀ s, Feeds g.edges s p.id → value s = value' s) :
    I.nodeValue? fieldOf g value p = I.nodeValue? fieldOf g value' p := by
  rw [nodeValue?, nodeValue?]
  split
  · have hsources : (g.sources p.id).map value = (g.sources p.id).map value' :=
      List.map_congr_left fun s hs => h s (Graph.feeds_of_mem_sources hs)
    rw [hsources]
  · split
    · rename_i e he
      have hinput : value e.source = value' e.source :=
        h e.source (Graph.feeds_of_mem_normalEdges (he ▸ List.mem_singleton_self e))
      rw [hinput]
      refine congrArg some (List.foldl_ext _ _ _ fun sum s hs => ?_)
      rcases List.mem_append.1 hs with hs | hs
      · rw [h s (Graph.feeds_of_mem_addends hs)]
      · rw [h s (Graph.feeds_of_mem_addends hs)]
    · rfl

end Interpretation

theorem exists_solution {α : Type u} [Nonempty α] {R : String → String → Prop}
    (h : WellFounded R) {F : (String → α) → String → α}
    (hF : ∀ value value' id, (∀ s, R s id → value s = value' s) → F value id = F value' id) :
    ∃ value, ∀ id, value id = F value id := by
  classical
  let default : α := Classical.ofNonempty
  let value : String → α := h.fix fun id earlier =>
    F (fun s => if hs : R s id then earlier s hs else default) id
  refine ⟨value, fun id => ?_⟩
  have hvalue : value id = F (fun s => if R s id then value s else default) id := h.fix_eq _ id
  rw [hvalue]
  exact hF _ _ id fun s hs => if_pos hs

/-! ## Edges of an architecture without faults -/

/-- If one element of a list has a property, filtering leaves only this element. -/
theorem filter_eq_singleton {edges : List Edge} (hnodup : edges.Nodup) {keep : Edge → Bool}
    {e : Edge} (he : e ∈ edges) (hkeep : ∀ d ∈ edges, keep d = true ↔ d = e) :
    edges.filter keep = [e] := by
  have hsame : edges.filter keep = edges.filter (· == e) :=
    List.filter_congr fun d hd => by rw [Bool.eq_iff_iff, hkeep d hd, beq_iff_eq]
  rw [hsame, List.filter_beq, List.count_eq_one_of_mem hnodup he]
  rfl

namespace IsSound

variable {g : Graph} {net : Network} {order : Emission} {overlay : Propagation}

theorem nodup_edges (hids : (g.edges.map Edge.id).Nodup) : g.edges.Nodup := hids.of_map

theorem mem_otherEdges_of_ne (hids : (g.edges.map Edge.id).Nodup) {d e : Edge}
    (hd : d ∈ g.edges) (he : e ∈ g.edges) (hne : d ≠ e) : d ∈ otherEdges e g.edges := by
  have hid : d.id ≠ e.id := fun hid => hne (List.inj_on_of_nodup_map hids hd he hid)
  exact List.mem_filter.2 ⟨hd, by simpa using hid⟩

theorem eq_of_ends_eq (h : IsSound g.nodes g.edges net order overlay)
    (hids : (g.edges.map Edge.id).Nodup) {d e : Edge} (hd : d ∈ g.edges) (he : e ∈ g.edges)
    (hsource : d.source = e.source) (htarget : d.target = e.target) : d = e := by
  refine Classical.byContradiction fun hne => ?_
  obtain ⟨-, -, -, -, hdistinct, -⟩ := h.exists_ends he
  exact hdistinct d (mem_otherEdges_of_ne hids hd he hne) hsource htarget

/-- At most one normal edge leads to a node that is not a merge. -/
theorem eq_of_normal (h : IsSound g.nodes g.edges net order overlay)
    (hids : (g.edges.map Edge.id).Nodup) {p : Placed} (hp : p ∈ net.nodes)
    (hmerge : p.operator.isMerge = false) {d e : Edge} (hd : d ∈ g.edges) (he : e ∈ g.edges)
    (hdtarget : d.target = p.id) (htarget : e.target = p.id) (hdkind : d.kind = .normal)
    (hkind : e.kind = .normal) : d = e := by
  refine Classical.byContradiction fun hne => ?_
  obtain ⟨ends, -, hfound, -, -, hrules, -⟩ := h.exists_ends he
  rw [htarget, Network.find?_eq_some_iff.2 ⟨hp, rfl⟩] at hfound
  obtain rfl := Option.some.inj hfound
  obtain ⟨-, honly, -⟩ := checkArchitecture_eq_ok_iff.1 hrules
  exact honly hkind hmerge d (mem_otherEdges_of_ne hids hd he hne) (hdtarget.trans htarget.symm)
    hdkind

theorem operands_eq_sources (h : IsSound g.nodes g.edges net order overlay) {p : Placed}
    (hp : p ∈ net.nodes) (hmerge : p.operator.isMerge = true) :
    net.operands p.id = g.sources p.id := by
  rw [Network.operands_of_isMerge hp hmerge, Network.incoming, h.edges_eq, Graph.sources]
  exact congrArg (List.map Edge.source) (List.filter_congr fun e _ => by simp [beq_eq_decide])

/-- Any other emitted node has one normal edge, and reads its source. -/
theorem exists_normalEdge (h : IsSound g.nodes g.edges net order overlay)
    (hids : (g.edges.map Edge.id).Nodup) {p : Placed} (hp : p ∈ order.nodes)
    (hmerge : p.operator.isMerge = false) :
    ∃ e, g.normalEdges p.id = [e] ∧ net.operands p.id = [e.source] := by
  obtain ⟨e, he, htarget, hkind, hoperands⟩ := h.operands_of_not_isMerge hp hmerge
  refine ⟨e, filter_eq_singleton (nodup_edges hids) he fun d hd => ?_, hoperands⟩
  rw [decide_eq_true_iff]
  constructor
  · exact fun ⟨hdtarget, hdkind⟩ =>
      h.eq_of_normal hids (h.isEmission.mem_net hp) hmerge hd he hdtarget htarget hdkind hkind
  · rintro rfl
    exact ⟨htarget, hkind⟩

/-- What is added to an output comes from the nodes with such an edge, once from each. -/
theorem sourcesOfKind_eq (h : IsSound g.nodes g.edges net order overlay)
    (hids : (g.edges.map Edge.id).Nodup) (kind : EdgeKind) (id : String) :
    net.sourcesOfKind kind id = g.addends kind id := by
  have hone : ∀ q : Placed,
      ((net.outgoing q.id).filter fun e => e.target = id ∧ e.kind = kind).map Edge.source =
        if g.edges.any fun e => e.source = q.id ∧ e.target = id ∧ e.kind = kind then [q.id]
        else [] := fun q => by
    rw [Network.outgoing, h.edges_eq, List.filter_filter]
    split
    · rename_i hany
      obtain ⟨e, he, hkeep⟩ := List.any_eq_true.1 hany
      obtain ⟨hsource, htarget, hkind⟩ := of_decide_eq_true hkeep
      rw [filter_eq_singleton (nodup_edges hids) he fun d hd => ?_, List.map_singleton, hsource]
      simp only [Bool.and_eq_true, decide_eq_true_iff, beq_iff_eq]
      constructor
      · rintro ⟨⟨hdtarget, -⟩, hdsource⟩
        exact h.eq_of_ends_eq hids hd he (hdsource.trans hsource.symm)
          (hdtarget.trans htarget.symm)
      · rintro rfl
        exact ⟨⟨htarget, hkind⟩, hsource⟩
    · rename_i hnone
      rw [List.map_eq_nil_iff, List.filter_eq_nil_iff]
      intro e he hkeep
      refine hnone (List.any_eq_true.2 ⟨e, he, ?_⟩)
      simp only [Bool.and_eq_true, decide_eq_true_iff, beq_iff_eq] at hkeep ⊢
      exact ⟨hkeep.2, hkeep.1.1, hkeep.1.2⟩
  rw [Network.sourcesOfKind, Graph.addends, ← h.isOf.ids_eq, Network.ids, List.filter_map,
    ← flatMap_ite_singleton]
  exact List.flatMap_congr fun q _ => hone q

theorem addendsOf_eq (h : IsSound g.nodes g.edges net order overlay)
    (hids : (g.edges.map Edge.id).Nodup) {p : Placed} (hp : p ∈ order.nodes)
    (hmerge : p.operator.isMerge = false) {kind : EdgeKind} (hkind : kind ≠ .normal) :
    order.addendsOf kind p.id = g.addends kind p.id := by
  rw [h.isEmission.addendsOf p (h.isEmission.mem_net hp) kind hkind, hmerge,
    if_neg Bool.false_ne_true, h.sourcesOfKind_eq hids]

/-! ## Values -/

variable {α : Type u} {I : Interpretation α} {fieldOf : Placed → FieldDecl}

/-- Every equation has a right side. -/
theorem exists_nodeValue (h : IsSound g.nodes g.edges net order overlay)
    (hids : (g.edges.map Edge.id).Nodup) {p : Placed} (hp : p ∈ order.nodes)
    (value : String → α) : ∃ a, I.nodeValue? fieldOf g value p = some a := by
  unfold Interpretation.nodeValue?
  cases hmerge : p.operator.isMerge with
  | true =>
    rw [if_pos rfl, Interpretation.merge?]
    split
    · exact ⟨_, rfl⟩
    · have htwo := h.operands_of_isMerge hp hmerge
      rw [h.operands_eq_sources (h.isEmission.mem_net hp) hmerge] at htwo
      cases hsources : g.sources p.id with
      | nil => simp [hsources] at htwo
      | cons s rest => exact ⟨_, rfl⟩
  | false =>
    obtain ⟨e, he, -⟩ := h.exists_normalEdge hids hp hmerge
    rw [if_neg Bool.false_ne_true, he]
    exact ⟨_, rfl⟩

/-- The graph has values. -/
theorem exists_valuation (h : IsSound g.nodes g.edges net order overlay)
    (hids : (g.edges.map Edge.id).Nodup) (input : α) :
    ∃ value, I.IsValuation fieldOf g order input value := by
  have : Nonempty α := ⟨input⟩
  let F : (String → α) → String → α := fun value id =>
    if id = order.root.id then input
    else ((order.nodes.find? (·.id == id)).bind (I.nodeValue? fieldOf g value)).getD input
  obtain ⟨value, hvalue⟩ := exists_solution h.acyclic.wellFounded (F := F)
    fun value value' id hagree => by
      simp only [F]
      split
      · rfl
      · cases hfound : order.nodes.find? (·.id == id) with
        | none => rfl
        | some p =>
          obtain ⟨-, rfl⟩ := (find?_id_eq_some_iff h.isEmission.nodup_ids).1 hfound
          rw [Option.bind_some, Option.bind_some,
            Interpretation.nodeValue?_congr hagree]
  refine ⟨value, by rw [hvalue]; exact if_pos rfl, fun p hp => ?_⟩
  have hfound : order.nodes.find? (·.id == p.id) = some p :=
    (find?_id_eq_some_iff h.isEmission.nodup_ids).2 ⟨hp, rfl⟩
  obtain ⟨a, ha⟩ : ∃ a, I.nodeValue? fieldOf g value p = some a := h.exists_nodeValue hids hp value
  rw [hvalue p.id, ha]
  simp only [F, if_neg (h.isEmission.id_ne_root hp), hfound, Option.bind_some, ha,
    Option.getD_some]

/-- The graph has no other values. -/
theorem valuation_unique (h : IsSound g.nodes g.edges net order overlay) {input : α}
    {value value' : String → α} (hvalue : I.IsValuation fieldOf g order input value)
    (hvalue' : I.IsValuation fieldOf g order input value') {id : String} (hid : order.Emits id) :
    value id = value' id := by
  revert hid
  refine h.acyclic.wellFounded.induction
    (C := fun id => order.Emits id → value id = value' id) id fun id ih hid => ?_
  rcases hid with rfl | ⟨p, hp, rfl⟩
  · rw [hvalue.root, hvalue'.root]
  · have hagree : I.nodeValue? fieldOf g value p = I.nodeValue? fieldOf g value' p := by
      refine Interpretation.nodeValue?_congr fun s hs => ih s hs ?_
      obtain ⟨e, he, rfl, htarget⟩ := hs
      exact h.source_emitted he hp htarget
    rw [hvalue.node p hp, hvalue'.node p hp] at hagree
    exact Option.some.inj hagree

end IsSound

end LayerGraph
