import LayerGraph.Proofs.ModelShapes
import LayerGraph.Proofs.ModelValues
import LayerGraph.Proofs.Wiring
/-!
# What the program reads of the edges

`Model.brings model name` are the variables that the forward method brings into a variable: those in
the expression assigned to it and those added to it. `Graph.IsReadWhole` says that for each emitted
node these are the variables of the sources of all its edges.

An edge is tested beside the edges with other ids only. So a graph without faults is wired, and read
as a whole, exactly when no two edges with one id clash (`read_whole_iff`). Two edges with one id
can both be normal edges into one layer, and then the program reads the first of them only
(`not_read_whole`).
-/

namespace LayerGraph
set_option autoImplicit false

/-! ## What is brought into a variable -/

/-- The variables that a statement brings into a variable. -/
def Stmt.brings (name : String) : Stmt → List String
  | .assign target value => if target = name then value.reads else []
  | .accumulate target operand _ => if target = name then [operand] else []
  | .returns _ => []

/-- The variables that the forward method brings into a variable. -/
def Model.brings (model : Model) (name : String) : List String :=
  model.forward.flatMap (Stmt.brings name)

/-- The nodes whose outputs go into that of a node: its operands and what is added. -/
def Emission.readsOf (order : Emission) (id : String) : List String :=
  order.inputsOf id ++ (order.addendsOf .residual id ++ order.addendsOf .sum id)

theorem brings_additions (name target : String) (kind : EdgeKind) (operands : List String) :
    (additions target kind operands).flatMap (Stmt.brings name) =
      if target = name then operands else [] := by
  induction operands with
  | nil => simp [additions]
  | cons operand rest ih =>
    have hcons : additions target kind (operand :: rest) =
        .accumulate target operand kind :: additions target kind rest := rfl
    rw [hcons, List.flatMap_cons, ih, Stmt.brings]
    split <;> rfl

section Models

variable {order : Emission} {overlay : Propagation} {model : Model} {names : Names}
  {texts : List NodeText} {p : Placed} {text : NodeText}

theorem Writes.brings (h : Writes order overlay names p text)
    (hone : p.operator.isMerge = false → (order.inputsOf p.id).length = 1) (name : String) :
    text.statements.flatMap (Stmt.brings name) =
      if text.target = name then (order.readsOf p.id).map (names.variableOf order.root.id)
      else [] := by
  obtain ⟨value, hvalue, -, hstatements⟩ := h.value
  rw [hstatements, List.flatMap_cons, List.flatMap_append, brings_additions, brings_additions,
    Stmt.brings, hvalue.reads_eq hone]
  split
  · rw [Emission.readsOf, List.map_append, List.map_append]
  · rfl

/-- Of parts that are empty but for one key, the part of this key is left. -/
theorem flatMap_ite_key {α β : Type} {key : α → String} (f : α → List β) {items : List α}
    (hnodup : (items.map key).Nodup) {a : α} (ha : a ∈ items) :
    items.flatMap (fun b => if key b = key a then f b else []) = f a := by
  induction items with
  | nil => cases ha
  | cons b rest ih =>
    obtain ⟨hb, hrest⟩ := List.nodup_cons.1 hnodup
    rw [List.flatMap_cons]
    rcases List.mem_cons.1 ha with rfl | ha
    · have hnone : rest.flatMap (fun b => if key b = key a then f b else []) = [] := by
        apply List.flatMap_eq_nil_iff.2
        intro c hc
        apply if_neg
        intro heq
        exact hb (heq ▸ List.mem_map_of_mem hc)
      rw [if_pos rfl, hnone, List.append_nil]
    · have hne : key b ≠ key a := fun heq => hb (heq ▸ List.mem_map_of_mem ha)
      rw [if_neg hne, List.nil_append, ih hrest ha]

theorem Emission.IsModel.brings_eq (h : order.IsModel overlay model names texts) {net : Network}
    (hemission : net.IsEmission order)
    (hone : ∀ q ∈ order.nodes, q.operator.isMerge = false → (order.inputsOf q.id).length = 1)
    (hp : p ∈ order.nodes) :
    model.brings (names.variableOf order.root.id p.id) =
      (order.readsOf p.id).map (names.variableOf order.root.id) := by
  have hreturn : ∀ value, [Stmt.returns value].flatMap
      (Stmt.brings (names.variableOf order.root.id p.id)) = [] := fun _ => rfl
  rw [Model.brings, h.forward, List.flatMap_append, hreturn, List.append_nil,
    List.flatMap_assoc,
    h.flatMap_eq (g := fun q => if q.id = p.id
      then (order.readsOf q.id).map (names.variableOf order.root.id) else []) ?_]
  · exact flatMap_ite_key _ hemission.nodup_ids hp
  · intro q hq text hwrites
    rw [hwrites.brings (hone q hq), hwrites.target_eq (hemission.id_ne_root hq)]
    by_cases heq : q.id = p.id
    · rw [if_pos heq, if_pos (by rw [heq])]
    · have hne : names.variableOf order.root.id q.id ≠ names.variableOf order.root.id p.id :=
        fun hvariable => heq (h.variableOf_inj (emits_of_mem hq) (emits_of_mem hp) hvariable)
      rw [if_neg heq, if_neg hne]

end Models

/-! ## Edges by their sources -/

/-- Items taken key by key are the items in another order. -/
theorem perm_flatMap_filter {α : Type} (key : α → String) {keys : List String} {items : List α}
    (hnodup : keys.Nodup) (hmem : ∀ a ∈ items, key a ∈ keys) :
    (keys.flatMap fun k => items.filter (key · == k)).Perm items := by
  induction keys generalizing items with
  | nil =>
    have hnone : items = [] := List.eq_nil_iff_forall_not_mem.2 fun a ha => nomatch hmem a ha
    rw [hnone]
    exact .refl _
  | cons k rest ih =>
    obtain ⟨hk, hrest⟩ := List.nodup_cons.1 hnodup
    have hothers : (rest.flatMap fun j => items.filter (key · == j)) =
        rest.flatMap fun j => (items.filter (key · != k)).filter (key · == j) := by
      apply List.flatMap_congr
      intro j hj
      rw [List.filter_filter]
      apply List.filter_congr
      intro a _
      have hjk : j ≠ k := fun heq => hk (heq ▸ hj)
      by_cases ha : key a = j <;> simp [ha, hjk]
    rw [List.flatMap_cons, hothers]
    refine ((ih hrest fun a ha => ?_).append_left _).trans (List.filter_append_perm _ items)
    obtain ⟨ha, hne⟩ := List.mem_filter.1 ha
    exact (List.mem_cons.1 (hmem a ha)).resolve_left (by simpa using hne)

/-- The edges of one kind into a node. -/
def Graph.edgesOfKind (g : Graph) (kind : EdgeKind) (id : String) : List Edge :=
  g.edges.filter fun e => e.target = id ∧ e.kind = kind

/-- The edges of one kind into a node of a network. -/
def Network.edgesOfKind (net : Network) (kind : EdgeKind) (id : String) : List Edge :=
  net.edges.filter fun e => e.target = id ∧ e.kind = kind

/-- There is one source for each edge. -/
theorem Network.perm_sourcesOfKind (net : Network) (kind : EdgeKind) (id : String) :
    (net.sourcesOfKind kind id).Perm ((net.edgesOfKind kind id).map Edge.source) := by
  have hsources : net.sourcesOfKind kind id =
      ((net.ids.flatMap fun s => (net.edgesOfKind kind id).filter (·.source == s))).map
        Edge.source := by
    rw [Network.sourcesOfKind, List.map_flatMap, Network.ids, List.flatMap_map]
    apply List.flatMap_congr
    intro q _
    rw [Network.outgoing, Network.edgesOfKind, List.filter_filter, List.filter_filter]
    apply congrArg (List.map Edge.source)
    exact List.filter_congr fun e _ => Bool.and_comm _ _
  rw [hsources]
  apply List.Perm.map
  apply perm_flatMap_filter Edge.source net.nodup_ids
  intro e he
  exact (net.ends_mem e (List.mem_filter.1 he).1).1

/-- Edges are normal, residual or sum. -/
theorem perm_filter_kind (edges : List Edge) :
    (edges.filter (·.kind = .normal) ++
      (edges.filter (·.kind = .residual) ++ edges.filter (·.kind = .sum))).Perm edges := by
  let others := edges.filter fun e => !decide (e.kind = .normal)
  have hresidual : others.filter (·.kind = .residual) = edges.filter (·.kind = .residual) := by
    rw [List.filter_filter]
    apply List.filter_congr
    intro e _
    cases e.kind <;> rfl
  have hsum : others.filter (fun e => !decide (e.kind = .residual)) =
      edges.filter (·.kind = .sum) := by
    rw [List.filter_filter]
    apply List.filter_congr
    intro e _
    cases e.kind <;> rfl
  rw [← hresidual, ← hsum]
  exact ((List.filter_append_perm _ others).append_left _).trans (List.filter_append_perm _ edges)

/-- The sources of the edges into a node, by the kinds of the edges. -/
theorem Graph.perm_sources (g : Graph) (id : String) :
    ((g.normalEdges id).map Edge.source ++ ((g.edgesOfKind .residual id).map Edge.source ++
      (g.edgesOfKind .sum id).map Edge.source)).Perm (g.sources id) := by
  have hsplit : ∀ kind : EdgeKind, g.edgesOfKind kind id =
      (g.edges.filter fun e => e.target = id).filter (·.kind = kind) := by
    intro kind
    rw [List.filter_filter, Graph.edgesOfKind]
    apply List.filter_congr
    intro e _
    rw [Bool.decide_and, Bool.and_comm]
  have hnormal : g.normalEdges id = g.edgesOfKind .normal id := rfl
  rw [hnormal, hsplit, hsplit, hsplit, ← List.map_append, ← List.map_append]
  exact (perm_filter_kind _).map Edge.source

namespace IsSound

variable {g : Graph} {net : Network} {order : Emission} {overlay : Propagation}

theorem perm_sourcesOfKind (h : IsSound g.nodes g.edges net order overlay) (kind : EdgeKind)
    (id : String) :
    (net.sourcesOfKind kind id).Perm ((g.edgesOfKind kind id).map Edge.source) := by
  rw [Graph.edgesOfKind, ← h.edges_eq]
  exact net.perm_sourcesOfKind kind id

theorem perm_readsOf (h : IsSound g.nodes g.edges net order overlay) (hwired : g.IsWired)
    {p : Placed} (hp : p ∈ order.nodes) : (order.readsOf p.id).Perm (g.sources p.id) := by
  have hnet := h.isEmission.mem_net hp
  have haddends := h.isEmission.addendsOf p hnet
  rw [Emission.readsOf, h.isEmission.inputsOf p hp, haddends .residual (by decide),
    haddends .sum (by decide)]
  cases hmerge : p.operator.isMerge with
  | true => simp [h.operands_eq_sources hnet hmerge]
  | false =>
    rw [if_neg Bool.false_ne_true, if_neg Bool.false_ne_true]
    obtain ⟨e, he, htarget, hkind, hoperands⟩ := h.operands_of_not_isMerge hp hmerge
    have hdenotes : Denotes g.nodes p.id p :=
      h.isOf.denotes_iff.2 (Network.find?_eq_some_iff.2 ⟨hnet, rfl⟩)
    have hone := hwired.single p.id p hdenotes ⟨h.isPipeline_eq_false hnet, hmerge⟩
    have hmem : e ∈ g.normalEdges p.id :=
      List.mem_filter.2 ⟨he, decide_eq_true ⟨htarget, hkind⟩⟩
    have hnormal : g.normalEdges p.id = [e] := by
      obtain ⟨d, hd⟩ := List.length_eq_one_iff.1
        (Nat.le_antisymm hone (List.length_pos_of_mem hmem))
      rw [hd] at hmem ⊢
      rw [List.mem_singleton.1 hmem]
    have hparts := g.perm_sources p.id
    rw [hnormal] at hparts
    rw [hoperands]
    refine List.Perm.trans (List.Perm.append_left _ ?_) hparts
    exact (h.perm_sourcesOfKind .residual p.id).append (h.perm_sourcesOfKind .sum p.id)

theorem not_clash_of_ne (h : IsSound g.nodes g.edges net order overlay) {d e : Edge}
    (hd : d ∈ g.edges) (he : e ∈ g.edges) (hid : d.id ≠ e.id) : ¬ Clash g.nodes d e := by
  obtain ⟨ends, hends, hconnection⟩ := checkDrawn_eq_ok_iff.1 (h.drawn e he)
  exact not_clash_of_checkConnection hends hconnection
    (List.mem_filter.2 ⟨hd, bne_iff_ne.2 hid⟩)

theorem isWired_iff (h : IsSound g.nodes g.edges net order overlay) :
    g.IsWired ↔ g.edges.Pairwise fun d e => d.id = e.id → ¬ Clash g.nodes d e := by
  rw [Graph.isWired_iff]
  constructor
  · intro hpairwise
    apply hpairwise.imp
    intro d e hclash _
    exact hclash
  · intro hpairwise
    refine hpairwise.imp_of_mem fun {d e} hd he hclash => ?_
    by_cases hid : d.id = e.id
    · exact hclash hid
    · exact h.not_clash_of_ne hd he hid

end IsSound

/-! ## Programs -/

/-- The program brings into the variable of each emitted node the variables of the sources of all
its edges, once for each edge. -/
def Graph.IsReadWhole (g : Graph) : Prop :=
  ∃ net order overlay model variableOf fieldOf,
    Network.ofGraph g.nodes g.edges = .ok net ∧ net.emission = .ok order ∧
    propagate g.nodes g.edges = .ok overlay ∧ order.model overlay = .ok model ∧
    model.IsLaidOut order overlay variableOf fieldOf ∧
    ∀ p ∈ order.nodes, (model.brings (variableOf p.id)).Perm ((g.sources p.id).map variableOf)

theorem IsSound.isReadWhole {g : Graph} {net : Network} {order : Emission} {overlay : Propagation}
    (h : IsSound g.nodes g.edges net order overlay) (hwired : g.IsWired) : g.IsReadWhole := by
  obtain ⟨model, names, texts, hok, hmodel⟩ := h.exists_model
  refine ⟨net, order, overlay, model, _, _, h.ofGraph, h.emission, h.propagate, hok,
    h.isLaidOut hmodel, fun p hp => ?_⟩
  have hone : ∀ q ∈ order.nodes, q.operator.isMerge = false →
      (order.inputsOf q.id).length = 1 := by
    intro q hq hmerge
    obtain ⟨e, -, -, -, hoperands⟩ := h.operands_of_not_isMerge hq hmerge
    rw [h.isEmission.inputsOf q hq, hoperands]
    rfl
  rw [hmodel.brings_eq h.isEmission hone hp]
  exact (h.perm_readsOf hwired hp).map _

/-- A project without faults is wired and read as a whole exactly when no two edges of its
architecture with one id clash; in particular when the ids are distinct. -/
theorem read_whole_iff (p : Project) (hvalid : p.report.isValid = true) :
    (p.architecture.IsWired ∧ p.architecture.IsReadWhole) ↔
      p.architecture.edges.Pairwise fun d e =>
        d.id = e.id → ¬ Clash p.architecture.nodes d e := by
  rw [Report.isValid_iff, Project.report, Report.faults_append, List.append_eq_nil_iff] at hvalid
  obtain ⟨net, order, overlay, h⟩ := architectureReport_isValid_iff.1 hvalid.1
  rw [← h.isWired_iff]
  exact ⟨And.left, fun hwired => ⟨hwired, h.isReadWhole hwired⟩⟩

/-- Two branches into one layer, with one id for both edges. -/
def Project.repeatedId : Project where
  architecture :=
    { nodes :=
        [{ id := "data", operatorId := "dataset" },
         { id := "left", operatorId := "relu" },
         { id := "right", operatorId := "relu" },
         { id := "head", operatorId := "relu" }]
      edges :=
        [{ id := "1", source := "data", target := "left" },
         { id := "2", source := "data", target := "right" },
         { id := "3", source := "left", target := "head" },
         { id := "3", source := "right", target := "head" }] }

/-- What the forward method of a graph brings into a variable, if the graph has a model. -/
def Graph.brings? (g : Graph) (name : String) : Except Fault (List String) := do
  let net ← Network.ofGraph g.nodes g.edges
  let order ← net.emission
  let overlay ← propagate g.nodes g.edges
  let model ← order.model overlay
  .ok (model.brings name)

/-- Both edges are found in order, but only the first of them is read. -/
theorem not_read_whole :
    Project.repeatedId.report.isValid = true ∧
      ¬ (Project.repeatedId.architecture.IsWired ∧
        Project.repeatedId.architecture.IsReadWhole) ∧
      Project.repeatedId.architecture.sources "head" = ["left", "right"] ∧
      Project.repeatedId.architecture.brings? "head_out" = .ok ["left_out"] := by
  refine ⟨by decide +kernel, ?_, by decide +kernel, by decide +kernel⟩
  rintro ⟨hwired, -⟩
  have hrelu : (Catalog.find? .architecture "relu").any (!·.isMerge) = true := by decide +kernel
  obtain ⟨o, hfind, hmerge⟩ := (Option.any_eq_true _ _).1 hrelu
  have hone := hwired.single "head" ⟨{ id := "head", operatorId := "relu" }, o⟩
    ⟨rfl, Node.operator_eq_ok_iff.2 hfind⟩ ⟨rfl, by simpa using hmerge⟩
  exact absurd hone (by decide +kernel)

theorem read_whole_iff_sample :
    Project.sample.report.isValid = true ∧ Project.sample.architecture.IsReadWhole := by
  have hvalid : Project.sample.report.isValid = true := by decide +kernel
  have hids : (Project.sample.architecture.edges.map Edge.id).Nodup := by decide +kernel
  refine ⟨hvalid, ((read_whole_iff Project.sample hvalid).2 ?_).2⟩
  apply (List.pairwise_map.1 hids).imp
  intro d e hne heq
  exact absurd heq hne

end LayerGraph
