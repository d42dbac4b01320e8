import LayerGraph.Proofs.NodeShapes
import LayerGraph.Proofs.Valuation
/-!
# Values of generated models

The forward method computes what the graph says, for every interpretation of the operators.

* `Model.IsLaidOut` says which variable and which field belong to which node.
* `IsSound.exec_node` runs what is written for one node: it assigns the value of the node to its
  variable and changes no other.
* `IsSound.Computed` says that some nodes have their values in their variables. A node more keeps
  this (`Computed.set`), so that all have them in the end (`IsSound.exec_nodes`).
* `forward_computes`: the method reads assigned variables only, leaves the value of each node in its
  variable, and returns that of the last node.
-/

namespace LayerGraph
set_option autoImplicit false

universe u

/-! ## Fields -/

/-- The field that a node is given. -/
def Names.fieldOf (names : Names) (overlay : Propagation) (p : Placed) : FieldDecl where
  name := names.nameOf p.id
  constructor := (constructorCall p.operator (overlay.effectiveParams p)).toOption.getD (.var "")

@[simp] theorem Names.name_fieldOf (names : Names) (overlay : Propagation) (p : Placed) :
    (names.fieldOf overlay p).name = names.nameOf p.id := rfl

theorem Writes.field_eq {order : Emission} {overlay : Propagation} {names : Names} {p : Placed}
    {text : NodeText} (h : Writes order overlay names p text) :
    text.field = if p.isLayer then some (names.fieldOf overlay p) else none := by
  obtain ⟨value, hvalue, hfield, -⟩ := h.value
  rw [hfield, Placed.isLayer]
  cases hvalue with
  | sum hrule => simp [Operator.isMerge, Rule.isMerge, hrule]
  | concat hrule => simp [Operator.isMerge, Rule.isMerge, hrule]
  | flatten s rest hrule => simp [hrule]
  | field s rest constructor hmerge hrule hoperands hconstructor =>
    simp [hmerge, hrule, Names.fieldOf, hconstructor, Except.toOption]

namespace Emission.IsModel

variable {order : Emission} {overlay : Propagation} {model : Model} {names : Names}
  {texts : List NodeText}

theorem fields_eq (h : order.IsModel overlay model names texts) :
    model.fields = (order.nodes.filter Placed.isLayer).map (names.fieldOf overlay) := by
  rw [h.fields, List.filterMap_eq_flatMap_toList, ← flatMap_ite_singleton]
  refine h.flatMap_eq fun p _ text hwrites => ?_
  rw [hwrites.field_eq]
  split <;> rfl

/-- The field of a layer has the constructor call of its operator. -/
theorem constructorCall_fieldOf (h : order.IsModel overlay model names texts) {p : Placed}
    (hp : p ∈ order.nodes) (hlayer : p.isLayer = true) :
    constructorCall p.operator (overlay.effectiveParams p) =
      .ok (names.fieldOf overlay p).constructor := by
  obtain ⟨text, -, hwrites⟩ := h.exists_writes hp
  obtain ⟨value, hvalue, -⟩ := hwrites.value
  cases hvalue with
  | sum hrule => simp [Placed.isLayer, Operator.isMerge, Rule.isMerge, hrule] at hlayer
  | concat hrule => simp [Placed.isLayer, Operator.isMerge, Rule.isMerge, hrule] at hlayer
  | flatten s rest hrule => simp [Placed.isLayer, hrule] at hlayer
  | field s rest constructor hmerge hrule hoperands hconstructor =>
    rw [Names.fieldOf, hconstructor]
    rfl

theorem eq_of_nameOf_eq (h : order.IsModel overlay model names texts) {net : Network}
    (hemission : net.IsEmission order) {p q : Placed} (hp : p ∈ order.nodes)
    (hq : q ∈ order.nodes) (hname : names.nameOf p.id = names.nameOf q.id) : p = q := by
  have hvariable : ∀ r ∈ order.nodes,
      names.variableOf order.root.id r.id = names.nameOf r.id ++ "_out" := fun r hr => by
    rw [Names.variableOf, if_neg (hemission.id_ne_root hr)]
  refine List.inj_on_of_nodup_map hemission.nodup_ids hp hq
    (h.variableOf_inj (emits_of_mem hp) (emits_of_mem hq) ?_)
  rw [hvariable p hp, hvariable q hq, hname]

theorem nodup_fields (h : order.IsModel overlay model names texts) {net : Network}
    (hemission : net.IsEmission order) : (model.fields.map FieldDecl.name).Nodup := by
  rw [h.fields_eq, List.map_map]
  refine List.Nodup.map_on (fun p hp q hq hname => ?_) (hemission.nodup_ids.of_map.filter _)
  exact h.eq_of_nameOf_eq hemission (List.mem_filter.1 hp).1 (List.mem_filter.1 hq).1 hname

theorem find?_field (h : order.IsModel overlay model names texts) {net : Network}
    (hemission : net.IsEmission order) {p : Placed} (hp : p ∈ order.nodes)
    (hlayer : p.isLayer = true) :
    (model.fields.find? fun f => "self." ++ f.name = "self." ++ names.nameOf p.id) =
      some (names.fieldOf overlay p) := by
  have hmem : names.fieldOf overlay p ∈ model.fields := by
    rw [h.fields_eq]
    exact List.mem_map_of_mem (List.mem_filter.2 ⟨hp, hlayer⟩)
  cases hfound : model.fields.find? fun f => "self." ++ f.name = "self." ++ names.nameOf p.id with
  | none => simpa using List.find?_eq_none.1 hfound _ hmem
  | some f =>
    have hfield := List.mem_of_find?_eq_some hfound
    rw [h.fields_eq] at hfield
    obtain ⟨q, hq, rfl⟩ := List.mem_map.1 hfield
    have hname : names.nameOf q.id = names.nameOf p.id := by
      have hsame := List.find?_some hfound
      rw [decide_eq_true_iff] at hsame
      exact (String.append_right_inj _).1 hsame
    rw [h.eq_of_nameOf_eq hemission (List.mem_filter.1 hq).1 hp hname]

end Emission.IsModel

/-! ## Layouts -/

/-- The variable that a statement assigns. -/
def Stmt.assigned? : Stmt → Option String
  | .assign target _ => some target
  | _ => none

/-- The root has the argument, every node a variable of its own, assigned in the order of the nodes,
and every layer a field that its operator and its parameters construct. -/
structure Model.IsLaidOut (model : Model) (order : Emission) (overlay : Propagation)
    (variableOf : String → String) (fieldOf : Placed → FieldDecl) : Prop where
  argument : variableOf order.root.id = "x"
  variable_inj : ∀ a b, order.Emits a → order.Emits b → variableOf a = variableOf b → a = b
  assigned : model.forward.filterMap Stmt.assigned? = order.nodes.map fun p => variableOf p.id
  fields : model.fields = (order.nodes.filter Placed.isLayer).map fieldOf
  nodup_fields : (model.fields.map FieldDecl.name).Nodup
  constructor : ∀ p ∈ order.nodes, p.isLayer = true →
    constructorCall p.operator (overlay.effectiveParams p) = .ok (fieldOf p).constructor

theorem filterMap_additions {β : Type} {f : Stmt → Option β}
    (hf : ∀ target operand kind, f (.accumulate target operand kind) = none) (target : String)
    (kind : EdgeKind) (operands : List String) :
    (additions target kind operands).filterMap f = [] :=
  List.filterMap_eq_nil_iff.2 fun stmt hstmt => by
    obtain ⟨operand, -, rfl⟩ := List.mem_map.1 hstmt
    exact hf target operand kind

theorem Writes.assigned {order : Emission} {overlay : Propagation} {names : Names} {p : Placed}
    {text : NodeText} (h : Writes order overlay names p text) :
    text.statements.filterMap Stmt.assigned? = [text.target] := by
  obtain ⟨value, -, -, hstatements⟩ := h.value
  have hadded : ∀ target operand kind,
      Stmt.assigned? (.accumulate target operand kind) = none := fun _ _ _ => rfl
  rw [hstatements, List.filterMap_cons, List.filterMap_append, filterMap_additions hadded,
    filterMap_additions hadded]
  rfl

theorem Emission.IsModel.assigned {order : Emission} {overlay : Propagation} {model : Model}
    {names : Names} {texts : List NodeText} (h : order.IsModel overlay model names texts) :
    model.forward.filterMap Stmt.assigned? = texts.map NodeText.target := by
  have hreturn : ∀ value, [Stmt.returns value].filterMap Stmt.assigned? = [] := fun _ => rfl
  rw [h.forward, List.filterMap_append, hreturn, List.append_nil, List.filterMap_flatMap,
    h.flatMap_eq (g := fun p => [names.nameOf p.id ++ "_out"]) fun p _ text hwrites => by
      rw [hwrites.assigned, hwrites.target], List.map_eq_flatMap]
  exact (h.flatMap_eq fun p _ text hwrites => by rw [hwrites.target]).symm

namespace IsSound

variable {g : Graph} {net : Network} {order : Emission} {overlay : Propagation} {model : Model}
  {names : Names} {texts : List NodeText}

theorem isLaidOut (h : IsSound g.nodes g.edges net order overlay)
    (hmodel : order.IsModel overlay model names texts) :
    model.IsLaidOut order overlay (names.variableOf order.root.id) (names.fieldOf overlay) where
  argument := if_pos rfl
  variable_inj := fun _ _ => hmodel.variableOf_inj
  assigned := by
    rw [hmodel.assigned, hmodel.targets_eq h.isEmission, List.map_map]
    rfl
  fields := hmodel.fields_eq
  nodup_fields := hmodel.nodup_fields h.isEmission
  constructor := fun _ hp hlayer => hmodel.constructorCall_fieldOf hp hlayer

/-! ## Running nodes -/

/-- Flattening and concatenation have the parameters of the node: nothing is learned. -/
theorem effectiveParams_eq (h : IsSound g.nodes g.edges net order overlay) {p : Placed}
    (hp : p ∈ order.nodes) (hrule : p.operator.rule = .flatten ∨ p.operator.rule = .concat) :
    overlay.effectiveParams p = p.params := by
  obtain ⟨inputs, result, hresult, -⟩ := h.exists_result hp
  have hname : p.operator.rule.learnedName? = none := by
    rcases hrule with hrule | hrule <;> rw [hrule] <;> rfl
  have hlearned : overlay.learned.get? p.id = none := by
    rw [hresult.learned, Propagation.learnedOf, Rule.learned_eq_nil hresult.apply hname]
    rfl
  rw [Propagation.effectiveParams, hlearned]
  rfl

variable {α : Type u} {I : Interpretation α} {input : α} {value : String → α} {store : Store α}

/-- The expression of a merge has the value that the graph gives the merge. -/
theorem eval_merge (h : IsSound g.nodes g.edges net order overlay) {fieldOf : Placed → FieldDecl}
    {fields : List FieldDecl} {p : Placed} (hp : p ∈ order.nodes)
    (hmerge : p.operator.isMerge = true) {text : NodeValue}
    (htext : ValueText names order.root.id p (overlay.effectiveParams p) (order.inputsOf p.id) text)
    (hstore : ∀ s, Feeds g.edges s p.id →
      store (names.variableOf order.root.id s) = some (value s)) :
    text.value.eval I fields store = I.nodeValue? fieldOf g value p := by
  have hsources : order.inputsOf p.id = g.sources p.id := by
    rw [h.isEmission.inputsOf p hp, h.operands_eq_sources (h.isEmission.mem_net hp) hmerge]
  have hvalues : Expr.evalAll I fields store
      ((g.sources p.id).map fun s => .var (names.variableOf order.root.id s)) =
        some ((g.sources p.id).map value) :=
    evalAll_vars fun s hs => hstore s (Graph.feeds_of_mem_sources hs)
  rw [Interpretation.nodeValue?, if_pos hmerge, Interpretation.merge?]
  cases htext with
  | sum hrule => rw [Expr.eval, hsources, hvalues, if_neg (by simp [hrule]), Option.bind_some]
  | concat hrule =>
    rw [Expr.eval, hsources, hvalues, if_pos hrule, Option.map_some,
      h.effectiveParams_eq hp (.inr hrule)]
  | flatten s rest hrule => simp [Operator.isMerge, Rule.isMerge, hrule] at hmerge
  | field s rest constructor hlayer => simp [hlayer] at hmerge

/-- The expression of any other node has the value that its operator makes of its operand. -/
theorem eval_operate (h : IsSound g.nodes g.edges net order overlay)
    (hmodel : order.IsModel overlay model names texts) {p : Placed} (hp : p ∈ order.nodes)
    (hmerge : p.operator.isMerge = false) {text : NodeValue}
    (htext : ValueText names order.root.id p (overlay.effectiveParams p) (order.inputsOf p.id) text)
    {e : Edge} (hoperands : net.operands p.id = [e.source])
    (hstore : store (names.variableOf order.root.id e.source) = some (value e.source)) :
    text.value.eval I model.fields store =
      some (I.operate (names.fieldOf overlay) p (value e.source)) := by
  have hinputs : order.inputsOf p.id = [e.source] := by
    rw [h.isEmission.inputsOf p hp, hoperands]
  have hvalues : Expr.evalAll I model.fields store
      ([e.source].map fun s => .var (names.variableOf order.root.id s)) =
        some ([e.source].map value) :=
    evalAll_vars fun s hs => List.mem_singleton.1 hs ▸ hstore
  rw [List.map_singleton, List.map_singleton] at hvalues
  unfold Interpretation.operate
  cases htext with
  | sum hrule => simp [Operator.isMerge, Rule.isMerge, hrule] at hmerge
  | concat hrule => simp [Operator.isMerge, Rule.isMerge, hrule] at hmerge
  | flatten s rest hrule hcons =>
    obtain ⟨rfl, rfl⟩ := List.cons.inj (hcons.symm.trans hinputs)
    rw [Expr.eval, hvalues, if_pos hrule, Option.bind_some, Interpretation.call?,
      if_pos ⟨rfl, rfl⟩, h.effectiveParams_eq hp (.inl hrule), Int.toInt?_repr, Option.map_some]
  | field s rest constructor hlayer hrule hcons hconstructor =>
    obtain ⟨rfl, rfl⟩ := List.cons.inj (hcons.symm.trans hinputs)
    have hfield := hmodel.find?_field h.isEmission hp (by simp [Placed.isLayer, hlayer, hrule])
    rw [Expr.eval, hvalues, if_neg hrule, Option.bind_some, Interpretation.call?, hfield,
      Option.map_some]

/-- A node does not feed itself, so its variable is not that of a source. -/
theorem variableOf_ne_of_feeds (h : IsSound g.nodes g.edges net order overlay)
    (hmodel : order.IsModel overlay model names texts) {p : Placed} (hp : p ∈ order.nodes)
    {s : String} (hs : Feeds g.edges s p.id) :
    names.variableOf order.root.id s ≠ names.variableOf order.root.id p.id := by
  intro heq
  obtain ⟨e, he, rfl, htarget⟩ := hs
  have hself := hmodel.variableOf_inj (h.source_emitted he hp htarget)
    (Emission.emits_of_mem hp) heq
  exact h.acyclic p.id (.single ⟨e, he, hself, htarget⟩)

/-- What is written for a node assigns its value to its variable and changes no other variable. -/
theorem exec_node (h : IsSound g.nodes g.edges net order overlay)
    (hids : (g.edges.map Edge.id).Nodup) (hmodel : order.IsModel overlay model names texts)
    (hvalue : I.IsValuation (names.fieldOf overlay) g order input value) {p : Placed}
    (hp : p ∈ order.nodes) {text : NodeText} (hwrites : Writes order overlay names p text)
    (hstore : ∀ s, Feeds g.edges s p.id →
      store (names.variableOf order.root.id s) = some (value s)) :
    text.statements.foldlM (Stmt.exec I model.fields) store =
      some (store.set (names.variableOf order.root.id p.id) (value p.id)) := by
  obtain ⟨written, htext, -, hstatements⟩ := hwrites.value
  have htarget := hwrites.target_eq (h.isEmission.id_ne_root hp)
  have hequation := hvalue.node p hp
  have hassign : ∀ a, written.value.eval I model.fields store = some a →
      Stmt.exec I model.fields store (.assign text.target written.value) =
        some (store.set text.target a) := fun a ha => by
    rw [Stmt.exec, ha]
    rfl
  rw [← htarget, hstatements, List.foldlM_cons]
  cases hmerge : p.operator.isMerge with
  | true =>
    have haddends : ∀ kind, kind ≠ .normal → order.addendsOf kind p.id = [] :=
      fun kind hkind => by
        rw [h.isEmission.addendsOf p (h.isEmission.mem_net hp) kind hkind, if_pos hmerge]
    rw [← h.eval_merge hp hmerge htext hstore] at hequation
    rw [hassign _ hequation, haddends .residual (by simp), haddends .sum (by simp)]
    rfl
  | false =>
    obtain ⟨e, he, hoperands⟩ := h.exists_normalEdge hids hp hmerge
    have hfeeds : Feeds g.edges e.source p.id :=
      Graph.feeds_of_mem_normalEdges (he ▸ List.mem_singleton_self e)
    have hadded : ∀ kind, ∀ s ∈ g.addends kind p.id, ∀ a,
        names.variableOf order.root.id s ≠ text.target ∧
          (store.set text.target a) (names.variableOf order.root.id s) = some (value s) := by
      intro kind s hs a
      have hsource : Feeds g.edges s p.id := Graph.feeds_of_mem_addends hs
      have hne := htarget ▸ h.variableOf_ne_of_feeds hmodel hp hsource
      exact ⟨hne, (store.set_of_ne hne a).trans (hstore s hsource)⟩
    rw [Interpretation.nodeValue?, hmerge, if_neg Bool.false_ne_true, he] at hequation
    rw [hassign _ (h.eval_operate hmodel hp hmerge htext hoperands (hstore e.source hfeeds)),
      Option.bind_eq_bind, Option.bind_some, List.foldlM_append,
      h.addendsOf_eq hids hp hmerge (by simp), h.addendsOf_eq hids hp hmerge (by simp),
      exec_additions (store.set_self ..) fun s hs => hadded .residual s hs _,
      Option.bind_eq_bind, Option.bind_some, Store.set_set,
      exec_additions (store.set_self ..) fun s hs => hadded .sum s hs _, Store.set_set,
      ← List.foldl_append, Option.some.inj hequation]

/-- The root and some nodes have their values in their variables. -/
def Computed (order : Emission) (names : Names) (value : String → α) (nodes : List Placed)
    (store : Store α) : Prop :=
  ∀ p ∈ order.root :: nodes, store (names.variableOf order.root.id p.id) = some (value p.id)

/-- The sources of a node stand before it. -/
theorem Computed.feeds (h : IsSound g.nodes g.edges net order overlay) {before after : List Placed}
    {p : Placed} (hnodes : order.nodes = before ++ p :: after)
    (hcomputed : Computed order names value before store) {s : String}
    (hs : Feeds g.edges s p.id) : store (names.variableOf order.root.id s) = some (value s) := by
  have hp : p ∈ order.nodes := hnodes ▸ List.mem_append_right _ List.mem_cons_self
  obtain ⟨e, he, rfl, htarget⟩ := hs
  rcases h.source_emitted he hp htarget with hsource | ⟨q, hq, hsource⟩
  · rw [hsource]
    exact hcomputed order.root List.mem_cons_self
  · have hbefore : q ∈ before := h.isEmission.mem_before before p after hnodes q hq
      (h.edges_eq ▸ ⟨e, he, hsource.symm, htarget⟩)
    rw [← hsource]
    exact hcomputed q (List.mem_cons_of_mem _ hbefore)

/-- Assigning one more node keeps the others. -/
theorem Computed.set (hmodel : order.IsModel overlay model names texts) {before after : List Placed}
    {p : Placed} (hnodes : order.nodes = before ++ p :: after)
    (hcomputed : Computed order names value before store) :
    Computed order names value (before ++ [p])
      (store.set (names.variableOf order.root.id p.id) (value p.id)) := by
  have hsplit : order.nodes = (before ++ [p]) ++ after := by rw [hnodes, List.append_cons]
  have hsub : order.root :: (before ++ [p]) ⊆ order.root :: order.nodes := by
    rw [hsplit]
    exact List.cons_subset_cons _ (List.subset_append_left _ _)
  intro q hq
  by_cases hid : q.id = p.id
  · rw [hid]
    exact store.set_self _ _
  · have hbefore : q ∈ order.root :: before := by
      rw [← List.cons_append, List.mem_append, List.mem_singleton] at hq
      exact hq.resolve_right fun heq => hid (heq ▸ rfl)
    have hemits : ∀ r ∈ order.root :: (before ++ [p]), order.Emits r.id := fun r hr =>
      Emission.emits_iff_mem_cons.2 ⟨r, hsub hr, rfl⟩
    have hne : names.variableOf order.root.id q.id ≠ names.variableOf order.root.id p.id :=
      fun heq => hid (hmodel.variableOf_inj (hemits q hq) (hemits p (by simp)) heq)
    exact (store.set_of_ne hne _).trans (hcomputed q hbefore)

/-- Running nodes, each behind its sources, leaves their values in their variables. -/
theorem exec_nodes (h : IsSound g.nodes g.edges net order overlay)
    (hids : (g.edges.map Edge.id).Nodup) (hmodel : order.IsModel overlay model names texts)
    (hvalue : I.IsValuation (names.fieldOf overlay) g order input value) {before after : List Placed}
    (hnodes : order.nodes = before ++ after) {rest : List NodeText}
    (hwritten : List.Forall₂ (Writes order overlay names) after rest)
    (hcomputed : Computed order names value before store) :
    ∃ last, (rest.flatMap NodeText.statements).foldlM (Stmt.exec I model.fields) store = some last ∧
      Computed order names value order.nodes last := by
  -- Induction on the nodes still to run.
  induction hwritten generalizing before store with
  | nil => exact ⟨store, rfl, by rwa [hnodes, List.append_nil]⟩
  | @cons p text after rest hfirst hrest ih =>
    have hp : p ∈ order.nodes := hnodes ▸ List.mem_append_right _ List.mem_cons_self
    have hsplit : order.nodes = (before ++ [p]) ++ after := by rw [hnodes, List.append_cons]
    obtain ⟨last, hrun, hlast⟩ := ih hsplit (hcomputed.set hmodel hnodes)
    refine ⟨last, ?_, hlast⟩
    rw [List.flatMap_cons, List.foldlM_append,
      h.exec_node hids hmodel hvalue hp hfirst fun s hs => hcomputed.feeds h hnodes hs]
    exact hrun

end IsSound

/-! ## Running a model -/

/-- For every interpretation of the operators, the forward method of a project without faults reads
assigned variables only, leaves in the variable of each node the value that the graph gives it, and
returns that of the last node. The graph gives only one value to each node. -/
theorem forward_computes (p : Project) (hvalid : p.report.isValid = true)
    (hids : (p.architecture.edges.map Edge.id).Nodup) :
    ∃ net order overlay model variableOf fieldOf,
      Network.ofGraph p.architecture.nodes p.architecture.edges = .ok net ∧
      net.emission = .ok order ∧
      propagate p.architecture.nodes p.architecture.edges = .ok overlay ∧
      order.model overlay = .ok model ∧
      model.IsLaidOut order overlay variableOf fieldOf ∧
      ∀ (α : Type u) (I : Interpretation α) (input : α), ∃ value store result last,
        I.IsValuation fieldOf p.architecture order input value ∧
        (∀ other, I.IsValuation fieldOf p.architecture order input other →
          ∀ id, order.Emits id → other id = value id) ∧
        model.run I input = some (store, result) ∧
        (∀ id, order.Emits id → store (variableOf id) = some (value id)) ∧
        order.last? = some last ∧ result = value last.id := by
  rw [Report.isValid_iff, Project.report, Report.faults_append, List.append_eq_nil_iff] at hvalid
  obtain ⟨net, order, overlay, h⟩ := architectureReport_isValid_iff.1 hvalid.1
  obtain ⟨model, names, texts, hok, hmodel⟩ := h.exists_model
  refine ⟨net, order, overlay, model, _, _, h.ofGraph, h.emission, h.propagate, hok,
    h.isLaidOut hmodel, fun α I input => ?_⟩
  obtain ⟨value, hvalue⟩ : ∃ value,
      I.IsValuation (names.fieldOf overlay) p.architecture order input value :=
    h.exists_valuation hids input
  have hx : names.variableOf order.root.id order.root.id = "x" := if_pos rfl
  have hstart : IsSound.Computed order names value [] (Store.set (fun _ => none) "x" input) := by
    intro q hq
    rw [List.mem_singleton.1 hq, hx, hvalue.root]
    exact Store.set_self _ _ _
  obtain ⟨store, hrun, hcomputed⟩ :=
    h.exec_nodes hids hmodel hvalue (List.nil_append _).symm hmodel.written hstart
  have hstore : ∀ id, order.Emits id →
      store (names.variableOf order.root.id id) = some (value id) := by
    intro id hid
    obtain ⟨q, hq, rfl⟩ := Emission.emits_iff_mem_cons.1 hid
    exact hcomputed q hq
  obtain ⟨last, hlast⟩ : ∃ last, order.last? = some last :=
    ⟨_, List.getLast?_eq_getLast_of_ne_nil h.nonempty⟩
  refine ⟨value, store, value last.id, last, hvalue,
    fun other hother id hid => h.valuation_unique hother hvalue hid, ?_, hstore, hlast, rfl⟩
  have htarget : (texts.getLast?.map NodeText.target).getD "x" =
      names.variableOf order.root.id last.id := by
    rw [← List.getLast?_map,
      hmodel.targets_eq h.isEmission, List.map_map,
      List.getLast?_map, ← Emission.last?, hlast]
    rfl
  rw [Model.run, hmodel.forward, htarget]
  refine Interpretation.run_append_returns hrun ?_
  exact hstore last.id (Emission.emits_of_mem (List.mem_of_getLast? hlast))

theorem forward_computes_sample :
    ∃ (net : Network) (order : Emission) (overlay : Propagation) (model : Model),
      net.emission = .ok order ∧ order.model overlay = .ok model ∧
      ∃ store result, model.run
        ⟨Nat.add, fun _ => Nat.succ, fun _ => id, fun _ values => values.foldl Nat.add 0⟩ 1 =
          some (store, result) := by
  obtain ⟨net, order, overlay, model, variableOf, fieldOf, -, horder, -, hmodel, -, hruns⟩ :=
    forward_computes Project.sample (by decide +kernel) (by decide +kernel)
  obtain ⟨value, store, result, last, -, -, hrun, -⟩ :=
    hruns Nat ⟨Nat.add, fun _ => Nat.succ, fun _ => id, fun _ values => values.foldl Nat.add 0⟩ 1
  exact ⟨net, order, overlay, model, horder, hmodel, store, result, hrun⟩

end LayerGraph
