import LayerGraph.Proofs.NamedModel
/-!
# Single assignment and linkage

Whatever a network draws, valid or not, and whatever overlay it is written with: if it has an emission
order and a model, the statements of the model stand in groups, one for each emitted node, and its
fields and the calls of fields belong together.

* `Network.IsGroup`: the statements of one node, its assignment and one addition for each residual
  edge and then for each sum edge into it.
* `Model.IsSingleAssignment`: the groups in emission order, each onto a variable of its own, and one
  return behind them.
* `Model.IsLinked`: each field is called by one statement, and what is called is a field.
* `model_linked`: every model is both.
-/

namespace LayerGraph
set_option autoImplicit false

/-! ## Calls -/

mutual

/-- What an expression calls. -/
def Expr.callees : Expr → List String
  | .var _ => []
  | .call callee args _ => callee :: Expr.calleesAll args
  | .sum items => Expr.calleesAll items
  | .concat items _ => Expr.calleesAll items

/-- What several expressions call. -/
def Expr.calleesAll : List Expr → List String
  | [] => []
  | e :: rest => e.callees ++ Expr.calleesAll rest

end

/-- What a statement calls. -/
def Stmt.callees : Stmt → List String
  | .assign _ value => value.callees
  | .accumulate _ _ _ => []
  | .returns value => value.callees

/-- What a statement returns. -/
def Stmt.returned? : Stmt → Option Expr
  | .returns value => some value
  | _ => none

theorem calleesAll_vars (f : String → String) (ids : List String) :
    Expr.calleesAll (ids.map fun id => .var (f id)) = [] := by
  induction ids with
  | nil => rfl
  | cons id rest ih => rw [List.map_cons, Expr.calleesAll, Expr.callees, ih, List.append_nil]

theorem self_ne_flatten (name : String) : "self." ++ name ≠ "torch.flatten" := by
  intro heq
  have hchars := congrArg String.toList heq
  rw [String.toList_append] at hchars
  cases hchars

/-- Beside flattening a value calls the field that it comes with, if there is one. -/
theorem ValueText.fieldCalls_eq {names : Names} {root : String} {p : Placed} {params : Params}
    {operands : List String} {value : NodeValue}
    (h : ValueText names root p params operands value) :
    value.value.callees.filter (· ≠ "torch.flatten") =
      (value.field.map fun field => "self." ++ field.name).toList := by
  cases h with
  | sum => rw [Expr.callees, calleesAll_vars]; rfl
  | concat => rw [Expr.callees, calleesAll_vars]; rfl
  | flatten => rfl
  | field =>
    have hkeep := self_ne_flatten (names.nameOf p.id)
    simp [Expr.callees, Expr.calleesAll, hkeep]

theorem callees_additions (target : String) (kind : EdgeKind) (operands : List String) :
    (additions target kind operands).flatMap Stmt.callees = [] :=
  List.flatMap_eq_nil_iff.2 fun stmt hstmt => by
    obtain ⟨operand, -, rfl⟩ := List.mem_map.1 hstmt
    rfl

theorem Writes.fieldCalls_eq {order : Emission} {overlay : Propagation} {names : Names} {p : Placed}
    {text : NodeText} (h : Writes order overlay names p text) :
    (text.statements.flatMap Stmt.callees).filter (· ≠ "torch.flatten") =
      (text.field.map fun field => "self." ++ field.name).toList := by
  obtain ⟨value, hvalue, hfield, hstatements⟩ := h.value
  rw [hstatements, List.flatMap_cons, List.flatMap_append, callees_additions, callees_additions,
    List.append_nil, List.append_nil, hfield]
  exact hvalue.fieldCalls_eq

/-- An element that occurs once in lists occurs in one of them. -/
theorem countP_of_count_flatMap {α : Type} {items : List α} {f : α → List String} {name : String}
    (h : (items.flatMap f).count name = 1) : items.countP (fun a => name ∈ f a) = 1 := by
  induction items with
  | nil => cases h
  | cons a rest ih =>
    rw [List.flatMap_cons, List.count_append] at h
    by_cases hmem : name ∈ f a
    · have hfirst := List.count_pos_iff.2 hmem
      have hrest : rest.countP (fun b => name ∈ f b) = 0 := by
        apply List.countP_eq_zero.2
        intro b hb hname
        have hcount := List.count_pos_iff.2
          (List.mem_flatMap.2 ⟨b, hb, of_decide_eq_true hname⟩)
        omega
      rw [List.countP_cons_of_pos (by simpa using hmem), hrest]
    · rw [List.countP_cons_of_neg (by simpa using hmem)]
      apply ih
      rwa [List.count_eq_zero.2 hmem, Nat.zero_add] at h

/-! ## Models -/

/-- The edges of a kind into a node that are added to its output. A merge reads all its edges. -/
def Network.addedEdges (net : Network) (kind : EdgeKind) (p : Placed) : List Edge :=
  if p.operator.isMerge then [] else net.edgesOfKind kind p.id

/-- The statements of a node: its variable is assigned, and right behind it the sources of the
residual edges into it and then those of the sum edges are added to this variable. -/
def Network.IsGroup (net : Network) (variableOf : String → String) (p : Placed)
    (group : List Stmt) : Prop :=
  ∃ value residual sums,
    group = .assign (variableOf p.id) value
      :: (additions (variableOf p.id) .residual residual
        ++ additions (variableOf p.id) .sum sums) ∧
    residual.Perm ((net.addedEdges .residual p).map fun e => variableOf e.source) ∧
    sums.Perm ((net.addedEdges .sum p).map fun e => variableOf e.source)

/-- An id that stands in the forward method for a variable: that of the root, of an emitted node or
of a node that one of these reads. -/
def Emission.Mentions (order : Emission) (id : String) : Prop :=
  order.Emits id ∨ ∃ p ∈ order.nodes, id ∈ order.readsOf p.id

/-- The forward method has one group for each emitted node, in emission order, and returns the
variable of the last of them; without emitted nodes it returns its argument. -/
structure Model.IsSingleAssignment (model : Model) (net : Network) (order : Emission)
    (variableOf : String → String) : Prop where
  argument : variableOf order.root.id = "x"
  variable_inj : ∀ a b, order.Mentions a → order.Mentions b → variableOf a = variableOf b → a = b
  nodup : ("x" :: order.nodes.map fun p => variableOf p.id).Nodup
  forward : ∃ groups, List.Forall₂ (net.IsGroup variableOf) order.nodes groups ∧
    model.forward = groups.flatten
      ++ [.returns (.var ((order.last?.map fun p => variableOf p.id).getD "x"))]
  assigned : model.forward.filterMap Stmt.assigned? = order.nodes.map fun p => variableOf p.id
  returned : model.forward.filterMap Stmt.returned? =
    [.var ((order.last?.map fun p => variableOf p.id).getD "x")]

/-- The fields have different names, each is called by one statement, and what is called is a field;
the blocks are those of the emitted nodes. -/
structure Model.IsLinked (model : Model) (order : Emission) : Prop where
  nodup_fields : (model.fields.map FieldDecl.name).Nodup
  called : ∀ field ∈ model.fields,
    model.forward.countP (fun stmt => "self." ++ field.name ∈ stmt.callees) = 1
  declared : ∀ stmt ∈ model.forward, ∀ name, "self." ++ name ∈ stmt.callees →
    ∃ field ∈ model.fields, field.name = name
  blocks : ∀ block, block ∈ model.blocks ↔ ∃ p ∈ order.nodes, p.operator.block? = some block
  nodup_blocks : model.blocks.Nodup

namespace Emission.IsModel

variable {net : Network} {order : Emission} {overlay : Propagation} {model : Model}
  {names : Names} {texts : List NodeText}

theorem covers_of_mentions (h : order.IsModel overlay model names texts) {id : String}
    (hid : order.Mentions id) : names.Covers order.root.id id := by
  rcases hid with hid | ⟨p, hp, hid⟩
  · exact h.covers hid
  · obtain ⟨text, -, hwrites⟩ := h.exists_writes hp
    exact hwrites.covers id (.inr (mem_readsOf.1 hid))

theorem last_eq (h : order.IsModel overlay model names texts) (hemission : net.IsEmission order) :
    (texts.getLast?.map NodeText.target).getD "x" =
      (order.last?.map fun p => names.variableOf order.root.id p.id).getD "x" := by
  rw [← List.getLast?_map, h.targets_eq hemission, List.map_map, List.getLast?_map, last?]
  rfl

theorem isGroup (hemission : net.IsEmission order) {p : Placed} (hp : p ∈ order.nodes)
    {text : NodeText} (hwrites : Writes order overlay names p text) :
    net.IsGroup (names.variableOf order.root.id) p text.statements := by
  obtain ⟨value, -, -, hstatements⟩ := hwrites.value
  have hadded : ∀ kind, kind ≠ .normal →
      ((order.addendsOf kind p.id).map (names.variableOf order.root.id)).Perm
        ((net.addedEdges kind p).map fun e => names.variableOf order.root.id e.source) := by
    intro kind hkind
    rw [hemission.addendsOf p (hemission.mem_net hp) kind hkind, Network.addedEdges]
    split
    · exact .refl _
    · have hperm := (net.perm_sourcesOfKind kind p.id).map (names.variableOf order.root.id)
      rwa [List.map_map] at hperm
  rw [hwrites.target_eq (hemission.id_ne_root hp)] at hstatements
  exact ⟨value.value, _, _, hstatements, hadded .residual (by decide), hadded .sum (by decide)⟩

theorem isSingleAssignment (h : order.IsModel overlay model names texts)
    (hemission : net.IsEmission order) :
    model.IsSingleAssignment net order (names.variableOf order.root.id) where
  argument := if_pos rfl
  variable_inj := fun _ _ ha hb heq =>
    Names.variableOf_inj h.table (h.covers_of_mentions ha) (h.covers_of_mentions hb) heq
  nodup := by
    have hnodup := h.nodup_targets hemission
    rwa [h.targets_eq hemission, List.map_map] at hnodup
  forward := by
    refine ⟨texts.map NodeText.statements, ?_, ?_⟩
    · rw [List.forall₂_map_right_iff]
      have hwritten : List.Forall₂ (fun p text => p ∈ order.nodes ∧
          Writes order overlay names p text) order.nodes texts :=
        (List.forall₂_and_left _ _).2 ⟨fun _ hp => hp, h.written⟩
      exact hwritten.imp fun p text ⟨hp, hwrites⟩ => isGroup hemission hp hwrites
    · rw [← h.last_eq hemission, ← List.flatMap_def]
      exact h.forward
  assigned := by
    rw [h.assigned, h.targets_eq hemission, List.map_map]
    rfl
  returned := by
    have hgroups : (texts.flatMap NodeText.statements).filterMap Stmt.returned? = [] := by
      rw [List.filterMap_flatMap, h.flatMap_eq (g := fun _ => []) fun p _ text hwrites => ?_]
      · exact List.flatMap_eq_nil_iff.2 fun _ _ => rfl
      · obtain ⟨value, -, -, hstatements⟩ := hwrites.value
        have hadded : ∀ target operand kind,
            Stmt.returned? (.accumulate target operand kind) = none := fun _ _ _ => rfl
        rw [hstatements, List.filterMap_cons, List.filterMap_append, filterMap_additions hadded,
          filterMap_additions hadded]
        rfl
    rw [h.forward, List.filterMap_append, hgroups, h.last_eq hemission]
    rfl

/-- The calls of fields, in the order of the fields. -/
theorem fieldCalls_eq (h : order.IsModel overlay model names texts) :
    (model.forward.flatMap Stmt.callees).filter (· ≠ "torch.flatten") =
      model.fields.map fun field => "self." ++ field.name := by
  have hreturn : ∀ name, ([Stmt.returns (.var name)].flatMap Stmt.callees).filter
      (· ≠ "torch.flatten") = [] := fun _ => rfl
  rw [h.forward, List.flatMap_append, List.filter_append, hreturn, List.append_nil,
    List.flatMap_assoc, List.filter_flatMap, h.fields_eq, List.map_map, ← flatMap_ite_singleton]
  refine h.flatMap_eq fun p _ text hwrites => ?_
  rw [hwrites.fieldCalls_eq, hwrites.field_eq]
  split <;> rfl

theorem isLinked (h : order.IsModel overlay model names texts) (hemission : net.IsEmission order)
    (hblocks : model.blocks = Block.all.filter fun block =>
      order.nodes.any (·.operator.block? = some block)) : model.IsLinked order where
  nodup_fields := h.nodup_fields hemission
  called := by
    intro field hfield
    have hinj : Function.Injective fun name => "self." ++ name := fun _ _ heq =>
      (String.append_right_inj _).1 heq
    have hnodup : (model.fields.map fun field => "self." ++ field.name).Nodup := by
      have hnames := (h.nodup_fields hemission).map hinj
      rwa [List.map_map] at hnames
    have hone := List.count_eq_one_of_mem hnodup (List.mem_map.2 ⟨field, hfield, rfl⟩)
    have hcalls : ((model.forward.flatMap Stmt.callees).filter (· ≠ "torch.flatten")).count
        ("self." ++ field.name) = (model.forward.flatMap Stmt.callees).count
          ("self." ++ field.name) :=
      List.count_filter (decide_eq_true (self_ne_flatten field.name))
    rw [← h.fieldCalls_eq, hcalls] at hone
    exact countP_of_count_flatMap hone
  declared := by
    intro stmt hstmt name hname
    have hcall : "self." ++ name ∈ model.fields.map fun field => "self." ++ field.name := by
      rw [← h.fieldCalls_eq]
      exact List.mem_filter.2 ⟨List.mem_flatMap.2 ⟨stmt, hstmt, hname⟩,
        decide_eq_true (self_ne_flatten name)⟩
    obtain ⟨field, hfield, heq⟩ := List.mem_map.1 hcall
    exact ⟨field, hfield, (String.append_right_inj _).1 heq⟩
  blocks := by
    intro block
    have hall : block ∈ Block.all := by cases block <;> decide
    rw [hblocks, List.mem_filter, and_iff_right hall, List.any_eq_true]
    simp only [decide_eq_true_iff]
  nodup_blocks := by
    rw [hblocks]
    exact List.Nodup.filter _ (by decide)

end Emission.IsModel

/-- Every model is straight-line code in single assignment form, whose calls of fields and whose
fields belong together. -/
theorem model_linked (net : Network) (order : Emission) (overlay : Propagation) (model : Model)
    (horder : net.emission = .ok order) (hmodel : order.model overlay = .ok model) :
    (∃ variableOf, model.IsSingleAssignment net order variableOf) ∧ model.IsLinked order := by
  have hemission := Network.isEmission_of_emission horder
  obtain ⟨names, texts, hisModel⟩ := exists_isModel hmodel
  have hblocks : model.blocks = Block.all.filter fun block =>
      order.nodes.any (·.operator.block? = some block) := by
    obtain ⟨texts, -, hrest⟩ := bind_eq_ok_iff.1 hmodel
    rw [← Except.ok.inj hrest]
  exact ⟨⟨_, hisModel.isSingleAssignment hemission⟩, hisModel.isLinked hemission hblocks⟩

/-- A drawing with faults: four ids that make one identifier, an id that is an attribute of every
module, two equal sum edges, and an addition from a node that is not emitted. -/
def Graph.clashing : Graph where
  nodes :=
    [{ id := "data", operatorId := "dataset" },
     { id := "a b", operatorId := "conv2d" },
     { id := "a-b", operatorId := "conv2d" },
     { id := "forward", operatorId := "relu" },
     { id := "a_b", operatorId := "add" },
     { id := "A.B", operatorId := "residualblock" },
     { id := "stray", operatorId := "relu" }]
  edges :=
    [{ id := "1", source := "data", target := "a b" },
     { id := "2", source := "a b", target := "a-b" },
     { id := "3", source := "data", target := "a-b", kind := .residual },
     { id := "4", source := "a b", target := "a-b", kind := .sum },
     { id := "5", source := "a b", target := "a-b", kind := .sum },
     { id := "6", source := "a-b", target := "forward" },
     { id := "7", source := "forward", target := "a_b" },
     { id := "8", source := "a-b", target := "a_b", kind := .residual },
     { id := "9", source := "a_b", target := "A.B" },
     { id := "10", source := "stray", target := "A.B", kind := .residual }]

/-- Its forward method. -/
def Graph.clashingForward : List String :=
  ["a_b_out = self.a_b(x)",
   "a_b_2_out = self.a_b_2(a_b_out)",
   "a_b_2_out = a_b_2_out + x  # residual connection",
   "a_b_2_out = a_b_2_out + a_b_out  # sum connection",
   "a_b_2_out = a_b_2_out + a_b_out  # sum connection",
   "forward_layer_out = self.forward_layer(a_b_2_out)",
   "a_b_3_out = forward_layer_out + a_b_2_out",
   "a_b_4_out = self.a_b_4(a_b_3_out)",
   "a_b_4_out = a_b_4_out + stray_out  # residual connection",
   "return a_b_4_out"]

theorem model_linked_clashing :
    (architectureReport Graph.clashing.nodes Graph.clashing.edges).isValid = false ∧
    ∃ net order model, Network.ofGraph Graph.clashing.nodes Graph.clashing.edges = .ok net ∧
      net.emission = .ok order ∧ order.model {} = .ok model ∧
      model.forward.map Stmt.text = Graph.clashingForward ∧
      (∃ variableOf, model.IsSingleAssignment net order variableOf) ∧ model.IsLinked order := by
  have hvalue : (do
      let net ← Network.ofGraph Graph.clashing.nodes Graph.clashing.edges
      let order ← net.emission
      let model ← order.model {}
      .ok (net, order, model) : Except Fault _).toOption.any (fun found =>
        decide (found.2.2.forward.map Stmt.text = Graph.clashingForward)) = true := by
    decide +kernel
  obtain ⟨found, hfound, htexts⟩ := exists_of_toOption_any hvalue
  obtain ⟨net, hnet, hfound⟩ := bind_eq_ok_iff.1 hfound
  obtain ⟨order, horder, hfound⟩ := bind_eq_ok_iff.1 hfound
  obtain ⟨model, hmodel, hfound⟩ := bind_eq_ok_iff.1 hfound
  obtain rfl := Except.ok.inj hfound
  exact ⟨by decide +kernel, net, order, model, hnet, horder, hmodel, of_decide_eq_true htexts,
    model_linked net order {} model horder hmodel⟩

end LayerGraph
