import LayerGraph.Proofs.Layouts
import LayerGraph.Proofs.NodeShapes
/-!
# Shapes of generated models

`NodeText.IsShaped shapeOf p text` says that the statements of a node fit shapes of the variables:
its operands have the shapes that its rule wants, its target the shape that the rule makes of them,
what is added has this shape too, and the constructor of its field names dimensions of its input.

`shapes_fit`: in the model of a project without faults this is so at every node, for the propagated
shapes.
-/

namespace LayerGraph
set_option autoImplicit false

/-! ## Variables of expressions -/

mutual

/-- The variables that an expression reads. -/
def Expr.reads : Expr → List String
  | .var name => [name]
  | .call _ args _ => Expr.readsAll args
  | .sum items => Expr.readsAll items
  | .concat items _ => Expr.readsAll items

/-- The variables that several expressions read. -/
def Expr.readsAll : List Expr → List String
  | [] => []
  | e :: rest => e.reads ++ Expr.readsAll rest

end

theorem readsAll_vars (f : String → String) (ids : List String) :
    Expr.readsAll (ids.map fun id => .var (f id)) = ids.map f := by
  induction ids with
  | nil => rfl
  | cons id rest ih =>
    rw [List.map_cons, Expr.readsAll, ih]
    rfl

theorem ValueText.reads_eq {names : Names} {root : String} {p : Placed} {params : Params}
    {operands : List String} {value : NodeValue}
    (h : ValueText names root p params operands value)
    (hone : p.operator.isMerge = false → operands.length = 1) :
    value.value.reads = operands.map (names.variableOf root) := by
  cases h with
  | sum => exact readsAll_vars _ _
  | concat => exact readsAll_vars _ _
  | flatten s rest hrule hoperands =>
    have hlength := hone (by rw [Operator.isMerge, hrule]; rfl)
    obtain rfl : rest = [] := by simpa [hoperands] using hlength
    rw [hoperands]
    rfl
  | field s rest constructor hmerge hrule hoperands =>
    have hlength := hone hmerge
    obtain rfl : rest = [] := by simpa [hoperands] using hlength
    rw [hoperands]
    rfl

/-! ## Statements with shapes -/

/-- The constructor of a field has the dimensions of the input of the field. -/
def FieldDecl.Fits (field : FieldDecl) (o : Operator) (input : Shape) : Prop :=
  ∃ callee keywords, field.constructor = .call callee [] keywords ∧
    ∀ name ∈ learnedNames,
      (∀ text, (name, text) ∈ keywords →
        ∃ size, learnedDim? name input = some (.fixed size) ∧ text = size.repr) ∧
      ((∃ decl ∈ o.params, decl.name = name) → ∃ text, (name, text) ∈ keywords)

/-- The statements of a node fit shapes of the variables. -/
structure NodeText.IsShaped (shapeOf : String → Option Shape) (p : Placed) (text : NodeText)
    (value : Expr) (additions : List Stmt) (inputs : List Shape) (result : RuleResult) : Prop where
  statements : text.statements = .assign text.target value :: additions
  reads : value.reads.mapM shapeOf = some inputs
  rule : p.operator.rule.apply (p.operator.resolve p.node.params) inputs = .ok result
  target : shapeOf text.target = some result.shape
  added : ∀ stmt ∈ additions, ∃ operand kind, stmt = .accumulate text.target operand kind ∧
    shapeOf operand = shapeOf text.target
  ranks : ∀ rank, p.operator.inputRank? = some rank → ∀ input ∈ inputs, input.rank = rank
  field : ∀ field, text.field = some field → ∃ name input,
    value = .call ("self." ++ field.name) [.var name] [] ∧ shapeOf name = some input ∧
      field.Fits p.operator input

namespace Network

variable {net : Network}

theorem exists_edge_of_mem_sourcesOfKind {kind : EdgeKind} {s id : String}
    (h : s ∈ net.sourcesOfKind kind id) :
    ∃ e ∈ net.edges, e.source = s ∧ e.target = id ∧ e.kind = kind := by
  obtain ⟨p, -, h⟩ := List.mem_flatMap.1 h
  obtain ⟨e, he, rfl⟩ := List.mem_map.1 h
  obtain ⟨he, hkeep⟩ := List.mem_filter.1 he
  obtain ⟨htarget, hkind⟩ := of_decide_eq_true hkeep
  exact ⟨e, (List.mem_filter.1 he).1, rfl, htarget, hkind⟩

end Network

/-! ## Keyword arguments -/

theorem mem_keywordArgs {o : Operator} {params : Params} {name text : String} :
    (name, text) ∈ keywordArgs o params ↔
      (∃ decl ∈ o.params, decl.name = name) ∧
        ∃ value, params.get? name = some value ∧ text = value.literal := by
  simp only [keywordArgs, List.mem_filterMap, Option.map_eq_some_iff, Prod.mk.injEq]
  constructor
  · rintro ⟨decl, hdecl, value, hvalue, rfl, rfl⟩
    exact ⟨⟨decl, hdecl, rfl⟩, value, hvalue, rfl⟩
  · rintro ⟨⟨decl, hdecl, rfl⟩, value, hvalue, rfl⟩
    exact ⟨decl, hdecl, value, hvalue, rfl, rfl⟩

/-! ## Shapes of variables -/

/-- The shape of the output that a variable holds. -/
def Emission.variableShape? (order : Emission) (overlay : Propagation) (names : Names)
    (name : String) : Option Shape :=
  ((order.root :: order.nodes).find? fun p => names.variableOf order.root.id p.id = name).bind
    fun p => overlay.shape? p.id

theorem Emission.IsModel.variableShape?_eq {order : Emission} {overlay : Propagation}
    {model : Model} {names : Names} {texts : List NodeText}
    (h : order.IsModel overlay model names texts) {id : String}
    (hid : order.Emits id) :
    order.variableShape? overlay names (names.variableOf order.root.id id) =
      overlay.shape? id := by
  obtain ⟨p, hp, rfl⟩ := Emission.emits_iff_mem_cons.1 hid
  cases hfound : (order.root :: order.nodes).find? fun q =>
      names.variableOf order.root.id q.id = names.variableOf order.root.id p.id with
  | none => simpa using List.find?_eq_none.1 hfound p hp
  | some q =>
    -- The variable found belongs to the node, since variables differ.
    have hq : order.Emits q.id :=
      Emission.emits_iff_mem_cons.2 ⟨q, List.mem_of_find?_eq_some hfound, rfl⟩
    have heq : names.variableOf order.root.id q.id = names.variableOf order.root.id p.id := by
      simpa using List.find?_some hfound
    rw [Emission.variableShape?, hfound, Option.bind_some, h.variableOf_inj hq hid heq]

namespace IsSound

variable {nodes : List Node} {edges : List Edge} {net : Network} {order : Emission}
  {overlay : Propagation}

/-- A learned parameter has the value of the dimension that it was learned from. -/
theorem get?_effectiveParams (h : IsSound nodes edges net order overlay) {p : Placed}
    (hp : p ∈ order.nodes) {inputs : List Shape} {result : RuleResult}
    (hresult : HasResult net overlay p inputs result) (hbatched : ∀ s ∈ inputs, s.IsBatched)
    {decl : ParamDecl} (hdecl : decl ∈ p.operator.params) (hname : decl.name ∈ learnedNames) :
    ∃ input size, inputs = [input] ∧ learnedDim? decl.name input = some (.fixed size) ∧
      (overlay.effectiveParams p).get? decl.name = some (.int size) := by
  have hlearned := Operator.learnedName?_eq_some (h.mem_all (h.isEmission.mem_net hp)) hdecl hname
  obtain ⟨input, dim, rfl, hdim, hlearn⟩ := Rule.learned_of_apply hresult.apply hlearned
  have hfixed : ∃ size, dim = .fixed size := by
    have hinput := hbatched input (List.mem_singleton_self _)
    unfold learnedDim? at hdim
    split at hdim
    · obtain ⟨size, hsize⟩ := hinput.isFixed_last
      exact ⟨size, Option.some.inj (hdim.symm.trans hsize)⟩
    · split at hdim
      · obtain ⟨size, hsize⟩ := hinput.isFixed_get?
        exact ⟨size, Option.some.inj (hdim.symm.trans hsize)⟩
      · cases hdim
  obtain ⟨size, rfl⟩ := hfixed
  refine ⟨input, size, rfl, hdim, ?_⟩
  have htable : overlay.learned.get? p.id = some (Table.ofList [(decl.name, .int size)]) := by
    rw [hresult.learned, Propagation.learnedOf, hlearn]
    rfl
  have hget : (Table.ofList [(decl.name, ParamValue.int size)]).get? decl.name =
      some (.int size) := (Table.get?_ofList_eq_some_iff (by simp)).2 (by simp)
  rw [Propagation.get?_effectiveParams, htable, Option.bind_some, hget]
  rfl

theorem fits_of_constructorCall (h : IsSound nodes edges net order overlay) {p : Placed}
    (hp : p ∈ order.nodes) {input : Shape} {result : RuleResult}
    (hresult : HasResult net overlay p [input] result) (hbatched : input.IsBatched)
    {field : FieldDecl}
    (hfield : constructorCall p.operator (overlay.effectiveParams p) = .ok field.constructor) :
    field.Fits p.operator input := by
  unfold constructorCall at hfield
  split at hfield
  · rename_i callee _
    refine ⟨callee, _, (Except.ok.inj hfield).symm, fun name hname => ?_⟩
    have hvalue : (∃ decl ∈ p.operator.params, decl.name = name) →
        ∃ size, learnedDim? name input = some (.fixed size) ∧
          (overlay.effectiveParams p).get? name = some (.int size) := by
      rintro ⟨decl, hdecl, rfl⟩
      obtain ⟨input', size, hinput, hdim, hget⟩ := h.get?_effectiveParams hp hresult
        (fun s hs => List.mem_singleton.1 hs ▸ hbatched) hdecl hname
      obtain rfl := (List.cons.inj hinput).1
      exact ⟨size, hdim, hget⟩
    refine ⟨fun text htext => ?_, fun hdecl => ?_⟩
    · obtain ⟨hdecl, value, hget, rfl⟩ := mem_keywordArgs.1 htext
      obtain ⟨size, hdim, hsize⟩ := hvalue hdecl
      obtain rfl := Option.some.inj (hget.symm.trans hsize)
      exact ⟨size, hdim, rfl⟩
    · obtain ⟨size, -, hsize⟩ := hvalue hdecl
      exact ⟨_, mem_keywordArgs.2 ⟨hdecl, _, hsize, rfl⟩⟩
  · cases hfield

/-! ## Variables of nodes -/

/-- The sources of additions are the root or emitted, and have the shape of the output. -/
theorem shape?_addendsOf (h : IsSound nodes edges net order overlay) {p : Placed}
    (hp : p ∈ order.nodes) {kind : EdgeKind} (hkind : kind ≠ .normal) {s : String}
    (hs : s ∈ order.addendsOf kind p.id) :
    order.Emits s ∧ overlay.shape? s = overlay.shape? p.id := by
  rw [h.isEmission.addendsOf p (h.isEmission.mem_net hp) kind hkind] at hs
  cases hmerge : p.operator.isMerge with
  | true => simp [hmerge] at hs
  | false =>
    rw [hmerge, if_neg Bool.false_ne_true] at hs
    obtain ⟨e, he, rfl, htarget, rfl⟩ := Network.exists_edge_of_mem_sourcesOfKind hs
    rw [h.edges_eq] at he
    exact ⟨h.source_emitted he hp htarget, h.shape_of_addend hp hmerge he htarget hkind⟩

variable {model : Model} {names : Names} {texts : List NodeText} {p : Placed} {text : NodeText}
  {inputs : List Shape} {result : RuleResult}

/-- Every input of an operator has the rank that it may read. -/
theorem rank_of_mem_inputs (h : IsSound nodes edges net order overlay) (hp : p ∈ order.nodes)
    (hresult : HasResult net overlay p inputs result) {rank : Nat}
    (hrank : p.operator.inputRank? = some rank) {input : Shape} (hinput : input ∈ inputs) :
    input.rank = rank := by
  rcases Operator.inputRank?_eq_some (h.mem_all (h.isEmission.mem_net hp)) hrank with
    ⟨hrule, rfl⟩ | htested
  · -- A dense layer keeps the rank, and its output is declared flat.
    have happly := hresult.apply
    rw [hrule] at happly
    obtain ⟨only, rfl, hlinear⟩ := Rule.exists_of_onlyInput happly
    obtain rfl := List.mem_singleton.1 hinput
    rw [← Rule.rank_linearShape hlinear]
    exact h.rank_of_flat (h.isEmission.mem_net hp) (declaredLayout?_of_linear hrule) hresult.shape
  · obtain ⟨only, rfl, honly⟩ := Rule.rank_of_apply hresult.apply htested
    exact List.mem_singleton.1 hinput ▸ honly

/-- A node that is not a merge has one input, the shape of its one operand. -/
theorem exists_input (h : IsSound nodes edges net order overlay) (hp : p ∈ order.nodes)
    (hmerge : p.operator.isMerge = false) (hresult : HasResult net overlay p inputs result) :
    ∃ e input, order.inputsOf p.id = [e] ∧ overlay.shape? e = some input ∧ inputs = [input] := by
  obtain ⟨e, -, -, -, hoperands⟩ := h.operands_of_not_isMerge hp hmerge
  have hread := hresult.read
  rw [hoperands, List.mapM_cons, List.mapM_nil] at hread
  obtain ⟨input, hinput, hrest⟩ := Option.bind_eq_some_iff.1 hread
  exact ⟨e.source, input, by rw [h.isEmission.inputsOf p hp, hoperands], hinput,
    (Option.some.inj hrest).symm⟩

theorem variableShape?_target (h : IsSound nodes edges net order overlay)
    (hmodel : order.IsModel overlay model names texts) (hp : p ∈ order.nodes)
    (hwrites : Writes order overlay names p text) :
    order.variableShape? overlay names text.target = overlay.shape? p.id := by
  rw [hwrites.target_eq (h.isEmission.id_ne_root hp)]
  exact hmodel.variableShape?_eq (Emission.emits_of_mem hp)

/-- What is added to a variable has the shape of the variable. -/
theorem variableShape?_addition (h : IsSound nodes edges net order overlay)
    (hmodel : order.IsModel overlay model names texts) (hp : p ∈ order.nodes)
    (hwrites : Writes order overlay names p text) {kind : EdgeKind} (hkind : kind ≠ .normal)
    {stmt : Stmt} (hstmt : stmt ∈ additions text.target kind
      ((order.addendsOf kind p.id).map (names.variableOf order.root.id))) :
    ∃ operand kind, stmt = .accumulate text.target operand kind ∧
      order.variableShape? overlay names operand =
        order.variableShape? overlay names text.target := by
  obtain ⟨operand, hoperand, rfl⟩ := List.mem_map.1 hstmt
  obtain ⟨s, hs, rfl⟩ := List.mem_map.1 hoperand
  obtain ⟨hemitted, hshape⟩ := h.shape?_addendsOf hp hkind hs
  refine ⟨_, kind, rfl, ?_⟩
  rw [hmodel.variableShape?_eq hemitted, hshape, h.variableShape?_target hmodel hp hwrites]

/-- What is written for an emitted node fits the propagated shapes. -/
theorem exists_isShaped (h : IsSound nodes edges net order overlay)
    (hmodel : order.IsModel overlay model names texts) (hp : p ∈ order.nodes)
    (hwrites : Writes order overlay names p text) :
    ∃ value additions inputs result,
      text.IsShaped (order.variableShape? overlay names) p value additions inputs result := by
  obtain ⟨value, hvalue, hfield, hstatements⟩ := hwrites.value
  obtain ⟨inputs, result, hresult, hbatched, -⟩ := h.exists_result hp
  have htarget := h.variableShape?_target hmodel hp hwrites
  have hone : p.operator.isMerge = false → (order.inputsOf p.id).length = 1 := fun hmerge => by
    obtain ⟨e, input, hinputs, -⟩ := h.exists_input hp hmerge hresult
    rw [hinputs, List.length_singleton]
  have hreads : value.value.reads.mapM (order.variableShape? overlay names) = some inputs := by
    rw [hvalue.reads_eq hone, h.isEmission.inputsOf p hp, List.mapM_map, ← hresult.read]
    exact Propagation.mapM_congr fun s hs => hmodel.variableShape?_eq (h.operand_emitted hp hs)
  refine ⟨value.value, _, inputs, result, hstatements, hreads, hresult.apply,
    htarget.trans hresult.shape, fun stmt hstmt => ?_,
    fun rank hrank input hinput => h.rank_of_mem_inputs hp hresult hrank hinput,
    fun field hdecl => ?_⟩
  · rcases List.mem_append.1 hstmt with hstmt | hstmt
    · exact h.variableShape?_addition hmodel hp hwrites (by simp) hstmt
    · exact h.variableShape?_addition hmodel hp hwrites (by simp) hstmt
  · rw [hfield] at hdecl
    cases hvalue with
    | field s rest constructor hmerge hrule hoperands hconstructor =>
      obtain rfl := Option.some.inj hdecl
      obtain ⟨e, input, hinputs, hshape, rfl⟩ := h.exists_input hp hmerge hresult
      obtain ⟨rfl, rfl⟩ := List.cons.inj (hoperands.symm.trans hinputs)
      have hemitted : order.Emits s := h.operand_emitted hp <| by
        rw [← h.isEmission.inputsOf p hp, hinputs]
        exact List.mem_singleton_self _
      exact ⟨_, input, rfl, (hmodel.variableShape?_eq hemitted).trans hshape,
        h.fits_of_constructorCall hp hresult (hbatched input (List.mem_singleton_self _))
          hconstructor⟩
    | _ => cases hdecl

end IsSound

/-! ## Models with shapes -/

/-- The statements of a model are those of its nodes, each variable is assigned once, and shapes of
the variables fit them all. -/
structure Model.IsShaped (model : Model) (order : Emission) (overlay : Propagation)
    (shapeOf : String → Option Shape) (texts : List NodeText) : Prop where
  fields : model.fields = texts.filterMap NodeText.field
  forward : model.forward = texts.flatMap NodeText.statements
    ++ [.returns (.var ((texts.getLast?.map NodeText.target).getD "x"))]
  nodup : ("x" :: texts.map NodeText.target).Nodup
  input : shapeOf "x" = overlay.shape? order.root.id
  nodes : List.Forall₂
    (fun p text => shapeOf text.target = overlay.shape? p.id ∧
      ∃ value additions inputs result, text.IsShaped shapeOf p value additions inputs result)
    order.nodes texts

/-- The model of an architecture without faults fits the propagated shapes. -/
theorem Emission.IsModel.isShaped {nodes : List Node} {edges : List Edge} {net : Network}
    {order : Emission} {overlay : Propagation} {model : Model} {names : Names}
    {texts : List NodeText} (h : order.IsModel overlay model names texts)
    (hsound : IsSound nodes edges net order overlay) :
    model.IsShaped order overlay (order.variableShape? overlay names) texts where
  fields := h.fields
  forward := h.forward
  nodup := h.nodup_targets hsound.isEmission
  input := by
    have hroot := h.variableShape?_eq (.inl rfl)
    rwa [Names.variableOf, if_pos rfl] at hroot
  nodes := by
    have hmem : List.Forall₂ (fun p text => p ∈ order.nodes ∧ Writes order overlay names p text)
        order.nodes texts := (List.forall₂_and_left _ _).2 ⟨fun _ hp => hp, h.written⟩
    refine hmem.imp fun p text hboth => ?_
    obtain ⟨hp, hwrites⟩ := hboth
    exact ⟨hsound.variableShape?_target h hp hwrites, hsound.exists_isShaped h hp hwrites⟩

/-- Without faults every node of the model gets a shape, and its statements fit the shapes. -/
theorem shapes_fit (p : Project) (h : p.report.isValid = true) :
    ∃ net order overlay model,
      Network.ofGraph p.architecture.nodes p.architecture.edges = .ok net ∧
      net.emission = .ok order ∧
      propagate p.architecture.nodes p.architecture.edges = .ok overlay ∧
      order.model overlay = .ok model ∧
      (∀ q, q = order.root ∨ q ∈ order.nodes → ∃ shape, overlay.shape? q.id = some shape) ∧
      ∃ shapeOf texts, model.IsShaped order overlay shapeOf texts := by
  rw [Report.isValid_iff, Project.report, Report.faults_append, List.append_eq_nil_iff] at h
  obtain ⟨net, order, overlay, hsound⟩ := architectureReport_isValid_iff.1 h.1
  obtain ⟨model, names, texts, hok, hmodel⟩ := hsound.exists_model
  refine ⟨net, order, overlay, model, hsound.ofGraph, hsound.emission, hsound.propagate, hok,
    fun q hq => ?_, order.variableShape? overlay names, texts, hmodel.isShaped hsound⟩
  have hid : order.Emits q.id :=
    Emission.emits_iff_mem_cons.2 ⟨q, List.mem_cons.2 hq, rfl⟩
  exact (hsound.exists_shape hid).imp fun _ => And.left

theorem shapes_fit_sample :
    ∃ (net : Network) (order : Emission) (overlay : Propagation) (model : Model),
      net.emission = .ok order ∧ order.model overlay = .ok model ∧
      ∃ shapeOf texts, model.IsShaped order overlay shapeOf texts := by
  obtain ⟨net, order, overlay, model, -, horder, -, hmodel, -, hshaped⟩ :=
    shapes_fit Project.sample (by decide +kernel)
  exact ⟨net, order, overlay, model, horder, hmodel, hshaped⟩

end LayerGraph
