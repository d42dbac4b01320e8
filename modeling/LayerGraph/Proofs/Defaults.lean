import LayerGraph.Proofs.Applied
/-!
# Defaults that are set explicitly

Most readers of a node see its parameters over the defaults of its operator, so that a default which
is set makes no difference to them. Three tests look at what is set itself: that of the declared
parameters, that of the features of dense layers, and that of the layout of a dataset.

* `Operator.ReadsAlike o a b`: all readers but the last test find the same in both.
* `Ends.layout?` is the layout with which an edge is tested: the declared one, or else that of the
  propagated shape. A dataset declares the layout of the shape that it has, so what stands in the
  first place or in the second is the same (`IsSound.layout?_eq`).
* `Graph.Retyped g g'`: one node has other parameters that are read alike. Then `g'` is without
  faults when `g` is, and the program is the same.
* `defaults_transparent`: setting a parameter to its default changes neither whether a project is
  valid nor any text.
-/

namespace LayerGraph
set_option autoImplicit false

/-! ## Parameters that are read alike -/

/-- Two bags of parameters are the same over the defaults, are in order together, and have the same
number of features. -/
structure Operator.ReadsAlike (o : Operator) (a b : Params) : Prop where
  resolve : o.resolve a = o.resolve b
  problems : o.problems a = [] ↔ o.problems b = []
  features : a.int? "in_features" = b.int? "in_features"

namespace Operator

variable {o : Operator} {a b : Params}

theorem ReadsAlike.refl (o : Operator) (a : Params) : o.ReadsAlike a a := ⟨rfl, .rfl, rfl⟩

theorem ReadsAlike.symm (h : o.ReadsAlike a b) : o.ReadsAlike b a :=
  ⟨h.resolve.symm, h.problems.symm, h.features.symm⟩

theorem resolve_insert_default (hdeclared : o.WellDeclared) {decl : ParamDecl}
    (hdecl : decl ∈ o.params) {value : ParamValue} (hdefault : decl.default = some value)
    (hunset : b.get? decl.name = none) : o.resolve (b.insert decl.name value) = o.resolve b := by
  apply Table.ext_get?
  intro key
  rw [resolve, resolve, Table.get?_overlay, Table.get?_overlay, Table.get?_insert]
  by_cases hkey : key = decl.name
  · rw [if_pos hkey, hkey, hunset, get?_defaults hdeclared hdecl, hdefault]
    rfl
  · rw [if_neg hkey]

/-- A default that is set passes its test, and one that is not set is not missed. -/
theorem problems_insert_default (hdeclared : o.WellDeclared) {decl : ParamDecl}
    (hdecl : decl ∈ o.params) {value : ParamValue} (hdefault : decl.default = some value)
    (hunset : b.get? decl.name = none) :
    o.problems (b.insert decl.name value) = [] ↔ o.problems b = [] := by
  have hchecks : decl.check value = .ok () := hdeclared.2 decl hdecl value hdefault
  have hset : declProblem? (b.insert decl.name value) decl = none := by
    rw [declProblem?, Table.get?_insert, if_pos rfl]
    simp only [hchecks]
  have hleft : declProblem? b decl = none := by
    rw [declProblem?, hunset]
    simp [hdefault]
  have hothers : ∀ other ∈ o.params,
      declProblem? (b.insert decl.name value) other = declProblem? b other := by
    intro other hother
    by_cases hname : other.name = decl.name
    · obtain rfl := List.inj_on_of_nodup_map hdeclared.1 hother hdecl hname
      rw [hset, hleft]
    · rw [declProblem?, declProblem?, Table.get?_insert, if_neg hname]
  have hknown : (o.param? decl.name).isSome = true := by
    rw [param?, List.find?_isSome]
    exact ⟨decl, hdecl, beq_self_eq_true decl.name⟩
  rw [problems_eq_nil_iff, problems_eq_nil_iff]
  refine and_congr (forall₂_congr fun other hother => by rw [hothers other hother])
    (forall_congr' fun name => ?_)
  rw [Table.get?_insert]
  by_cases hname : name = decl.name
  · simp [hname, hknown]
  · rw [if_neg hname]

/-- Sizes of inputs have no defaults. -/
theorem name_ne_of_default {mode : Mode} (ho : o ∈ Catalog.operators mode) {decl : ParamDecl}
    (hdecl : decl ∈ o.params) (hdefault : decl.default.isSome = true) :
    decl.name ≠ "in_features" := by
  have hall : ∀ o ∈ Catalog.operators mode, ∀ decl ∈ o.params, decl.default.isSome = true →
      decl.name ≠ "in_features" := by
    cases mode <;> decide +kernel
  exact hall o ho decl hdecl hdefault

theorem readsAlike_insert_default {mode : Mode} (ho : o ∈ Catalog.operators mode)
    {decl : ParamDecl} (hdecl : decl ∈ o.params) {value : ParamValue}
    (hdefault : decl.default = some value) (hunset : b.get? decl.name = none) :
    o.ReadsAlike (b.insert decl.name value) b where
  resolve := resolve_insert_default (wellDeclared mode ho) hdecl hdefault hunset
  problems := problems_insert_default (wellDeclared mode ho) hdecl hdefault hunset
  features := by
    have hname := name_ne_of_default ho hdecl (hdefault ▸ rfl)
    rw [Params.int?, Params.int?, Table.get?_insert, if_neg (Ne.symm hname)]

end Operator

/-- The change leaves what is read of the parameters of a node. -/
def Node.Kept (g : Node → Node) (n : Node) : Prop :=
  ∀ o, n.operator = .ok o → o.ReadsAlike (g n).params n.params

section Change

variable {g : Node → Node} (h : Node.Keeps g) {nodes : List Node} {edges : List Edge}
  {net : Network} {p : Placed}

theorem Network.IsOf.readsAlike (hnet : net.IsOf nodes edges)
    (hnodes : ∀ n ∈ nodes, n.Kept g) (hp : p ∈ net.nodes) :
    p.operator.ReadsAlike (g p.node).params p.node.params :=
  hnodes p.node (hnet.node_mem hp) p.operator (hnet.operator p hp)

include h

theorem Node.IsProper.change {mode : Mode} {n : Node} (hproper : n.IsProper mode)
    (hn : n.Kept g) : (g n).IsProper mode := by
  obtain ⟨hmode, o, ho, hproblems⟩ := hproper
  exact ⟨(h.mode n).trans hmode, o, (h.operator n).trans ho, (hn o ho).problems.2 hproblems⟩

theorem propagate_kept (hnet : Network.ofGraph nodes edges = .ok net)
    (hnodes : ∀ n ∈ nodes, n.Kept g) : propagate (nodes.map g) edges = propagate nodes edges := by
  have hall : (net.change h).propagateAll = net.propagateAll := by
    apply Network.propagateAll_change h
    intro p hp
    have halike := (Network.isOf_of_ofGraph hnet).readsAlike hnodes hp
    intro name _
    rw [halike.resolve]
  rw [propagate, propagate, propagatePartial_eq (Network.ofGraph_map h hnet),
    propagatePartial_eq hnet, hall]

end Change

/-! ## Layouts -/

/-- The layout with which an edge is tested: the declared one, or else that of the shape. -/
def Ends.layout? (ends : Ends) (overlay : Propagation) : Option Layout :=
  (declaredLayout? ends.source).or ((overlay.shape? ends.source.id).bind Layout.ofShape?)

section Edges

variable {e : Edge} {ends : Ends} {others : List Edge} {overlay : Propagation}

/-- The layout at the source is tested where it is declared, and else where the shape is known. -/
theorem forall_layout?_iff :
    (∀ layout, ends.layout? overlay = some layout → checkLayout layout none ends = .ok ()) ↔
      (∀ layout, declaredLayout? ends.source = some layout →
          checkLayout layout none ends = .ok ()) ∧
        ∀ produced, overlay.shape? ends.source.id = some produced →
          checkProducedLayout ends produced = .ok () := by
  -- The shape only stands in the message.
  have hshape : ∀ layout shape, checkLayout layout shape ends = .ok () ↔
      checkLayout layout none ends = .ok () := by
    intro layout shape
    rw [checkLayout_eq_ok_iff, checkLayout_eq_ok_iff]
  unfold Ends.layout?
  cases hdeclared : declaredLayout? ends.source with
  | some layout => simp [checkProducedLayout, hdeclared]
  | none =>
    cases overlay.shape? ends.source.id with
    | none => simp
    | some produced =>
      cases hlayout : Layout.ofShape? produced with
      | none => simp [checkProducedLayout, hdeclared, hlayout]
      | some layout => simp [checkProducedLayout, hdeclared, hlayout, hshape]

/-- What the tests of an operand ask, with its layout in one place. -/
theorem checkOperand_iff (hoperand : e.kind = .normal ∨ ends.target.operator.isMerge = true) :
    checkArchitecture e ends others = .ok () ∧ checkShapes e ends others overlay = .ok () ↔
      (ends.target.operator.isRoot = false ∧
        (e.kind = .normal → ends.target.operator.isMerge = false →
          ∀ d ∈ others, d.target = e.target → d.kind ≠ .normal) ∧
        ends.target.operator.accepts ends.source.operator.outputTypes = true) ∧
      (∀ layout, ends.layout? overlay = some layout → checkLayout layout none ends = .ok ()) ∧
      ∀ produced, overlay.shape? ends.source.id = some produced →
        (ends.target.operator.rule = .linear → checkFeatures produced ends = .ok ()) ∧
          checkInputs e ends others overlay produced = .ok () := by
  rw [checkArchitecture_eq_ok_iff, checkShapes_operand_iff hoperand, forall_layout?_iff]
  constructor
  · rintro ⟨⟨hroot, hsingle, haccepts, hdeclared⟩, hshapes⟩
    exact ⟨⟨hroot, hsingle, haccepts⟩,
      ⟨hdeclared hoperand, fun produced hproduced => (hshapes produced hproduced).1⟩,
      fun produced hproduced => (hshapes produced hproduced).2⟩
  · rintro ⟨⟨hroot, hsingle, haccepts⟩, ⟨hdeclared, hproduced⟩, hrules⟩
    exact ⟨⟨hroot, hsingle, haccepts, fun _ => hdeclared⟩,
      fun produced hshape => ⟨hproduced produced hshape, hrules produced hshape⟩⟩

variable {g : Node → Node} (h : Node.Keeps g)
include h

/-- Where the layout is the same, a change of what is not read makes no difference to the tests of
an edge. -/
theorem checkEdge_change
    (hlayout : (ends.change g).layout? overlay = ends.layout? overlay)
    (htarget : ends.target.operator.ReadsAlike (g ends.target.node).params ends.target.node.params)
    (hok : checkArchitecture e ends others = .ok () ∧ checkShapes e ends others overlay = .ok ()) :
    checkArchitecture e (ends.change g) others = .ok () ∧
      checkShapes e (ends.change g) others overlay = .ok () := by
  have hsourceid : (ends.change g).source.id = ends.source.id := Placed.id_change h ends.source
  have htargetid : (ends.change g).target.id = ends.target.id := Placed.id_change h ends.target
  by_cases hoperand : e.kind = .normal ∨ ends.target.operator.isMerge = true
  · obtain ⟨hrules, hlayouts, hshapes⟩ := (checkOperand_iff hoperand).1 hok
    have hchange : checkArchitecture e (ends.change g) others = .ok () ∧
        checkShapes e (ends.change g) others overlay = .ok () ↔ _ := checkOperand_iff hoperand
    refine hchange.2 ⟨hrules, ?_, ?_⟩
    · intro layout hsome
      rw [checkLayout_change h]
      exact hlayouts layout (hlayout ▸ hsome)
    · intro produced hproduced
      obtain ⟨hfeatures, hinputs⟩ := hshapes produced (hsourceid ▸ hproduced)
      have hparams : (ends.change g).target.node.params = (g ends.target.node).params := rfl
      have hoperator : (ends.change g).target.operator = ends.target.operator := rfl
      have hrule : ∀ inputs, checkRule (ends.change g) inputs = checkRule ends inputs := by
        intro inputs
        simp only [checkRule, hoperator, hparams, htarget.resolve, htargetid]
      refine ⟨fun hlinear => ?_, ?_⟩
      · rw [checkFeatures_eq_ok_iff, hparams, htarget.features]
        exact checkFeatures_eq_ok_iff.1 (hfeatures hlinear)
      · simp only [checkInputs, hrule, hoperator]
        exact hinputs
  · obtain ⟨hkind, hmerge⟩ := not_or.1 hoperand
    have hnot := Bool.eq_false_iff.2 hmerge
    obtain ⟨hrules, hshapes⟩ := hok
    obtain ⟨hroot, hsingle, haccepts, -⟩ := checkArchitecture_eq_ok_iff.1 hrules
    refine ⟨checkArchitecture_eq_ok_iff.2 ⟨hroot, hsingle, haccepts, fun hsome => ?_⟩, ?_⟩
    · exact absurd hsome hoperand
    · have hchange : checkShapes e (ends.change g) others overlay = .ok () ↔ _ :=
        checkShapes_addend_iff hkind hnot
      rw [hchange, hsourceid, htargetid]
      exact (checkShapes_addend_iff hkind hnot).1 hshapes

end Edges

/-! ## Architectures -/

/-- The shape of a dataset has the layout that the dataset declares, if it declares one. -/
theorem declaredLayout?_or_shape {p : Placed} (hrule : p.operator.rule = .dataset)
    {shape : Option Shape}
    (hshape : shape = (((p.operator.resolve p.node.params).text? "dataset").bind
      Dataset.find?).map Dataset.shape) :
    (declaredLayout? p).or (shape.bind Layout.ofShape?) = shape.bind Layout.ofShape? := by
  cases htext : p.node.params.text? "dataset" with
  | none => simp [declaredLayout?, hrule, htext]
  | some name =>
    have hresolved : (p.operator.resolve p.node.params).text? "dataset" = some name := by
      obtain ⟨value, hvalue, hname⟩ := Option.bind_eq_some_iff.1 htext
      rw [Params.text?, Operator.resolve, Table.get?_overlay, hvalue]
      exact hname
    rw [hresolved, Option.bind_some] at hshape
    have hdeclared : declaredLayout? p = shape.bind Layout.ofShape? := by
      rw [hshape]
      simp only [declaredLayout?, hrule, htext, Option.bind_some]
      cases Dataset.find? name <;> rfl
    rw [hdeclared, Option.or_self]

theorem declaredLayout?_of_resolve {g : Node → Node} {p : Placed}
    (hrule : p.operator.rule ≠ .dataset)
    (hresolve : p.operator.resolve (g p.node).params = p.operator.resolve p.node.params) :
    declaredLayout? (p.change g) = declaredLayout? p := by
  have hparams : (p.change g).node.params = (g p.node).params := rfl
  unfold declaredLayout?
  rw [Placed.operator_change, hparams, hresolve]
  cases hkind : p.operator.rule with
  | dataset => exact absurd hkind hrule
  | _ => rfl

namespace IsSound

variable {nodes : List Node} {edges : List Edge} {net : Network} {order : Emission}
  {overlay : Propagation} {g : Node → Node} (hkeeps : Node.Keeps g)
include hkeeps

/-- The layout with which an edge is tested does not depend on whether a default is set. -/
theorem layout?_eq (h : IsSound nodes edges net order overlay) {ends : Ends}
    (hsource : ends.source ∈ net.nodes)
    (hresolve : ends.source.operator.resolve (g ends.source.node).params =
      ends.source.operator.resolve ends.source.node.params) :
    (ends.change g).layout? overlay = ends.layout? overlay := by
  have hid : (ends.change g).source.id = ends.source.id := Placed.id_change hkeeps ends.source
  rw [Ends.layout?, Ends.layout?, hid]
  by_cases hrule : ends.source.operator.rule = .dataset
  · have hshape := (h.isPropagation.solvesAt ends.source.id).dataset hsource
      (h.isPipeline_eq_false hsource) hrule
    have hchanged : (ends.change g).source.operator.resolve (ends.change g).source.node.params =
        ends.source.operator.resolve ends.source.node.params := hresolve
    rw [declaredLayout?_or_shape hrule hshape]
    apply declaredLayout?_or_shape (p := (ends.change g).source) hrule
    rw [hchanged]
    exact hshape
  · exact congrArg (Option.or · _) (declaredLayout?_of_resolve hrule hresolve)

/-- Each edge is accepted as before. -/
theorem edge_kept (h : IsSound nodes edges net order overlay) (hnodes : ∀ n ∈ nodes, n.Kept g)
    {e : Edge} (he : e ∈ edges) : checkDrawn (nodes.map g) edges e = .ok () ∧
      checkDrawnShapes (nodes.map g) edges overlay e = .ok () := by
  obtain ⟨ends, hends, hconnection⟩ := checkDrawn_eq_ok_iff.1 (h.drawn e he)
  obtain ⟨ends', hends', hshapes⟩ := checkDrawnShapes_eq_ok_iff.1 (h.shapes e he)
  obtain rfl := Except.ok.inj (hends'.symm.trans hends)
  obtain ⟨hsource, htarget, -, -⟩ := h.isOf.resolveEnds_iff.1 hends
  have hsourcemem := (Network.find?_eq_some_iff.1 hsource).1
  have htargetmem := (Network.find?_eq_some_iff.1 htarget).1
  obtain ⟨hsimple, hrules⟩ := checkConnection_eq_ok_iff.1 hconnection
  have hgraph := h.isPipeline_eq_false hsourcemem
  have hgraph' : (ends'.change g).source.node.isPipeline = false :=
    (hkeeps.isPipeline _).trans hgraph
  rw [hgraph, if_neg Bool.false_ne_true] at hrules
  obtain ⟨hrules', hshapes'⟩ := checkEdge_change hkeeps
    (h.layout?_eq hkeeps hsourcemem (h.isOf.readsAlike hnodes hsourcemem).resolve)
    (h.isOf.readsAlike hnodes htargetmem) ⟨hrules, hshapes⟩
  have hresolved := resolveEnds_change hkeeps hends
  refine ⟨checkDrawn_eq_ok_iff.2 ⟨_, hresolved, checkConnection_eq_ok_iff.2 ⟨hsimple, ?_⟩⟩,
    checkDrawnShapes_eq_ok_iff.2 ⟨_, hresolved, hshapes'⟩⟩
  rw [hgraph', if_neg Bool.false_ne_true]
  exact hrules'

/-- A change of what is not read keeps an architecture sound. -/
theorem kept (h : IsSound nodes edges net order overlay) (hnodes : ∀ n ∈ nodes, n.Kept g) :
    IsSound (nodes.map g) edges (net.change hkeeps) (order.change g) overlay := by
  exact
    { proper := by
        intro m hm
        obtain ⟨n, hn, rfl⟩ := List.mem_map.1 hm
        exact (h.proper n hn).change hkeeps (hnodes n hn)
      ofGraph := Network.ofGraph_map hkeeps h.ofGraph
      drawn := fun _ he => (h.edge_kept hkeeps hnodes he).1
      emission := by
        rw [Network.emission_change, h.emission]
        rfl
      operands := by
        intro q hq
        obtain ⟨p, hp, rfl⟩ := List.mem_map.1 hq
        rw [operandReport_change hkeeps]
        exact h.operands p hp
      inside := by
        intro e he
        rw [outsideReport_change hkeeps]
        exact h.inside e he
      nonempty := fun hempty => h.nonempty (List.map_eq_nil_iff.1 hempty)
      propagate := (propagate_kept hkeeps h.ofGraph hnodes).trans h.propagate
      shapes := fun _ he => (h.edge_kept hkeeps hnodes he).2 }

theorem sameProgram_kept (h : IsSound nodes edges net order overlay)
    (hnodes : ∀ n ∈ nodes, n.Kept g) : SameProgram order (order.change g) overlay overlay := by
  have hparams : ∀ p ∈ net.nodes, (p.change g).params = p.params := fun p hp =>
    (h.isOf.readsAlike hnodes hp).resolve
  have hid : ∀ p : Placed, (p.change g).id = p.id := Placed.id_change hkeeps
  refine ⟨(hid order.root).symm, ?_, ?_, ?_⟩
  · exact congrArg (Params.text? · "dataset") (hparams _ h.isEmission.root_mem).symm
  · rw [Emission.change, List.forall₂_map_right_iff]
    apply List.forall₂_same.2
    intro p hp
    have heffective : overlay.effectiveParams (p.change g) = overlay.effectiveParams p := by
      have hresolve := (h.isOf.readsAlike hnodes (h.isEmission.mem_net hp)).resolve
      have hnode : (p.change g).node.params = (g p.node).params := rfl
      rw [Propagation.effectiveParams, Propagation.effectiveParams, hid, Placed.operator_change,
        hnode, hresolve]
    refine ⟨(hid p).symm, rfl, heffective.symm, rfl, fun kind => by cases kind <;> rfl⟩
  · have hloss := h.isEmission.loss
    rw [Emission.change]
    cases hfound : order.loss with
    | none => rfl
    | some loss =>
      rw [hfound] at hloss
      have hmem : loss ∈ net.nodes := List.mem_of_find?_eq_some hloss.symm
      simp only [Option.map_some, hparams loss hmem, Placed.operator_change]

end IsSound

/-! ## Pipelines -/

section Pipelines

variable {g : Node → Node} (h : Node.Keeps g) {nodes : List Node} {edges : List Edge}
  {net : Network} {placed : List Placed}

theorem transformPlan_change (hplaced : ∀ p ∈ placed, (p.change g).params = p.params) :
    transformPlan (placed.map (Placed.change g)) = transformPlan placed := by
  have hcalls : (placed.map (Placed.change g)).mapM
        (fun p => constructorCall p.operator p.params) =
      placed.mapM fun p => constructorCall p.operator p.params := by
    induction placed with
    | nil => rfl
    | cons p rest ih =>
      have hrest := ih fun q hq => hplaced q (List.mem_cons_of_mem _ hq)
      rw [List.map_cons, List.mapM_cons, List.mapM_cons, hrest, Placed.operator_change,
        hplaced p List.mem_cons_self]
  have htensor : (placed.map (Placed.change g)).any (·.operator.id == "totensor") =
      placed.any (·.operator.id == "totensor") := by
    rw [List.any_map]
    rfl
  rw [transformPlan, transformPlan, hcalls, htensor]

theorem optimizerPlan_change (hplaced : ∀ p ∈ placed, (p.change g).params = p.params) :
    optimizerPlan (placed.map (Placed.change g)) = optimizerPlan placed := by
  cases placed with
  | nil => rfl
  | cons p rest =>
    rw [List.map_cons, optimizerPlan, optimizerPlan, Placed.operator_change,
      hplaced p List.mem_cons_self]

theorem params_head?_change (hplaced : ∀ p ∈ placed, (p.change g).params = p.params) :
    (placed.map (Placed.change g)).head?.map Placed.params = placed.head?.map Placed.params := by
  cases placed with
  | nil => rfl
  | cons p rest => exact congrArg some (hplaced p List.mem_cons_self)

theorem callback?_change (hplaced : ∀ p ∈ placed, (p.change g).params = p.params)
    (operator : String) :
    callback? (placed.map (Placed.change g)) operator = callback? placed operator := by
  have hfind : (placed.map (Placed.change g)).find? (·.operator.id == operator) =
      (placed.find? (·.operator.id == operator)).map (Placed.change g) := List.find?_map
  rw [callback?, callback?, hfind]
  cases hfound : placed.find? (·.operator.id == operator) with
  | none => rfl
  | some p => exact congrArg some (hplaced p (List.mem_of_find?_eq_some hfound))

include h

theorem metricPlans_change (dataset : Dataset) (names : Names)
    (hplaced : ∀ p ∈ placed, (p.change g).params = p.params) :
    metricPlans dataset names (placed.map (Placed.change g)) =
      metricPlans dataset names placed := by
  induction placed generalizing names with
  | nil => rfl
  | cons p rest ih =>
    have hrest := fun names => ih names fun q hq => hplaced q (List.mem_cons_of_mem _ hq)
    simp only [List.map_cons, metricPlans, Placed.operator_change, Placed.id_change h,
      hplaced p List.mem_cons_self, hrest]

/-- The training plan reads parameters over the defaults only. -/
theorem Network.training_change (hparams : ∀ p ∈ net.nodes, (p.change g).params = p.params)
    (settings : Settings) (dataset : Dataset) :
    (net.change h).training settings dataset = net.training settings dataset := by
  have hcategory : ∀ (order : List String) (category : Category),
      (order.filterMap (net.change h).find?).filter (·.operator.category = category) =
        ((order.filterMap net.find?).filter (·.operator.category = category)).map
          (Placed.change g) := by
    intro order category
    rw [filterMap_find?_change]
    exact Placed.filter_change (fun _ => rfl) _
  have hplaced : ∀ (order : List String) (category : Category),
      ∀ p ∈ (order.filterMap net.find?).filter (·.operator.category = category),
        (p.change g).params = p.params := by
    intro order category p hp
    exact hparams p (mem_filterMap_find?.1 (List.mem_filter.1 hp).1).1
  simp only [training, topological_change, hcategory]
  apply congrArg (net.topological >>= ·)
  funext order
  simp only [transformPlan_change (hplaced order .dataAugmentation),
    optimizerPlan_change (hplaced order .optimization),
    params_head?_change (hplaced order .dataset), params_head?_change (hplaced order .training),
    metricPlans_change h dataset {} (hplaced order .metrics),
    callback?_change (hplaced order .callbacks)]

theorem checkDrawn_of_pipeline (hnodes : ∀ n ∈ nodes, n.IsProper .pipeline) (e : Edge) :
    checkDrawn (nodes.map g) edges e = checkDrawn nodes edges e := by
  rw [checkDrawn, checkDrawn, resolveEnds_map h]
  cases hends : resolveEnds e nodes with
  | error fault => rfl
  | ok ends =>
    obtain ⟨⟨hsource, -⟩, -⟩ := resolveEnds_eq_ok_iff.1 hends
    have hgraph : ends.source.node.isPipeline = true :=
      Node.isPipeline_of_mode (hnodes _ (List.mem_of_find?_eq_some hsource)).1
    have hgraph' : (ends.change g).source.node.isPipeline = true :=
      (h.isPipeline ends.source.node).trans hgraph
    have hworkflow : checkWorkflow (ends.change g) = checkWorkflow ends := by
      simp only [checkWorkflow, Ends.change, Placed.operator_change, Placed.id_change h]
    show checkConnection e (ends.change g) (otherEdges e edges) =
      checkConnection e ends (otherEdges e edges)
    simp only [checkConnection, hgraph, hgraph', if_true, hworkflow]

end Pipelines

/-! ## One node with other parameters -/

/-- The node with other parameters, if it is the one of the id. -/
def Node.replaceParams (id : String) (params : Params) (n : Node) : Node :=
  if n.id = id then { n with params } else n

theorem Node.keeps_replaceParams (id : String) (params : Params) :
    Node.Keeps (Node.replaceParams id params) where
  id := by
    intro n
    unfold Node.replaceParams
    split <;> rfl
  operatorId := by
    intro n
    unfold Node.replaceParams
    split <;> rfl
  isPipeline := by
    intro n
    unfold Node.replaceParams
    split <;> rfl

/-- The graphs differ in the parameters of one node, and these are read alike. -/
def Graph.SpelledAlike (g g' : Graph) : Prop :=
  ∃ before n params after, g.nodes = before ++ n :: after ∧
    g'.nodes = before ++ { n with params } :: after ∧ g'.edges = g.edges ∧
    ∀ o, n.operator = .ok o → o.ReadsAlike params n.params

namespace Graph.SpelledAlike

variable {g g' : Graph}

theorem symm (h : g.SpelledAlike g') : g'.SpelledAlike g := by
  obtain ⟨before, n, params, after, hnodes, hnodes', hedges, halike⟩ := h
  exact ⟨before, { n with params }, n.params, after, hnodes', hnodes, hedges.symm,
    fun o ho => (halike o ho).symm⟩

/-- With distinct ids the node is changed by its id. -/
theorem exists_change (h : g.SpelledAlike g') (hids : (g.nodes.map Node.id).Nodup) :
    ∃ f, Node.Keeps f ∧ g'.nodes = g.nodes.map f ∧ ∀ n ∈ g.nodes, n.Kept f := by
  obtain ⟨before, n, params, after, hnodes, hnodes', -, halike⟩ := h
  rw [hnodes, List.map_append, List.map_cons, List.nodup_append, List.nodup_cons] at hids
  obtain ⟨-, ⟨hafter, -⟩, hbefore⟩ := hids
  have hsame : ∀ m ∈ before ++ after, m.replaceParams n.id params = m := by
    intro m hm
    apply if_neg
    intro hid
    rcases List.mem_append.1 hm with hm | hm
    · exact hbefore m.id (List.mem_map_of_mem hm) n.id List.mem_cons_self hid
    · exact hafter (hid ▸ List.mem_map_of_mem hm)
  have hself : n.replaceParams n.id params = { n with params } := if_pos rfl
  refine ⟨Node.replaceParams n.id params, Node.keeps_replaceParams n.id params, ?_, ?_⟩
  · have hkept : ∀ part : List Node, (∀ m ∈ part, m ∈ before ++ after) →
        part.map (Node.replaceParams n.id params) = part := by
      intro part hpart
      rw [List.map_congr_left fun m hm => hsame m (hpart m hm), List.map_id']
    rw [hnodes, hnodes', List.map_append, List.map_cons, hself,
      hkept before fun m hm => List.mem_append_left _ hm,
      hkept after fun m hm => List.mem_append_right _ hm]
  · intro m hm o ho
    have hmem : m = n ∨ m ∈ before ++ after := by
      rw [hnodes] at hm
      simpa [or_left_comm] using hm
    rcases hmem with rfl | hother
    · rw [hself]
      exact halike o ho
    · rw [hsame m hother]
      exact .refl o m.params

theorem exists_isSound (h : g.SpelledAlike g') {net : Network} {order : Emission}
    {overlay : Propagation} (hsound : IsSound g.nodes g.edges net order overlay) :
    ∃ net' order', IsSound g'.nodes g'.edges net' order' overlay ∧
      SameProgram order order' overlay overlay := by
  obtain ⟨f, hf, hnodes, hkept⟩ := h.exists_change hsound.isOf.nodup_ids
  obtain ⟨-, -, -, -, -, -, hedges, -⟩ := h
  rw [hnodes, hedges]
  exact ⟨_, _, hsound.kept hf hkept, hsound.sameProgram_kept hf hkept⟩

theorem pipeline (h : g.SpelledAlike g') (hvalid : (pipelineReport g.nodes g.edges).faults = []) :
    (pipelineReport g'.nodes g'.edges).faults = [] ∧
      ∀ settings dataset, g'.training settings dataset = g.training settings dataset := by
  obtain ⟨hproper, hdrawn, net, hnet, hacyclic⟩ := pipelineReport_isValid_iff.1 hvalid
  have hisOf := Network.isOf_of_ofGraph hnet
  obtain ⟨f, hf, hnodes, hkept⟩ := h.exists_change hisOf.nodup_ids
  obtain ⟨-, -, -, -, -, -, hedges, -⟩ := h
  have hnet' := Network.ofGraph_map hf hnet
  rw [hnodes, hedges]
  refine ⟨pipelineReport_isValid_iff.2 ⟨?_, ?_, net.change hf, hnet', hacyclic⟩, ?_⟩
  · intro m hm
    obtain ⟨n, hn, rfl⟩ := List.mem_map.1 hm
    exact (hproper n hn).change hf (hkept n hn)
  · intro e he
    rw [checkDrawn_of_pipeline hf hproper]
    exact hdrawn e he
  · intro settings dataset
    have hparams : ∀ p ∈ net.nodes, (p.change f).params = p.params := fun p hp =>
      (hisOf.readsAlike hkept hp).resolve
    rw [Graph.training, Graph.training, hnodes, hedges, hnet', hnet, List.isEmpty_map]
    simp only [bind, Except.bind, Network.training_change hf hparams]

end Graph.SpelledAlike

/-! ## Projects -/

theorem Project.validate_of_compile {p : Project} {settings : Settings} {text : String}
    (h : p.compile settings = .ok text) :
    settings.validate = .ok () ∧ p.report.faults = [] := by
  obtain ⟨_, hsettings, h⟩ := bind_eq_ok_iff.1 h
  obtain ⟨warnings, hwarnings, -⟩ := bind_eq_ok_iff.1 h
  refine ⟨hsettings, ?_⟩
  unfold Report.result at hwarnings
  split at hwarnings
  · assumption
  · cases hwarnings

section Projects

variable {p : Project} {mode : Mode} {g : Graph}

/-- A project without faults stays so, with the same texts. -/
theorem Graph.SpelledAlike.project (h : (p.graph mode).SpelledAlike g)
    (hvalid : p.report.faults = []) :
    (p.withGraph mode g).report.faults = [] ∧
      ∀ settings : Settings, settings.validate = .ok () →
        ∃ text, p.compile settings = .ok text ∧
          (p.withGraph mode g).compile settings = .ok text := by
  obtain ⟨harchitecture, hpipeline⟩ := faults_report_eq_nil_iff.1 hvalid
  cases mode with
  | architecture =>
    obtain ⟨net, order, overlay, hsound⟩ := architectureReport_isValid_iff.1 harchitecture
    obtain ⟨net', order', hsound', hsame⟩ := h.exists_isSound hsound
    have hvalid' : (p.withGraph .architecture g).report.faults = [] :=
      faults_report_eq_nil_iff.2
        ⟨architectureReport_isValid_iff.2 ⟨net', order', overlay, hsound'⟩, hpipeline⟩
    exact ⟨hvalid', fun settings hsettings => compile_congr p (p.withGraph .architecture g) rfl
      hsound hsound' hvalid hvalid' hsame hsettings⟩
  | pipeline =>
    -- Both pipelines have a node, so both are tested.
    have hnonempty : ¬ (p.pipeline.nodes.isEmpty = true ∧ p.pipeline.edges.isEmpty = true) ∧
        ¬ (g.nodes.isEmpty = true ∧ g.edges.isEmpty = true) := by
      obtain ⟨before, n, params, after, hnodes, hnodes', -⟩ := h
      have hp : p.pipeline.nodes = before ++ n :: after := hnodes
      simp [hp, hnodes']
    rw [Project.graphReport, if_neg hnonempty.1] at hpipeline
    obtain ⟨hpipeline', htraining⟩ := h.pipeline hpipeline
    have hvalid' : (p.withGraph .pipeline g).report.faults = [] := by
      refine faults_report_eq_nil_iff.2 ⟨harchitecture, ?_⟩
      rw [Project.graphReport]
      exact (congrArg Report.faults (if_neg hnonempty.2)).trans hpipeline'
    refine ⟨hvalid', fun settings hsettings => ?_⟩
    have hprogram : (p.withGraph .pipeline g).program settings = p.program settings := by
      have htraining' : ∀ dataset, (p.withGraph .pipeline g).pipeline.training settings dataset =
          p.pipeline.training settings dataset := htraining settings
      simp only [Project.program, htraining']
      rfl
    obtain ⟨program, hok⟩ := exists_program hsettings hvalid
    refine ⟨program.text, ?_, ?_⟩
    · rw [compile_eq_of_report hsettings hvalid, hok]
      rfl
    · rw [compile_eq_of_report hsettings hvalid', hprogram, hok]
      rfl

theorem Graph.SpelledAlike.compile (h : (p.graph mode).SpelledAlike g) {settings : Settings}
    {text : String} (htext : p.compile settings = .ok text) :
    (p.withGraph mode g).compile settings = .ok text := by
  obtain ⟨hsettings, hreport⟩ := Project.validate_of_compile htext
  obtain ⟨text', htext', hsame⟩ := (h.project hreport).2 settings hsettings
  rw [htext] at htext'
  exact Except.ok.inj htext' ▸ hsame

end Projects

/-- Setting a parameter to the default of its declaration, where it was not set, changes neither
whether the project is valid nor what it is compiled to. -/
theorem defaults_transparent (p : Project) (mode : Mode) (before after : List Node) (n : Node)
    (o : Operator) (decl : ParamDecl) (value : ParamValue)
    (hnodes : (p.graph mode).nodes = before ++ n :: after) (ho : n.operator = .ok o)
    (hdecl : decl ∈ o.params) (hdefault : decl.default = some value)
    (hunset : n.params.get? decl.name = none) :
    let p' := p.withGraph mode
      { p.graph mode with
        nodes := before ++ { n with params := n.params.insert decl.name value } :: after }
    p'.report.isValid = p.report.isValid ∧
      ∀ (settings : Settings) (text : String),
        p'.compile settings = .ok text ↔ p.compile settings = .ok text := by
  intro p'
  have hmem := (Catalog.mem_operators (Node.operator_eq_ok_iff.1 ho)).1
  have halike : (p.graph mode).SpelledAlike (p'.graph mode) := by
    refine ⟨before, n, n.params.insert decl.name value, after, hnodes, ?_, ?_, ?_⟩
    · cases mode <;> rfl
    · cases mode <;> rfl
    · intro o' ho'
      obtain rfl := Except.ok.inj (ho'.symm.trans ho)
      exact Operator.readsAlike_insert_default hmem hdecl hdefault hunset
  have hthere : p.withGraph mode (p'.graph mode) = p' := by cases mode <;> rfl
  have hback : p'.withGraph mode (p.graph mode) = p := by cases mode <;> rfl
  refine ⟨?_, fun settings text => ⟨fun htext => ?_, fun htext => ?_⟩⟩
  · rw [Bool.eq_iff_iff, Report.isValid_iff, Report.isValid_iff]
    exact ⟨fun hvalid => hback ▸ (halike.symm.project hvalid).1,
      fun hvalid => hthere ▸ (halike.project hvalid).1⟩
  · exact hback ▸ halike.symm.compile htext
  · exact hthere ▸ halike.compile htext

/-- The dataset of the sample is the one that stands for a dataset node without parameters. -/
theorem defaults_transparent_data :
    (Project.sample.withGraph .architecture (Project.sample.architecture.setParam
      "data" "dataset" (.text "MNIST"))).report.isValid = true ∧
    ∀ (settings : Settings) (text : String),
      (Project.sample.withGraph .architecture (Project.sample.architecture.setParam
        "data" "dataset" (.text "MNIST"))).compile settings = .ok text ↔
      Project.sample.compile settings = .ok text := by
  have hvalid : Project.sample.report.isValid = true := by decide +kernel
  obtain ⟨hsame, htexts⟩ := defaults_transparent Project.sample .architecture []
    Project.sample.architecture.nodes.tail { id := "data", operatorId := "dataset" }
    Operator.Architecture.dataset
    (ParamDecl.choice "dataset" "MNIST"
      ["MNIST", "FashionMNIST", "CIFAR10", "CIFAR100", "ImageNet"])
    (.text "MNIST") rfl rfl (by decide +kernel) rfl rfl
  exact ⟨hsame.trans hvalid, htexts⟩

end LayerGraph
