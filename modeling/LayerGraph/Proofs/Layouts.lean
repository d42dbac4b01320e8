import LayerGraph.Proofs.ShapeRules
import LayerGraph.Proofs.Sound
/-!
# Declared layouts and propagated shapes

Some operators declare the layout of their output, and an edge out of such a node is tested with the
declared layout in the place of the propagated shape. The two do not contradict each other.

* What is declared spatial has three dimensions or more, whatever is read: the rule says so
  (`Operator.three_le_rank_of_spatial`).
* What is declared flat has two. This does not follow from the rules, since a dense layer keeps the
  rank of its input; in an architecture without faults the input has rank two, or is itself declared
  flat (`IsSound.rank_of_flat`).
* `layout_of_shape`: so the declared layout of a node, emitted or not, is the layout of its shape,
  and both tests decide the same at every edge.
-/

namespace LayerGraph
set_option autoImplicit false
open Relation

/-! ## Spatial layouts -/

namespace Rule

variable {params : Params} {inputs : List Shape} {result : RuleResult}

theorem length_of_slide {w : Window} {dims slid : List Dim} (h : slide w dims = .ok slid) :
    slid.length = dims.length := (slide_eq_ok_iff.1 h).length_eq.symm

theorem rank_of_channelled {what : String} {ranks : List Nat} {s : Shape}
    {first channels : Dim} {rest : List Dim}
    (h : channelled what ranks s = .ok (first, channels, rest)) (channels' : Dim)
    {rest' : List Dim} (hrest : rest'.length = rest.length) :
    (⟨first :: channels' :: rest'⟩ : Shape).rank = s.rank := by
  rw [Shape.rank, Shape.rank, (channelled_eq_ok h).2]
  simp only [List.length_cons, hrest]

/-- A rule that tests one rank keeps it. -/
theorem rank_of_testedRank? {rule : Rule} (h : rule.apply params inputs = .ok result) {rank : Nat}
    (hrank : rule.testedRank? = some rank) : result.shape.rank = rank := by
  obtain ⟨input, hinputs, rfl⟩ := rank_of_apply h hrank
  have hone : ∀ {f : Shape → Except RuleFault RuleResult},
      onlyInput inputs >>= f = .ok result → f input = .ok result := fun hbind => by
    obtain ⟨other, hother, hshape⟩ := exists_of_onlyInput hbind
    obtain rfl := (List.cons.inj (hother.symm.trans hinputs)).1
    exact hshape
  cases rule with
  | conv spatial =>
    have hshape := hone h
    simp only [convShape, bind_eq_ok_iff] at hshape
    obtain ⟨⟨first, channels, rest⟩, hdims, out, -, kernel, -, stride, -, padding, -, slid, hslid,
      hshape⟩ := hshape
    obtain rfl := Except.ok.inj hshape
    exact rank_of_channelled hdims _ (length_of_slide hslid)
  | pool spatial =>
    have hshape := hone h
    simp only [poolShape, bind_eq_ok_iff] at hshape
    obtain ⟨⟨first, channels, rest⟩, hdims, kernel, -, padding, -, hshape⟩ := hshape
    split at hshape
    · obtain ⟨slid, hslid, hshape⟩ := bind_eq_ok_iff.1 hshape
      obtain rfl := Except.ok.inj hshape
      exact rank_of_channelled hdims _ (length_of_slide hslid)
    · cases hshape
  | adaptivePool =>
    have hshape := hone h
    simp only [adaptivePoolShape, bind_eq_ok_iff] at hshape
    obtain ⟨dims, -, size, -, hshape⟩ := hshape
    obtain rfl := Except.ok.inj hshape
    exact Option.some.inj hrank
  | batchNorm ranks => rw [shape_batchNormShape (hone h)]
  | block kind =>
    cases kind with
    | residual =>
      have hshape := hone h
      simp only [residualShape, bind_eq_ok_iff] at hshape
      obtain ⟨⟨first, channels, rest⟩, hdims, out, -, stride, -, slid, hslid, hshape⟩ := hshape
      obtain rfl := Except.ok.inj hshape
      exact rank_of_channelled hdims _ (length_of_slide hslid)
    | inception =>
      have hshape := hone h
      simp only [inceptionShape, bind_eq_ok_iff] at hshape
      obtain ⟨⟨first, channels, rest⟩, hdims, total, -, hshape⟩ := hshape
      obtain rfl := Except.ok.inj hshape
      exact rank_of_channelled hdims _ rfl
  | _ => cases hrank

theorem rank_datasetShape (h : datasetShape params = .ok result) : result.shape.rank = 4 := by
  unfold datasetShape at h
  split at h
  · cases h
  · split at h
    · cases h
    · obtain rfl := Except.ok.inj h
      rfl

end Rule

/-- Only datasets and the rules of spatial layers are declared spatial. -/
theorem rule_of_declaredLayout_spatial {p : Placed} (h : declaredLayout? p = some .spatial) :
    p.operator.rule = .dataset ∨ p.operator.rule.isSpatial = true := by
  unfold declaredLayout? at h
  split at h
  case h_5 ranks hrule =>
    split at h
    · cases h
    · rename_i htwo
      rw [hrule]
      exact .inr (decide_eq_true htwo)
  case h_6 => cases h
  case h_7 =>
    split at h
    · cases h
    · cases h
  case h_8 hrule => exact .inl hrule
  case h_9 => cases h
  all_goals
    rename_i hrule
    rw [hrule]
    exact .inr rfl

/-- What is declared spatial has three dimensions or more. -/
theorem Operator.three_le_rank_of_spatial {p : Placed} (hp : p.operator ∈ Architecture.all)
    (hspatial : declaredLayout? p = some .spatial) {params : Params} {inputs : List Shape}
    {result : RuleResult} (h : p.operator.rule.apply params inputs = .ok result) :
    3 ≤ result.shape.rank := by
  have hall : ∀ o ∈ Architecture.all, o.rule.isSpatial = true →
      ∃ rank ∈ o.rule.testedRank?, 3 ≤ rank := by decide
  rcases rule_of_declaredLayout_spatial hspatial with hrule | hrule
  · rw [hrule] at h
    rw [Rule.rank_datasetShape h]
    decide
  · obtain ⟨rank, hrank, hle⟩ := hall _ hp hrule
    rwa [Rule.rank_of_testedRank? h hrank]

/-! ## The test by the shape -/

/-- The layout of what an edge brings is tested by its shape, whatever is declared. -/
def checkShapeLayout (ends : Ends) (produced : Shape) : Except Fault Unit :=
  match Layout.ofShape? produced with
  | some layout => checkLayout layout (some produced) ends
  | none => .ok ()

/-- This is the test that a declared layout stands in for. -/
theorem checkProducedLayout_eq (ends : Ends) (produced : Shape) :
    checkProducedLayout ends produced =
      if (declaredLayout? ends.source).isSome then .ok () else checkShapeLayout ends produced := by
  unfold checkProducedLayout checkShapeLayout
  cases declaredLayout? ends.source with
  | some layout => rfl
  | none => cases Layout.ofShape? produced <;> rfl

/-- The shape is only named in the fault. -/
theorem checkLayout_isOk_iff {layout : Layout} {ends : Ends} (shape shape' : Option Shape) :
    checkLayout layout shape ends = .ok () ↔ checkLayout layout shape' ends = .ok () := by
  rw [checkLayout_eq_ok_iff, checkLayout_eq_ok_iff]

/-! ## Flat layouts -/

namespace IsSound

variable {nodes : List Node} {edges : List Edge} {net : Network} {order : Emission}
  {overlay : Propagation}

/-- What a dense layer reads has rank two or is declared flat: spatial data is refused, by its
declared layout or by its shape. -/
theorem rank_or_flat_of_linear (h : IsSound nodes edges net order overlay) {p : Placed}
    (hp : p ∈ net.nodes) (hrule : p.operator.rule = .linear) {s : String}
    (hs : s ∈ net.operands p.id) {input : Shape} (hinput : overlay.shape? s = some input)
    (htwo : 2 ≤ input.rank) :
    input.rank = 2 ∨ ∃ q ∈ net.nodes, q.id = s ∧ declaredLayout? q = some .flat := by
  have hmerge : p.operator.isMerge = false := by
    rw [Operator.isMerge, hrule]
    rfl
  obtain ⟨e, he, rfl, htarget, hkind⟩ := Network.exists_edge_of_mem_operands hs
  rw [Network.isMerge_eq hp, hmerge] at hkind
  have hkind := hkind.resolve_right Bool.false_ne_true
  obtain ⟨ends, hsource, hfound, -, -, hrules, hcheck⟩ := h.exists_ends (h.edges_eq ▸ he)
  rw [htarget, Network.find?_eq_some_iff.2 ⟨hp, rfl⟩] at hfound
  obtain rfl := Option.some.inj hfound
  obtain ⟨hq, hid⟩ := Network.find?_eq_some_iff.1 hsource
  obtain ⟨-, -, -, hdeclared⟩ := checkArchitecture_eq_ok_iff.1 hrules
  obtain ⟨hlayout, -⟩ := (checkShapes_operand_iff (.inl hkind)).1 hcheck input (hid ▸ hinput)
  cases hlayout? : declaredLayout? ends.source with
  | none =>
    refine .inl (Classical.byContradiction fun hne => ?_)
    have hspatial : Layout.ofShape? input = some .spatial := by
      rw [Layout.ofShape?, if_neg hne, if_pos (by omega)]
    rw [checkProducedLayout_eq, hlayout?, Option.isSome_none, if_neg Bool.false_ne_true,
      checkShapeLayout, hspatial] at hlayout
    exact (checkLayout_eq_ok_iff.1 hlayout).1 ⟨hrule, rfl⟩
  | some layout =>
    cases layout with
    | spatial =>
      have hrefused := hdeclared (.inl hkind) .spatial hlayout?
      exact absurd ⟨hrule, rfl⟩ (checkLayout_eq_ok_iff.1 hrefused).1
    | flat => exact .inr ⟨ends.source, hq, hid, hlayout?⟩

/-- What is declared flat has rank two. -/
theorem rank_of_flat (h : IsSound nodes edges net order overlay) {p : Placed} (hp : p ∈ net.nodes)
    (hflat : declaredLayout? p = some .flat) {shape : Shape}
    (hshape : overlay.shape? p.id = some shape) : shape.rank = 2 := by
  -- Through all rules: a dense layer may read another one, which keeps the rank.
  refine h.isPropagation.forall_shape
    (fun id shape => ∀ p ∈ net.nodes, p.id = id → declaredLayout? p = some .flat → shape.rank = 2)
    (fun q hq _ inputs result hinputs happly => ?_) hshape p hp rfl hflat
  intro r hr hid hflat
  obtain rfl := List.inj_on_of_nodup_map net.nodup_ids hr hq hid
  rcases rule_of_declaredLayout_flat hflat with hrule | ⟨hrule, hstart⟩
  · rw [hrule] at happly
    obtain ⟨input, rfl, hlinear⟩ := Rule.exists_of_onlyInput happly
    obtain ⟨s, hs, hinput, hread⟩ := hinputs input (List.mem_singleton_self _)
    rw [Rule.rank_linearShape hlinear]
    rcases h.rank_or_flat_of_linear hr hrule hs hinput (Rule.two_le_rank_of_linearShape hlinear)
      with hrank | ⟨source, hsource, hsourceid, hdeclared⟩
    · exact hrank
    · exact hread source hsource hsourceid hdeclared
  · rw [hrule] at happly
    obtain ⟨input, -, hflatten⟩ := Rule.exists_of_onlyInput happly
    exact Rule.rank_flattenShape hflatten hstart

/-- What is declared spatial has rank three or more. -/
theorem rank_of_spatial (h : IsSound nodes edges net order overlay) {p : Placed}
    (hp : p ∈ net.nodes) (hspatial : declaredLayout? p = some .spatial) {shape : Shape}
    (hshape : overlay.shape? p.id = some shape) : 3 ≤ shape.rank := by
  obtain ⟨q, hq, hid, -, result, hok, rfl⟩ := h.isPropagation.shape?_eq_some_iff.1 hshape
  obtain rfl := List.inj_on_of_nodup_map net.nodup_ids hq hp hid
  obtain ⟨inputs, happly, -⟩ := Network.exists_inputs_of_outcome hok
  exact Operator.three_le_rank_of_spatial (h.mem_all hq) hspatial happly

/-- A declared layout is the layout of the propagated shape. -/
theorem ofShape?_eq (h : IsSound nodes edges net order overlay) {p : Placed} (hp : p ∈ net.nodes)
    {layout : Layout} (hlayout : declaredLayout? p = some layout) {shape : Shape}
    (hshape : overlay.shape? p.id = some shape) : Layout.ofShape? shape = some layout := by
  cases layout with
  | flat => rw [Layout.ofShape?, if_pos (h.rank_of_flat hp hlayout hshape)]
  | spatial =>
    have hthree := h.rank_of_spatial hp hlayout hshape
    rw [Layout.ofShape?, if_neg (by omega), if_pos hthree]

end IsSound

/-! ## Both tests -/

/-- In an architecture without faults, what is declared flat has rank two and what is declared
spatial has rank three or more. So at every edge, drawn or not, the test of the declared layout
decides what the test by the shape would. -/
theorem layout_of_shape (nodes : List Node) (edges : List Edge)
    (hvalid : (architectureReport nodes edges).isValid = true) :
    ∃ net overlay, Network.ofGraph nodes edges = .ok net ∧ net.nodes.map Placed.node = nodes ∧
      propagate nodes edges = .ok overlay ∧
      (∀ p ∈ net.nodes, ∀ layout shape, declaredLayout? p = some layout →
        overlay.shape? p.id = some shape →
          (layout = .flat → shape.rank = 2) ∧ (layout = .spatial → 3 ≤ shape.rank)) ∧
      ∀ e ends, resolveEnds e nodes = .ok ends →
        ∀ layout shape, declaredLayout? ends.source = some layout →
          overlay.shape? ends.source.id = some shape →
            checkShapeLayout ends shape = checkLayout layout (some shape) ends ∧
            (checkLayout layout none ends = .ok () ↔ checkShapeLayout ends shape = .ok ()) := by
  obtain ⟨net, order, overlay, h⟩ :=
    architectureReport_isValid_iff.1 (Report.isValid_iff.1 hvalid)
  refine ⟨net, overlay, h.ofGraph, h.isOf.nodes_eq, h.propagate,
    fun p hp layout shape hlayout hshape => ⟨?_, ?_⟩,
    fun e ends hends layout shape hlayout hshape => ?_⟩
  · rintro rfl
    exact h.rank_of_flat hp hlayout hshape
  · rintro rfl
    exact h.rank_of_spatial hp hlayout hshape
  · obtain ⟨hsource, -⟩ := h.isOf.resolveEnds_iff.1 hends
    have hequal : checkShapeLayout ends shape = checkLayout layout (some shape) ends := by
      rw [checkShapeLayout,
        h.ofShape?_eq (Network.find?_eq_some_iff.1 hsource).1 hlayout hshape]
    exact ⟨hequal, hequal ▸ checkLayout_isOk_iff none (some shape)⟩

/-- A dense layer behind a sum of two passed-through layers, and another branch that is left out
because it starts from a second dataset. -/
def Graph.branches : Graph where
  nodes :=
    [{ id := "data", operatorId := "dataset" },
     { id := "conv", operatorId := "conv2d" },
     { id := "rows", operatorId := "flatten", params := .ofList [("start_dim", .int 2)] },
     { id := "flat", operatorId := "flatten" },
     { id := "hidden", operatorId := "linear" },
     { id := "relu", operatorId := "relu" },
     { id := "sum", operatorId := "add" },
     { id := "head", operatorId := "linear" },
     { id := "more", operatorId := "dataset" },
     { id := "aside", operatorId := "flatten" },
     { id := "spare", operatorId := "linear" }]
  edges :=
    [{ id := "1", source := "data", target := "conv" },
     { id := "2", source := "conv", target := "rows" },
     { id := "3", source := "rows", target := "flat" },
     { id := "4", source := "flat", target := "hidden" },
     { id := "5", source := "hidden", target := "relu" },
     { id := "6", source := "hidden", target := "sum" },
     { id := "7", source := "relu", target := "sum" },
     { id := "8", source := "sum", target := "head" },
     { id := "9", source := "more", target := "aside" },
     { id := "10", source := "aside", target := "spare" }]

theorem layout_of_shape_branches :
    ∃ net overlay, Network.ofGraph Graph.branches.nodes Graph.branches.edges = .ok net ∧
      propagate Graph.branches.nodes Graph.branches.edges = .ok overlay ∧
      ∀ id ∈ ["flat", "hidden", "head", "aside", "spare"], ∃ p ∈ net.nodes, p.id = id ∧
        declaredLayout? p = some .flat ∧ ∃ shape, overlay.shape? p.id = some shape ∧
          shape.rank = 2 := by
  obtain ⟨net, overlay, hnet, -, hpropagate, hlayout, -⟩ :=
    layout_of_shape Graph.branches.nodes Graph.branches.edges (by decide +kernel)
  have hdeclared : (Network.ofGraph Graph.branches.nodes Graph.branches.edges).toOption.all
      (fun net => (propagate Graph.branches.nodes Graph.branches.edges).toOption.all fun overlay =>
        decide (∀ id ∈ ["flat", "hidden", "head", "aside", "spare"], ∃ p ∈ net.nodes, p.id = id ∧
          declaredLayout? p = some .flat ∧ (overlay.shape? p.id).isSome = true)) = true := by
    decide +kernel
  refine ⟨net, overlay, hnet, hpropagate, fun id hid => ?_⟩
  obtain ⟨p, hp, hpid, hflat, hshaped⟩ :=
    of_decide_eq_true (of_toOption_all (of_toOption_all hdeclared hnet) hpropagate) id hid
  obtain ⟨shape, hshape⟩ := Option.isSome_iff_exists.1 hshaped
  exact ⟨p, hp, hpid, hflat, shape, hshape, (hlayout p hp .flat shape hflat hshape).1 rfl⟩

end LayerGraph
