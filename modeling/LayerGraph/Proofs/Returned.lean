import LayerGraph.Proofs.DefaultInputs
/-!
# What the forward method returns

The method returns the variable of the node that is emitted last, whichever node is wired into the
loss.

* `IsSound.returns_iff`: a model returns the output of an emitted node exactly when the node is the
  last one.
* `IsSound.not_feeds_of_last`: the last node feeds no emitted node. So it is the node in front of the
  loss when all other emitted nodes feed another (`returns_wired_iff`); otherwise it can be the end of
  a side branch (`not_returns_wired`).
-/

namespace LayerGraph
set_option autoImplicit false

/-- The variable that the forward method returns. -/
def Model.returned? (model : Model) : Option String :=
  match model.forward.getLast? with
  | some (.returns (.var name)) => some name
  | _ => none

/-- The source of the edge into the loss, if there is one loss with one edge, a normal one. -/
def Network.lossSource? (net : Network) : Option String :=
  match net.nodes.filter (·.operator.isLoss) with
  | [loss] =>
    match net.incoming loss.id with
    | [e] => if e.kind = .normal then some e.source else none
    | _ => none
  | _ => none

/-- The forward method of a graph returns the output of a node. -/
def Graph.Returns (g : Graph) (p : Placed) : Prop :=
  ∃ net order overlay model variableOf fieldOf,
    Network.ofGraph g.nodes g.edges = .ok net ∧ net.emission = .ok order ∧
    propagate g.nodes g.edges = .ok overlay ∧ order.model overlay = .ok model ∧
    model.IsLaidOut order overlay variableOf fieldOf ∧
    model.returned? = some (variableOf p.id)

/-! ## The last node -/

theorem Emission.IsModel.returned?_eq {order : Emission} {overlay : Propagation} {model : Model}
    {names : Names} {texts : List NodeText} (h : order.IsModel overlay model names texts)
    {net : Network} (hemission : net.IsEmission order) {last : Placed}
    (hlast : order.last? = some last) :
    model.returned? = some (names.variableOf order.root.id last.id) := by
  have htarget : texts.getLast?.map NodeText.target =
      some (names.variableOf order.root.id last.id) := by
    rw [← List.getLast?_map, h.targets_eq hemission, List.getLast?_map, List.getLast?_map,
      ← Emission.last?, hlast]
    rfl
  rw [Model.returned?, h.forward, List.getLast?_append, htarget]
  rfl

namespace IsSound

variable {g : Graph} {net : Network} {order : Emission} {overlay : Propagation}

/-- The model returns the output of a node exactly when the node is emitted last. -/
theorem returns_iff (h : IsSound g.nodes g.edges net order overlay) {p : Placed}
    (hp : p ∈ order.nodes) : g.Returns p ↔ order.last? = some p := by
  obtain ⟨model, names, texts, hok, hmodel⟩ := h.exists_model
  obtain ⟨last, hlast⟩ : ∃ last, order.last? = some last :=
    ⟨_, List.getLast?_eq_getLast_of_ne_nil h.nonempty⟩
  have hlastmem : last ∈ order.nodes := List.mem_of_getLast? hlast
  have hreturned := hmodel.returned?_eq h.isEmission hlast
  constructor
  · rintro ⟨net', order', overlay', model', variableOf, fieldOf, hnet, horder, hoverlay, hmodel',
      hlaid, hreturned'⟩
    obtain rfl := Except.ok.inj (hnet.symm.trans h.ofGraph)
    obtain rfl := Except.ok.inj (horder.symm.trans h.emission)
    obtain rfl := Except.ok.inj (hoverlay.symm.trans h.propagate)
    obtain rfl := Except.ok.inj (hmodel'.symm.trans hok)
    -- A layout has no choice: the variables are those that are assigned, node by node.
    have hsame := hlaid.assigned.symm.trans (h.isLaidOut hmodel).assigned
    have hvariable : variableOf p.id = names.variableOf order'.root.id p.id :=
      List.map_inj_left.1 hsame p hp
    rw [hreturned, hvariable, Option.some_inj] at hreturned'
    have hid := hmodel.variableOf_inj (Emission.emits_of_mem hlastmem)
      (Emission.emits_of_mem hp) hreturned'
    rw [hlast, List.inj_on_of_nodup_map h.isEmission.nodup_ids hlastmem hp hid]
  · intro hp
    exact ⟨net, order, overlay, model, _, _, h.ofGraph, h.emission, h.propagate, hok,
      h.isLaidOut hmodel, hmodel.returned?_eq h.isEmission hp⟩

theorem not_feeds_of_last (h : IsSound g.nodes g.edges net order overlay) {last : Placed}
    (hlast : order.last? = some last) {q : Placed} (hq : q ∈ order.nodes) :
    ¬ Feeds g.edges last.id q.id := by
  rw [← h.edges_eq]
  exact h.isEmission.not_feeds_of_last hlast hq

/-- When only one emitted node feeds no other, it is the last one. -/
theorem last_of_forall_feeds (h : IsSound g.nodes g.edges net order overlay) {p : Placed}
    (hfeeds : ∀ q ∈ order.nodes, q ≠ p → ∃ r ∈ order.nodes, Feeds g.edges q.id r.id) :
    order.last? = some p := by
  obtain ⟨last, hlast⟩ : ∃ last, order.last? = some last :=
    ⟨_, List.getLast?_eq_getLast_of_ne_nil h.nonempty⟩
  by_cases heq : last = p
  · rw [hlast, heq]
  · obtain ⟨r, hr, hfed⟩ := hfeeds last (List.mem_of_getLast? hlast) heq
    exact absurd hfed (h.not_feeds_of_last hlast hr)

end IsSound

/-! ## The node in front of the loss -/

/-- The forward method of a valid project returns the output of the node in front of its loss exactly
when this node is emitted last. It is when all other emitted nodes feed an emitted node; it is not
when the node itself feeds one. -/
theorem returns_wired_iff (p : Project) (hvalid : p.report.isValid = true) :
    ∃ net order, Network.ofGraph p.architecture.nodes p.architecture.edges = .ok net ∧
      net.emission = .ok order ∧
      ∀ source ∈ order.nodes, net.lossSource? = some source.id →
        (p.architecture.Returns source ↔ order.last? = some source) ∧
        ((∀ q ∈ order.nodes, q ≠ source →
            ∃ r ∈ order.nodes, Feeds p.architecture.edges q.id r.id) →
          p.architecture.Returns source) ∧
        ((∃ r ∈ order.nodes, Feeds p.architecture.edges source.id r.id) →
          ¬ p.architecture.Returns source) := by
  rw [Report.isValid_iff, Project.report, Report.faults_append, List.append_eq_nil_iff] at hvalid
  obtain ⟨net, order, overlay, h⟩ := architectureReport_isValid_iff.1 hvalid.1
  refine ⟨net, order, h.ofGraph, h.emission, fun source hsource _ => ?_⟩
  have hreturns := h.returns_iff hsource
  refine ⟨hreturns, fun hfeeds => hreturns.2 (h.last_of_forall_feeds hfeeds), ?_⟩
  rintro ⟨r, hr, hfed⟩ hreturned
  exact h.not_feeds_of_last (hreturns.1 hreturned) hr hfed

theorem returns_wired_iff_sample :
    ∃ source : Placed, source.id = "head" ∧ Project.sample.architecture.Returns source := by
  have hvalid : Project.sample.report.isValid = true := by decide +kernel
  obtain ⟨net, order, hnet, horder, hreturns⟩ := returns_wired_iff Project.sample hvalid
  have hvalue : (do
      let net ← Network.ofGraph Project.sample.architecture.nodes Project.sample.architecture.edges
      let order ← net.emission
      .ok (net.lossSource?, order.last?.map Placed.id) : Except Fault _).toOption =
        some (some "head", some "head") := by
    decide +kernel
  rw [hnet] at hvalue
  simp only [bind, Except.bind, horder, Except.toOption, Option.some.injEq, Prod.mk.injEq] at hvalue
  obtain ⟨hloss, hlast⟩ := hvalue
  obtain ⟨source, hsource, hid⟩ := Option.map_eq_some_iff.1 hlast
  have hmem : source ∈ order.nodes := List.mem_of_getLast? hsource
  exact ⟨source, hid, (hreturns source hmem (hid ▸ hloss)).1.2 hsource⟩

/-- A classifier of which the output goes into the loss and, beside it, into a softmax. -/
def Project.probed : Project where
  architecture :=
    { nodes :=
        [{ id := "data", operatorId := "dataset" },
         { id := "flat", operatorId := "flatten" },
         { id := "head", operatorId := "linear" },
         { id := "loss", operatorId := "crossentropyloss" },
         { id := "prob", operatorId := "softmax" }]
      edges :=
        [{ id := "1", source := "data", target := "flat" },
         { id := "2", source := "flat", target := "head" },
         { id := "3", source := "head", target := "loss" },
         { id := "4", source := "head", target := "prob" }] }

/-- The project is in order, but its method does not return what goes into the loss. -/
theorem not_returns_wired :
    Project.probed.report.isValid = true ∧
      (Project.probed.architecture.edges.map Edge.id).Nodup ∧
      ∃ net order source,
        Network.ofGraph Project.probed.architecture.nodes Project.probed.architecture.edges =
          .ok net ∧
        net.emission = .ok order ∧ source ∈ order.nodes ∧ net.lossSource? = some source.id ∧
        source.id = "head" ∧ ¬ Project.probed.architecture.Returns source := by
  have hvalid : Project.probed.report.isValid = true := by decide +kernel
  have hvalue : (do
      let net ← Network.ofGraph Project.probed.architecture.nodes Project.probed.architecture.edges
      let order ← net.emission
      .ok (net.lossSource?, order.nodes.map Placed.id, order.last?.map Placed.id) :
        Except Fault _).toOption =
        some (some "head", ["flat", "head", "prob"], some "prob") := by
    decide +kernel
  have hfaults := hvalid
  rw [Report.isValid_iff, Project.report, Report.faults_append, List.append_eq_nil_iff] at hfaults
  obtain ⟨net, order, overlay, h⟩ := architectureReport_isValid_iff.1 hfaults.1
  rw [h.ofGraph] at hvalue
  simp only [bind, Except.bind, h.emission, Except.toOption, Option.some.injEq,
    Prod.mk.injEq] at hvalue
  obtain ⟨hloss, hnodes, hlast⟩ := hvalue
  obtain ⟨source, hsource, hid⟩ : ∃ source ∈ order.nodes, source.id = "head" :=
    List.mem_map.1 (hnodes ▸ by simp)
  refine ⟨hvalid, by decide +kernel, net, order, source, h.ofGraph, h.emission, hsource,
    hid ▸ hloss, hid, fun hreturns => ?_⟩
  rw [(h.returns_iff hsource).1 hreturns, Option.map_some, hid] at hlast
  exact absurd hlast (by decide)

end LayerGraph
