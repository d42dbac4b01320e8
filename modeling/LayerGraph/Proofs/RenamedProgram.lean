import LayerGraph.Proofs.NamedModel
import LayerGraph.Proofs.RenamedReport
import LayerGraph.Session
import Mathlib.Logic.Equiv.Basic
import Mathlib.SetTheory.Cardinal.Arithmetic
/-!
# Models of renamed drawings

In a model the ids of nodes are seen through the identifiers alone that they are given. So the model of
a renamed architecture is that of the architecture, with the identifiers of the renamed nodes in the
place of those of the nodes (`Emission.modelWith_rename`), whatever the new ids are: those that look
alike as identifiers are told apart by numbers, as ever.

`renaming_invariant` says so together with the report and the emission order. It speaks of renamings
that tell all names apart; a renaming of one drawing acts on it like one of them
(`Graph.exists_rename_eq`).
-/

namespace LayerGraph
set_option autoImplicit false

section Renaming

variable {f g : String → String} (hf : f.Injective)

/-! ## Models -/

include hf

theorem variableWith_rename (nameOf : String → String) (root id : String) :
    variableWith nameOf (f root) (f id) = variableWith (nameOf ∘ f) root id := by
  simp only [variableWith, hf.eq_iff, Function.comp_apply]

theorem Propagation.effectiveParams_rename (overlay : Propagation) (p : Placed) :
    (overlay.rename f).effectiveParams (p.rename f) = overlay.effectiveParams p := by
  have hparams : (p.rename f).node.params = p.node.params := rfl
  have hlearned : (overlay.rename f).learned.get? (f p.id) = overlay.learned.get? p.id := by
    rw [rename, Table.get?_rename hf, Option.map_id]
    rfl
  rw [effectiveParams, effectiveParams, Placed.id_rename, Placed.operator_rename, hparams, hlearned]

namespace Emission

theorem addendsOf_rename (order : Emission) (kind : EdgeKind) (id : String) :
    (order.rename f).addendsOf kind (f id) = (order.addendsOf kind id).map f := by
  cases kind with
  | normal => rfl
  | residual =>
    rw [addendsOf, addendsOf, rename, Table.get?_rename hf]
    cases order.residualSources.get? id <;> rfl
  | sum =>
    rw [addendsOf, addendsOf, rename, Table.get?_rename hf]
    cases order.sumSources.get? id <;> rfl

theorem textWith_rename (order : Emission) (overlay : Propagation) (nameOf : String → String)
    (p : Placed) :
    (order.rename f).textWith (overlay.rename f) nameOf (p.rename f) =
      order.textWith overlay (nameOf ∘ f) p := by
  have hvars : ∀ ids : List String,
      (ids.map f).map (variableWith nameOf (order.rename f).root.id) =
        ids.map (variableWith (nameOf ∘ f) order.root.id) := by
    intro ids
    rw [List.map_map]
    exact List.map_congr_left fun id _ => variableWith_rename hf nameOf order.root.id id
  have hvalue : ∀ params vars,
      valueWith nameOf (p.rename f) params vars = valueWith (nameOf ∘ f) p params vars :=
    fun _ _ => rfl
  simp only [textWith, Placed.id_rename, inputsOf_rename hf, addendsOf_rename hf,
    Propagation.effectiveParams_rename hf, hvars, hvalue, Function.comp_apply]

/-- The model of a renamed order is that of the order, with the identifiers of the renamed nodes. -/
theorem modelWith_rename (order : Emission) (overlay : Propagation) (nameOf : String → String) :
    (order.rename f).modelWith (overlay.rename f) nameOf =
      order.modelWith overlay (nameOf ∘ f) := by
  have htexts : (order.rename f).nodes.map
      ((order.rename f).textWith (overlay.rename f) nameOf) =
        order.nodes.map (order.textWith overlay (nameOf ∘ f)) := by
    rw [rename, List.map_map]
    exact List.map_congr_left fun p _ => textWith_rename hf order overlay nameOf p
  have hlast : (order.rename f).last?.elim "x" (fun p => nameOf p.id ++ "_out") =
      order.last?.elim "x" fun p => (nameOf ∘ f) p.id ++ "_out" := by
    rw [last?, last?, rename, List.getLast?_map]
    cases order.nodes.getLast? <;> rfl
  have hblocks : Block.all.filter (fun block =>
      (order.rename f).nodes.any (·.operator.block? = some block)) =
        Block.all.filter fun block => order.nodes.any (·.operator.block? = some block) := by
    apply List.filter_congr
    intro block _
    rw [rename, List.any_map]
    rfl
  simp only [modelWith, htexts, hlast, hblocks]

end Emission

end Renaming

/-! ## Renamings of one drawing -/

/-- A renaming that tells finitely many ids apart agrees on them with one that tells all ids apart. -/
theorem exists_injective_extension {f : String → String} {ids : List String}
    (hf : Set.InjOn f {id | id ∈ ids}) :
    ∃ f' : String → String, f'.Injective ∧ ∀ id ∈ ids, f' id = f id := by
  have hinfinite : Infinite String :=
    Infinite.of_injective String.ofList fun _ _ h => String.ofList_injective h
  have hfew : Cardinal.mk {id | id ∈ ids} < Cardinal.mk String :=
    (Cardinal.lt_aleph0_iff_set_finite.2 ids.finite_toSet).trans_le (Cardinal.aleph0_le_mk String)
  obtain ⟨extended, hextended⟩ := Cardinal.extend_function_of_lt
    ⟨fun id : {id | id ∈ ids} => f id, fun a b h => Subtype.ext (hf a.2 b.2 h)⟩ hfew
    ⟨Equiv.refl String⟩
  exact ⟨extended, extended.injective, fun id hid => hextended ⟨id, hid⟩⟩

/-- On one drawing any renaming that tells its nodes and edges apart acts like one that tells all
names apart. -/
theorem Graph.exists_rename_eq (drawing : Graph) {f g : String → String}
    (hf : Set.InjOn f {id | id ∈ drawing.nodes.map Node.id ++
      (drawing.edges.map Edge.source ++ drawing.edges.map Edge.target)})
    (hg : Set.InjOn g {id | id ∈ drawing.edges.map Edge.id}) :
    ∃ f' g' : String → String, f'.Injective ∧ g'.Injective ∧
      drawing.rename f g = drawing.rename f' g' := by
  obtain ⟨f', hf', hnodes⟩ := exists_injective_extension hf
  obtain ⟨g', hg', hedges⟩ := exists_injective_extension hg
  refine ⟨f', g', hf', hg', ?_⟩
  have hnode : ∀ n ∈ drawing.nodes, n.rename f = n.rename f' := fun n hn => by
    rw [Node.rename, Node.rename,
      hnodes n.id (List.mem_append_left _ (List.mem_map_of_mem hn))]
  have hedge : ∀ e ∈ drawing.edges, e.rename f g = e.rename f' g' := fun e he => by
    have hends := fun id h => hnodes id (List.mem_append_right _ h)
    rw [Edge.rename, Edge.rename, hedges e.id (List.mem_map_of_mem he),
      hends e.source (List.mem_append_left _ (List.mem_map_of_mem he)),
      hends e.target (List.mem_append_right _ (List.mem_map_of_mem he))]
  rw [Graph.rename, Graph.rename, List.map_congr_left hnode, List.map_congr_left hedge]

/-! ## Projects -/

/-- The project with the nodes and edges of its architecture renamed. -/
def Project.rename (f g : String → String) (p : Project) : Project :=
  p.withGraph .architecture (p.architecture.rename f g)

/-- The faults of a renamed project are of the same kinds, in the same order. -/
theorem Project.kinds_rename {f g : String → String} (hf : f.Injective) (hg : g.Injective)
    (p : Project) : (p.rename f g).report.faults.map Fault.kind = p.report.faults.map Fault.kind := by
  have harchitecture : ((p.rename f g).graphReport .architecture).faults =
      (p.graphReport .architecture).faults.map (Fault.rename f) :=
    faults_architectureReport_rename hf hg
  have hpipeline : (p.rename f g).graphReport .pipeline = p.graphReport .pipeline := rfl
  have hkind : Fault.kind ∘ Fault.rename f = Fault.kind := funext (Fault.kind_rename f)
  rw [Project.report, Project.report, Report.faults_append, Report.faults_append, harchitecture,
    hpipeline, List.map_append, List.map_append, List.map_map, hkind]

theorem Project.isValid_rename {f g : String → String} (hf : f.Injective) (hg : g.Injective)
    (p : Project) : (p.rename f g).report.isValid = p.report.isValid := by
  have hkinds := congrArg List.isEmpty (p.kinds_rename hf hg)
  rwa [List.isEmpty_map, List.isEmpty_map] at hkinds

/-- Giving the nodes and edges of an architecture other ids, different ones to different nodes and
edges, changes nothing but names. The report has faults of the same kinds in the same order, and the
emission order, or the fault that takes its place, is renamed. The model of a valid project is the
same but for the identifiers: each node has the one that is given to the renamed node, and in both
models different nodes have different ones.

A renaming that tells apart the ids of the drawing, but not all strings, gives the same drawing as one
that does (`Graph.exists_rename_eq`). -/
theorem renaming_invariant (p : Project) (f g : String → String) (hf : f.Injective)
    (hg : g.Injective) :
    (p.rename f g).report.faults.map Fault.kind = p.report.faults.map Fault.kind ∧
      (p.rename f g).report.isValid = p.report.isValid ∧
      (Network.ofGraph (p.rename f g).architecture.nodes (p.rename f g).architecture.edges
          >>= Network.emission) =
        renamed f (Emission.rename f)
          (Network.ofGraph p.architecture.nodes p.architecture.edges >>= Network.emission) ∧
      (p.report.isValid = true → ∃ order overlay,
        (Network.ofGraph p.architecture.nodes p.architecture.edges >>= Network.emission) =
          .ok order ∧
        propagate p.architecture.nodes p.architecture.edges = .ok overlay ∧
        propagate (p.rename f g).architecture.nodes (p.rename f g).architecture.edges =
          .ok (overlay.rename f) ∧
        order.model overlay = .ok (order.modelWith overlay order.names.nameOf) ∧
        (order.rename f).model (overlay.rename f) =
          .ok (order.modelWith overlay fun id => (order.rename f).names.nameOf (f id)) ∧
        ∀ q ∈ order.nodes, ∀ r ∈ order.nodes,
          (order.names.nameOf q.id = order.names.nameOf r.id → q = r) ∧
          ((order.rename f).names.nameOf (f q.id) = (order.rename f).names.nameOf (f r.id) →
            q = r)) := by
  have hvalid := p.isValid_rename hf hg
  have hemission : (Network.ofGraph (p.rename f g).architecture.nodes
      (p.rename f g).architecture.edges >>= Network.emission) =
        renamed f (Emission.rename f)
          (Network.ofGraph p.architecture.nodes p.architecture.edges >>= Network.emission) := by
    have hnet := Network.ofGraph_rename g hf p.architecture.nodes p.architecture.edges
    have hbind : renamed f (Network.rename hf g)
        (Network.ofGraph p.architecture.nodes p.architecture.edges) >>= Network.emission = _ :=
      renamed_bind fun net => net.emission_rename g hf
    exact (congrArg (· >>= Network.emission) hnet).trans hbind
  refine ⟨p.kinds_rename hf hg, hvalid, hemission, fun hp => ?_⟩
  have hfaults := Report.isValid_iff.1 hp
  have hfaults' := Report.isValid_iff.1 (hvalid.trans hp)
  rw [Project.report, Report.faults_append, List.append_eq_nil_iff] at hfaults hfaults'
  obtain ⟨net, order, overlay, h⟩ := architectureReport_isValid_iff.1 hfaults.1
  obtain ⟨net', order', overlay', h'⟩ := architectureReport_isValid_iff.1 hfaults'.1
  have horder : (Network.ofGraph p.architecture.nodes p.architecture.edges
      >>= Network.emission) = .ok order := bind_eq_ok_iff.2 ⟨net, h.ofGraph, h.emission⟩
  have horder' : (Network.ofGraph (p.rename f g).architecture.nodes
      (p.rename f g).architecture.edges >>= Network.emission) = .ok order' :=
    bind_eq_ok_iff.2 ⟨net', h'.ofGraph, h'.emission⟩
  have hoverlay : propagate (p.rename f g).architecture.nodes (p.rename f g).architecture.edges =
      .ok (overlay.rename f) :=
    (propagate_rename hf g p.architecture.nodes p.architecture.edges).trans
      (congrArg (renamed f (Propagation.rename f)) h.propagate)
  obtain rfl : order.rename f = order' := by
    rw [horder, horder'] at hemission
    exact (Except.ok.inj hemission).symm
  obtain rfl : overlay.rename f = overlay' := Except.ok.inj (hoverlay.symm.trans h'.propagate)
  have hmodel := h'.model_eq
  rw [Emission.modelWith_rename hf] at hmodel
  refine ⟨order, overlay, horder, h.propagate, hoverlay, h.model_eq, hmodel, fun q hq r hr =>
    ⟨h.nameOf_inj hq hr, fun hname => ?_⟩⟩
  have hsame : q.rename f = r.rename f := h'.nameOf_inj (List.mem_map_of_mem hq)
    (List.mem_map_of_mem hr) hname
  exact List.inj_on_of_nodup_map h.isEmission.nodup_ids hq hr (hf (congrArg Placed.id hsame))

/-- Ids that look alike as identifiers, a keyword and an attribute of every module. -/
def awkwardIds : Equiv.Perm String :=
  (Equiv.swap "conv" "class").trans
    ((Equiv.swap "norm" "Class").trans (Equiv.swap "head" "forward"))

/-- The names of the fields of the model of a graph. -/
def Graph.fieldNames? (drawing : Graph) : Except Fault (List String) := do
  let order ← Network.ofGraph drawing.nodes drawing.edges >>= Network.emission
  let overlay ← propagate drawing.nodes drawing.edges
  let model ← order.model overlay
  .ok (model.fields.map FieldDecl.name)

theorem renaming_invariant_awkwardIds :
    Project.sample.architecture.fieldNames? = .ok ["conv", "norm", "head"] ∧
      (Project.sample.rename awkwardIds awkwardIds).architecture.fieldNames? =
        .ok ["class_", "class__2", "forward_layer"] ∧
      (Project.sample.rename awkwardIds awkwardIds).report.isValid = true ∧
      ∃ (order : Emission) (overlay : Propagation),
        (order.rename awkwardIds).model (overlay.rename awkwardIds) =
          .ok (order.modelWith overlay fun id =>
            (order.rename awkwardIds).names.nameOf (awkwardIds id)) := by
  have hvalid : Project.sample.report.isValid = true := by decide +kernel
  obtain ⟨-, hsame, -, hmodels⟩ := renaming_invariant Project.sample awkwardIds awkwardIds
    awkwardIds.injective awkwardIds.injective
  obtain ⟨order, overlay, -, -, -, -, hmodel, -⟩ := hmodels hvalid
  exact ⟨by decide +kernel, by decide +kernel, hsame.trans hvalid, order, overlay, hmodel⟩

end LayerGraph
