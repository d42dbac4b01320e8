import LayerGraph.Program.Compile
import LayerGraph.Proofs.Sound
import LayerGraph.Proofs.Writing
/-!
# The gate before the compiler

`Project.compile` tests the settings and the project and then writes the program. After these tests
nothing fails any more:

* `IsSound.exists_model`, `IsSound.exists_dataset` and `IsSound.exists_criterion` for the parts that
  come from the architecture;
* `exists_training` for the part that comes from the pipeline, whose nodes `Network.listed` gives in
  topological order (`Network.exists_order_of_training`);
* `compile_gate`: so a project is compiled exactly when it passes the tests, and otherwise the answer
  is the first fault that they found.
-/

namespace LayerGraph
set_option autoImplicit false

/-! ## Constructor calls -/

theorem exists_constructorCall {o : Operator} (h : ∃ callee, o.callee = some callee)
    (params : Params) : ∃ call, constructorCall o params = .ok call := by
  obtain ⟨callee, hcallee⟩ := h
  exact ⟨_, by rw [constructorCall, hcallee]⟩

theorem exists_optimizerCall {o : Operator} (h : ∃ callee, o.callee = some callee)
    (params : Params) : ∃ call, optimizerCall o params = .ok call := by
  obtain ⟨callee, hcallee⟩ := h
  exact ⟨_, by rw [optimizerCall, hcallee]⟩

/-! ## The architecture -/

/-- The loss that valid settings name is in the catalog and is a loss. -/
theorem Settings.exists_loss {settings : Settings} (h : settings.validate = .ok ()) :
    ∃ o, Catalog.find? .architecture settings.fallbackLoss = some o ∧ o.isLoss = true := by
  simp only [Settings.validate, refuse_eq_ok_iff] at h
  obtain ⟨-, hsome, -⟩ := h
  obtain ⟨o, hfallback⟩ := Option.ne_none_iff_exists'.1 (mt Option.isNone_iff_eq_none.2 hsome)
  exact ⟨o, Option.filter_eq_some_iff.1 hfallback⟩

namespace IsSound

variable {nodes : List Node} {edges : List Edge} {net : Network} {order : Emission}
  {overlay : Propagation}

theorem writable (h : IsSound nodes edges net order overlay) {p : Placed} (hp : p ∈ order.nodes) :
    Writable p (order.inputsOf p.id) where
  operand := fun hmerge hempty => by
    obtain ⟨e, -, -, -, hoperands⟩ := h.operands_of_not_isMerge hp hmerge
    rw [h.isEmission.inputsOf p hp, hoperands] at hempty
    cases hempty
  callee := fun hmerge _ => Operator.exists_callee (h.mem_all (h.isEmission.mem_net hp))
    (h.rule_ne_dataset hp) fun hadd => by
      rw [Operator.isMerge, hadd] at hmerge
      cases hmerge

theorem exists_model (h : IsSound nodes edges net order overlay) :
    ∃ model names texts, order.model overlay = .ok model ∧
      order.IsModel overlay model names texts :=
  LayerGraph.exists_model fun _ hp => h.writable hp

theorem exists_dataset (h : IsSound nodes edges net order overlay) :
    ∃ dataset, order.dataset = .ok dataset := by
  have hroot := h.isEmission.root_mem
  have hrule := (Operator.isRoot_iff (h.mem_all hroot)).1 h.isEmission.isRoot_root
  obtain ⟨name, dataset, hname, hdataset⟩ :=
    Operator.exists_dataset (h.mem_all hroot) hrule (h.problems_eq_nil hroot)
  have hparam : order.root.params.text? "dataset" = some name := hname
  refine ⟨dataset, ?_⟩
  simp only [Emission.dataset, hparam, Option.getD_some, hdataset]

/-- The criterion of the network, or that of the settings, can be constructed. -/
theorem exists_criterion (h : IsSound nodes edges net order overlay) {settings : Settings}
    (hsettings : settings.validate = .ok ()) :
    ∃ criterion, order.criterion settings = .ok criterion := by
  have hcallee : ∀ o ∈ Operator.Architecture.all, o.isLoss = true →
      ∃ callee, o.callee = some callee := fun o ho hloss => by
    have hrule := (Operator.rule_of_isLoss ho hloss).1
    exact Operator.exists_callee ho (by simp [hrule]) (by simp [hrule])
  obtain ⟨o, hfound, hloss⟩ := Settings.exists_loss hsettings
  rw [Emission.criterion, h.isEmission.loss]
  split
  · rename_i loss hloss
    exact exists_constructorCall (hcallee _ (h.mem_all (List.mem_of_find?_eq_some hloss))
      (by simpa using List.find?_some hloss)) _
  · simp only [hfound]
    exact exists_constructorCall (hcallee o (Catalog.mem_operators hfound).1 hloss) _

end IsSound

/-! ## The pipeline -/

theorem exists_transformPlan {nodes : List Placed}
    (h : ∀ p ∈ nodes, ∃ callee, p.operator.callee = some callee) :
    ∃ plan, transformPlan nodes = .ok plan := by
  obtain ⟨calls, hcalls⟩ := exists_mapM (f := fun p => constructorCall p.operator p.params)
    fun p hp => exists_constructorCall (h p hp) p.params
  rw [transformPlan, hcalls]
  simp only [bind, Except.bind]
  split
  · exact ⟨_, rfl⟩
  · exact ⟨_, rfl⟩

/-- The transforms are the calls of the nodes in their order, behind one to tensors if no node makes
that. -/
theorem exists_calls_of_transformPlan {nodes : List Placed} {plan : List Expr}
    (h : transformPlan nodes = .ok plan) :
    ∃ calls, List.Forall₂ (fun p call => constructorCall p.operator p.params = .ok call) nodes
        calls ∧
      plan = if ∀ p ∈ nodes, p.operator.id ≠ "totensor" then
        .call "transforms.ToTensor" [] [] :: calls else calls := by
  obtain ⟨calls, hcalls, h⟩ := bind_eq_ok_iff.1 h
  refine ⟨calls, mapM_eq_ok_iff.1 hcalls, ?_⟩
  split at h
  · rename_i hany
    obtain ⟨p, hp, hid⟩ := List.any_eq_true.1 hany
    rw [if_neg fun hnone => hnone p hp (beq_iff_eq.1 hid)]
    exact (Except.ok.inj h).symm
  · rename_i hnone
    rw [if_pos fun p hp hid => hnone (List.any_eq_true.2 ⟨p, hp, beq_iff_eq.2 hid⟩)]
    exact (Except.ok.inj h).symm

theorem mem_of_transformPlan {nodes : List Placed} {plan : List Expr}
    (h : transformPlan nodes = .ok plan) {call : Expr} (hcall : call ∈ plan) :
    call = .call "transforms.ToTensor" [] [] ∨
      ∃ p ∈ nodes, constructorCall p.operator p.params = .ok call := by
  obtain ⟨calls, hcalls, rfl⟩ := exists_calls_of_transformPlan h
  have hdrawn : call ∈ calls → ∃ p ∈ nodes, constructorCall p.operator p.params = .ok call :=
    mem_of_mapM_eq_ok (mapM_eq_ok_iff.2 hcalls)
  split at hcall
  · exact (List.mem_cons.1 hcall).imp id hdrawn
  · exact .inr (hdrawn hcall)

theorem exists_optimizerPlan {nodes : List Placed}
    (h : ∀ p ∈ nodes, ∃ callee, p.operator.callee = some callee) :
    ∃ plan, optimizerPlan nodes = .ok plan := by
  cases nodes with
  | nil => exact optimizerPlan_nil ▸ exists_optimizerCall ⟨"optim.Adam", rfl⟩ _
  | cons p rest => exact exists_optimizerCall (h p List.mem_cons_self) _

theorem exists_metricPlans (dataset : Dataset) (names : Names) {nodes : List Placed}
    (h : ∀ p ∈ nodes, ∃ callee, p.operator.callee = some callee) :
    ∃ plans, metricPlans dataset names nodes = .ok plans := by
  induction nodes generalizing names with
  | nil => exact ⟨[], rfl⟩
  | cons p rest ih =>
    obtain ⟨callee, hcallee⟩ := h p List.mem_cons_self
    obtain ⟨plans, hplans⟩ := ih (names.ident p.id).2 fun q hq => h q (List.mem_cons_of_mem _ hq)
    exact ⟨_, by simp only [metricPlans, hcallee, hplans, bind, Except.bind]; rfl⟩

theorem exists_networkTraining {net : Network} (hacyclic : Acyclic net.edges)
    (hoperators : ∀ p ∈ net.nodes, p.operator ∈ Operator.Pipeline.all) (settings : Settings)
    (dataset : Dataset) : ∃ plan, net.training settings dataset = .ok plan := by
  obtain ⟨order, horder⟩ := Network.exists_topological hacyclic
  have hcallee : ∀ category ∈ [Category.dataAugmentation, .optimization, .metrics],
      ∀ p ∈ (order.filterMap net.find?).filter (·.operator.category = category),
        ∃ callee, p.operator.callee = some callee := by
    intro category hcategory p hp
    obtain ⟨hmem, hcat⟩ := List.mem_filter.1 hp
    exact Operator.exists_callee_of_category
      (hoperators p (Network.mem_filterMap_find?.1 hmem).1) (of_decide_eq_true hcat ▸ hcategory)
  obtain ⟨transforms, htransforms⟩ :=
    exists_transformPlan (hcallee .dataAugmentation (by simp))
  obtain ⟨optimizer, hoptimizer⟩ := exists_optimizerPlan (hcallee .optimization (by simp))
  obtain ⟨metrics, hmetrics⟩ := exists_metricPlans dataset {} (hcallee .metrics (by simp))
  exact ⟨_, by
    simp only [Network.training, horder, htransforms, hoptimizer, hmetrics, bind, Except.bind]
    rfl⟩

/-- The nodes of a category, as a list of ids names them. -/
def Network.listed (net : Network) (order : List String) (category : Category) : List Placed :=
  (order.filterMap net.find?).filter (·.operator.category = category)

theorem Network.mem_listed {net : Network} {order : List String} {category : Category}
    {p : Placed} :
    p ∈ net.listed order category ↔
      p ∈ net.nodes ∧ p.id ∈ order ∧ p.operator.category = category := by
  rw [listed, List.mem_filter, mem_filterMap_find?, decide_eq_true_iff, and_assoc]

/-- Where the nodes of an operator are all of one category, they are listed if there are any. -/
theorem Network.exists_listed_iff {net : Network} {order : List String} {category : Category}
    {operator : String} (horder : order.Perm net.ids)
    (hcategory : ∀ p ∈ net.nodes, p.operator.id = operator → p.operator.category = category) :
    (∃ p ∈ net.listed order category, p.operator.id = operator) ↔
      ∃ p ∈ net.nodes, p.operator.id = operator := by
  simp only [mem_listed]
  constructor
  · rintro ⟨p, ⟨hp, -, -⟩, hid⟩
    exact ⟨p, hp, hid⟩
  · rintro ⟨p, hp, hid⟩
    exact ⟨p, ⟨hp, horder.mem_iff.2 (id_mem_ids hp), hcategory p hp hid⟩, hid⟩

/-- The parts of a plan come from the nodes of one topological order. -/
theorem Network.exists_order_of_training {net : Network} {settings : Settings} {dataset : Dataset}
    {plan : TrainingPlan} (h : net.training settings dataset = .ok plan) :
    ∃ order, net.topological = .ok order ∧
      transformPlan (net.listed order .dataAugmentation) = .ok plan.transforms ∧
      plan.checkpoint = (callback? (net.listed order .callbacks) "modelcheckpoint").map
        (checkpointPlan settings.checkpointDir) ∧
      ∀ root, (net.listed order .dataset).head? = some root →
        plan.shuffle = flag root.params "shuffle" true ∧
          (plan.trainArgs, plan.testArgs) =
            splitArgs dataset.split (flag root.params "download" true) := by
  obtain ⟨order, horder, h⟩ := bind_eq_ok_iff.1 h
  obtain ⟨transforms, htransforms, h⟩ := bind_eq_ok_iff.1 h
  obtain ⟨optimizer, -, h⟩ := bind_eq_ok_iff.1 h
  obtain ⟨metrics, -, h⟩ := bind_eq_ok_iff.1 h
  obtain rfl := Except.ok.inj h
  refine ⟨order, horder, htransforms, rfl, fun root hroot => ?_⟩
  have hsource : ((net.listed order .dataset).head?.map Placed.params).getD .empty =
      root.params := by
    rw [hroot]
    rfl
  exact ⟨congrArg (flag · "shuffle" true) hsource,
    congrArg (fun source => splitArgs dataset.split (flag source "download" true)) hsource⟩

theorem IsSoundPipeline.exists_training {pipeline : Graph} {net : Network}
    (h : IsSoundPipeline pipeline net) (hnodes : pipeline.nodes ≠ []) (settings : Settings)
    (dataset : Dataset) :
    ∃ plan, net.training settings dataset = .ok plan ∧
      pipeline.training settings dataset = .ok (some plan) := by
  obtain ⟨plan, hplan⟩ :=
    exists_networkTraining h.acyclic (fun _ => h.mem_all) settings dataset
  refine ⟨plan, hplan, ?_⟩
  rw [Graph.training, if_neg (by simpa using hnodes), h.ofGraph]
  simp only [bind, Except.bind, hplan]

theorem Graph.training_of_nodes_eq_nil {pipeline : Graph} (h : pipeline.nodes = [])
    (settings : Settings) (dataset : Dataset) :
    pipeline.training settings dataset = .ok none := by
  rw [training, if_pos (List.isEmpty_iff.2 h)]

/-- The training plan of a pipeline without faults is that of its network. -/
theorem networkTraining_of_training {p : Project} (h : (p.graphReport .pipeline).faults = [])
    {settings : Settings} {dataset : Dataset} {training : Option TrainingPlan}
    (htraining : p.pipeline.training settings dataset = .ok training) :
    (p.pipeline.nodes = [] ∧ training = none) ∨
      p.pipeline.nodes ≠ [] ∧ ∃ (net : Network) (plan : TrainingPlan),
        IsSoundPipeline p.pipeline net ∧ net.training settings dataset = .ok plan ∧
        training = some plan := by
  by_cases hnodes : p.pipeline.nodes = []
  · rw [Graph.training_of_nodes_eq_nil hnodes] at htraining
    exact .inl ⟨hnodes, (Except.ok.inj htraining).symm⟩
  · obtain ⟨net, hsound⟩ := exists_isSoundPipeline h
    obtain ⟨plan, hplan, hsome⟩ := hsound.exists_training hnodes settings dataset
    exact .inr ⟨hnodes, net, plan, hsound, hplan, Except.ok.inj (htraining.symm.trans hsome)⟩

/-- A pipeline without faults has a training plan, if it has nodes. -/
theorem exists_training {p : Project} (h : (p.graphReport .pipeline).faults = [])
    (settings : Settings) (dataset : Dataset) :
    ∃ plan, p.pipeline.training settings dataset = .ok plan := by
  by_cases hnodes : p.pipeline.nodes = []
  · exact ⟨none, Graph.training_of_nodes_eq_nil hnodes settings dataset⟩
  · obtain ⟨net, hsound⟩ := exists_isSoundPipeline h
    obtain ⟨plan, -, hsome⟩ := hsound.exists_training hnodes settings dataset
    exact ⟨some plan, hsome⟩

/-! ## The gate -/

/-- Behind the gate nothing fails. -/
theorem exists_program {p : Project} {settings : Settings}
    (hsettings : settings.validate = .ok ()) (hreport : p.report.faults = []) :
    ∃ program, p.program settings = .ok program := by
  rw [Project.report, Report.faults_append, List.append_eq_nil_iff] at hreport
  obtain ⟨net, order, overlay, h⟩ := architectureReport_isValid_iff.1 hreport.1
  obtain ⟨model, names, texts, hmodel, -⟩ := h.exists_model
  obtain ⟨dataset, hdataset⟩ := h.exists_dataset
  obtain ⟨criterion, hcriterion⟩ := h.exists_criterion hsettings
  obtain ⟨training, htraining⟩ := exists_training hreport.2 settings dataset
  exact ⟨_, by
    simp only [Project.program, h.ofGraph, h.emission, h.propagate, hmodel, hdataset, hcriterion,
      htraining, bind, Except.bind]
    rfl⟩

/-- A project is compiled exactly when its settings and its report have no fault; otherwise the
answer is the fault of the settings, or else the first fault of the report. Once both tests have
been passed, every later stage succeeds. -/
theorem compile_gate (p : Project) (settings : Settings) :
    ((∃ text, p.compile settings = .ok text) ↔
        settings.validate = .ok () ∧ p.report.isValid = true) ∧
      (∀ fault, p.compile settings = .error fault ↔
        settings.validate = .error fault ∨
          settings.validate = .ok () ∧ p.report.faults.head? = some fault) ∧
      (settings.validate = .ok () ∧ p.report.isValid = true →
        ∃ program, p.program settings = .ok program ∧
          p.compile settings = .ok program.text) := by
  rw [Report.isValid_iff]
  cases hsettings : settings.validate with
  | error fault =>
    have hcompile : p.compile settings = .error fault := by
      rw [Project.compile, hsettings]
      rfl
    rw [hcompile]
    simp
  | ok =>
    cases hfaults : p.report.faults with
    | cons first rest =>
      have hcompile : p.compile settings = .error first := by
        rw [Project.compile, hsettings, Report.result, hfaults]
        rfl
      rw [hcompile]
      simp
    | nil =>
      obtain ⟨program, hprogram⟩ := exists_program hsettings hfaults
      have hcompile : p.compile settings = .ok program.text := by
        rw [Project.compile, hsettings, Report.result, hfaults, hprogram]
        rfl
      rw [hcompile, hprogram]
      simp

theorem compile_gate_sample :
    ∃ program, Project.sample.program {} = .ok program ∧
      Project.sample.compile {} = .ok program.text :=
  (compile_gate Project.sample {}).2.2 ⟨by decide +kernel, by decide +kernel⟩

end LayerGraph
