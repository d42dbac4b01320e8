import LayerGraph.Proofs.ModelClass
/-!
# Constructor calls

A constructor call names the parameters that have a value and leaves the others out. In the program
of a project without faults nothing is left out that has to be there, and no value stands that would
be refused.

* `Operator.Takes o params`: the parameters have what the operator requires and pass its tests. So
  do those of a node over the defaults (`Operator.takes_resolve`), and with what is learned over both
  (`IsSound.takes_effectiveParams`).
* `Operator.Constructs o call`: the keyword arguments stand in the order of the declarations, each
  once, with all that is required, and with values that pass the tests.
* `constructor_calls_complete` says so of all fields, of the criterion and of all transforms. The
  fields also have the size that their rule learns, though it is not declared to be required.
-/

namespace LayerGraph
set_option autoImplicit false

/-! ## Parameters that suffice -/

namespace Operator

variable {o : Operator} {params : Params}

/-- The parameters have values for all that the operator requires, and none that it refuses. -/
structure Takes (o : Operator) (params : Params) : Prop where
  given : ∀ decl ∈ o.params, decl.required = true →
    ∃ value, params.get? decl.name = some value
  checks : ∀ decl ∈ o.params, ∀ value, params.get? decl.name = some value → decl.Checks value

/-- What is required is set, or else has a default. -/
theorem exists_resolve_of_required (hdeclared : o.WellDeclared) (h : o.problems params = [])
    {decl : ParamDecl} (hdecl : decl ∈ o.params) (hrequired : decl.required = true) :
    ∃ value, (o.resolve params).get? decl.name = some value := by
  cases hset : params.get? decl.name with
  | some value => exact ⟨value, by rw [resolve, Table.get?_overlay, hset]; rfl⟩
  | none =>
    have hnone := (problems_eq_nil_iff.1 h).1 decl hdecl
    rw [declProblem?, hset] at hnone
    cases hdefault : decl.default with
    | some value =>
      exact exists_resolve hdeclared params hdecl (Option.isSome_iff_exists.2 ⟨value, hdefault⟩)
    | none => simp [hrequired, hdefault] at hnone

theorem takes_resolve (hdeclared : o.WellDeclared) (h : o.problems params = []) :
    o.Takes (o.resolve params) where
  given := fun _ hdecl hrequired => exists_resolve_of_required hdeclared h hdecl hrequired
  checks := fun _ hdecl _ hvalue => checks_resolve hdeclared h hdecl hvalue

theorem takes_defaults {mode : Mode} (ho : o ∈ Catalog.operators mode) : o.Takes o.defaults := by
  rw [← resolve_empty]
  exact takes_resolve (wellDeclared mode ho) (problems_empty mode ho)

/-- One declared parameter more, with a value that passes its test. -/
theorem Takes.set (hdeclared : o.WellDeclared) {a b : Params} (h : o.Takes a) {decl : ParamDecl}
    (hdecl : decl ∈ o.params) {value : ParamValue} (hchecks : decl.Checks value)
    (hb : ∀ key, b.get? key = if key = decl.name then some value else a.get? key) :
    o.Takes b where
  given := by
    intro other hother hrequired
    rw [hb]
    split
    · exact ⟨value, rfl⟩
    · exact h.given other hother hrequired
  checks := by
    intro other hother found hfound
    rw [hb] at hfound
    split at hfound
    · rename_i hname
      obtain rfl := List.inj_on_of_nodup_map hdeclared.1 hother hdecl hname
      exact Option.some.inj hfound ▸ hchecks
    · exact h.checks other hother found hfound

end Operator

/-! ## Calls -/

/-- The names of the keyword arguments of a call. -/
def Expr.keywordNames : Expr → List String
  | .call _ _ keywords => keywords.map Prod.fst
  | _ => []

/-- The keyword arguments are some of the declared parameters in their order, each once, with all
that are required and with values that pass the tests of their declarations. -/
structure Operator.IsComplete (o : Operator) (keywords : List (String × String)) : Prop where
  order : (keywords.map Prod.fst).Sublist (o.params.map ParamDecl.name)
  nodup : (keywords.map Prod.fst).Nodup
  required : ∀ decl ∈ o.params, decl.required = true → decl.name ∈ keywords.map Prod.fst
  legal : ∀ name text, (name, text) ∈ keywords → ∃ decl ∈ o.params, decl.name = name ∧
    ∃ value, decl.Checks value ∧ text = value.literal

/-- The call constructs the operator: it has keyword arguments only, and these are complete. -/
def Operator.Constructs (o : Operator) (call : Expr) : Prop :=
  ∃ callee keywords, o.callee = some callee ∧ call = .call callee [] keywords ∧
    o.IsComplete keywords

theorem sublist_keywordArgs (o : Operator) (params : Params) :
    ((keywordArgs o params).map Prod.fst).Sublist (o.params.map ParamDecl.name) := by
  rw [keywordArgs]
  induction o.params with
  | nil => exact .slnil
  | cons decl rest ih =>
    cases hvalue : params.get? decl.name with
    | none => simpa [hvalue] using ih.cons decl.name
    | some value => simpa [hvalue] using ih

theorem mem_keywordNames {o : Operator} {params : Params} {decl : ParamDecl}
    (hdecl : decl ∈ o.params) {value : ParamValue} (hvalue : params.get? decl.name = some value) :
    decl.name ∈ (keywordArgs o params).map Prod.fst :=
  List.mem_map.2 ⟨_, mem_keywordArgs.2 ⟨⟨decl, hdecl, rfl⟩, value, hvalue, rfl⟩, rfl⟩

theorem Operator.Takes.isComplete {o : Operator} (hdeclared : o.WellDeclared) {params : Params}
    (h : o.Takes params) : o.IsComplete (keywordArgs o params) where
  order := sublist_keywordArgs o params
  nodup := (sublist_keywordArgs o params).nodup hdeclared.1
  required := by
    intro decl hdecl hrequired
    obtain ⟨value, hvalue⟩ := h.given decl hdecl hrequired
    exact mem_keywordNames hdecl hvalue
  legal := by
    intro name text htext
    obtain ⟨⟨decl, hdecl, rfl⟩, value, hvalue, rfl⟩ := mem_keywordArgs.1 htext
    exact ⟨decl, hdecl, rfl, value, h.checks decl hdecl value hvalue, rfl⟩

theorem constructorCall_eq_ok {o : Operator} {params : Params} {call : Expr}
    (h : constructorCall o params = .ok call) :
    ∃ callee, o.callee = some callee ∧ call = .call callee [] (keywordArgs o params) := by
  unfold constructorCall at h
  split at h
  · rename_i callee hcallee
    exact ⟨callee, hcallee, (Except.ok.inj h).symm⟩
  · cases h

theorem Operator.Takes.constructs {o : Operator} (hdeclared : o.WellDeclared) {params : Params}
    (h : o.Takes params) {call : Expr} (hcall : constructorCall o params = .ok call) :
    o.Constructs call := by
  obtain ⟨callee, hcallee, rfl⟩ := constructorCall_eq_ok hcall
  exact ⟨callee, _, hcallee, rfl, h.isComplete hdeclared⟩

/-! ## The calls of a program -/

namespace IsSound

variable {nodes : List Node} {edges : List Edge} {net : Network} {order : Emission}
  {overlay : Propagation} {p : Placed}

theorem wellDeclared (h : IsSound nodes edges net order overlay) (hp : p ∈ net.nodes) :
    p.operator.WellDeclared := Operator.wellDeclared .architecture (h.mem_all hp)

theorem takes_params (h : IsSound nodes edges net order overlay) (hp : p ∈ net.nodes) :
    p.operator.Takes p.params :=
  Operator.takes_resolve (h.wellDeclared hp) (h.problems_eq_nil hp)

/-- A learned size is positive, as its declaration wants it. -/
theorem takes_effectiveParams (h : IsSound nodes edges net order overlay) (hp : p ∈ net.nodes) :
    p.operator.Takes (overlay.effectiveParams p) := by
  have hget := overlay.get?_effectiveParams p
  obtain hnone | ⟨name, size, hname, hlearned, hsize⟩ := h.learned_cases hp
  · have hsame : overlay.effectiveParams p = p.params := by
      apply Table.ext_get?
      intro key
      rw [hget, hnone]
      rfl
    exact hsame ▸ h.takes_params hp
  · refine (h.takes_params hp).set (h.wellDeclared hp)
      (Operator.inputSize_mem (h.mem_all hp) hname) (Operator.checks_inputSize_iff.2 hsize)
      fun key => ?_
    rw [hget, hlearned, Option.bind_some, get?_single]
    have hdecl : (Operator.Architecture.inputSize name).name = name := rfl
    rw [hdecl]
    split <;> rfl

/-- A field is constructed completely, with the size that it learns. -/
theorem constructs_field (h : IsSound nodes edges net order overlay) (hp : p ∈ order.nodes)
    {call : Expr} (hcall : constructorCall p.operator (overlay.effectiveParams p) = .ok call) :
    p.operator.Constructs call ∧
      ∀ name, p.operator.rule.learnedName? = some name → name ∈ call.keywordNames := by
  have hnode := h.isEmission.mem_net hp
  refine ⟨(h.takes_effectiveParams hnode).constructs (h.wellDeclared hnode) hcall,
    fun name hname => ?_⟩
  obtain ⟨inputs, result, hresult, hbatched, -⟩ := h.exists_result hp
  have hdecl := Operator.inputSize_mem (h.mem_all hnode) hname
  obtain ⟨input, size, -, -, hvalue⟩ :=
    h.get?_effectiveParams hp hresult hbatched hdecl (Rule.learnedName?_mem hname)
  obtain ⟨callee, -, rfl⟩ := constructorCall_eq_ok hcall
  exact mem_keywordNames hdecl hvalue

theorem constructs_criterion (h : IsSound nodes edges net order overlay) {settings : Settings}
    (hsettings : settings.validate = .ok ()) {criterion : Expr}
    (hcriterion : order.criterion settings = .ok criterion) :
    ∃ o, (order.loss.map Placed.operator).or settings.fallback? = some o ∧
      o.Constructs criterion := by
  unfold Emission.criterion at hcriterion
  split at hcriterion
  · rename_i loss hloss
    have hmem := List.mem_of_find?_eq_some (h.isEmission.loss.symm.trans hloss)
    exact ⟨loss.operator, by rw [hloss]; rfl,
      (h.takes_params hmem).constructs (h.wellDeclared hmem) hcriterion⟩
  · rename_i hnone
    obtain ⟨o, hfound, hloss⟩ := Settings.exists_loss hsettings
    simp only [hfound] at hcriterion
    have hfallback : settings.fallback? = some o := Option.filter_eq_some_iff.2 ⟨hfound, hloss⟩
    have hmem := (Catalog.mem_operators hfound).1
    exact ⟨o, by rw [hnone]; exact hfallback,
      (Operator.takes_defaults hmem).constructs (Operator.wellDeclared _ hmem) hcriterion⟩

end IsSound

/-- Each transform is constructed completely, the one that is put in front as well. -/
theorem constructs_transform {placed : List Placed}
    (hplaced : ∀ p ∈ placed, p.operator ∈ Operator.Pipeline.all ∧
      p.operator.problems p.node.params = [] ∧ p.operator.category = .dataAugmentation)
    {transforms : List Expr} (h : transformPlan placed = .ok transforms) :
    ∀ call ∈ transforms, ∃ o ∈ Operator.Pipeline.all, o.category = .dataAugmentation ∧
      o.Constructs call := by
  have htensor : ∃ o ∈ Operator.Pipeline.all, o.category = .dataAugmentation ∧
      o.callee = some "transforms.ToTensor" ∧ o.params = [] := by
    decide
  intro call hmem
  rcases mem_of_transformPlan h hmem with rfl | ⟨p, hp, hcall⟩
  · obtain ⟨o, ho, hcategory, hcallee, hparams⟩ := htensor
    refine ⟨o, ho, hcategory, _, [], hcallee, rfl, ?_⟩
    exact ⟨List.nil_sublist _, .nil, by simp [hparams], by simp⟩
  · obtain ⟨ho, hproblems, hcategory⟩ := hplaced p hp
    have hdeclared := Operator.wellDeclared .pipeline ho
    exact ⟨p.operator, ho, hcategory,
      (Operator.takes_resolve hdeclared hproblems).constructs hdeclared hcall⟩

theorem constructs_of_training {p : Project} (h : (p.graphReport .pipeline).faults = [])
    {settings : Settings} {dataset : Dataset} {plan : TrainingPlan}
    (hplan : p.pipeline.training settings dataset = .ok (some plan)) :
    ∀ call ∈ plan.transforms, ∃ o ∈ Operator.Pipeline.all, o.category = .dataAugmentation ∧
      o.Constructs call := by
  obtain ⟨-, hnone⟩ | ⟨-, net, plan', hsound, htraining, hsome⟩ :=
    networkTraining_of_training h hplan
  · cases hnone
  · obtain rfl := Option.some.inj hsome
    obtain ⟨order, -, htransforms, -⟩ := Network.exists_order_of_training htraining
    refine constructs_transform (fun q hq => ?_) htransforms
    obtain ⟨hnode, -, hcategory⟩ := Network.mem_listed.1 hq
    exact ⟨hsound.mem_all hnode, hsound.problems_eq_nil hnode, hcategory⟩

/-- The constructor calls of a program are complete and legal: those of the fields, which belong to
the emitted layers in their order, that of the criterion, and those of the transforms. -/
theorem constructor_calls_complete (p : Project) (settings : Settings)
    (hsettings : settings.validate = .ok ()) (hvalid : p.report.isValid = true) :
    ∃ net order program,
      Network.ofGraph p.architecture.nodes p.architecture.edges = .ok net ∧
      net.emission = .ok order ∧ p.program settings = .ok program ∧
      p.compile settings = .ok program.text ∧
      List.Forall₂ (fun q field => q.operator.Constructs field.constructor ∧
          ∀ name, q.operator.rule.learnedName? = some name →
            name ∈ field.constructor.keywordNames)
        (order.nodes.filter Placed.isLayer) program.model.fields ∧
      (∃ o, (order.loss.map Placed.operator).or settings.fallback? = some o ∧
        o.Constructs program.criterion) ∧
      ∀ plan, program.training = some plan → ∀ call ∈ plan.transforms,
        ∃ o ∈ Operator.Pipeline.all, o.category = .dataAugmentation ∧ o.Constructs call := by
  have hreport := Report.isValid_iff.1 hvalid
  obtain ⟨harchitecture, hpipeline⟩ := faults_report_eq_nil_iff.1 hreport
  obtain ⟨net, order, overlay, h⟩ := architectureReport_isValid_iff.1 harchitecture
  obtain ⟨program, hprogram⟩ := exists_program hsettings hreport
  have hcompile : p.compile settings = .ok program.text := by
    rw [compile_eq_of_report hsettings hreport, hprogram]
    rfl
  refine ⟨net, order, program, h.ofGraph, h.emission, hprogram, hcompile, ?_⟩
  simp only [Project.program, h.ofGraph, h.emission, h.propagate, bind_eq_ok_iff,
    Except.ok.injEq, exists_eq_left'] at hprogram
  obtain ⟨model, hmodel, dataset, -, criterion, hcriterion, training, htraining, rfl⟩ := hprogram
  obtain ⟨names, texts, hisModel⟩ := exists_isModel hmodel
  refine ⟨?_, h.constructs_criterion hsettings hcriterion, fun plan hplan => ?_⟩
  · rw [hisModel.fields_eq, List.forall₂_map_right_iff, List.forall₂_same]
    intro q hq
    obtain ⟨hmem, hlayer⟩ := List.mem_filter.1 hq
    exact h.constructs_field hmem (hisModel.constructorCall_fieldOf hmem hlayer)
  · obtain rfl : training = some plan := hplan
    exact constructs_of_training hpipeline htraining

/-- A block and layers that learn their sizes, one over a size that the user set; neither a loss nor
a transform to tensors is drawn. -/
def Project.augmented : Project where
  architecture :=
    { nodes :=
        [{ id := "data", operatorId := "dataset" },
         { id := "conv", operatorId := "conv2d", params := .ofList [("in_channels", .int 7)] },
         { id := "block", operatorId := "residualblock" },
         { id := "norm", operatorId := "layernorm" },
         { id := "flat", operatorId := "flatten" },
         { id := "head", operatorId := "linear" }]
      edges :=
        [{ id := "1", source := "data", target := "conv" },
         { id := "2", source := "conv", target := "block" },
         { id := "3", source := "block", target := "norm" },
         { id := "4", source := "norm", target := "flat" },
         { id := "5", source := "flat", target := "head" }] }
  pipeline :=
    { nodes :=
        [{ id := "images", operatorId := "dataset", isPipeline := true },
         { id := "crop", operatorId := "randomcrop", isPipeline := true },
         { id := "training", operatorId := "trainingconfig", isPipeline := true }]
      edges :=
        [{ id := "1", source := "images", target := "crop" },
         { id := "2", source := "crop", target := "training" }] }

theorem constructor_calls_complete_augmented :
    ∃ program, Project.augmented.program {} = .ok program ∧
      program.model.fields.map (fun field => field.constructor.text) =
        ["nn.Conv2d(in_channels=1, out_channels=32, kernel_size=3, stride=1, padding=0, bias=True)",
         "ResidualBlock(in_channels=32, out_channels=64, stride=1)",
         "nn.LayerNorm(normalized_shape=26, eps=1e-5)",
         "nn.Linear(in_features=43264, out_features=10, bias=True)"] ∧
      (∃ o : Operator, o.Constructs program.criterion) ∧
      ∃ plan, program.training = some plan ∧
        plan.transforms.map Expr.text =
          ["transforms.ToTensor()", "transforms.RandomCrop(size=32, padding=4)"] ∧
        ∀ call ∈ plan.transforms, ∃ o ∈ Operator.Pipeline.all, o.Constructs call := by
  obtain ⟨net, order, program, -, -, hprogram, -, -, ⟨o, -, hcriterion⟩, htransforms⟩ :=
    constructor_calls_complete Project.augmented {} (by decide +kernel) (by decide +kernel)
  have htexts : (Project.augmented.program {}).toOption.all (fun program =>
      decide (program.model.fields.map (fun field => field.constructor.text) =
          ["nn.Conv2d(in_channels=1, out_channels=32, kernel_size=3, stride=1, padding=0, bias=True)",
           "ResidualBlock(in_channels=32, out_channels=64, stride=1)",
           "nn.LayerNorm(normalized_shape=26, eps=1e-5)",
           "nn.Linear(in_features=43264, out_features=10, bias=True)"] ∧
        program.training.map (·.transforms.map Expr.text) =
          some ["transforms.ToTensor()", "transforms.RandomCrop(size=32, padding=4)"])) = true := by
    decide +kernel
  obtain ⟨hfields, hcalls⟩ := of_decide_eq_true (of_toOption_all htexts hprogram)
  obtain ⟨plan, hplan, hcalls⟩ := Option.map_eq_some_iff.1 hcalls
  refine ⟨program, hprogram, hfields, ⟨o, hcriterion⟩, plan, hplan, hcalls, fun call hcall => ?_⟩
  obtain ⟨o, ho, -, hconstructs⟩ := htransforms plan hplan call hcall
  exact ⟨o, ho, hconstructs⟩

end LayerGraph
