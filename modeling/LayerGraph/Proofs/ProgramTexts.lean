import LayerGraph.Proofs.Applied
import LayerGraph.Proofs.Gate
import LayerGraph.Proofs.UnbrokenTexts
/-!
# The texts of a program

The lines of a program are put together from the texts of a model and of a training plan. None of
them has a line feed, apart from two texts of the settings:

* `IsSound.isUnbroken_model`: the fields and the statements of a model;
* `isPlanOf_of_training`: the texts of a training plan, with the directories of the data and of the
  checkpoints as literals.
-/

namespace LayerGraph
set_option autoImplicit false

/-! ## The model -/

/-- No field and no statement of the model has a line feed. -/
structure Model.IsUnbroken (model : Model) : Prop where
  fields : ∀ f ∈ model.fields, LayerGraph.IsUnbroken f.text
  forward : ∀ s ∈ model.forward, LayerGraph.IsUnbroken s.text

theorem texts_map_var (vars : List String) : Expr.texts (vars.map .var) = vars := by
  induction vars with
  | nil => rfl
  | cons v rest ih => rw [List.map_cons, Expr.texts, Expr.text, ih]

section Model

variable {nameOf : String → String} {p : Placed} {params : Params} {vars : List String}

theorem isUnbroken_fieldWith (hname : ∀ id, IsUnbroken (nameOf id)) (ho : p.operator.IsUnbroken)
    (hparams : params.IsUnbroken) : IsUnbroken (fieldWith nameOf p params).text := by
  have hcallee : IsUnbroken (p.operator.callee.getD "") := by
    cases hcallee : p.operator.callee with
    | none => exact (by decide : IsUnbroken "")
    | some callee => exact ho.1 callee hcallee
  have hcall : IsUnbroken (Expr.call (p.operator.callee.getD "") []
      (keywordArgs p.operator params)).text :=
    isUnbroken_call hcallee (List.forall_mem_nil _) (isUnbroken_keywordArgs ho hparams)
  rw [FieldDecl.text]
  simp only [isUnbroken_append]
  exact ⟨⟨⟨by decide, hname p.id⟩, by decide⟩, hcall⟩

theorem isUnbroken_valueWith (hname : ∀ id, IsUnbroken (nameOf id)) (ho : p.operator.IsUnbroken)
    (hparams : params.IsUnbroken) (hvars : ∀ v ∈ vars, IsUnbroken v) :
    IsUnbroken (valueWith nameOf p params vars).value.text ∧
      ∀ f, (valueWith nameOf p params vars).field = some f → IsUnbroken f.text := by
  have hfirst : ∀ text ∈ Expr.texts ((vars.take 1).map .var), IsUnbroken text := by
    rw [texts_map_var]
    exact fun v hv => hvars v (List.mem_of_mem_take hv)
  unfold valueWith
  split
  · refine ⟨?_, fun _ h => (Option.some_ne_none _ h.symm).elim⟩
    rw [Expr.text, texts_map_var]
    exact isUnbroken_intercalate (by decide) hvars
  · refine ⟨?_, fun _ h => (Option.some_ne_none _ h.symm).elim⟩
    rw [Expr.text, texts_map_var]
    simp only [isUnbroken_append]
    exact ⟨⟨⟨⟨by decide, isUnbroken_intercalate (by decide) hvars⟩, by decide⟩,
      isUnbroken_intRepr _⟩, by decide⟩
  · refine ⟨isUnbroken_call (by decide) hfirst fun keyword hkeyword => ?_,
      fun _ h => (Option.some_ne_none _ h.symm).elim⟩
    obtain rfl := List.mem_singleton.1 hkeyword
    exact ⟨(by decide : IsUnbroken "start_dim"), isUnbroken_intRepr _⟩
  · refine ⟨isUnbroken_call ?_ hfirst (List.forall_mem_nil _), fun f hf => ?_⟩
    · exact isUnbroken_append.2 ⟨by decide, hname p.id⟩
    · obtain rfl := Option.some.inj hf
      exact isUnbroken_fieldWith hname ho hparams

theorem isUnbroken_additions {target : String} (htarget : IsUnbroken target) (kind : EdgeKind)
    (hvars : ∀ v ∈ vars, IsUnbroken v) :
    ∀ s ∈ additions target kind vars, IsUnbroken s.text := by
  intro s hs
  obtain ⟨v, hv, rfl⟩ := List.mem_map.1 hs
  have hnote : IsUnbroken kind.note := by cases kind <;> decide
  rw [Stmt.text]
  simp only [isUnbroken_append]
  exact ⟨⟨⟨⟨⟨⟨⟨htarget, by decide⟩, htarget⟩, by decide⟩, hvars v hv⟩, by decide⟩, hnote⟩,
    by decide⟩

theorem isUnbroken_textWith (order : Emission) {overlay : Propagation}
    (hname : ∀ id, IsUnbroken (nameOf id)) (ho : p.operator.IsUnbroken)
    (hparams : (overlay.effectiveParams p).IsUnbroken) :
    (∀ f, (order.textWith overlay nameOf p).field = some f → IsUnbroken f.text) ∧
      ∀ s ∈ (order.textWith overlay nameOf p).statements, IsUnbroken s.text := by
  have htarget : IsUnbroken (nameOf p.id ++ "_out") :=
    isUnbroken_append.2 ⟨hname p.id, by decide⟩
  have hvars : ∀ ids : List String, ∀ v ∈ ids.map (variableWith nameOf order.root.id),
      IsUnbroken v := by
    intro ids v hv
    obtain ⟨id, -, rfl⟩ := List.mem_map.1 hv
    unfold variableWith
    split
    · decide
    · exact isUnbroken_append.2 ⟨hname id, by decide⟩
  obtain ⟨hvalue, hfield⟩ :=
    isUnbroken_valueWith hname ho hparams (hvars (order.inputsOf p.id))
  refine ⟨hfield, List.forall_mem_cons.2 ⟨?_, List.forall_mem_append.2 ⟨?_, ?_⟩⟩⟩
  · rw [Stmt.text]
    exact isUnbroken_append.2 ⟨isUnbroken_append.2 ⟨htarget, by decide⟩, hvalue⟩
  · exact isUnbroken_additions htarget .residual (hvars _)
  · exact isUnbroken_additions htarget .sum (hvars _)

end Model

namespace IsSound

variable {nodes : List Node} {edges : List Edge} {net : Network} {order : Emission}
  {overlay : Propagation} {p : Placed}

theorem isUnbroken_operator (h : IsSound nodes edges net order overlay) (hp : p ∈ net.nodes) :
    p.operator.IsUnbroken := Operator.isUnbroken .architecture (h.mem_all hp)

theorem isUnbroken_params (h : IsSound nodes edges net order overlay) (hp : p ∈ net.nodes) :
    p.params.IsUnbroken :=
  Operator.isUnbroken_resolve .architecture (h.mem_all hp) (h.problems_eq_nil hp)

/-- What is learned is a size. -/
theorem isUnbroken_effectiveParams (h : IsSound nodes edges net order overlay)
    (hp : p ∈ net.nodes) : (overlay.effectiveParams p).IsUnbroken := by
  refine (h.isUnbroken_params hp).overlay ?_
  intro name value hvalue text htext
  have hlearned := h.isSolved.get?_learned p.id name
  cases hparams : overlay.learned.get? p.id with
  | none =>
    rw [hparams] at hvalue
    cases hvalue
  | some params =>
    rw [hparams, Option.getD_some] at hvalue
    rw [hparams, Option.bind_some, hvalue] at hlearned
    obtain ⟨size, -, rfl⟩ := Option.map_eq_some_iff.1 hlearned.symm
    cases htext

theorem isUnbroken_model (h : IsSound nodes edges net order overlay) {model : Model}
    (hmodel : order.model overlay = .ok model) : model.IsUnbroken := by
  have hname : ∀ id, IsUnbroken (order.names.nameOf id) := fun id =>
    ((Names.hasWords_empty.allot (order.nodes.map Placed.id)).nameOf id).isUnbroken
  have htext : ∀ p ∈ order.nodes, _ := fun p hp =>
    isUnbroken_textWith order hname (h.isUnbroken_operator (h.isEmission.mem_net hp))
      (h.isUnbroken_effectiveParams (h.isEmission.mem_net hp))
  obtain rfl := Except.ok.inj (h.model_eq.symm.trans hmodel)
  constructor
  · intro f hf
    obtain ⟨text, hmem, hfield⟩ := List.mem_filterMap.1 hf
    obtain ⟨p, hp, rfl⟩ := List.mem_map.1 hmem
    exact (htext p hp).1 f hfield
  · refine List.forall_mem_append.2 ⟨fun s hs => ?_, fun s hs => ?_⟩
    · obtain ⟨text, hmem, hstatement⟩ := List.mem_flatMap.1 hs
      obtain ⟨p, hp, rfl⟩ := List.mem_map.1 hmem
      exact (htext p hp).2 s hstatement
    · obtain rfl := List.mem_singleton.1 hs
      rw [Stmt.text, Expr.text]
      refine isUnbroken_append.2 ⟨by decide, ?_⟩
      cases order.last? with
      | none => exact (by decide : IsUnbroken "x")
      | some last => exact isUnbroken_append.2 ⟨hname last.id, by decide⟩

theorem isUnbroken_criterion (h : IsSound nodes edges net order overlay) {settings : Settings}
    {criterion : Expr} (hcriterion : order.criterion settings = .ok criterion) :
    IsUnbroken criterion.text := by
  rw [Emission.criterion, h.isEmission.loss] at hcriterion
  split at hcriterion
  · rename_i loss hloss
    have hmem := List.mem_of_find?_eq_some hloss
    exact isUnbroken_constructorCall (h.isUnbroken_operator hmem) (h.isUnbroken_params hmem)
      hcriterion
  · split at hcriterion
    · rename_i o hfound
      have hmem := (Catalog.mem_operators hfound).1
      exact isUnbroken_constructorCall (Operator.isUnbroken .architecture hmem)
        (Operator.isUnbroken_defaults .architecture hmem) hcriterion
    · cases hcriterion

end IsSound

/-! ## The training plan -/

/-- No text of the metric has a line feed, and its variable is a word with an ending. -/
structure MetricPlan.IsUnbroken (metric : MetricPlan) : Prop where
  name : ∃ ident, IsWord ident ∧ metric.name = ident ++ "_metric"
  label : LayerGraph.IsUnbroken metric.label
  constructor : LayerGraph.IsUnbroken metric.constructor.text

/-- No text of the plan has a line feed, apart from directories of the settings. -/
structure TrainingPlan.IsPlanOf (plan : TrainingPlan) (settings : Settings) : Prop where
  dataRoot : plan.dataRoot = Literal.quoted settings.dataRoot
  directory : ∀ checkpoint, plan.checkpoint = some checkpoint →
    checkpoint.directory = Literal.quoted settings.checkpointDir
  transforms : ∀ e ∈ plan.transforms, IsUnbroken e.text
  datasetClass : IsUnbroken plan.datasetClass
  trainArgs : IsUnbroken plan.trainArgs
  testArgs : IsUnbroken plan.testArgs
  device : IsUnbroken plan.device
  optimizer : IsUnbroken plan.optimizer.text
  metrics : ∀ metric ∈ plan.metrics, metric.IsUnbroken
  checkpoint : ∀ checkpoint, plan.checkpoint = some checkpoint →
    IsUnbroken checkpoint.monitor.name
  stopping : ∀ stopping, plan.stopping = some stopping →
    IsUnbroken stopping.monitor.name ∧ IsUnbroken stopping.margin

section Training

/-- The operator of the node and its parameters have no line feed. -/
def Placed.IsUnbroken (p : Placed) : Prop := p.operator.IsUnbroken ∧ p.params.IsUnbroken

variable {placed : List Placed} {params : Params}

theorem isUnbroken_transformPlan (hplaced : ∀ p ∈ placed, p.IsUnbroken) {transforms : List Expr}
    (h : transformPlan placed = .ok transforms) : ∀ e ∈ transforms, IsUnbroken e.text := by
  intro e he
  rcases mem_of_transformPlan h he with rfl | ⟨p, hp, hcall⟩
  · decide
  · exact isUnbroken_constructorCall (hplaced p hp).1 (hplaced p hp).2 hcall

theorem isUnbroken_optimizerCall {o : Operator} (ho : o.IsUnbroken) (hparams : params.IsUnbroken)
    {call : Expr} (h : optimizerCall o params = .ok call) : IsUnbroken call.text := by
  have hsecond : IsUnbroken ((params.get? "beta2").elim "0.999" (·.literal)) := by
    cases hvalue : params.get? "beta2" with
    | none => exact (by decide : IsUnbroken "0.999")
    | some value => exact hparams.literal hvalue
  have hargs : ∀ keyword ∈ optimizerArgs o params,
      IsUnbroken keyword.1 ∧ IsUnbroken keyword.2 := by
    intro keyword hkeyword
    obtain ⟨decl, hdecl, hkeyword⟩ := List.mem_filterMap.1 hkeyword
    obtain ⟨value, hvalue, hkeyword⟩ := Option.bind_eq_some_iff.1 hkeyword
    have hliteral := hparams.literal hvalue
    split at hkeyword
    · obtain rfl := Option.some.inj hkeyword
      simp only [isUnbroken_append]
      exact ⟨by decide, ⟨⟨⟨by decide, hliteral⟩, by decide⟩, hsecond⟩, by decide⟩
    · split at hkeyword
      · cases hkeyword
      · obtain rfl := Option.some.inj hkeyword
        exact ⟨(ho.2.2 decl hdecl).1, hliteral⟩
  unfold optimizerCall at h
  split at h
  · rename_i callee hcallee
    obtain rfl := Except.ok.inj h
    refine isUnbroken_call (ho.1 callee hcallee) (fun text htext => ?_) hargs
    obtain rfl : text = "model.parameters()" := List.mem_singleton.1 htext
    decide
  · cases h

theorem isUnbroken_optimizerPlan (hplaced : ∀ p ∈ placed, p.IsUnbroken) {optimizer : Expr}
    (h : optimizerPlan placed = .ok optimizer) : IsUnbroken optimizer.text := by
  cases placed with
  | nil =>
    rw [optimizerPlan_nil] at h
    have hadam : Operator.Pipeline.adam ∈ Catalog.operators .pipeline := by decide
    exact isUnbroken_optimizerCall (Operator.isUnbroken .pipeline hadam)
      (Operator.isUnbroken_defaults .pipeline hadam) h
  | cons p rest =>
    obtain ⟨ho, hparams⟩ := hplaced p List.mem_cons_self
    exact isUnbroken_optimizerCall ho hparams h

theorem isUnbroken_metricArgs (hparams : params.IsUnbroken) (dataset : Dataset) :
    ∀ keyword ∈ metricArgs params dataset, IsUnbroken keyword.1 ∧ IsUnbroken keyword.2 := by
  have htask : IsUnbroken ((params.text? "task").getD "multiclass") := by
    cases htext : params.text? "task" with
    | none => exact (by decide : IsUnbroken "multiclass")
    | some task => exact hparams.text? htext
  have hclasses : ∀ classes : Int, ∀ keyword : String × String,
      keyword ∈ [("num_labels", classes.repr)] ∨ keyword ∈ [("num_classes", classes.repr)] →
        IsUnbroken keyword.1 ∧ IsUnbroken keyword.2 := by
    intro classes keyword hkeyword
    rcases hkeyword with hkeyword | hkeyword <;> obtain rfl := List.mem_singleton.1 hkeyword
    · exact ⟨(by decide : IsUnbroken "num_labels"), isUnbroken_intRepr classes⟩
    · exact ⟨(by decide : IsUnbroken "num_classes"), isUnbroken_intRepr classes⟩
  unfold metricArgs
  dsimp only
  refine List.forall_mem_append.2 ⟨List.forall_mem_cons.2
    ⟨⟨(by decide : IsUnbroken "task"), Literal.isUnbroken_quoted.2 htask⟩,
      fun keyword hkeyword => ?_⟩, ?_⟩
  · split at hkeyword
    · cases hkeyword
    · split at hkeyword
      · exact hclasses _ keyword (.inl hkeyword)
      · exact hclasses _ keyword (.inr hkeyword)
  · intro keyword hkeyword
    obtain ⟨value, hvalue, rfl⟩ := Option.map_eq_some_iff.1 (Option.mem_toList.1 hkeyword)
    exact ⟨(by decide : IsUnbroken "average"), hparams.literal hvalue⟩

theorem isUnbroken_metricPlans {dataset : Dataset} {names : Names} (hnames : names.HasWords)
    (hplaced : ∀ p ∈ placed, p.IsUnbroken) {metrics : List MetricPlan}
    (h : metricPlans dataset names placed = .ok metrics) :
    ∀ metric ∈ metrics, metric.IsUnbroken := by
  induction placed generalizing names metrics with
  | nil =>
    obtain rfl := Except.ok.inj h
    exact List.forall_mem_nil _
  | cons p rest ih =>
    obtain ⟨ho, hparams⟩ := hplaced p List.mem_cons_self
    rw [metricPlans] at h
    split at h
    · cases h
    · rename_i callee hcallee
      obtain ⟨more, hmore, h⟩ := bind_eq_ok_iff.1 h
      obtain rfl := Except.ok.inj h
      obtain ⟨hword, hnames⟩ := hnames.ident p.id
      refine List.forall_mem_cons.2
        ⟨⟨⟨_, hword, rfl⟩, ho.2.1, ?_⟩,
          ih hnames (fun q hq => hplaced q (List.mem_cons_of_mem _ hq)) hmore⟩
      exact isUnbroken_call (ho.1 callee hcallee) (List.forall_mem_nil _)
        (isUnbroken_metricArgs hparams dataset)

theorem isUnbroken_monitorOf (hparams : params.IsUnbroken) :
    IsUnbroken (monitorOf params).name := by
  have hname : IsUnbroken ((params.text? "monitor").getD "val_loss") := by
    cases htext : params.text? "monitor" with
    | none => exact (by decide : IsUnbroken "val_loss")
    | some name => exact hparams.text? htext
  rw [monitorOf, Monitor.ofName]
  split <;> exact hname

theorem isUnbroken_devicePlan (params : Params) : IsUnbroken (devicePlan params) := by
  unfold devicePlan
  split <;> decide

theorem isUnbroken_splitArgs (split : DatasetSplit) (download : Bool) :
    IsUnbroken (splitArgs split download).1 ∧ IsUnbroken (splitArgs split download).2 := by
  cases split <;> cases download <;> decide

theorem exists_of_callback? {operator : String} (h : callback? placed operator = some params) :
    ∃ p ∈ placed, p.operator.id = operator ∧ p.params = params := by
  obtain ⟨p, hfound, hparams⟩ := Option.map_eq_some_iff.1 h
  exact ⟨p, List.mem_of_find?_eq_some hfound, by simpa using List.find?_some hfound, hparams⟩

theorem isUnbroken_margin (hparams : params.IsUnbroken) :
    IsUnbroken (stoppingPlan params).margin := by
  rw [stoppingPlan]
  cases hvalue : params.get? "min_delta" with
  | none => exact (by decide : IsUnbroken "0.0")
  | some value => exact hparams.literal hvalue

/-- The plan of nodes without line feeds. -/
theorem isPlanOf_of_training {net : Network} (hnet : ∀ p ∈ net.nodes, p.IsUnbroken)
    {settings : Settings} {dataset : Dataset} (hdataset : dataset ∈ Dataset.all)
    {plan : TrainingPlan} (h : net.training settings dataset = .ok plan) :
    plan.IsPlanOf settings := by
  have hclass : ∀ d ∈ Dataset.all, IsUnbroken d.className := by decide
  obtain ⟨order, -, h⟩ := bind_eq_ok_iff.1 h
  have hplaced : ∀ category : Category, ∀ p ∈ net.listed order category, p.IsUnbroken :=
    fun category p hp => hnet p (Network.mem_listed.1 hp).1
  obtain ⟨transforms, htransforms, h⟩ := bind_eq_ok_iff.1 h
  obtain ⟨optimizer, hoptimizer, h⟩ := bind_eq_ok_iff.1 h
  obtain ⟨metrics, hmetrics, h⟩ := bind_eq_ok_iff.1 h
  obtain rfl := Except.ok.inj h
  have hcallback : ∀ operator params,
      callback? (net.listed order .callbacks) operator = some params → params.IsUnbroken := by
    intro operator params hparams
    obtain ⟨p, hp, -, rfl⟩ := exists_of_callback? hparams
    exact (hplaced .callbacks p hp).2
  refine
    { dataRoot := rfl
      directory := fun checkpoint hcheckpoint => ?_
      transforms := isUnbroken_transformPlan (hplaced _) htransforms
      datasetClass := hclass dataset hdataset
      trainArgs := (isUnbroken_splitArgs _ _).1
      testArgs := (isUnbroken_splitArgs _ _).2
      device := isUnbroken_devicePlan _
      optimizer := isUnbroken_optimizerPlan (hplaced _) hoptimizer
      metrics := isUnbroken_metricPlans Names.hasWords_empty (hplaced _) hmetrics
      checkpoint := fun checkpoint hcheckpoint => ?_
      stopping := fun stopping hstopping => ?_ }
  · obtain ⟨params, -, rfl⟩ := Option.map_eq_some_iff.1 hcheckpoint
    rfl
  · obtain ⟨params, hparams, rfl⟩ := Option.map_eq_some_iff.1 hcheckpoint
    exact isUnbroken_monitorOf (hcallback _ params hparams)
  · obtain ⟨params, hparams, rfl⟩ := Option.map_eq_some_iff.1 hstopping
    have hset := hcallback _ params hparams
    exact ⟨isUnbroken_monitorOf hset, isUnbroken_margin hset⟩

end Training

end LayerGraph
