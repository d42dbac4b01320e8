import LayerGraph.Proofs.Editing
/-!
# The order of the workflow along paths

The rules of a pipeline are tested edge by edge, and a node may only feed the successors of its
category. Along a path these rules add up.

* `IsWorkflow categories`: at most one dataset, which comes first, transforms, at most one training
  configuration, at most one optimizer or metric, and at most one callback, which comes last.
* `successor_of_feeds` is the step: an edge of a pipeline without faults leads to a successor.
* `workflow_of_path` is the run over a whole path; a path from a dataset to an optimizer, a metric
  or a callback meets exactly one training configuration.
-/

namespace LayerGraph
set_option autoImplicit false

/-! ## Categories in the order of the workflow -/

/-- Categories in parts: what stands first, transforms, the training, what follows it, and what
stands last. -/
structure IsSplit (categories first transforms training follower last : List Category) :
    Prop where
  eq : categories = first ++ (transforms ++ (training ++ (follower ++ last)))
  first : first ∈ [[], [.dataset]]
  transforms : ∀ c ∈ transforms, c = .dataAugmentation
  training : training ∈ [[], [.training]]
  follower : follower ∈ [[], [.optimization], [.metrics]]
  last : last ∈ [[], [.callbacks]]

instance (categories first transforms training follower last : List Category) :
    Decidable (IsSplit categories first transforms training follower last) :=
  decidable_of_iff
    (categories = first ++ (transforms ++ (training ++ (follower ++ last))) ∧
      first ∈ [[], [.dataset]] ∧ (∀ c ∈ transforms, c = .dataAugmentation) ∧
      training ∈ [[], [.training]] ∧ follower ∈ [[], [.optimization], [.metrics]] ∧
      last ∈ [[], [.callbacks]])
    ⟨fun ⟨heq, hfirst, htransforms, htraining, hfollower, hlast⟩ =>
      ⟨heq, hfirst, htransforms, htraining, hfollower, hlast⟩,
     fun h => ⟨h.eq, h.first, h.transforms, h.training, h.follower, h.last⟩⟩

/-- The categories of a path, from its first node to its last: at most one dataset, any number of
transforms, at most one training configuration, at most one optimizer or metric, and at most one
callback. -/
def IsWorkflow (categories : List Category) : Prop :=
  ∃ first transforms training follower last,
    IsSplit categories first transforms training follower last

namespace Category

/-- The categories of the operators of a pipeline. -/
def workflow : List Category :=
  [dataset, dataAugmentation, training, optimization, metrics, callbacks]

/-- What a path leads to once the training is configured. -/
def outcomes : List Category := [optimization, metrics, callbacks]

variable {c d : Category} {categories rest : List Category}

theorem ne_dataset_of_mem_successors (h : d ∈ c.successors) : d ≠ .dataset := by
  rintro rfl
  exact absurd (isRoot_eq_false_of_mem_successors h) (by decide)

theorem isWorkflow_single (h : c ∈ workflow) : IsWorkflow [c] := by
  cases c with
  | dataset => exact ⟨[.dataset], [], [], [], [], by decide⟩
  | dataAugmentation => exact ⟨[], [.dataAugmentation], [], [], [], by decide⟩
  | training => exact ⟨[], [], [.training], [], [], by decide⟩
  | optimization => exact ⟨[], [], [], [.optimization], [], by decide⟩
  | metrics => exact ⟨[], [], [], [.metrics], [], by decide⟩
  | callbacks => exact ⟨[], [], [], [], [.callbacks], by decide⟩
  | _ => exact absurd h (by decide)

theorem eq_nil_of_cons_eq_append {part more : List Category} (h : d :: rest = part ++ more)
    (hd : d ∉ part) : part = [] := by
  cases part with
  | nil => rfl
  | cons first part =>
    obtain ⟨rfl, -⟩ := List.cons.inj h
    exact absurd List.mem_cons_self hd

end Category

/-! The parts before that of the first category are empty. -/

namespace IsSplit

variable {d : Category} {rest first transforms training follower last : List Category}

theorem first_eq_nil (h : IsSplit (d :: rest) first transforms training follower last)
    (hd : d ≠ .dataset) : first = [] := by
  apply Category.eq_nil_of_cons_eq_append h.eq
  have hall : ∀ part ∈ [[], [Category.dataset]], ∀ c ∈ part, c = .dataset := by decide
  exact fun hmem => hd (hall first h.first d hmem)

theorem transforms_eq_nil (h : IsSplit (d :: rest) [] transforms training follower last)
    (hd : d ≠ .dataAugmentation) : transforms = [] :=
  Category.eq_nil_of_cons_eq_append h.eq fun hmem => hd (h.transforms d hmem)

theorem training_eq_nil (h : IsSplit (d :: rest) [] [] training follower last)
    (hd : d ≠ .training) : training = [] := by
  have heq : d :: rest = training ++ (follower ++ last) := h.eq
  apply Category.eq_nil_of_cons_eq_append heq
  have hall : ∀ part ∈ [[], [Category.training]], ∀ c ∈ part, c = .training := by decide
  exact fun hmem => hd (hall training h.training d hmem)

theorem follower_eq_nil (h : IsSplit (.callbacks :: rest) [] [] [] follower last) :
    follower = [] := by
  have heq : .callbacks :: rest = follower ++ last := h.eq
  apply Category.eq_nil_of_cons_eq_append heq
  have hall : ∀ part ∈ [[], [Category.optimization], [Category.metrics]],
      Category.callbacks ∉ part := by decide
  exact hall follower h.follower

/-- Behind an optimizer or a metric there is at most a callback. -/
theorem rest_of_callbacks (h : IsSplit (.callbacks :: rest) [] transforms training follower last) :
    IsSplit (.callbacks :: rest) [] [] [] [] last := by
  obtain rfl := h.transforms_eq_nil nofun
  obtain rfl := h.training_eq_nil nofun
  obtain rfl := h.follower_eq_nil
  exact h

end IsSplit

namespace Category

variable {c d : Category} {categories rest : List Category}

/-- A predecessor joins the front of a path. -/
theorem isWorkflow_cons (hstep : d ∈ c.successors) (h : IsWorkflow (d :: rest)) :
    IsWorkflow (c :: d :: rest) := by
  obtain ⟨first, transforms, training, follower, last, h⟩ := h
  obtain rfl := h.first_eq_nil (ne_dataset_of_mem_successors hstep)
  cases c with
  | dataset => exact ⟨[.dataset], _, _, _, _, { h with eq := congrArg _ h.eq, first := by decide }⟩
  | dataAugmentation =>
    exact ⟨[], .dataAugmentation :: transforms, _, _, _,
      { h with eq := congrArg _ h.eq, transforms := List.forall_mem_cons.2 ⟨rfl, h.transforms⟩ }⟩
  | training =>
    obtain rfl := h.transforms_eq_nil (by rintro rfl; exact absurd hstep (by decide))
    obtain rfl := h.training_eq_nil (by rintro rfl; exact absurd hstep (by decide))
    exact ⟨[], [], [.training], follower, last,
      { h with eq := congrArg _ h.eq, training := by decide }⟩
  | optimization =>
    obtain rfl : d = .callbacks := List.mem_singleton.1 hstep
    have hend := h.rest_of_callbacks
    exact ⟨[], [], [], [.optimization], _,
      { hend with eq := congrArg _ hend.eq, follower := by decide }⟩
  | metrics =>
    obtain rfl : d = .callbacks := List.mem_singleton.1 hstep
    have hend := h.rest_of_callbacks
    exact ⟨[], [], [], [.metrics], _, { hend with eq := congrArg _ hend.eq, follower := by decide }⟩
  | _ => cases hstep

/-- Categories of which each is a successor of the one before. -/
theorem isWorkflow_of_isChain (hall : ∀ c ∈ categories, c ∈ workflow)
    (h : categories.IsChain fun c d => d ∈ c.successors) : IsWorkflow categories := by
  induction categories with
  | nil => exact ⟨[], [], [], [], [], by decide⟩
  | cons c rest ih =>
    cases rest with
    | nil => exact isWorkflow_single (hall c List.mem_cons_self)
    | cons d rest =>
      obtain ⟨hstep, hrest⟩ := List.isChain_cons_cons.1 h
      exact isWorkflow_cons hstep (ih (fun a ha => hall a (List.mem_cons_of_mem _ ha)) hrest)

/-- Data only leads to an outcome through a training configuration. -/
theorem training_mem_of_isChain (h : (c :: rest).IsChain fun c d => d ∈ c.successors)
    (hdata : c ∈ [dataset, dataAugmentation])
    (hlast : ∃ d ∈ outcomes, (c :: rest).getLast? = some d) : training ∈ rest := by
  induction rest generalizing c with
  | nil =>
    obtain ⟨d, hd, heq⟩ := hlast
    obtain rfl : c = d := Option.some.inj heq
    revert hdata hd
    cases c <;> decide
  | cons d rest ih =>
    obtain ⟨hstep, hrest⟩ := List.isChain_cons_cons.1 h
    by_cases htraining : d = training
    · exact htraining ▸ List.mem_cons_self
    · have hnext : d ∈ [dataset, dataAugmentation] := by
        revert hdata hstep htraining
        cases c <;> cases d <;> decide
      exact List.mem_cons_of_mem _ (ih hrest hnext (by simpa using hlast))

theorem count_training_le_one (h : IsWorkflow categories) : categories.count training ≤ 1 := by
  obtain ⟨first, transforms, training, follower, last, rfl, hfirst, htransforms, htraining,
    hfollower, hlast⟩ := h
  have hnone : transforms.count .training = 0 :=
    List.count_eq_zero.2 fun hmem => nomatch htransforms _ hmem
  have hzero : ∀ part ∈ [[], [Category.dataset], [Category.optimization], [Category.metrics],
      [Category.callbacks]], part.count .training = 0 := by decide
  have hone : training.count .training ≤ 1 := by
    revert training
    decide
  have hbefore : first.count .training = 0 := hzero first (by revert first; decide)
  have hbehind : follower.count .training = 0 := hzero follower (by revert follower; decide)
  have hend : last.count .training = 0 := hzero last (by revert last; decide)
  simpa only [List.count_append, hnone, hbefore, hbehind, hend, Nat.zero_add, Nat.add_zero]
    using hone

end Category

/-! ## One edge -/

/-- The category of the operator of a node, where the node has one. -/
def Node.category? (n : Node) : Option Category := n.operator.toOption.map Operator.category

section Steps

variable {nodes : List Node} {edges : List Edge} {n m : Node}

theorem Operator.category_mem_workflow {o : Operator} (h : o ∈ Operator.Pipeline.all) :
    o.category ∈ Category.workflow := by
  revert o
  decide

/-- The nodes of a pipeline have categories of the workflow. -/
theorem Node.IsProper.exists_category (h : n.IsProper .pipeline) :
    ∃ c ∈ Category.workflow, n.category? = some c := by
  obtain ⟨hmode, o, ho, -⟩ := h
  have hfind := Node.operator_eq_ok_iff.1 ho
  rw [hmode] at hfind
  refine ⟨o.category, Operator.category_mem_workflow (Catalog.mem_operators hfind).1, ?_⟩
  rw [Node.category?, ho]
  rfl

/-- An edge of a pipeline without faults leads to a successor. -/
theorem successor_of_feeds (h : (pipelineReport nodes edges).faults = []) (hn : n ∈ nodes)
    (hm : m ∈ nodes) (hfeeds : Feeds edges n.id m.id) {c d : Category}
    (hc : n.category? = some c) (hd : m.category? = some d) : d ∈ c.successors := by
  obtain ⟨hproper, hdrawn, net, hnet, -⟩ := pipelineReport_isValid_iff.1 h
  obtain ⟨e, he, hsource, htarget⟩ := hfeeds
  obtain ⟨ends, hends, hconnection⟩ := bind_eq_ok_iff.1 (hdrawn e he)
  obtain ⟨⟨hfirst, ho⟩, ⟨hsecond, ho'⟩, -, -⟩ := resolveEnds_eq_ok_iff.1 hends
  -- The ids are distinct, so the ends of the edge are these nodes.
  have hids := (Network.isOf_of_ofGraph hnet).nodup_ids
  have hfound : ∀ {id : String} {found k : Node}, nodes.find? (·.id == id) = some found →
      k ∈ nodes → id = k.id → found = k := by
    intro id found k hfind hk hid
    have hfoundid : found.id = id := by simpa using List.find?_some hfind
    exact List.inj_on_of_nodup_map hids (List.mem_of_find?_eq_some hfind) hk (hfoundid.trans hid)
  have hnode : ends.source.node = n := hfound hfirst hn hsource
  have hnode' : ends.target.node = m := hfound hsecond hm htarget
  have hpipeline : ends.source.node.isPipeline = true :=
    hnode ▸ Node.isPipeline_of_mode (hproper n hn).1
  have hsuccessor := (isAllowed_of_checkConnection hends hconnection).successor hpipeline
  rw [Node.category?, ← hnode, ho] at hc
  rw [Node.category?, ← hnode', ho'] at hd
  exact Option.some.inj hc ▸ Option.some.inj hd ▸ hsuccessor

end Steps

/-! ## Whole paths -/

/-- The categories along a path of a pipeline without faults. -/
theorem exists_categories_of_path {nodes path : List Node} {edges : List Edge}
    (h : (pipelineReport nodes edges).faults = []) (hpath : ∀ n ∈ path, n ∈ nodes)
    (hedges : path.IsChain fun n m => Feeds edges n.id m.id) :
    ∃ categories : List Category, path.map Node.category? = categories.map some ∧
      (∀ c ∈ categories, c ∈ Category.workflow) ∧
      categories.IsChain fun c d => d ∈ c.successors := by
  induction path with
  | nil => exact ⟨[], rfl, nofun, .nil⟩
  | cons n rest ih =>
    obtain ⟨hproper, -⟩ := pipelineReport_isValid_iff.1 h
    have hn := hpath n List.mem_cons_self
    obtain ⟨c, hc, hcategory⟩ := (hproper n hn).exists_category
    obtain ⟨categories, hmap, hall, hchain⟩ :=
      ih (fun m hm => hpath m (List.mem_cons_of_mem _ hm)) (List.isChain_of_isChain_cons hedges)
    refine ⟨c :: categories, by simp [hcategory, hmap], List.forall_mem_cons.2 ⟨hc, hall⟩, ?_⟩
    cases rest with
    | nil =>
      obtain rfl : categories = [] := by simpa using hmap.symm
      exact .singleton c
    | cons m rest =>
      cases categories with
      | nil => simp at hmap
      | cons d categories =>
        obtain ⟨hd, -⟩ := List.cons.inj hmap
        have hm := hpath m (List.mem_cons_of_mem _ List.mem_cons_self)
        have hfeeds := (List.isChain_cons_cons.1 hedges).1
        exact List.isChain_cons_cons.2 ⟨successor_of_feeds h hn hm hfeeds hcategory hd, hchain⟩

/-- A pipeline without faults has the order of the workflow along all of its paths, and a path from
a dataset to an outcome of the training meets exactly one training configuration. -/
theorem workflow_of_path (p : Project) (path : List Node)
    (hvalid : (p.graphReport .pipeline).isValid = true)
    (hpath : ∀ n ∈ path, n ∈ p.pipeline.nodes)
    (hedges : path.IsChain fun n m => Feeds p.pipeline.edges n.id m.id) :
    ∃ categories : List Category, path.map Node.category? = categories.map some ∧
      IsWorkflow categories ∧
      (categories.head? = some .dataset →
        (∃ c ∈ [Category.optimization, .metrics, .callbacks], categories.getLast? = some c) →
          categories.count .training = 1) := by
  have hreport := faults_pipelineReport_eq_nil (Report.isValid_iff.1 hvalid)
  obtain ⟨categories, hmap, hall, hchain⟩ := exists_categories_of_path hreport hpath hedges
  have hworkflow := Category.isWorkflow_of_isChain hall hchain
  refine ⟨categories, hmap, hworkflow, fun hfirst hlast => ?_⟩
  apply Nat.le_antisymm (Category.count_training_le_one hworkflow)
  apply List.one_le_count_iff.2
  cases categories with
  | nil => cases hfirst
  | cons c rest =>
    obtain rfl : c = .dataset := Option.some.inj hfirst
    exact List.mem_cons_of_mem _ (Category.training_mem_of_isChain hchain (by decide) hlast)

/-- The project of `Project.sample` with transforms, a metric and a callback in its pipeline. -/
def Project.watched : Project where
  architecture := Project.sample.architecture
  pipeline :=
    { nodes :=
        [{ id := "keep", operatorId := "modelcheckpoint", isPipeline := true },
         { id := "images", operatorId := "dataset", isPipeline := true },
         { id := "crop", operatorId := "centercrop", isPipeline := true },
         { id := "tensor", operatorId := "totensor", isPipeline := true },
         { id := "training", operatorId := "trainingconfig", isPipeline := true },
         { id := "accuracy", operatorId := "accuracy", isPipeline := true },
         { id := "adam", operatorId := "adamw", isPipeline := true }]
      edges :=
        [{ id := "1", source := "images", target := "crop" },
         { id := "2", source := "crop", target := "tensor" },
         { id := "3", source := "tensor", target := "training" },
         { id := "4", source := "training", target := "accuracy" },
         { id := "5", source := "accuracy", target := "keep" },
         { id := "6", source := "training", target := "adam" }] }

/-- From the dataset over both transforms, the training and the metric to the callback. -/
def Project.watchedPath : List Node :=
  ["images", "crop", "tensor", "training", "accuracy", "keep"].filterMap fun id =>
    Project.watched.pipeline.nodes.find? (·.id == id)

theorem workflow_of_path_watched :
    ∃ categories : List Category, Project.watchedPath.map Node.category? = categories.map some ∧
      IsWorkflow categories ∧ categories.count .training = 1 := by
  have hnodes : ∀ n ∈ Project.watchedPath, n ∈ Project.watched.pipeline.nodes := by
    intro n hn
    obtain ⟨id, -, hfind⟩ := List.mem_filterMap.1 hn
    exact List.mem_of_find?_eq_some hfind
  have hedges : Project.watchedPath.IsChain fun n m =>
      Feeds Project.watched.pipeline.edges n.id m.id := by
    simp [Project.watchedPath, Project.watched, Feeds]
  obtain ⟨categories, hmap, hworkflow, hcount⟩ :=
    workflow_of_path Project.watched Project.watchedPath (by decide +kernel) hnodes hedges
  have hread : categories =
      [.dataset, .dataAugmentation, .dataAugmentation, .training, .metrics, .callbacks] := by
    apply List.map_injective_iff.2 (Option.some_injective _)
    rw [← hmap]
    decide +kernel
  refine ⟨categories, hmap, hworkflow, hcount ?_ ?_⟩ <;> rw [hread]
  · rfl
  · exact ⟨.callbacks, by decide, rfl⟩

end LayerGraph
