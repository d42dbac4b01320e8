import LayerGraph.Proofs.Gate
import LayerGraph.Proofs.TopologicalPass
import LayerGraph.Proofs.Warnings
import LayerGraph.Proofs.Workflow
/-!
# The order of a pipeline

A training plan takes the nodes of a category in topological order, while a report counts and names
them in the order in which they are drawn.

* `Network.perm_listed`: both are the same nodes. A node stands before those that it leads to
  (`Network.IsTopological.sublist_listed`), and nodes without incoming edges stand in the order in
  which they are drawn (`Network.listed_eq_ofCategory`), because the queue begins with these.
* `IsSoundPipeline.not_feeds_dataset`: no edge of a pipeline without faults leads to a dataset.
* `transforms_in_order` and `one_pipeline_dataset` say what this makes of the transforms and of the
  dataset of a project without faults.
-/

namespace LayerGraph
set_option autoImplicit false
open Relation

namespace Network

variable {net : Network} {nodes : List Node} {edges : List Edge} {order : List String}
  {category : Category}

/-! ## The nodes of a category -/

theorem filterMap_find?_map_id {placed : List Placed} (h : ∀ p ∈ placed, p ∈ net.nodes) :
    (placed.map Placed.id).filterMap net.find? = placed := by
  have hfind : ∀ p ∈ placed, net.find? p.id = some p := fun p hp =>
    find?_eq_some_iff.2 ⟨h p hp, rfl⟩
  rw [List.filterMap_map]
  exact (List.filterMap_congr hfind).trans (List.filterMap_some ..)

theorem perm_listed (h : order.Perm net.ids) :
    (net.listed order category).Perm (net.ofCategory category) := by
  have hplaced := h.filterMap net.find?
  rw [ids, filterMap_find?_map_id fun _ => id] at hplaced
  exact hplaced.filter _

/-- Of two nodes of a category, one that leads to the other stands before it. -/
theorem IsTopological.sublist_listed (h : net.IsTopological order) {p q : Placed}
    (hp : p ∈ net.ofCategory category) (hq : q ∈ net.ofCategory category)
    (hpq : TransGen (Feeds net.edges) p.id q.id) : [p, q].Sublist (net.listed order category) := by
  have hpair : ∀ a ∈ [p, q], a ∈ net.ofCategory category := by simp [hp, hq]
  have hsublist := ((h.sublist_of_leads hpq).filterMap net.find?).filter
    (·.operator.category = category)
  have hfind := filterMap_find?_map_id fun a ha => (List.mem_filter.1 (hpair a ha)).1
  rw [List.map_cons, List.map_singleton] at hfind
  rwa [hfind, List.filter_eq_self.2 fun a ha => (List.mem_filter.1 (hpair a ha)).2] at hsublist

/-! ## What is listed first -/

/-- What is queued stands before all that it releases. -/
theorem isPrefix_drain {pending queue : List String} (more : List String)
    (hqueue : ∀ id ∈ queue, id ∈ pending) (hnodup : queue.Nodup) :
    queue <+: net.drain pending (queue ++ more) := by
  induction queue generalizing pending more with
  | nil => exact List.nil_prefix
  | cons id rest ih =>
    obtain ⟨hid, hrest⟩ := List.nodup_cons.1 hnodup
    rw [List.cons_append, drain, if_pos (hqueue id List.mem_cons_self), List.prefix_cons_inj,
      List.append_assoc]
    refine ih _ (fun other hother => Search.mem_without.2 ⟨?_, ?_⟩) hrest
    · exact hqueue other (List.mem_cons_of_mem _ hother)
    · exact fun heq => hid (heq ▸ hother)

theorem sourceless_isPrefix (h : net.topological = .ok order) : net.sourceless <+: order := by
  obtain ⟨-, rfl⟩ := topological_eq_ok_iff.1 h
  have hqueue : ∀ id ∈ net.sourceless, id ∈ net.ids := fun id hid => (mem_sourceless.1 hid).1
  have hfirst : net.sourceless <+: net.drain net.ids (net.sourceless ++ []) :=
    isPrefix_drain [] hqueue (net.nodup_ids.filter _)
  rwa [List.append_nil] at hfirst

theorem placed_sourceless :
    net.sourceless.filterMap net.find? =
      net.nodes.filter fun p => (net.incoming p.id).isEmpty := by
  rw [sourceless, ids, List.filter_map]
  exact filterMap_find?_map_id fun p hp => (List.mem_filter.1 hp).1

/-- Nodes without incoming edges are listed in the order in which they are drawn. -/
theorem listed_eq_ofCategory (h : net.topological = .ok order)
    (hsource : ∀ p ∈ net.ofCategory category, ∀ s, ¬ Feeds net.edges s p.id) :
    net.listed order category = net.ofCategory category := by
  have hqueued := ((sourceless_isPrefix h).filterMap net.find?).filter
    (·.operator.category = category)
  have hfirst : (net.sourceless.filterMap net.find?).filter (·.operator.category = category) =
      net.ofCategory category := by
    rw [placed_sourceless, List.filter_filter, ofCategory]
    refine List.filter_congr fun p hp => ?_
    by_cases hcategory : p.operator.category = category
    · have hsourceless : p.id ∈ net.sourceless := mem_sourceless.2
        ⟨id_mem_ids hp, hsource p (List.mem_filter.2 ⟨hp, decide_eq_true hcategory⟩)⟩
      simp [hcategory, (List.mem_filter.1 hsourceless).2]
    · simp [hcategory]
  rw [hfirst] at hqueued
  have hperm : (net.listed order category).Perm (net.ofCategory category) :=
    perm_listed (isTopological_of_topological h).2.perm
  exact (hqueued.eq_of_length hperm.length_eq.symm).symm

/-! ## The nodes of a drawing -/

theorem IsOf.category?_eq (h : net.IsOf nodes edges) {p : Placed} (hp : p ∈ net.nodes) :
    p.node.category? = some p.operator.category := by
  rw [Node.category?, h.operator p hp]
  rfl

theorem IsOf.map_node_ofCategory (h : net.IsOf nodes edges) :
    (net.ofCategory category).map Placed.node = nodes.filter (·.category? = some category) := by
  rw [← h.nodes_eq, List.filter_map, ofCategory]
  refine congrArg _ (List.filter_congr fun p hp => ?_)
  simp [h.category?_eq hp]

end Network

/-! ## Pipelines without faults -/

namespace IsSoundPipeline

variable {pipeline : Graph} {net : Network} {order : List String}

theorem not_feeds_dataset (h : IsSoundPipeline pipeline net) {q : Placed}
    (hq : q ∈ net.ofCategory .dataset) (s : String) : ¬ Feeds net.edges s q.id := by
  intro hfeeds
  obtain ⟨hnode, hcategory⟩ := List.mem_filter.1 hq
  obtain ⟨p, hp, rfl⟩ := List.mem_map.1 (Network.source_mem_ids hfeeds)
  have hsuccessor := successor_of_feeds h.faults_eq_nil (h.isOf.node_mem hp) (h.isOf.node_mem hnode)
    (h.edges_eq ▸ hfeeds) (h.isOf.category?_eq hp) (h.isOf.category?_eq hnode)
  exact Category.ne_dataset_of_mem_successors hsuccessor (of_decide_eq_true hcategory)

theorem listed_dataset (h : IsSoundPipeline pipeline net) (horder : net.topological = .ok order) :
    net.listed order .dataset = net.ofCategory .dataset :=
  Network.listed_eq_ofCategory horder fun _ => h.not_feeds_dataset

theorem roots_eq (h : IsSoundPipeline pipeline net) : net.roots = net.ofCategory .dataset := by
  have hroot : ∀ o ∈ Operator.Pipeline.all, o.isRoot = decide (o.category = .dataset) := by decide
  exact List.filter_congr fun q hq => hroot q.operator (h.mem_all hq)

/-- A transform to tensors is drawn exactly when it is among the transforms. -/
theorem forall_listed_ne_totensor_iff (h : IsSoundPipeline pipeline net)
    (horder : order.Perm net.ids) :
    (∀ q ∈ net.listed order .dataAugmentation, q.operator.id ≠ "totensor") ↔
      ∀ n ∈ pipeline.nodes, n.operatorId ≠ "totensor" := by
  have hcategory : ∀ o ∈ Operator.Pipeline.all, o.id = "totensor" →
      o.category = .dataAugmentation := by decide
  have hlisted := Network.exists_listed_iff horder fun q hq =>
    hcategory q.operator (h.mem_all hq)
  simpa using not_congr (hlisted.trans h.isOf.exists_operatorId_iff)

theorem mem_warnings_iff {p : Project} (h : IsSoundPipeline p.pipeline net)
    (hnodes : p.pipeline.nodes ≠ []) {w : Warning} (hmode : w.mode = .pipeline) :
    w ∈ p.report.warnings ↔ w ∈ (pipelinePartsReport net).warnings := by
  have hnonempty : ¬ (p.pipeline.nodes.isEmpty = true ∧ p.pipeline.edges.isEmpty = true) :=
    fun hempty => hnodes (List.isEmpty_iff.1 hempty.1)
  rw [Project.mem_warnings_iff hmode, Project.graphReport, if_neg hnonempty,
    warnings_pipelineReport h.proper h.ofGraph h.acyclic]

end IsSoundPipeline

/-! ## Transforms -/

/-- The call that constructs the operator of a node, with the parameters of the node over the
defaults. -/
def Node.constructorCall (n : Node) : Except Fault Expr := do
  let operator ← n.operator
  LayerGraph.constructorCall operator (operator.resolve n.params)

theorem Network.IsOf.constructorCall_node {net : Network} {nodes : List Node} {edges : List Edge}
    (h : net.IsOf nodes edges) {q : Placed} (hq : q ∈ net.nodes) :
    q.node.constructorCall = constructorCall q.operator q.params := by
  rw [Node.constructorCall, h.operator q hq]
  rfl

/-- The transforms of a pipeline: each node once, connected or not, and none before one that leads
to it. -/
structure IsTransformOrder (pipeline : Graph) (transforms : List Node) : Prop where
  perm : transforms.Perm (pipeline.nodes.filter (·.category? = some .dataAugmentation))
  nodup : (transforms.map Node.id).Nodup
  forward : ∀ n ∈ transforms, ∀ m ∈ transforms,
    TransGen (Feeds pipeline.edges) n.id m.id → [n, m].Sublist transforms

theorem IsSoundPipeline.isTransformOrder {pipeline : Graph} {net : Network} {order : List String}
    (h : IsSoundPipeline pipeline net) (horder : net.IsTopological order) :
    IsTransformOrder pipeline ((net.listed order .dataAugmentation).map Placed.node) := by
  have hlisted : (net.listed order .dataAugmentation).Perm (net.ofCategory .dataAugmentation) :=
    Network.perm_listed horder.perm
  have hperm := hlisted.map Placed.node
  rw [h.isOf.map_node_ofCategory] at hperm
  refine ⟨hperm, ?_, ?_⟩
  · exact ((hperm.map Node.id).nodup_iff).2 (h.isOf.nodup_ids.sublist (List.filter_sublist.map _))
  · intro n hn m hm hleads
    obtain ⟨p, hp, rfl⟩ := List.mem_map.1 hn
    obtain ⟨q, hq, rfl⟩ := List.mem_map.1 hm
    exact (horder.sublist_listed (hlisted.mem_iff.1 hp) (hlisted.mem_iff.1 hq)
      (h.edges_eq ▸ hleads)).map Placed.node

/-- A project without faults whose pipeline is drawn has the calls of all of its transforms in its
training plan, in the order of their paths. A transform to tensors is put in front exactly when no
node makes one, which is when the report warns of it. -/
theorem transforms_in_order (p : Project) (settings : Settings) (dataset : Dataset)
    (hvalid : p.report.isValid = true)
    (hdrawn : p.pipeline.nodes ≠ [] ∨ p.pipeline.edges ≠ []) :
    ∃ plan transforms calls,
      p.pipeline.training settings dataset = .ok (some plan) ∧
      IsTransformOrder p.pipeline transforms ∧
      List.Forall₂ (fun n call => n.constructorCall = .ok call) transforms calls ∧
      (plan.transforms =
        if ∀ n ∈ p.pipeline.nodes, n.operatorId ≠ "totensor" then
          .call "transforms.ToTensor" [] [] :: calls
        else calls) ∧
      (Warning.noToTensor.message ∈ p.report.warnings.map Warning.message ↔
        ∀ n ∈ p.pipeline.nodes, n.operatorId ≠ "totensor") := by
  obtain ⟨-, hpipeline⟩ := faults_report_eq_nil_iff.1 (Report.isValid_iff.1 hvalid)
  obtain ⟨net, h⟩ := exists_isSoundPipeline hpipeline
  have hnodes := h.nodes_ne_nil hdrawn
  obtain ⟨plan, hplan, htraining⟩ := h.exists_training hnodes settings dataset
  obtain ⟨order, horder, htransforms, -⟩ := Network.exists_order_of_training hplan
  have htopological := (Network.isTopological_of_topological horder).2
  have htensor := h.forall_listed_ne_totensor_iff htopological.perm
  obtain ⟨calls, hcalls, hplanned⟩ := exists_calls_of_transformPlan htransforms
  refine ⟨plan, _, calls, htraining, h.isTransformOrder htopological, ?_, ?_, ?_⟩
  · rw [List.forall₂_map_left_iff]
    have hnode : ∀ q ∈ net.listed order .dataAugmentation, q ∈ net.nodes := fun q hq =>
      (Network.mem_listed.1 hq).1
    exact ((List.forall₂_and_left _ _).2 ⟨hnode, hcalls⟩).imp fun q call ⟨hq, hcall⟩ =>
      (h.isOf.constructorCall_node hq).trans hcall
  · rw [hplanned]
    exact if_congr htensor rfl rfl
  · rw [Warning.message_noToTensor_mem_iff, h.mem_warnings_iff hnodes rfl,
      noToTensor_mem_warnings_iff]
    simpa using not_congr h.isOf.exists_operatorId_iff

/-- Two branches between the first dataset and a transform that stands before them, a transform that
no edge touches, and a second dataset. -/
def Project.branched : Project where
  architecture := Project.sample.architecture
  pipeline :=
    { nodes :=
        [{ id := "crop", operatorId := "centercrop", isPipeline := true },
         { id := "flip", operatorId := "randomhorizontalflip", isPipeline := true },
         { id := "images", operatorId := "dataset", isPipeline := true,
           params := .ofList [("shuffle", .bool false)] },
         { id := "blur", operatorId := "gaussianblur", isPipeline := true },
         { id := "spare", operatorId := "dataset", isPipeline := true,
           params := .ofList [("download", .bool false)] },
         { id := "turn", operatorId := "randomrotation", isPipeline := true },
         { id := "training", operatorId := "trainingconfig", isPipeline := true }]
      edges :=
        [{ id := "1", source := "flip", target := "crop" },
         { id := "2", source := "turn", target := "crop" },
         { id := "3", source := "images", target := "flip" },
         { id := "4", source := "images", target := "turn" },
         { id := "5", source := "spare", target := "turn" },
         { id := "6", source := "crop", target := "training" }] }

theorem transforms_in_order_branched :
    ∃ dataset plan transforms, Dataset.find? "MNIST" = some dataset ∧
      Project.branched.pipeline.training {} dataset = .ok (some plan) ∧
      IsTransformOrder Project.branched.pipeline transforms ∧
      plan.transforms.length = transforms.length + 1 ∧
      plan.transforms.map Expr.text =
        ["transforms.ToTensor()", "transforms.GaussianBlur(kernel_size=3, sigma=1.0)",
         "transforms.RandomHorizontalFlip(p=0.5)", "transforms.RandomRotation(degrees=15.0)",
         "transforms.CenterCrop(size=224)"] ∧
      Warning.noToTensor.message ∈ Project.branched.report.warnings.map Warning.message := by
  let mnist : Dataset := ⟨"MNIST", "MNIST", 1, 28, 28, 10, .trainFlag⟩
  have hnone : ∀ n ∈ Project.branched.pipeline.nodes, n.operatorId ≠ "totensor" := by decide
  obtain ⟨plan, transforms, calls, htraining, horder, hcalls, hplan, hwarning⟩ :=
    transforms_in_order Project.branched {} mnist (by decide +kernel) (.inl (by decide))
  have htexts : (Project.branched.pipeline.training {} mnist).toOption.all (fun training =>
      training.all fun plan => decide (plan.transforms.map Expr.text =
        ["transforms.ToTensor()", "transforms.GaussianBlur(kernel_size=3, sigma=1.0)",
         "transforms.RandomHorizontalFlip(p=0.5)", "transforms.RandomRotation(degrees=15.0)",
         "transforms.CenterCrop(size=224)"])) = true := by
    decide +kernel
  refine ⟨mnist, plan, transforms, by decide, htraining, horder, ?_,
    of_decide_eq_true (of_toOption_all htexts htraining), hwarning.2 hnone⟩
  rw [hplan, if_pos hnone, List.length_cons, hcalls.length_eq]

/-! ## The dataset -/

/-- The training plan of a project without faults takes the parameters of its dataset from the node
that the report names and measures connections from: the first dataset in topological order is the
first one drawn. -/
theorem one_pipeline_dataset (p : Project) (settings : Settings) (dataset : Dataset)
    (hvalid : p.report.isValid = true)
    (hdataset : ∃ n ∈ p.pipeline.nodes, n.category? = some .dataset) :
    ∃ net order root plan,
      Network.ofGraph p.pipeline.nodes p.pipeline.edges = .ok net ∧
      net.topological = .ok order ∧
      p.pipeline.training settings dataset = .ok (some plan) ∧
      net.nodes.find? (·.operator.category = .dataset) = some root ∧
      (order.filterMap net.find?).find? (·.operator.category = .dataset) = some root ∧
      plan.shuffle = flag root.params "shuffle" true ∧
      (plan.trainArgs, plan.testArgs) =
        splitArgs dataset.split (flag root.params "download" true) ∧
      (∀ id name, .notConnected id name ∈ p.report.warnings ↔
        name = root.id ∧ id ∈ net.ids ∧
          ¬ ReflTransGen (Feeds p.pipeline.edges) root.id id) ∧
      ∀ count name, .manyPipelineDatasets count name ∈ p.report.warnings ↔
        name = root.id ∧ count = (net.ofCategory .dataset).length ∧ 1 < count := by
  obtain ⟨-, hpipeline⟩ := faults_report_eq_nil_iff.1 (Report.isValid_iff.1 hvalid)
  obtain ⟨net, h⟩ := exists_isSoundPipeline hpipeline
  obtain ⟨n, hn, hcategory⟩ := hdataset
  have hnodes : p.pipeline.nodes ≠ [] := List.ne_nil_of_mem hn
  obtain ⟨plan, hplan, htraining⟩ := h.exists_training hnodes settings dataset
  obtain ⟨order, horder, -, -, hsource⟩ := Network.exists_order_of_training hplan
  have hmem : n ∈ (net.ofCategory .dataset).map Placed.node := by
    rw [h.isOf.map_node_ofCategory]
    exact List.mem_filter.2 ⟨hn, decide_eq_true hcategory⟩
  obtain ⟨q, hq, -⟩ := List.mem_map.1 hmem
  obtain ⟨root, more, hroots⟩ := List.exists_cons_of_ne_nil (List.ne_nil_of_mem hq)
  have hhead : (net.listed order .dataset).head? = some root := by
    rw [h.listed_dataset horder, hroots]
    rfl
  obtain ⟨hshuffle, hsplit⟩ := hsource root hhead
  refine ⟨net, order, root, plan, h.ofGraph, horder, htraining, ?_, ?_, hshuffle, hsplit,
    fun id name => ?_, fun count name => ?_⟩
  · rw [← List.head?_filter]
    exact congrArg List.head? hroots
  · rw [← List.head?_filter]
    exact hhead
  · rw [h.mem_warnings_iff hnodes rfl, notConnected_mem_warnings_iff (h.roots_eq.trans hroots),
      h.edges_eq]
  · rw [h.mem_warnings_iff hnodes rfl,
      manyPipelineDatasets_mem_warnings_iff (h.roots_eq.trans hroots), h.roots_eq]

theorem one_pipeline_dataset_branched :
    ∃ dataset net root plan, Dataset.find? "MNIST" = some dataset ∧
      Network.ofGraph Project.branched.pipeline.nodes Project.branched.pipeline.edges = .ok net ∧
      Project.branched.pipeline.training {} dataset = .ok (some plan) ∧
      net.nodes.find? (·.operator.category = .dataset) = some root ∧ root.id = "images" ∧
      plan.shuffle = flag root.params "shuffle" true ∧ plan.shuffle = false ∧
      plan.trainArgs = "train=True, download=True" ∧
      ¬ ReflTransGen (Feeds Project.branched.pipeline.edges) "images" "spare" := by
  let mnist : Dataset := ⟨"MNIST", "MNIST", 1, 28, 28, 10, .trainFlag⟩
  obtain ⟨net, order, root, plan, hnet, -, htraining, hroot, -, hshuffle, -, hconnected, hmany⟩ :=
    one_pipeline_dataset Project.branched {} mnist (by decide +kernel) (by decide +kernel)
  have hplan : (Project.branched.pipeline.training {} mnist).toOption.all (fun training =>
      training.all fun plan => decide (plan.shuffle = false ∧
        plan.trainArgs = "train=True, download=True")) = true := by
    decide +kernel
  obtain ⟨hfalse, hargs⟩ := of_decide_eq_true (of_toOption_all hplan htraining)
  obtain ⟨hid, -⟩ := (hmany 2 "images").1 (by decide +kernel)
  obtain ⟨-, -, hspare⟩ := (hconnected "spare" "images").1 (by decide +kernel)
  exact ⟨mnist, net, root, plan, by decide, hnet, htraining, hroot, hid.symm, hshuffle, hfalse,
    hargs, hid ▸ hspare⟩

end LayerGraph
