import LayerGraph.Proofs.Agreement
import LayerGraph.Proofs.Wiring
/-!
# Editing sessions keep the rules

The nodes of a drawing are fixed, and its edges change. `Edit nodes before after` is one step: edges
are deleted, a candidate is refused, or a candidate that `validateEdge` accepts beside the edges of
that moment replaces those with its id.

* `Ends.IsAllowed`: the ends of an edge belong together, whatever other edges there are.
* `Graph.IsOrderly`: the edges have no cycle, none of them clash, and all of them have allowed ends.
* `Edit.keeps_orderly` says that a step keeps this; so it holds in every state that steps reach from
  a drawing without edges (`orderly_of_edits`).
-/

namespace LayerGraph
set_option autoImplicit false
open Relation

variable {nodes : List Node} {edges others : List Edge} {e : Edge} {ends : Ends}

/-! ## Ends that belong together -/

/-- What holds of the ends of an edge whatever other edges there are. -/
structure Ends.IsAllowed (ends : Ends) : Prop where
  graph : ends.source.node.isPipeline = ends.target.node.isPipeline
  notInto : ends.target.operator.isRoot = false
  notFromLoss : ends.source.operator.isLoss = false
  notFromCallback : ends.source.operator.category ≠ .callbacks
  successor : ends.source.node.isPipeline = true →
    ends.target.operator.category ∈ ends.source.operator.category.successors

theorem Category.isRoot_eq_false_of_mem_successors {c d : Category} (h : c ∈ d.successors) :
    c.isRoot = false := by
  revert h
  cases d <;> cases c <;> decide

theorem Placed.mem_all_of_architecture {p : Placed} (hoperator : p.node.operator = .ok p.operator)
    (hgraph : p.node.isPipeline = false) : p.operator ∈ Operator.Architecture.all := by
  have hmode : p.node.mode = .architecture := by
    rw [Node.mode, hgraph, if_neg Bool.false_ne_true]
  exact Node.mem_all_of_operator hmode hoperator

theorem Operator.category_ne_callbacks {o : Operator} (h : o ∈ Operator.Architecture.all) :
    o.category ≠ .callbacks := by
  revert o
  decide +kernel

theorem isAllowed_of_checkWorkflow
    (hgraph : ends.source.node.isPipeline = ends.target.node.isPipeline)
    (h : checkWorkflow ends = .ok ()) : ends.IsAllowed := by
  obtain ⟨hcallbacks, hsuccessor, -⟩ := checkWorkflow_eq_ok_iff.1 h
  refine ⟨hgraph, ?_, ?_, hcallbacks, fun _ => hsuccessor⟩
  · exact Category.isRoot_eq_false_of_mem_successors hsuccessor
  · -- A loss has no successors.
    apply Bool.eq_false_iff.2
    intro hloss
    have hcategory : ends.source.operator.category = .loss := of_decide_eq_true hloss
    rw [hcategory] at hsuccessor
    cases hsuccessor

theorem isAllowed_of_checkArchitecture (hends : resolveEnds e nodes = .ok ends)
    (harchitecture : ends.source.node.isPipeline = false)
    (h : checkArchitecture e ends others = .ok ()) : ends.IsAllowed := by
  obtain ⟨⟨-, hproducer⟩, ⟨-, hconsumer⟩, hgraph, -⟩ := resolveEnds_eq_ok_iff.1 hends
  have hsource := Placed.mem_all_of_architecture hproducer harchitecture
  have htarget := Placed.mem_all_of_architecture hconsumer (hgraph ▸ harchitecture)
  obtain ⟨hroot, -, haccepts, -⟩ := checkArchitecture_eq_ok_iff.1 h
  refine ⟨hgraph, hroot, ?_, Operator.category_ne_callbacks hsource, fun hpipeline => ?_⟩
  · apply Bool.eq_false_iff.2
    intro hloss
    rw [(Operator.rule_of_isLoss hsource hloss).2, Operator.not_accepts_loss htarget] at haccepts
    cases haccepts
  · rw [harchitecture] at hpipeline
    cases hpipeline

theorem isAllowed_of_checkConnection (hends : resolveEnds e nodes = .ok ends)
    (h : checkConnection e ends others = .ok ()) : ends.IsAllowed := by
  obtain ⟨-, hrules⟩ := checkConnection_eq_ok_iff.1 h
  cases hgraph : ends.source.node.isPipeline with
  | true =>
    rw [hgraph, if_pos rfl] at hrules
    obtain ⟨-, -, hsame, -⟩ := resolveEnds_eq_ok_iff.1 hends
    exact isAllowed_of_checkWorkflow hsame hrules
  | false =>
    rw [hgraph, if_neg Bool.false_ne_true] at hrules
    exact isAllowed_of_checkArchitecture hends hgraph hrules

/-! ## Steps -/

/-- A step of a session over fixed nodes. -/
inductive Edit (nodes : List Node) : List Edge → List Edge → Prop
  | delete {edges left : List Edge} : left.Sublist edges → Edit nodes edges left
  | refuse {edges : List Edge} (candidate : Edge) (fault : Fault) :
      validateEdge candidate nodes edges = .error fault → Edit nodes edges edges
  /-- Where the candidate stands among the edges is left open. -/
  | draw {edges more : List Edge} (candidate : Edge) :
      validateEdge candidate nodes edges = .ok () →
      more.Perm (candidate :: otherEdges candidate edges) → Edit nodes edges more

/-- The edge joins two different nodes whose operators allow it. -/
def Graph.Joins (g : Graph) (e : Edge) : Prop :=
  e.source ≠ e.target ∧ ∃ ends : Ends,
    Denotes g.nodes e.source ends.source ∧ Denotes g.nodes e.target ends.target ∧ ends.IsAllowed

/-- What editing keeps. -/
structure Graph.IsOrderly (g : Graph) : Prop where
  acyclic : Acyclic g.edges
  wired : g.IsWired
  joins : ∀ e ∈ g.edges, g.Joins e

theorem isOrderly_nil : Graph.IsOrderly ⟨nodes, []⟩ where
  acyclic := acyclic_nil
  wired := Graph.isWired_iff.2 List.Pairwise.nil
  joins := fun _ he => nomatch he

theorem Graph.IsOrderly.sublist {left : List Edge} (h : Graph.IsOrderly ⟨nodes, edges⟩)
    (hleft : left.Sublist edges) : Graph.IsOrderly ⟨nodes, left⟩ where
  acyclic := h.acyclic.mono hleft.subset
  wired := Graph.isWired_iff.2 ((Graph.isWired_iff.1 h.wired).sublist hleft)
  joins := fun e he => h.joins e (hleft.subset he)

theorem Graph.IsOrderly.perm {more : List Edge} (h : Graph.IsOrderly ⟨nodes, edges⟩)
    (hmore : more.Perm edges) : Graph.IsOrderly ⟨nodes, more⟩ where
  acyclic := h.acyclic.mono hmore.subset
  wired := by
    have hclash := Graph.isWired_iff.1 h.wired
    apply Graph.isWired_iff.2
    exact hmore.symm.pairwise hclash fun hnot hback => hnot hback.symm
  joins := fun e he => h.joins e (hmore.subset he)

theorem Graph.IsOrderly.cons (h : Graph.IsOrderly ⟨nodes, edges⟩)
    (haccepted : validateEdge e nodes edges = .ok ()) :
    Graph.IsOrderly ⟨nodes, e :: otherEdges e edges⟩ := by
  obtain ⟨ends, hends, hconnection, -⟩ := validateEdge_eq_ok_iff.1 haccepted
  obtain ⟨-, -, hne⟩ := ids_of_resolveEnds hends
  have hothers : Graph.IsOrderly ⟨nodes, otherEdges e edges⟩ := h.sublist List.filter_sublist
  have hapart : ∀ d ∈ otherEdges e edges, ¬ Clash nodes e d := by
    intro d hd hclash
    exact not_clash_of_checkConnection hends hconnection hd hclash.symm
  have hwired := Graph.isWired_iff.1 hothers.wired
  refine ⟨?_, Graph.isWired_iff.2 (List.pairwise_cons.2 ⟨hapart, hwired⟩), ?_⟩
  · apply (hothers.acyclic.append_single (not_leads_of_validateEdge haccepted)).mono
    intro d hd
    simpa [or_comm] using hd
  · intro d hd
    rcases List.mem_cons.1 hd with rfl | hd
    · obtain ⟨hsource, htarget⟩ := denotes_of_resolveEnds hends
      exact ⟨hne, ends, hsource, htarget, isAllowed_of_checkConnection hends hconnection⟩
    · exact hothers.joins d hd

theorem Edit.keeps_orderly {more : List Edge} (hstep : Edit nodes edges more)
    (h : Graph.IsOrderly ⟨nodes, edges⟩) : Graph.IsOrderly ⟨nodes, more⟩ := by
  cases hstep with
  | delete hleft => exact h.sublist hleft
  | refuse => exact h
  | draw candidate haccepted hmore => exact (h.cons haccepted).perm hmore

/-! ## Runs -/

/-- Every drawing that steps reach from one without edges is in order. -/
theorem orderly_of_edits (nodes : List Node) (edges : List Edge)
    (h : ReflTransGen (Edit nodes) [] edges) : Graph.IsOrderly ⟨nodes, edges⟩ := by
  induction h with
  | refl => exact isOrderly_nil
  | tail _ hstep ih => exact hstep.keeps_orderly ih

/-- The nodes of both graphs of `Project.sample` on one canvas. -/
def Project.canvas : List Node :=
  Project.sample.architecture.nodes ++ Project.sample.pipeline.nodes

/-- An edge is drawn in each graph, one back to the first is refused, one is moved to another
target, and one is deleted. -/
theorem orderly_of_edits_canvas :
    Graph.IsOrderly
      ⟨Project.canvas, [{ id := "2", source := "data", target := "join", kind := .sum }]⟩ := by
  apply orderly_of_edits
  have hlayer : ReflTransGen (Edit Project.canvas) []
      [{ id := "2", source := "conv", target := "norm" }] :=
    .single (.draw _ (by decide +kernel) (.refl _))
  have hworkflow : ReflTransGen (Edit Project.canvas) []
      [{ id := "3", source := "images", target := "training" },
       { id := "2", source := "conv", target := "norm" }] :=
    hlayer.tail (.draw { id := "3", source := "images", target := "training" }
      (by decide +kernel) (by decide +kernel))
  have hrefused : ReflTransGen (Edit Project.canvas) []
      [{ id := "3", source := "images", target := "training" },
       { id := "2", source := "conv", target := "norm" }] :=
    hworkflow.tail (.refuse { id := "4", source := "norm", target := "conv" } (.cycle "conv")
      (by decide +kernel))
  have hmoved : ReflTransGen (Edit Project.canvas) []
      [{ id := "3", source := "images", target := "training" },
       { id := "2", source := "data", target := "join", kind := .sum }] :=
    hrefused.tail (.draw { id := "2", source := "data", target := "join", kind := .sum }
      (by decide +kernel) (by decide +kernel))
  exact hmoved.tail (.delete (by decide +kernel))

end LayerGraph
