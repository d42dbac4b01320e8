import LayerGraph.Proofs.Agreement
/-!
# Pipeline edges in any order

Edges are proposed one after the other, each beside those that were accepted before it. For pipeline
nodes what is tested against the other edges is lost neither when edges are left out nor when they
are reordered.

* `accepted nodes edges`: the edges that are accepted when they are proposed in turn.
* `IsDrawable nodes edges`: every edge suits its ends, no two join the same ends, and there is no
  cycle. All edges are accepted in turn exactly when this holds (`accepted_eq_self_iff`), and the
  statement does not speak of an order.
* `accepted_in_any_order` concludes that any order of the edges is accepted, that every edge is
  accepted again beside all of them, and that they add no fault to a report.
-/

namespace LayerGraph
set_option autoImplicit false
open Relation

/-- The edges that are accepted when they are proposed one after the other, each beside those that
were accepted before it. -/
def accepted (nodes : List Node) (edges : List Edge) : List Edge :=
  edges.foldl
    (fun drawn e => if validateEdge e nodes drawn = .ok () then drawn ++ [e] else drawn) []

/-- The ends of the edge belong together, by the order of the workflow and their types. -/
def Edge.Suits (nodes : List Node) (e : Edge) : Prop :=
  ∃ ends, resolveEnds e nodes = .ok ends ∧ checkWorkflow ends = .ok ()

/-- What holds of the edges of a pipeline that are drawn together. -/
structure IsDrawable (nodes : List Node) (edges : List Edge) : Prop where
  suits : ∀ e ∈ edges, e.Suits nodes
  simple : (edges.map fun e => (e.source, e.target)).Nodup
  acyclic : Acyclic edges

section Pipeline

variable {nodes : List Node} {edges others more : List Edge} {e : Edge}

/-! ## One edge -/

theorem Edge.Suits.ne (h : e.Suits nodes) : e.source ≠ e.target := by
  obtain ⟨ends, hends, -⟩ := h
  exact (ids_of_resolveEnds hends).2.2

/-- Between pipeline nodes the order of the workflow is all there is to an edge without others. -/
theorem exists_checkConnection_iff (hnodes : ∀ n ∈ nodes, n.isPipeline = true) :
    (∃ ends, resolveEnds e nodes = .ok ends ∧ checkConnection e ends others = .ok ()) ↔
      e.Suits nodes ∧ (e.source, e.target) ∉ others.map fun d => (d.source, d.target) := by
  have hpipeline : ∀ ends, resolveEnds e nodes = .ok ends →
      ends.source.node.isPipeline = true := by
    intro ends hends
    obtain ⟨⟨hsource, -⟩, -⟩ := resolveEnds_eq_ok_iff.1 hends
    exact hnodes _ (List.mem_of_find?_eq_some hsource)
  have hapart : (∀ d ∈ others, d.source = e.source → d.target ≠ e.target) ↔
      (e.source, e.target) ∉ others.map fun d => (d.source, d.target) := by
    simp
  constructor
  · rintro ⟨ends, hends, hconnection⟩
    obtain ⟨hsimple, hrules⟩ := checkConnection_eq_ok_iff.1 hconnection
    rw [if_pos (hpipeline ends hends)] at hrules
    exact ⟨⟨ends, hends, hrules⟩, hapart.1 hsimple⟩
  · rintro ⟨⟨ends, hends, hworkflow⟩, hsimple⟩
    refine ⟨ends, hends, checkConnection_eq_ok_iff.2 ⟨hapart.2 hsimple, ?_⟩⟩
    rw [if_pos (hpipeline ends hends)]
    exact hworkflow

theorem validateEdge_iff_of_pipeline (hnodes : ∀ n ∈ nodes, n.isPipeline = true) :
    validateEdge e nodes edges = .ok () ↔
      e.Suits nodes ∧
        (e.source, e.target) ∉ (otherEdges e edges).map (fun d => (d.source, d.target)) ∧
        ¬ TransGen (Feeds (otherEdges e edges)) e.target e.source := by
  rw [validateEdge_eq_ok_iff, ← and_assoc, ← exists_checkConnection_iff hnodes]
  constructor
  · rintro ⟨ends, hends, hconnection, hcycle, -⟩
    refine ⟨⟨ends, hends, hconnection⟩, fun hback => ?_⟩
    rw [(closesCycle_iff (ids_of_resolveEnds hends).2.2).2 hback] at hcycle
    cases hcycle
  · rintro ⟨⟨ends, hends, hconnection⟩, hback⟩
    refine ⟨ends, hends, hconnection, ?_, fun hgraph => ?_⟩
    · apply Bool.eq_false_iff.2
      exact fun hcycle => hback ((closesCycle_iff (ids_of_resolveEnds hends).2.2).1 hcycle)
    · obtain ⟨⟨hsource, -⟩, -⟩ := resolveEnds_eq_ok_iff.1 hends
      rw [hnodes _ (List.mem_of_find?_eq_some hsource)] at hgraph
      cases hgraph

/-! ## Edges that are drawn together -/

theorem IsDrawable.perm (h : IsDrawable nodes edges) (hmore : more.Perm edges) :
    IsDrawable nodes more where
  suits := fun e he => h.suits e (hmore.subset he)
  simple := (hmore.map _).nodup_iff.2 h.simple
  acyclic := h.acyclic.mono hmore.subset

theorem isDrawable_nil : IsDrawable nodes [] where
  suits := nofun
  simple := .nil
  acyclic := acyclic_nil

/-- One edge more: it suits its ends, joins them alone and does not lead back. -/
theorem isDrawable_append_single_iff :
    IsDrawable nodes (edges ++ [e]) ↔
      IsDrawable nodes edges ∧ e.Suits nodes ∧
        (e.source, e.target) ∉ edges.map (fun d => (d.source, d.target)) ∧
        ¬ TransGen (Feeds edges) e.target e.source := by
  constructor
  · intro h
    have hsimple := h.simple
    rw [List.map_append, List.map_singleton, List.nodup_append] at hsimple
    obtain ⟨hedges, -, hapart⟩ := hsimple
    have hmem : ∀ d ∈ edges, d ∈ edges ++ [e] := fun d hd => List.mem_append_left _ hd
    refine ⟨⟨fun d hd => h.suits d (hmem d hd), hedges, h.acyclic.mono hmem⟩,
      h.suits e (by simp), fun hjoined => hapart _ hjoined _ (by simp) rfl, fun hback => ?_⟩
    exact h.acyclic e.target ((leads_mono hmem hback).tail (.of_mem (by simp)))
  · rintro ⟨h, hsuits, hapart, hback⟩
    refine ⟨?_, ?_, h.acyclic.append_single fun hpath => ?_⟩
    · intro d hd
      rcases List.mem_append.1 hd with hd | hd
      · exact h.suits d hd
      · exact List.mem_singleton.1 hd ▸ hsuits
    · rw [List.map_append, List.nodup_append]
      refine ⟨h.simple, by simp, fun a ha b hb hab => hapart ?_⟩
      rw [List.map_singleton, List.mem_singleton] at hb
      exact hb ▸ hab ▸ ha
    · rcases reflTransGen_iff_eq_or_transGen.1 hpath with heq | hleads
      · exact hsuits.ne heq
      · exact hback hleads

/-- Whoever is among the edges stands beside the others. -/
theorem IsDrawable.validateEdge_eq_ok (hnodes : ∀ n ∈ nodes, n.isPipeline = true)
    (h : IsDrawable nodes edges) (he : e ∈ edges) : validateEdge e nodes edges = .ok () := by
  have hothers : (otherEdges e edges ++ [e]).Subset edges := by
    intro d hd
    rcases List.mem_append.1 hd with hd | hd
    · exact (mem_otherEdges.1 hd).1
    · exact List.mem_singleton.1 hd ▸ he
  refine (validateEdge_iff_of_pipeline hnodes).2 ⟨h.suits e he, fun hjoined => ?_, fun hback => ?_⟩
  · -- The same ends mean the same edge, which is not among the others.
    obtain ⟨d, hd, hends⟩ := List.mem_map.1 hjoined
    obtain ⟨hd, hne⟩ := mem_otherEdges.1 hd
    have heq : d = e := List.inj_on_of_nodup_map h.simple hd he hends
    exact hne (congrArg Edge.id heq)
  · have hcycle : TransGen (Feeds edges) e.target e.target :=
      (leads_mono (fun d hd => hothers (List.mem_append_left _ hd)) hback).tail (.of_mem he)
    exact h.acyclic e.target hcycle

/-! ## Proposing edges in turn -/

theorem accepted_append_single :
    accepted nodes (edges ++ [e]) =
      if validateEdge e nodes (accepted nodes edges) = .ok () then accepted nodes edges ++ [e]
      else accepted nodes edges := by
  rw [accepted, List.foldl_append]
  rfl

theorem accepted_sublist (nodes : List Node) (edges : List Edge) :
    (accepted nodes edges).Sublist edges := by
  induction edges using List.reverseRecOn with
  | nil => exact .refl _
  | append_singleton edges e ih =>
    rw [accepted_append_single]
    split
    · exact ih.append (.refl _)
    · exact ih.trans (List.sublist_append_left edges [e])

theorem accepted_append_single_eq_self_iff :
    accepted nodes (edges ++ [e]) = edges ++ [e] ↔
      accepted nodes edges = edges ∧ validateEdge e nodes edges = .ok () := by
  rw [accepted_append_single]
  constructor
  · intro h
    split at h
    · rename_i hvalid
      have hall := (List.append_left_inj [e]).1 h
      exact ⟨hall, hall ▸ hvalid⟩
    · have hlength := (accepted_sublist nodes edges).length_le
      rw [h, List.length_append, List.length_singleton] at hlength
      omega
  · rintro ⟨hall, hvalid⟩
    rw [hall, if_pos hvalid]

/-- All edges are accepted in turn exactly when they can be drawn together. -/
theorem accepted_eq_self_iff (hnodes : ∀ n ∈ nodes, n.isPipeline = true)
    (hids : (edges.map Edge.id).Nodup) :
    accepted nodes edges = edges ↔ IsDrawable nodes edges := by
  induction edges using List.reverseRecOn with
  | nil => exact ⟨fun _ => isDrawable_nil, fun _ => rfl⟩
  | append_singleton edges e ih =>
    rw [List.map_append, List.nodup_append] at hids
    obtain ⟨hedges, -, hnew⟩ := hids
    have hothers : otherEdges e edges = edges := by
      apply List.filter_eq_self.2
      intro d hd
      exact bne_iff_ne.2 (hnew d.id (List.mem_map_of_mem hd) e.id (by simp))
    rw [accepted_append_single_eq_self_iff, isDrawable_append_single_iff, ih hedges,
      validateEdge_iff_of_pipeline hnodes, hothers]

/-! ## Reports -/

/-- Whether nodes can be placed does not depend on the edges. -/
theorem exists_ofGraph_or_error (nodes : List Node) :
    (∃ fault, ∀ edges, Network.ofGraph nodes edges = .error fault) ∨
      ∀ edges, ∃ net, Network.ofGraph nodes edges = .ok net := by
  cases hplaced : Network.placeNodes nodes with
  | error fault =>
    refine .inl ⟨fault, fun edges => ?_⟩
    rw [Network.ofGraph, hplaced]
    rfl
  | ok placed =>
    refine .inr fun edges => ⟨Network.ofNodes placed edges, ?_⟩
    rw [Network.ofGraph, hplaced]
    rfl

/-- Edges that are drawn together add nothing to the faults at the nodes. -/
theorem IsDrawable.faults_pipelineReport (hnodes : ∀ n ∈ nodes, n.isPipeline = true)
    (h : IsDrawable nodes edges) :
    (pipelineReport nodes edges).faults = (pipelineReport nodes []).faults := by
  have hdrawn : ∀ {edges}, IsDrawable nodes edges → (edgesReport nodes edges).faults = [] := by
    intro edges h
    apply faults_edgesReport_eq_nil_iff.2
    intro e he
    obtain ⟨hsuits, hapart, -⟩ :=
      (validateEdge_iff_of_pipeline hnodes).1 (h.validateEdge_eq_ok hnodes he)
    exact bind_eq_ok_iff.2 ((exists_checkConnection_iff hnodes).2 ⟨hsuits, hapart⟩)
  have hgraph : ∀ {edges}, IsDrawable nodes edges → ∀ {net},
      Network.ofGraph nodes edges = .ok net → net.checkAcyclic = .ok () := by
    intro edges h net hnet
    apply Network.checkAcyclic_eq_ok_iff.2
    exact h.acyclic.mono fun e he => (Network.isOf_of_ofGraph hnet).edge_mem he
  rw [pipelineReport, pipelineReport]
  split
  · rfl
  · rcases exists_ofGraph_or_error nodes with ⟨fault, hfault⟩ | hplaced
    · rw [hfault edges, hfault []]
    · obtain ⟨net, hnet⟩ := hplaced edges
      obtain ⟨bare, hbare⟩ := hplaced []
      simp only [hnet, hbare, hgraph h hnet, hgraph isDrawable_nil hbare, Report.faults_append,
        hdrawn h, hdrawn isDrawable_nil, faults_pipelinePartsReport]

end Pipeline

/-- Pipeline edges that are accepted in one order are accepted in every order. Each is accepted
again beside all of them, and a report has the same faults with them and without them. -/
theorem accepted_in_any_order (nodes : List Node) (edges more : List Edge)
    (hnodes : ∀ n ∈ nodes, n.isPipeline = true) (hids : (edges.map Edge.id).Nodup)
    (haccepted : accepted nodes edges = edges) (hmore : more.Perm edges) :
    accepted nodes more = more ∧
      (∀ e ∈ more, validateEdge e nodes more = .ok ()) ∧
      ∀ architecture : Graph,
        (Project.report ⟨architecture, ⟨nodes, more⟩⟩).faults =
          (Project.report ⟨architecture, ⟨nodes, []⟩⟩).faults := by
  have hdrawable : IsDrawable nodes more :=
    ((accepted_eq_self_iff hnodes hids).1 haccepted).perm hmore
  have hmoreids : (more.map Edge.id).Nodup := (hmore.map Edge.id).nodup_iff.2 hids
  refine ⟨(accepted_eq_self_iff hnodes hmoreids).2 hdrawable,
    fun e he => hdrawable.validateEdge_eq_ok hnodes he, fun architecture => ?_⟩
  have hpipeline : (Project.graphReport ⟨architecture, ⟨nodes, more⟩⟩ .pipeline).faults =
      (Project.graphReport ⟨architecture, ⟨nodes, []⟩⟩ .pipeline).faults := by
    cases nodes with
    | nil =>
      -- Without nodes no edge suits its ends.
      cases more with
      | nil => rfl
      | cons e rest =>
        obtain ⟨ends, hends, -⟩ := hdrawable.suits e List.mem_cons_self
        cases hends
    | cons n rest => exact hdrawable.faults_pipelineReport hnodes
  exact congrArg ((Project.graphReport ⟨architecture, ⟨nodes, []⟩⟩ .architecture).faults ++ ·)
    hpipeline

/-- The edges of a pipeline with two optimizers, proposed backwards. -/
theorem accepted_in_any_order_backwards :
    accepted
        [{ id := "images", operatorId := "dataset", isPipeline := true },
         { id := "training", operatorId := "trainingconfig", isPipeline := true },
         { id := "adam", operatorId := "adamw", isPipeline := true },
         { id := "sgd", operatorId := "sgd", isPipeline := true }]
        [{ id := "3", source := "training", target := "sgd" },
         { id := "2", source := "training", target := "adam" },
         { id := "1", source := "images", target := "training" }] =
      [{ id := "3", source := "training", target := "sgd" },
       { id := "2", source := "training", target := "adam" },
       { id := "1", source := "images", target := "training" }] :=
  (accepted_in_any_order _
    [{ id := "1", source := "images", target := "training" },
     { id := "2", source := "training", target := "adam" },
     { id := "3", source := "training", target := "sgd" }] _
    (by decide) (by decide) (by decide +kernel) (by decide +kernel)).1

end LayerGraph
