import LayerGraph.Document.Basic
import Mathlib.Data.Finset.Card
import Mathlib.Data.Finset.Filter
import Mathlib.Logic.Relation
/-!
# Paths over edges

* `Feeds edges a b`: an edge of the list leads from `a` to `b`. Paths are its closures `TransGen`
  and `ReflTransGen`.
* `Acyclic edges`: no path returns to its start. A list stays acyclic when an edge joins it whose
  target does not lead to its source (`Acyclic.append_single`), so a list is acyclic when every
  edge of it passes that test against the others (`acyclic_of_forall_not_leads`).
* Ranks that rise along edges rule cycles out, and so does an order along them
  (`acyclic_of_mem_before`). Without cycles there are such ranks (`Acyclic.exists_rank`), so a
  property holds everywhere that passes from all sources of a node to the node
  (`Acyclic.wellFounded`).
-/

namespace LayerGraph
set_option autoImplicit false
open Relation

/-- An edge of the list leads from the source to the target. -/
def Feeds (edges : List Edge) (source target : String) : Prop :=
  ∃ e ∈ edges, e.source = source ∧ e.target = target

/-- No path of edges returns to its start. -/
def Acyclic (edges : List Edge) : Prop := ∀ id, ¬ TransGen (Feeds edges) id id

theorem Feeds.of_mem {edges : List Edge} {e : Edge} (he : e ∈ edges) :
    Feeds edges e.source e.target := ⟨e, he, rfl, rfl⟩

theorem Feeds.mono {edges more : List Edge} (h : ∀ e ∈ edges, e ∈ more) {a b : String}
    (hab : Feeds edges a b) : Feeds more a b := by
  obtain ⟨e, he, hsource, htarget⟩ := hab
  exact ⟨e, h e he, hsource, htarget⟩

theorem leads_mono {edges more : List Edge} (h : ∀ e ∈ edges, e ∈ more) {a b : String}
    (hab : TransGen (Feeds edges) a b) : TransGen (Feeds more) a b :=
  TransGen.mono (fun _ _ (hfeeds : Feeds edges _ _) => hfeeds.mono h) a b hab

theorem path_mono {edges more : List Edge} (h : ∀ e ∈ edges, e ∈ more) {a b : String}
    (hab : ReflTransGen (Feeds edges) a b) : ReflTransGen (Feeds more) a b :=
  ReflTransGen.mono (fun _ _ (hfeeds : Feeds edges _ _) => hfeeds.mono h) a b hab

theorem Acyclic.mono {edges more : List Edge} (h : ∀ e ∈ edges, e ∈ more) (hmore : Acyclic more) :
    Acyclic edges :=
  fun id hid => hmore id (leads_mono h hid)

theorem acyclic_nil : Acyclic [] := by
  intro id hid
  obtain ⟨b, ⟨e, he, -⟩, -⟩ := TransGen.head'_iff.1 hid
  cases he

/-- A path over the edges and one more either avoids the new edge, or reaches its source first and
goes on from its target without it. -/
theorem leads_append_single {edges : List Edge} {new : Edge} {a b : String}
    (h : TransGen (Feeds (edges ++ [new])) a b) :
    TransGen (Feeds edges) a b ∨
      ReflTransGen (Feeds edges) a new.source ∧ ReflTransGen (Feeds edges) new.target b := by
  induction h with
  | single hab =>
    obtain ⟨e, he, rfl, rfl⟩ := hab
    rcases List.mem_append.1 he with he | he
    · exact .inl (.single (.of_mem he))
    · obtain rfl := List.mem_singleton.1 he
      exact .inr ⟨.refl, .refl⟩
  | tail _ hbc ih =>
    obtain ⟨e, he, rfl, rfl⟩ := hbc
    rcases List.mem_append.1 he with he | he
    · rcases ih with ih | ⟨hsource, htarget⟩
      · exact .inl (ih.tail (.of_mem he))
      · exact .inr ⟨hsource, htarget.tail (.of_mem he)⟩
    · obtain rfl := List.mem_singleton.1 he
      rcases ih with ih | ⟨hsource, -⟩
      · exact .inr ⟨ih.to_reflTransGen, .refl⟩
      · exact .inr ⟨hsource, .refl⟩

/-- An edge closes no cycle when its target does not lead to its source. -/
theorem Acyclic.append_single {edges : List Edge} {new : Edge} (hedges : Acyclic edges)
    (hnew : ¬ ReflTransGen (Feeds edges) new.target new.source) : Acyclic (edges ++ [new]) := by
  intro id hid
  rcases leads_append_single hid with h | ⟨hsource, htarget⟩
  · exact hedges id h
  · exact hnew (htarget.trans hsource)

/-- One more edge closes a cycle exactly when its target leads to its source, or is it. -/
theorem acyclic_append_single_iff {edges : List Edge} {new : Edge} :
    Acyclic (edges ++ [new]) ↔
      Acyclic edges ∧ ¬ ReflTransGen (Feeds edges) new.target new.source := by
  refine ⟨fun h => ⟨h.mono fun e he => List.mem_append_left _ he, fun hback => ?_⟩,
    fun h => h.1.append_single h.2⟩
  have hnew : Feeds (edges ++ [new]) new.source new.target :=
    .of_mem (List.mem_append_right _ (List.mem_singleton_self new))
  exact h new.source
    (TransGen.head' hnew (path_mono (fun e he => List.mem_append_left _ he) hback))

/-- If no edge is led back to by the others, there is no cycle: the edges can be drawn one after
the other. -/
theorem acyclic_of_forall_not_leads {edges : List Edge} (hids : (edges.map Edge.id).Nodup)
    (h : ∀ e ∈ edges,
      ¬ ReflTransGen (Feeds (edges.filter (·.id != e.id))) e.target e.source) :
    Acyclic edges := by
  -- Induction on the edges drawn so far; the others contain them.
  have hdrawn : ∀ rest drawn : List Edge, drawn ++ rest = edges → Acyclic drawn →
      Acyclic edges := by
    intro rest
    induction rest with
    | nil =>
      intro drawn hall hdrawn
      rwa [← hall, List.append_nil]
    | cons e rest ih =>
      intro drawn hall hdrawn
      refine ih (drawn ++ [e]) (by simpa using hall) (hdrawn.append_single fun hback => ?_)
      have he : e ∈ edges := hall ▸ List.mem_append_right drawn List.mem_cons_self
      refine h e he (path_mono (fun d hd => ?_) hback)
      rw [← hall, List.map_append, List.nodup_append] at hids
      have hne : d.id ≠ e.id :=
        hids.2.2 d.id (List.mem_map_of_mem hd) e.id (by simp)
      exact List.mem_filter.2 ⟨hall ▸ List.mem_append_left _ hd, by simpa using hne⟩
  exact hdrawn edges [] rfl acyclic_nil

/-! ## Ranks -/

theorem rank_lt_of_leads {edges : List Edge} {rank : String → Nat}
    (hrank : ∀ a b, Feeds edges a b → rank a < rank b) {a b : String}
    (h : TransGen (Feeds edges) a b) : rank a < rank b := by
  induction h with
  | single hab => exact hrank _ _ hab
  | tail _ hbc ih => exact ih.trans (hrank _ _ hbc)

theorem acyclic_of_rank {edges : List Edge} (rank : String → Nat)
    (hrank : ∀ a b, Feeds edges a b → rank a < rank b) : Acyclic edges :=
  fun _ hid => Nat.lt_irrefl _ (rank_lt_of_leads hrank hid)

/-- A list that holds all targets, each behind its sources, ranks the edges. -/
theorem acyclic_of_mem_before {edges : List Edge} {order : List String}
    (hmem : ∀ a b, Feeds edges a b → b ∈ order)
    (hbefore : ∀ before id after, order = before ++ id :: after → id ∉ before →
      ∀ s, Feeds edges s id → s ∈ before) : Acyclic edges := by
  refine acyclic_of_rank order.idxOf fun a b hab => ?_
  obtain ⟨before, after, horder, hfirst⟩ := List.eq_append_cons_of_mem (hmem a b hab)
  have ha : a ∈ before := hbefore before b after horder hfirst a hab
  rw [horder, List.idxOf_append_of_mem ha, List.idxOf_append_of_notMem hfirst]
  exact Nat.lt_add_right _ (List.idxOf_lt_length_of_mem ha)

open Classical in
/-- The rank of a node is the number of nodes that lead to it. -/
theorem Acyclic.exists_rank {edges : List Edge} (h : Acyclic edges) :
    ∃ rank : String → Nat, ∀ a b, Feeds edges a b → rank a < rank b := by
  refine ⟨fun id => ((edges.map Edge.source).toFinset.filter
    (TransGen (Feeds edges) · id)).card, fun a b hab => Finset.card_lt_card ?_⟩
  refine Finset.ssubset_iff_of_subset (fun c hc => ?_) |>.2 ⟨a, ?_, fun ha => ?_⟩
  · have hmem := Finset.mem_filter.1 hc
    exact Finset.mem_filter.2 ⟨hmem.1, hmem.2.tail hab⟩
  · obtain ⟨e, he, rfl, -⟩ := id hab
    exact Finset.mem_filter.2
      ⟨List.mem_toFinset.2 (List.mem_map_of_mem he), .single hab⟩
  · exact h a (Finset.mem_filter.1 ha).2

theorem Acyclic.wellFounded {edges : List Edge} (h : Acyclic edges) :
    WellFounded (Feeds edges) := by
  obtain ⟨rank, hrank⟩ := h.exists_rank
  exact Subrelation.wf (fun hab => hrank _ _ hab) (measure rank).wf

end LayerGraph
