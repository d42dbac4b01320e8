import LayerGraph.Proofs.Drawing
/-!
# Closed walks

A cycle of a drawing is a walk over its edges that ends where it starts.

* `joined nodes edges`: the edges that join two of the nodes. They are the edges of the network
  (`Network.IsOf.edges_eq_joined`).
* `IsWalk edges start walk goal`: the edges of `walk` lead from `start` to `goal`, one behind the
  other. There is a walk exactly where there is a path (`exists_isWalk_iff`).
* `IsClosedWalk edges walk`: at least one edge, and back to the start. A closed walk can be begun
  at any of its nodes, so those on closed walks are the ones that lead back to themselves
  (`leads_back_iff`), and a list of edges is acyclic when it has no closed walk
  (`acyclic_iff_not_isClosedWalk`).
-/

namespace LayerGraph
set_option autoImplicit false
open Relation

/-- The edges both of whose ends are nodes. -/
def joined (nodes : List Node) (edges : List Edge) : List Edge :=
  edges.filter fun e => e.source ∈ nodes.map Node.id ∧ e.target ∈ nodes.map Node.id

theorem Network.IsOf.edges_eq_joined {net : Network} {nodes : List Node} {edges : List Edge}
    (h : net.IsOf nodes edges) : net.edges = joined nodes edges := by
  rw [h.edges_eq, h.ids_eq, joined]

/-! ## Walks -/

/-- The edges of a walk lead from one node to another, each from where the one before it ends. -/
def IsWalk (edges : List Edge) : String → List Edge → String → Prop
  | start, [], goal => start = goal
  | start, e :: walk, goal => e ∈ edges ∧ e.source = start ∧ IsWalk edges e.target walk goal

variable {edges : List Edge} {a b c : String}

theorem isWalk_append {first second : List Edge} :
    IsWalk edges a (first ++ second) c ↔
      ∃ b, IsWalk edges a first b ∧ IsWalk edges b second c := by
  induction first generalizing a with
  | nil => exact ⟨fun h => ⟨a, rfl, h⟩, fun ⟨_, hab, h⟩ => hab ▸ h⟩
  | cons e first ih =>
    simp only [List.cons_append, IsWalk, ih]
    constructor
    · rintro ⟨he, hsource, b, hfirst, hsecond⟩
      exact ⟨b, ⟨he, hsource, hfirst⟩, hsecond⟩
    · rintro ⟨b, ⟨he, hsource, hfirst⟩, hsecond⟩
      exact ⟨he, hsource, b, hfirst, hsecond⟩

theorem IsWalk.path {walk : List Edge} (h : IsWalk edges a walk b) :
    ReflTransGen (Feeds edges) a b := by
  induction walk generalizing a with
  | nil =>
    obtain rfl : a = b := h
    exact .refl
  | cons e walk ih =>
    obtain ⟨he, rfl, hwalk⟩ := h
    exact .head (.of_mem he) (ih hwalk)

theorem exists_isWalk_iff :
    (∃ walk, IsWalk edges a walk b) ↔ ReflTransGen (Feeds edges) a b := by
  refine ⟨fun ⟨_, h⟩ => h.path, fun h => ?_⟩
  induction h using ReflTransGen.head_induction_on with
  | refl => exact ⟨[], rfl⟩
  | head hac _ ih =>
    obtain ⟨e, he, hsource, rfl⟩ := hac
    obtain ⟨walk, hwalk⟩ := ih
    exact ⟨e :: walk, he, hsource, hwalk⟩

/-! ## Closed walks -/

/-- A walk of at least one edge that ends where it starts. -/
def IsClosedWalk (edges walk : List Edge) : Prop :=
  walk ≠ [] ∧ ∃ start, IsWalk edges start walk start

/-- A node on a closed walk leads back to itself: from it to the end of the walk, which is the
start, and on from there. -/
theorem IsClosedWalk.leads_back {walk : List Edge} (h : IsClosedWalk edges walk)
    (ha : a ∈ walk.map Edge.source) : TransGen (Feeds edges) a a := by
  obtain ⟨e, he, rfl⟩ := List.mem_map.1 ha
  obtain ⟨before, after, rfl⟩ := List.append_of_mem he
  obtain ⟨-, start, hwalk⟩ := h
  obtain ⟨b, hbefore, hedge, rfl, hafter⟩ := isWalk_append.1 hwalk
  exact TransGen.head' (.of_mem hedge) (hafter.path.trans hbefore.path)

theorem exists_isClosedWalk (h : TransGen (Feeds edges) a a) :
    ∃ walk, IsClosedWalk edges walk ∧ a ∈ walk.map Edge.source := by
  obtain ⟨b, ⟨e, he, hsource, rfl⟩, hpath⟩ := TransGen.head'_iff.1 h
  obtain ⟨walk, hwalk⟩ := exists_isWalk_iff.2 hpath
  exact ⟨e :: walk, ⟨List.cons_ne_nil _ _, a, he, hsource, hwalk⟩, hsource ▸ List.mem_cons_self⟩

/-- The nodes on closed walks are those that lead back to themselves. -/
theorem leads_back_iff :
    TransGen (Feeds edges) a a ↔ ∃ walk, IsClosedWalk edges walk ∧ a ∈ walk.map Edge.source :=
  ⟨exists_isClosedWalk, fun ⟨_, h, ha⟩ => h.leads_back ha⟩

theorem acyclic_iff_not_isClosedWalk :
    Acyclic edges ↔ ¬ ∃ walk, IsClosedWalk edges walk := by
  constructor
  · rintro h ⟨walk, hclosed⟩
    obtain ⟨e, rest, rfl⟩ := List.exists_cons_of_ne_nil hclosed.1
    exact h e.source (hclosed.leads_back List.mem_cons_self)
  · intro h id hid
    obtain ⟨walk, hclosed, -⟩ := exists_isClosedWalk hid
    exact h ⟨walk, hclosed⟩

end LayerGraph
