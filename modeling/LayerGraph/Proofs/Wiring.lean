import LayerGraph.Proofs.Valuation
/-!
# Edges that clash

* `Denotes nodes id p`: the id stands for the placed node `p`, the first drawn node that has it.
* `Clash nodes d e`: two edges into one node of which only one can be drawn, because they join the
  same ends or both bring the default input of a node that has only one.
* `Graph.IsWired`: no ordered pair of nodes is joined by two edges, and a node of the architecture
  that is not a merge has at most one default input. This is so exactly when no two of the edges
  clash (`Graph.isWired_iff`).
* `not_clash_of_checkConnection`: an edge that passes the rules without shapes clashes with none of
  the edges beside which it was tested.
-/

namespace LayerGraph
set_option autoImplicit false

/-! ## Nodes by their ids -/

/-- The id stands for the node: the node is the first with the id, and has an operator. -/
def Denotes (nodes : List Node) (id : String) (p : Placed) : Prop :=
  nodes.find? (·.id == id) = some p.node ∧ p.node.operator = .ok p.operator

variable {nodes : List Node} {edges others : List Edge} {d e : Edge} {ends : Ends}

theorem Denotes.unique {id : String} {p q : Placed} (hp : Denotes nodes id p)
    (hq : Denotes nodes id q) : p = q := by
  obtain ⟨hpnode, hpoperator⟩ := hp
  obtain ⟨hqnode, hqoperator⟩ := hq
  have hnode : p.node = q.node := Option.some.inj (hpnode.symm.trans hqnode)
  rw [hnode, hqoperator] at hpoperator
  have hoperator : q.operator = p.operator := Except.ok.inj hpoperator
  cases p
  cases q
  simp_all

theorem denotes_of_resolveEnds (h : resolveEnds e nodes = .ok ends) :
    Denotes nodes e.source ends.source ∧ Denotes nodes e.target ends.target := by
  obtain ⟨hsource, htarget, -⟩ := resolveEnds_eq_ok_iff.1 h
  exact ⟨hsource, htarget⟩

theorem Network.IsOf.denotes_iff {net : Network} (h : net.IsOf nodes edges) {id : String}
    {p : Placed} : Denotes nodes id p ↔ net.find? id = some p := h.find?_iff

/-! ## Clashes -/

/-- A node of the architecture that has one default input. -/
def Placed.HasDefaultInput (p : Placed) : Prop :=
  p.node.isPipeline = false ∧ p.operator.isMerge = false

/-- Two edges into one node that cannot both be drawn. -/
def Clash (nodes : List Node) (d e : Edge) : Prop :=
  d.target = e.target ∧
    (d.source = e.source ∨
      d.kind = .normal ∧ e.kind = .normal ∧ ∃ p, Denotes nodes e.target p ∧ p.HasDefaultInput)

theorem Clash.symm (h : Clash nodes d e) : Clash nodes e d := by
  obtain ⟨htarget, hsource | ⟨hd, he, p, hp, hdefault⟩⟩ := h
  · exact ⟨htarget.symm, .inl hsource.symm⟩
  · exact ⟨htarget.symm, .inr ⟨he, hd, p, htarget ▸ hp, hdefault⟩⟩

/-- No two edges join the same ends, and no node has two default inputs. -/
structure Graph.IsWired (g : Graph) : Prop where
  simple : (g.edges.map fun e => (e.source, e.target)).Nodup
  single : ∀ id p, Denotes g.nodes id p → p.HasDefaultInput → (g.normalEdges id).length ≤ 1

/-- A node with a default input has one normal edge at most. -/
theorem Graph.IsWired.eq_of_normal {g : Graph} (h : g.IsWired) {id : String} {p : Placed}
    (hp : Denotes g.nodes id p) (hdefault : p.HasDefaultInput) (hd : d ∈ g.edges)
    (he : e ∈ g.edges) (hdtarget : d.target = id) (hetarget : e.target = id)
    (hdkind : d.kind = .normal) (hekind : e.kind = .normal) : d = e := by
  have hdmem : d ∈ g.normalEdges id := List.mem_filter.2 ⟨hd, decide_eq_true ⟨hdtarget, hdkind⟩⟩
  have hemem : e ∈ g.normalEdges id := List.mem_filter.2 ⟨he, decide_eq_true ⟨hetarget, hekind⟩⟩
  have hone := h.single id p hp hdefault
  match hnormal : g.normalEdges id, hdmem, hemem, hone with
  | [_], hdmem, hemem, _ => rw [List.mem_singleton.1 hdmem, List.mem_singleton.1 hemem]

theorem Graph.isWired_iff {g : Graph} :
    g.IsWired ↔ g.edges.Pairwise fun d e => ¬ Clash g.nodes d e := by
  constructor
  · intro h
    rw [List.pairwise_iff_forall_sublist]
    rintro d e hsub ⟨htarget, hsource | ⟨hd, he, p, hp, hdefault⟩⟩
    · have hne := List.pairwise_iff_forall_sublist.1 (List.pairwise_map.1 h.simple) hsub
      exact hne (Prod.ext hsource htarget)
    · -- Both edges are among the default inputs of the node.
      have hboth : [d, e].Sublist (g.normalEdges e.target) := by
        have hfilter := hsub.filter fun a => decide (a.target = e.target ∧ a.kind = .normal)
        simpa [Graph.normalEdges, htarget, hd, he] using hfilter
      have hone := h.single e.target p hp hdefault
      have htwo := hboth.length_le
      simp only [List.length_cons, List.length_nil] at htwo
      omega
  · intro h
    refine ⟨?_, fun id p hp hdefault => ?_⟩
    · apply List.pairwise_map.2
      refine h.imp fun {d e} hclash hends => hclash ?_
      obtain ⟨hsource, htarget⟩ := Prod.mk.inj hends
      exact ⟨htarget, .inl hsource⟩
    · match hnormal : g.normalEdges id with
      | [] => exact Nat.zero_le 1
      | [_] => exact Nat.le_refl 1
      | d :: e :: rest =>
        have hfilter : (g.normalEdges id).Sublist g.edges := List.filter_sublist
        rw [hnormal] at hfilter
        have hsub : [d, e].Sublist g.edges := (List.sublist_append_left [d, e] rest).trans hfilter
        have hmem : ∀ a ∈ [d, e], a.target = id ∧ a.kind = .normal := by
          intro a ha
          have hin : a ∈ g.normalEdges id :=
            hnormal ▸ (List.sublist_append_left [d, e] rest).subset ha
          exact of_decide_eq_true (List.mem_filter.1 hin).2
        obtain ⟨hdtarget, hdkind⟩ := hmem d (by simp)
        obtain ⟨hetarget, hekind⟩ := hmem e (by simp)
        have hclash := List.pairwise_iff_forall_sublist.1 h hsub
        exact absurd
          ⟨hdtarget.trans hetarget.symm, .inr ⟨hdkind, hekind, p, hetarget ▸ hp, hdefault⟩⟩ hclash

/-- An edge that passes the rules without shapes clashes with none of the others. -/
theorem not_clash_of_checkConnection (hends : resolveEnds e nodes = .ok ends)
    (h : checkConnection e ends others = .ok ()) (hd : d ∈ others) : ¬ Clash nodes d e := by
  obtain ⟨hsimple, hrules⟩ := checkConnection_eq_ok_iff.1 h
  rintro ⟨htarget, hsource | ⟨hdkind, hkind, p, hp, hgraph, hmerge⟩⟩
  · exact hsimple d hd hsource htarget
  · obtain ⟨-, hfound⟩ := denotes_of_resolveEnds hends
    obtain rfl := hfound.unique hp
    obtain ⟨-, -, hsame, -⟩ := resolveEnds_eq_ok_iff.1 hends
    rw [hsame, hgraph, if_neg Bool.false_ne_true] at hrules
    obtain ⟨-, hsingle, -⟩ := checkArchitecture_eq_ok_iff.1 hrules
    exact hsingle hkind hmerge d hd htarget hdkind

end LayerGraph
