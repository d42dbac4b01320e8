import LayerGraph.Proofs.ClosedWalks
/-!
# The two passes of the cycle test

The cycle test can be described by two searches, each with a stack of its own and with marks on the
nodes that it has met.

* `Search.FirstPass` goes depth first along the edges from one node after the other and lists the
  nodes in the order of finishing them, or ends at a node that is linked to itself.
  `Search.firstPass_finishing`: `Search.finishing`, which begins with all nodes on one stack, gives
  its answer.
* `Search.secondPass?` goes through that list, last finished first, and from each of its names
  against the edges, until one search comes to a second name. `Search.secondPass?_eq_backLink?`: that
  name is the first one that `Search.backLink?` finds linked to a name before it.
* `Network.CycleSearch net answer`: both passes end with this answer; it is what
  `Network.cycleNode?` gives (`Network.cycleSearch_iff`).
* `cycle_fault_on_cycle`: the test fails exactly when there is a closed walk, and names a node of
  one.
-/

namespace LayerGraph
set_option autoImplicit false

namespace Search

/-! ## The first pass -/

/-- The first pass, with the unmet names, the finished names (the last one first), the stack, and
the names from which searches are still to begin. A name at the top that is met pushes its unmet
links, one after the other. -/
inductive FirstPass (next : String → List String) :
    List String → List String → List String → List String → Except String (List String) → Prop
  | done (unmet finished : List String) : FirstPass next unmet finished [] [] (.ok finished)
  | begin {unmet finished starts : List String} {name : String}
      {answer : Except String (List String)} :
      name ∈ unmet → FirstPass next unmet finished [name] starts answer →
        FirstPass next unmet finished [] (name :: starts) answer
  | pass {unmet finished starts : List String} {name : String}
      {answer : Except String (List String)} :
      name ∉ unmet → FirstPass next unmet finished [] starts answer →
        FirstPass next unmet finished [] (name :: starts) answer
  | loop {unmet finished stack starts : List String} {name : String} :
      name ∈ unmet → name ∈ next name →
        FirstPass next unmet finished (name :: stack) starts (.error name)
  | meet {unmet finished stack starts : List String} {name : String}
      {answer : Except String (List String)} :
      name ∈ unmet → name ∉ next name →
        FirstPass next (without unmet name) finished
          (((next name).filter (· ∈ without unmet name)).reverse ++ name :: stack) starts answer →
        FirstPass next unmet finished (name :: stack) starts answer
  | finish {unmet finished stack starts : List String} {name : String}
      {answer : Except String (List String)} :
      name ∉ unmet → name ∉ finished →
        FirstPass next unmet (name :: finished) stack starts answer →
        FirstPass next unmet finished (name :: stack) starts answer
  | pop {unmet finished stack starts : List String} {name : String}
      {answer : Except String (List String)} :
      name ∉ unmet → name ∈ finished → FirstPass next unmet finished stack starts answer →
        FirstPass next unmet finished (name :: stack) starts answer

variable {next previous : String → List String} {unmet finished stack starts : List String}

/-- The pass ends in one way only. -/
theorem FirstPass.unique {first second : Except String (List String)}
    (hfirst : FirstPass next unmet finished stack starts first)
    (hsecond : FirstPass next unmet finished stack starts second) : first = second := by
  induction hfirst with
  | done =>
    cases hsecond
    rfl
  | begin hunmet _ ih =>
    cases hsecond with
    | begin _ h => exact ih h
    | pass hmet => exact absurd hunmet hmet
  | pass hmet _ ih =>
    cases hsecond with
    | begin hunmet => exact absurd hunmet hmet
    | pass _ h => exact ih h
  | loop hunmet hloop =>
    cases hsecond with
    | loop => rfl
    | meet _ hnot => exact absurd hloop hnot
    | finish hmet => exact absurd hunmet hmet
    | pop hmet => exact absurd hunmet hmet
  | meet hunmet hnot _ ih =>
    cases hsecond with
    | loop _ hloop => exact absurd hloop hnot
    | meet _ _ h => exact ih h
    | finish hmet => exact absurd hunmet hmet
    | pop hmet => exact absurd hunmet hmet
  | finish hmet hopen _ ih =>
    cases hsecond with
    | loop hunmet => exact absurd hunmet hmet
    | meet hunmet => exact absurd hunmet hmet
    | finish _ _ h => exact ih h
    | pop _ hfinished => exact absurd hfinished hopen
  | pop hmet hfinished _ ih =>
    cases hsecond with
    | loop hunmet => exact absurd hunmet hmet
    | meet hunmet => exact absurd hunmet hmet
    | finish _ hopen => exact absurd hfinished hopen
    | pop _ _ h => exact ih h

/-- With the names to begin from below the stack, one depth-first search does what the pass does: a
name that comes up once the stack is empty has been finished, or it has not been met. -/
theorem firstPass_finishing
    (hmet : ∀ name ∈ starts, name ∉ unmet → name ∈ finished ∨ name ∈ stack) :
    FirstPass next unmet finished stack starts (finishing next unmet finished (stack ++ starts)) := by
  generalize hall : stack ++ starts = all
  revert stack starts
  fun_induction finishing next unmet finished all with
  | case1 unmet finished =>
    intro stack starts _ hall
    obtain ⟨rfl, rfl⟩ := List.append_eq_nil_iff.1 hall
    exact .done unmet finished
  | case2 unmet finished name rest hunmet hloop =>
    intro stack starts _ hall
    cases stack with
    | nil =>
      obtain rfl : starts = name :: rest := hall
      exact .begin hunmet (.loop hunmet hloop)
    | cons top stack =>
      obtain ⟨rfl, -⟩ := List.cons.inj hall
      exact .loop hunmet hloop
  | case3 unmet finished name rest hunmet hloop left =>
    rename_i ih
    -- Whatever was met or on the stack before is on the stack still.
    have hstep : ∀ stack starts : List String,
        (∀ other ∈ starts, other ∉ unmet → other ∈ finished ∨ other ∈ name :: stack) →
        stack ++ starts = rest →
        FirstPass next unmet finished (name :: stack) starts
          (finishing next left finished
            (((next name).filter (· ∈ left)).reverse ++ name :: rest)) := by
      rintro stack starts hmet rfl
      refine .meet hunmet hloop (ih (fun other hother hleft => ?_) (List.append_assoc _ _ _))
      by_cases heq : other = name
      · exact .inr (List.mem_append_right _ (heq ▸ List.mem_cons_self))
      · have hother' : other ∉ unmet := fun h => hleft (mem_without.2 ⟨h, heq⟩)
        exact (hmet other hother hother').imp_right (List.mem_append_right _)
    intro stack starts hmet hall
    cases stack with
    | nil =>
      obtain rfl : starts = name :: rest := hall
      refine .begin hunmet (hstep [] rest (fun other hother hother' => ?_) rfl)
      have hfinished := hmet other (List.mem_cons_of_mem _ hother) hother'
      exact .inl (hfinished.resolve_right List.not_mem_nil)
    | cons top stack =>
      obtain ⟨rfl, hrest⟩ := List.cons.inj hall
      exact hstep stack starts hmet hrest
  | case4 unmet finished name rest hunmet hfinished ih =>
    intro stack starts hmet hall
    cases stack with
    | nil =>
      obtain rfl : starts = name :: rest := hall
      exact .pass hunmet (ih (fun other hother => hmet other (List.mem_cons_of_mem _ hother)) rfl)
    | cons top stack =>
      obtain ⟨rfl, hrest⟩ := List.cons.inj hall
      refine .pop hunmet hfinished (ih (fun other hother hother' => ?_) hrest)
      rcases hmet other hother hother' with h | h
      · exact .inl h
      · exact (List.mem_cons.1 h).imp_left fun (heq : other = top) => heq ▸ hfinished
  | case5 unmet finished name rest hunmet hopen ih =>
    intro stack starts hmet hall
    cases stack with
    | nil =>
      obtain rfl : starts = name :: rest := hall
      exact absurd (hmet name List.mem_cons_self hunmet) (by simp [hopen])
    | cons top stack =>
      obtain ⟨rfl, hrest⟩ := List.cons.inj hall
      refine .finish hunmet hopen (ih (fun other hother hother' => ?_) hrest)
      rcases hmet other hother hother' with h | h
      · exact .inl (List.mem_cons_of_mem _ h)
      · exact (List.mem_cons.1 h).imp_left fun (heq : other = top) => heq ▸ List.mem_cons_self

/-! ## The second pass -/

/-- The next name that a search comes to, with the names that are unmet then and the stack. Met
names on the stack are passed over; the name pushes its unmet links. -/
def nextMet? (next : String → List String) (unmet : List String) :
    List String → Option (String × List String × List String)
  | [] => none
  | name :: stack =>
    if name ∈ unmet then
      let left := without unmet name
      some (name, left, ((next name).filter (· ∈ left)).reverse ++ stack)
    else nextMet? next unmet stack

/-- The second pass begins a search from each name of a list. It ends with the first name that is
the second one of a search. -/
def secondPass? (next : String → List String) (unmet : List String) :
    List String → Option String
  | [] => none
  | start :: starts =>
    match nextMet? next unmet [start] with
    | none => secondPass? next unmet starts
    | some (_, left, stack) =>
      match nextMet? next left stack with
      | some (second, _) => some second
      | none => secondPass? next left starts

/-- A search against the links comes to a second name at once: the first unmet one that is linked
to the name where it began, if there is one. -/
theorem secondPass?_eq_backLink? (unmet starts : List String) :
    secondPass? (fun name => (previous name).reverse) unmet starts =
      backLink? previous unmet starts := by
  induction starts generalizing unmet with
  | nil => rfl
  | cons start starts ih =>
    by_cases hstart : start ∈ unmet
    · simp only [secondPass?, nextMet?, backLink?, if_pos hstart, List.append_nil,
        List.filter_reverse, List.reverse_reverse]
      rw [← List.head?_filter]
      cases hpushed : (previous start).filter (· ∈ without unmet start) with
      | nil => exact ih _
      | cons second rest =>
        have hleft : second ∈ (previous start).filter (· ∈ without unmet start) :=
          hpushed ▸ List.mem_cons_self
        simp only [nextMet?, if_pos (of_decide_eq_true (List.mem_filter.1 hleft).2),
          List.head?_cons]
    · simp only [secondPass?, nextMet?, backLink?, if_neg hstart]
      exact ih _

end Search

/-! ## Both passes -/

namespace Network

variable {net : Network}

/-- The sources of the edges into a node, the edge drawn last first. -/
def latestSources (net : Network) (id : String) : List String := (net.sources id).reverse

/-- Both passes over a network end with this answer: a node, or that there is no cycle. Nodes are
taken in their order, and of the edges at a node the one drawn last comes first. -/
inductive CycleSearch (net : Network) : Option String → Prop
  | loop {id : String} :
      Search.FirstPass net.latestTargets net.ids [] [] net.ids (.error id) →
        CycleSearch net (some id)
  | second {order : List String} :
      Search.FirstPass net.latestTargets net.ids [] [] net.ids (.ok order) →
        CycleSearch net (Search.secondPass? net.latestSources net.ids order)

theorem firstPass_iff {answer : Except String (List String)} :
    Search.FirstPass net.latestTargets net.ids [] [] net.ids answer ↔
      Search.finishing net.latestTargets net.ids [] net.ids = answer := by
  have hpass : Search.FirstPass net.latestTargets net.ids [] [] net.ids
      (Search.finishing net.latestTargets net.ids [] net.ids) :=
    Search.firstPass_finishing fun _ hname hmet => absurd hname hmet
  exact ⟨fun h => hpass.unique h, fun h => h ▸ hpass⟩

/-- The two passes give the node that the cycle test names. -/
theorem cycleSearch_iff {answer : Option String} :
    net.CycleSearch answer ↔ net.cycleNode? = answer := by
  have hsecond : ∀ order, Search.secondPass? net.latestSources net.ids order =
      Search.backLink? net.sources net.ids order :=
    Search.secondPass?_eq_backLink? net.ids
  rw [cycleNode?]
  constructor
  · intro h
    cases h with
    | loop h => rw [firstPass_iff.1 h]
    | second h =>
      rw [firstPass_iff.1 h]
      exact (hsecond _).symm
  · rintro rfl
    split
    · rename_i hfinishing
      exact .loop (firstPass_iff.2 hfinishing)
    · rename_i order hfinishing
      rw [← hsecond]
      exact .second (firstPass_iff.2 hfinishing)

theorem checkAcyclic_eq_error_iff {fault : Fault} :
    net.checkAcyclic = .error fault ↔ ∃ id, net.cycleNode? = some id ∧ fault = .cycle id := by
  rw [checkAcyclic]
  cases net.cycleNode? with
  | none => simp
  | some id => simp [eq_comm]

theorem cycleNode?_eq_none_iff : net.cycleNode? = none ↔ net.checkAcyclic = .ok () := by
  rw [checkAcyclic]
  cases net.cycleNode? <;> simp

end Network

/-- The cycle test fails exactly when some walk over edges between the nodes comes back to its
start. The fault is a cycle and names a node on such a walk, the one at which the two passes end;
the test succeeds when they go through to the end. -/
theorem cycle_fault_on_cycle (nodes : List Node) (edges : List Edge) (net : Network)
    (hnet : Network.ofGraph nodes edges = .ok net) :
    ((∃ fault, net.checkAcyclic = .error fault) ↔
        ∃ walk, IsClosedWalk (joined nodes edges) walk) ∧
      (∀ fault, net.checkAcyclic = .error fault → ∃ id walk, fault = .cycle id ∧
        IsClosedWalk (joined nodes edges) walk ∧ id ∈ walk.map Edge.source) ∧
      (∀ id, net.checkAcyclic = .error (.cycle id) ↔ net.CycleSearch (some id)) ∧
      (net.checkAcyclic = .ok () ↔ net.CycleSearch none) := by
  have hedges := (Network.isOf_of_ofGraph hnet).edges_eq_joined
  refine ⟨?_, fun fault hfault => ?_, fun id => ?_, ?_⟩
  · have hfails : (∃ fault, net.checkAcyclic = .error fault) ↔ ¬ net.checkAcyclic = .ok () := by
      cases net.checkAcyclic <;> simp
    rw [hfails, Network.checkAcyclic_eq_ok_iff, hedges, acyclic_iff_not_isClosedWalk, not_not]
  · obtain ⟨id, hid, rfl⟩ := Network.checkAcyclic_eq_error_iff.1 hfault
    have hback := Network.leads_back_of_cycleNode? hid
    rw [hedges] at hback
    obtain ⟨walk, hwalk, hmem⟩ := exists_isClosedWalk hback
    exact ⟨id, walk, rfl, hwalk, hmem⟩
  · rw [Network.checkAcyclic_eq_error_iff, Network.cycleSearch_iff]
    simp
  · rw [Network.cycleSearch_iff, Network.cycleNode?_eq_none_iff]

/-- A cycle of three nodes behind the first node, with two edges between the same ends, an edge that
leads out of it, and an edge to a node that is not drawn. -/
def Graph.looped : Graph where
  nodes :=
    [{ id := "data", operatorId := "dataset" },
     { id := "left", operatorId := "relu" },
     { id := "right", operatorId := "relu" },
     { id := "back", operatorId := "relu" },
     { id := "end", operatorId := "relu" }]
  edges :=
    [{ id := "1", source := "data", target := "left" },
     { id := "2", source := "left", target := "right" },
     { id := "3", source := "left", target := "right", kind := .residual },
     { id := "4", source := "right", target := "back" },
     { id := "5", source := "right", target := "end" },
     { id := "6", source := "back", target := "left" },
     { id := "7", source := "end", target := "nowhere" }]

theorem cycle_fault_on_cycle_looped :
    ∃ net : Network, Network.ofGraph Graph.looped.nodes Graph.looped.edges = .ok net ∧
      net.checkAcyclic = .error (.cycle "back") ∧ net.CycleSearch (some "back") ∧
      ∃ walk, IsClosedWalk (joined Graph.looped.nodes Graph.looped.edges) walk ∧
        "back" ∈ walk.map Edge.source := by
  have hvalue : (Network.ofGraph Graph.looped.nodes Graph.looped.edges).toOption.any (fun net =>
      decide (net.checkAcyclic = .error (.cycle "back"))) = true := by
    decide +kernel
  obtain ⟨net, hnet, hcheck⟩ := exists_of_toOption_any hvalue
  have hfault := of_decide_eq_true hcheck
  obtain ⟨-, hnamed, hpasses, -⟩ := cycle_fault_on_cycle _ _ net hnet
  obtain ⟨id, walk, hid, hwalk, hmem⟩ := hnamed _ hfault
  obtain rfl := Fault.cycle.inj hid
  exact ⟨net, hnet, hfault, (hpasses "back").1 hfault, walk, hwalk, hmem⟩

end LayerGraph
