import LayerGraph.Network.Search
import Mathlib.Logic.Relation
/-!
# What the searches find

* `visit` lists the names that can be reached (`mem_visit_iff`), and `reaches` decides paths over
  pairs (`reaches_iff`).
* `finishing` finds a name that is linked to itself or lists all names in an order that
  `Finished` describes: a name that is linked to a later finished one lies on a cycle with it.
* `backLink?` looks for a link against an order.
-/

namespace LayerGraph.Search
set_option autoImplicit false
open Relation

/-- The first name is linked to the second. -/
def Linked (next : String → List String) (a b : String) : Prop := b ∈ next a

variable {next : String → List String}

/-! ## Reaching -/

theorem reachable_of_mem_visit {unmet frontier : List String} {name : String}
    (h : name ∈ visit next unmet frontier) :
    ∃ start ∈ frontier, ReflTransGen (Linked next) start name := by
  fun_induction visit next unmet frontier with
  | case1 => cases h
  | case2 unmet first frontier _ ih =>
    rcases List.mem_cons.1 h with rfl | h
    · exact ⟨name, List.mem_cons_self, .refl⟩
    · obtain ⟨start, hstart, hpath⟩ := ih h
      rcases List.mem_append.1 hstart with hlink | hstart
      · exact ⟨first, List.mem_cons_self, .head hlink hpath⟩
      · exact ⟨start, List.mem_cons_of_mem _ hstart, hpath⟩
  | case3 unmet first frontier _ ih =>
    obtain ⟨start, hstart, hpath⟩ := ih h
    exact ⟨start, List.mem_cons_of_mem _ hstart, hpath⟩

theorem mem_visit_of_mem_frontier {unmet frontier : List String} {name : String}
    (hname : name ∈ frontier) (hunmet : name ∈ unmet) : name ∈ visit next unmet frontier := by
  fun_induction visit next unmet frontier with
  | case1 => cases hname
  | case2 unmet first frontier _ ih =>
    by_cases heq : name = first
    · exact heq ▸ List.mem_cons_self
    · have hrest := (List.mem_cons.1 hname).resolve_left heq
      exact List.mem_cons_of_mem _
        (ih (List.mem_append_right _ hrest) (mem_without.2 ⟨hunmet, heq⟩))
  | case3 unmet first frontier hfirst ih =>
    have hne : name ≠ first := fun heq => hfirst (heq ▸ hunmet)
    exact ih ((List.mem_cons.1 hname).resolve_left hne) hunmet

theorem mem_visit_of_linked {unmet frontier : List String} {a b : String}
    (ha : a ∈ visit next unmet frontier) (hab : Linked next a b) (hb : b ∈ unmet) :
    b ∈ visit next unmet frontier := by
  fun_induction visit next unmet frontier with
  | case1 => cases ha
  | case2 unmet first frontier _ ih =>
    by_cases hbfirst : b = first
    · exact hbfirst ▸ List.mem_cons_self
    · have hleft : b ∈ without unmet first := mem_without.2 ⟨hb, hbfirst⟩
      refine List.mem_cons_of_mem _ ?_
      rcases List.mem_cons.1 ha with rfl | ha
      · exact mem_visit_of_mem_frontier (List.mem_append_left _ hab) hleft
      · exact ih ha hleft
  | case3 unmet first frontier _ ih => exact ih ha hb

/-- Among names that are closed under links, the visited ones are those that can be reached. -/
theorem mem_visit_iff {names : List String}
    (hclosed : ∀ a ∈ names, ∀ b, Linked next a b → b ∈ names) {start name : String}
    (hstart : start ∈ names) :
    name ∈ visit next names [start] ↔ ReflTransGen (Linked next) start name := by
  constructor
  · intro h
    obtain ⟨first, hfirst, hpath⟩ := reachable_of_mem_visit h
    obtain rfl := List.mem_singleton.1 hfirst
    exact hpath
  · intro h
    have hboth : name ∈ names ∧ name ∈ visit next names [start] := by
      induction h with
      | refl => exact ⟨hstart, mem_visit_of_mem_frontier List.mem_cons_self hstart⟩
      | tail _ hbc ih =>
        have hmem := hclosed _ ih.1 _ hbc
        exact ⟨hmem, mem_visit_of_linked ih.2 hbc hmem⟩
    exact hboth.2

/-- A path over pairs of names that leads to another name is found. -/
theorem reaches_iff {links : List (String × String)} {start goal : String} (hne : start ≠ goal) :
    reaches links start goal ↔ TransGen (fun a b => (a, b) ∈ links) start goal := by
  have hlinked : Linked (fun name => (links.filter (·.1 == name)).map (·.2)) =
      fun a b => (a, b) ∈ links := by
    funext a b
    simp only [Linked, List.mem_map, List.mem_filter, beq_iff_eq, eq_iff_iff]
    constructor
    · rintro ⟨⟨first, second⟩, ⟨hmem, rfl⟩, rfl⟩
      exact hmem
    · exact fun hmem => ⟨(a, b), ⟨hmem, rfl⟩, rfl⟩
  have hends : ∀ a b, (a, b) ∈ links →
      a ∈ links.flatMap (fun link => [link.1, link.2]) ∧
        b ∈ links.flatMap (fun link => [link.1, link.2]) := fun a b hab =>
    ⟨List.mem_flatMap.2 ⟨(a, b), hab, by simp⟩, List.mem_flatMap.2 ⟨(a, b), hab, by simp⟩⟩
  rw [reaches, decide_eq_true_iff]
  constructor
  · intro h
    obtain ⟨first, hfirst, hpath⟩ := reachable_of_mem_visit h
    obtain rfl := List.mem_singleton.1 hfirst
    rw [hlinked] at hpath
    exact (reflTransGen_iff_eq_or_transGen.1 hpath).resolve_left (Ne.symm hne)
  · intro h
    obtain ⟨b, hstart, -⟩ := TransGen.head'_iff.1 h
    refine (mem_visit_iff (fun a _ b hab => ?_) (hends _ _ hstart).1).2 ?_
    · rw [hlinked] at hab
      exact (hends _ _ hab).2
    · rw [hlinked]
      exact h.to_reflTransGen

/-! ## Depth-first search -/

/-- What a list of finished names, last first, says about their links: a link leads to a name that
was finished before, or back to one that leads here. -/
def Finished (next : String → List String) (order : List String) : Prop :=
  ∀ later name earlier, order = later ++ name :: earlier →
    ∀ other, Linked next name other → other ∈ earlier ∨ TransGen (Linked next) other name

/-- A state of the search. A name that is met and not finished lies on the stack below nothing
but names that it leads to, and its links go to those or to names that are met. -/
structure Searching (next : String → List String) (names unmet finished stack : List String) :
    Prop where
  unmet_sub : ∀ name ∈ unmet, name ∈ stack
  stack_sub : ∀ name ∈ stack, name ∈ names
  finished_met : ∀ name ∈ finished, name ∉ unmet
  nodup : finished.Nodup
  loopless : ∀ name ∈ names, name ∉ unmet → ¬ Linked next name name
  opened : ∀ name ∈ names, name ∉ unmet → name ∉ finished →
    ∃ above below, stack = above ++ name :: below ∧ name ∉ above ∧
      (∀ other ∈ above, TransGen (Linked next) name other) ∧
      ∀ other, Linked next name other → other ∈ above ∨ other ∉ unmet
  order : Finished next finished

namespace Searching

variable {names unmet finished stack : List String}

theorem start (names : List String) : Searching next names names [] names where
  unmet_sub := fun _ h => h
  stack_sub := fun _ h => h
  finished_met := fun _ h => nomatch h
  nodup := .nil
  loopless := fun _ hname hmet => absurd hname hmet
  opened := fun _ hname hmet => absurd hname hmet
  order := fun later _ _ h => by simp at h

theorem enter {name : String} (h : Searching next names unmet finished (name :: stack))
    (hclosed : ∀ a ∈ names, ∀ b, Linked next a b → b ∈ names) (hname : name ∈ unmet)
    (hloop : name ∉ next name) :
    Searching next names (without unmet name) finished
      (((next name).filter (· ∈ without unmet name)).reverse ++ name :: stack) := by
  have hmem : name ∈ names := h.stack_sub name List.mem_cons_self
  have hpushed : ∀ other, other ∈ ((next name).filter (· ∈ without unmet name)).reverse ↔
      Linked next name other ∧ other ∈ without unmet name := by
    intro other
    simp [Linked]
  refine ⟨fun other hother => ?_, fun other hother => ?_, fun other hother => ?_, h.nodup,
    fun other hother hmet => ?_, fun other hother hmet hopen => ?_, h.order⟩
  · exact List.mem_append_right _ (h.unmet_sub other (mem_without.1 hother).1)
  · rcases List.mem_append.1 hother with hother | hother
    · exact hclosed name hmem other ((hpushed other).1 hother).1
    · exact h.stack_sub other hother
  · exact fun hleft => h.finished_met other hother (mem_without.1 hleft).1
  · by_cases heq : other = name
    · exact heq ▸ hloop
    · exact h.loopless other hother fun hunmet => hmet (mem_without.2 ⟨hunmet, heq⟩)
  · by_cases heq : other = name
    · subst heq
      refine ⟨_, stack, rfl, fun habove => ?_, fun third habove => ?_, fun third hlink => ?_⟩
      · exact (mem_without.1 ((hpushed other).1 habove).2).2 rfl
      · exact .single ((hpushed third).1 habove).1
      · by_cases hthird : third ∈ without unmet other
        · exact .inl ((hpushed third).2 ⟨hlink, hthird⟩)
        · exact .inr hthird
    · have hmet' : other ∉ unmet := fun hunmet => hmet (mem_without.2 ⟨hunmet, heq⟩)
      obtain ⟨above, below, hstack, hnot, hleads, hlinks⟩ := h.opened other hother hmet' hopen
      -- The met name stands at the top, so it is among what `other` leads to.
      obtain ⟨above, rfl⟩ : ∃ rest, above = name :: rest := by
        cases above with
        | nil => exact absurd (List.cons.inj hstack).1.symm heq
        | cons first rest => exact ⟨rest, by rw [(List.cons.inj hstack).1]⟩
      have hname' := hleads name List.mem_cons_self
      refine ⟨((next name).filter (· ∈ without unmet name)).reverse ++ name :: above, below,
        by rw [hstack, List.append_assoc], fun habove => ?_, fun third habove => ?_,
        fun third hlink => ?_⟩
      · rcases List.mem_append.1 habove with habove | habove
        · exact hmet ((hpushed other).1 habove).2
        · exact hnot habove
      · rcases List.mem_append.1 habove with habove | habove
        · exact hname'.tail ((hpushed third).1 habove).1
        · exact hleads third habove
      · rcases hlinks third hlink with habove | hthird
        · exact .inl (List.mem_append_right _ habove)
        · exact .inr fun hleft => hthird (mem_without.1 hleft).1

/-- The top of the stack is met and goes; another open name stays open. -/
theorem opened_of_pop {name : String} (h : Searching next names unmet finished (name :: stack))
    (hname : name ∉ unmet) {other : String} (hother : other ∈ names) (hne : other ≠ name)
    (hmet : other ∉ unmet) (hopen : other ∉ finished) :
    ∃ above below, stack = above ++ other :: below ∧ other ∉ above ∧
      (∀ third ∈ above, TransGen (Linked next) other third) ∧
      (∀ third, Linked next other third → third ∈ above ∨ third ∉ unmet) ∧
      TransGen (Linked next) other name := by
  obtain ⟨above, below, hstack, hnot, hleads, hlinks⟩ := h.opened other hother hmet hopen
  cases above with
  | nil => exact absurd (List.cons.inj hstack).1.symm hne
  | cons first above =>
    obtain ⟨rfl, hbelow⟩ := List.cons.inj hstack
    refine ⟨above, below, hbelow, fun hmem => hnot (List.mem_cons_of_mem _ hmem),
      fun third hthird => hleads third (List.mem_cons_of_mem _ hthird), fun third hlink => ?_,
      hleads name List.mem_cons_self⟩
    rcases hlinks third hlink with hthird | hthird
    · rcases List.mem_cons.1 hthird with rfl | hthird
      · exact .inr hname
      · exact .inl hthird
    · exact .inr hthird

theorem unmet_sub_of_pop {name : String}
    (h : Searching next names unmet finished (name :: stack)) (hname : name ∉ unmet) :
    ∀ other ∈ unmet, other ∈ stack := by
  intro other hother
  have hne : other ≠ name := fun heq => hname (heq ▸ hother)
  exact (List.mem_cons.1 (h.unmet_sub other hother)).resolve_left hne

theorem drop {name : String} (h : Searching next names unmet finished (name :: stack))
    (hname : name ∉ unmet) (hfinished : name ∈ finished) :
    Searching next names unmet finished stack := by
  refine ⟨h.unmet_sub_of_pop hname, fun other hother => ?_, h.finished_met, h.nodup, h.loopless,
    fun other hother hmet hopen => ?_, h.order⟩
  · exact h.stack_sub other (List.mem_cons_of_mem _ hother)
  · have hne : other ≠ name := fun heq => hopen (heq ▸ hfinished)
    obtain ⟨above, below, hstack, hnot, hleads, hlinks, -⟩ :=
      h.opened_of_pop hname hother hne hmet hopen
    exact ⟨above, below, hstack, hnot, hleads, hlinks⟩

theorem finish {name : String} (h : Searching next names unmet finished (name :: stack))
    (hclosed : ∀ a ∈ names, ∀ b, Linked next a b → b ∈ names)
    (hname : name ∉ unmet) (hopen : name ∉ finished) :
    Searching next names unmet (name :: finished) stack := by
  have hmem : name ∈ names := h.stack_sub name List.mem_cons_self
  obtain ⟨above, below, hstack, hnot, -, hlinks⟩ := h.opened name hmem hname hopen
  -- The name is at the top itself, so all its links lead to names that are met.
  have habove : above = [] := by
    cases above with
    | nil => rfl
    | cons first rest =>
      exact absurd ((List.cons.inj hstack).1 ▸ List.mem_cons_self) hnot
  subst habove
  refine ⟨h.unmet_sub_of_pop hname, fun other hother => ?_, fun other hother => ?_,
    List.nodup_cons.2 ⟨hopen, h.nodup⟩, h.loopless, fun other hother hmet hnone => ?_,
    fun later first earlier horder other hlink => ?_⟩
  · exact h.stack_sub other (List.mem_cons_of_mem _ hother)
  · rcases List.mem_cons.1 hother with rfl | hother
    · exact hname
    · exact h.finished_met other hother
  · have hne : other ≠ name := fun heq => hnone (heq ▸ List.mem_cons_self)
    obtain ⟨above, below, hstack, hnot, hleads, hlinks, -⟩ :=
      h.opened_of_pop hname hother hne hmet fun hmem => hnone (List.mem_cons_of_mem _ hmem)
    exact ⟨above, below, hstack, hnot, hleads, hlinks⟩
  · cases later with
    | cons last later =>
      obtain ⟨rfl, hbefore⟩ := List.cons.inj horder
      exact h.order later first earlier hbefore other hlink
    | nil =>
      obtain ⟨rfl, rfl⟩ := List.cons.inj horder
      have hmet : other ∉ unmet := (hlinks other hlink).resolve_left (List.not_mem_nil)
      by_cases hdone : other ∈ finished
      · exact .inl hdone
      · have hne : other ≠ name := fun heq => h.loopless name hmem hname (heq ▸ hlink)
        obtain ⟨-, -, -, -, -, -, hback⟩ :=
          h.opened_of_pop hname (hclosed name hmem other hlink) hne hmet hdone
        exact .inr hback

end Searching

/-- The search ends with every name met, or at a name that is linked to itself. -/
theorem searching_finishing {names unmet finished stack : List String}
    (hclosed : ∀ a ∈ names, ∀ b, Linked next a b → b ∈ names)
    (h : Searching next names unmet finished stack) :
    match finishing next unmet finished stack with
    | .error name => Linked next name name
    | .ok order => Searching next names [] order [] := by
  fun_induction finishing next unmet finished stack with
  | case1 unmet finished =>
    have hunmet : unmet = [] := List.eq_nil_iff_forall_not_mem.2 fun name hname =>
      List.not_mem_nil (h.unmet_sub name hname)
    exact hunmet ▸ h
  | case2 _ _ name _ _ hloop => exact hloop
  | case3 _ _ name _ hname hloop _ ih => exact ih (h.enter hclosed hname hloop)
  | case4 _ _ name _ hname hfinished ih => exact ih (h.drop hname hfinished)
  | case5 _ _ name _ hname hopen ih => exact ih (h.finish hclosed hname hopen)

theorem linked_of_finishing_eq_error {names : List String}
    (hclosed : ∀ a ∈ names, ∀ b, Linked next a b → b ∈ names) {name : String}
    (h : finishing next names [] names = .error name) : Linked next name name := by
  have hsearch := searching_finishing hclosed (Searching.start names)
  rwa [h] at hsearch

theorem searching_of_finishing_eq_ok {names : List String}
    (hclosed : ∀ a ∈ names, ∀ b, Linked next a b → b ∈ names) {order : List String}
    (h : finishing next names [] names = .ok order) : Searching next names [] order [] := by
  have hsearch := searching_finishing hclosed (Searching.start names)
  rwa [h] at hsearch

theorem Searching.mem_order {names order : List String} (h : Searching next names [] order [])
    {name : String} (hname : name ∈ names) : name ∈ order := by
  refine Classical.byContradiction fun hopen => ?_
  obtain ⟨above, below, hstack, -⟩ := h.opened name hname List.not_mem_nil hopen
  exact absurd hstack.symm (by simp)

/-! ## Links against an order -/

theorem exists_of_backLink?_eq_some {previous : String → List String}
    {unmet order : List String} {other : String}
    (h : backLink? previous unmet order = some other) :
    ∃ before name after, order = before ++ name :: after ∧ other ∈ previous name ∧
      other ∈ unmet ∧ other ≠ name ∧ other ∉ before := by
  fun_induction backLink? previous unmet order with
  | case1 => cases h
  | case2 unmet name rest _ left found hfound =>
    obtain rfl := Option.some.inj h
    have hleft : found ∈ left := by simpa using List.find?_some hfound
    obtain ⟨hunmet, hne⟩ := mem_without.1 hleft
    exact ⟨[], name, rest, rfl, List.mem_of_find?_eq_some hfound, hunmet, hne, List.not_mem_nil⟩
  | case3 unmet name rest _ left _ ih =>
    obtain ⟨before, second, after, rfl, hprevious, hleft, hne, hbefore⟩ := ih h
    obtain ⟨hunmet, hname⟩ := mem_without.1 hleft
    refine ⟨name :: before, second, after, rfl, hprevious, hunmet, hne, fun hmem => ?_⟩
    exact (List.mem_cons.1 hmem).elim hname hbefore
  | case4 unmet name rest hname ih =>
    obtain ⟨before, second, after, rfl, hprevious, hunmet, hne, hbefore⟩ := ih h
    refine ⟨name :: before, second, after, rfl, hprevious, hunmet, hne, fun hmem => ?_⟩
    rcases List.mem_cons.1 hmem with rfl | hmem
    · exact hname hunmet
    · exact hbefore hmem

/-- Without a link against it, the order lists a name behind all that are linked to it. -/
theorem mem_before_of_backLink?_eq_none {previous : String → List String}
    {unmet order : List String} (h : backLink? previous unmet order = none)
    {before : List String} {name : String} {after : List String}
    (horder : order = before ++ name :: after) (hname : name ∈ unmet) (hfirst : name ∉ before)
    {other : String} (hprevious : other ∈ previous name) (hother : other ∈ unmet)
    (hne : other ≠ name) : other ∈ before := by
  fun_induction backLink? previous unmet order generalizing before with
  | case1 => simp at horder
  | case2 => cases h
  | case3 unmet first rest _ left hnone ih =>
    cases before with
    | nil =>
      obtain ⟨rfl, -⟩ := List.cons.inj horder
      have hleft : other ∉ left := by simpa using List.find?_eq_none.1 hnone other hprevious
      exact absurd (mem_without.2 ⟨hother, hne⟩) hleft
    | cons second before =>
      obtain ⟨rfl, hrest⟩ := List.cons.inj horder
      have hname' : name ≠ first := fun heq => hfirst (heq ▸ List.mem_cons_self)
      by_cases heq : other = first
      · exact heq ▸ List.mem_cons_self
      · exact List.mem_cons_of_mem _ (ih h hrest (mem_without.2 ⟨hname, hname'⟩)
          (fun hmem => hfirst (List.mem_cons_of_mem _ hmem)) (mem_without.2 ⟨hother, heq⟩))
  | case4 unmet first rest hmet ih =>
    cases before with
    | nil =>
      obtain ⟨rfl, -⟩ := List.cons.inj horder
      exact absurd hname hmet
    | cons second before =>
      obtain ⟨rfl, hrest⟩ := List.cons.inj horder
      exact List.mem_cons_of_mem _ (ih h hrest hname
        (fun hmem => hfirst (List.mem_cons_of_mem _ hmem)) hother)

end LayerGraph.Search
