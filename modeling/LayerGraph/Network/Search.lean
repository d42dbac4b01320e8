/-!
# Searching along links

The searches of this library work on names and a function `next` that gives the names to which a
name is linked. Each keeps the list of names that it has not met yet, which shrinks with every name
that it meets, so that it ends.

* `Search.visit` lists what can be reached; with it `Search.reaches` decides whether a name is
  reached from another.
* `Search.finishing` lists names in the reverse order of a depth-first search's finishing them, or
  gives a name that is linked to itself.
* `Search.backLink?` goes through such a list against the links and gives the first name that is
  linked to a name before it.
-/

namespace LayerGraph.Search
set_option autoImplicit false

def without (names : List String) (name : String) : List String := names.filter (· != name)

@[simp] theorem mem_without {names : List String} {name other : String} :
    other ∈ without names name ↔ other ∈ names ∧ other ≠ name := by
  simp [without]

/-- How often a search can still come upon a name: each unmet name once, and once for each of its
links. -/
def work (next : String → List String) : List String → Nat
  | [] => 0
  | name :: rest => (next name).length + 1 + work next rest

theorem work_without_le (next : String → List String) (unmet : List String) (name : String) :
    work next (without unmet name) ≤ work next unmet := by
  induction unmet with
  | nil => exact Nat.le_refl _
  | cons other rest ih =>
    by_cases h : other = name
    · simp_all [work, without]
      omega
    · simp_all [work, without]

theorem work_without_lt (next : String → List String) {unmet : List String} {name : String}
    (h : name ∈ unmet) :
    work next (without unmet name) + (next name).length < work next unmet := by
  induction unmet with
  | nil => cases h
  | cons other rest ih =>
    by_cases hother : other = name
    · have hle := work_without_le next rest name
      subst hother
      simp_all [work, without]
      omega
    · have hrest := ih ((List.mem_cons.1 h).resolve_left (Ne.symm hother))
      simp_all [work, without]
      omega

/-- The names that can be reached from a frontier through names that have not been met. -/
def visit (next : String → List String) (unmet : List String) : List String → List String
  | [] => []
  | name :: frontier =>
    if name ∈ unmet then
      name :: visit next (without unmet name) (next name ++ frontier)
    else visit next unmet frontier
termination_by frontier => work next unmet + frontier.length
decreasing_by
  · have h := work_without_lt next ‹name ∈ unmet›
    simp only [List.length_append, List.length_cons]
    omega
  · simp

/-- A depth-first search from the names of a stack. A name that is met stays on the stack below
the unmet names that it is linked to, the last of them on top; a name that comes up again is
finished. The list of finished names, last first, or a name that is linked to itself. -/
def finishing (next : String → List String) (unmet finished : List String) :
    List String → Except String (List String)
  | [] => .ok finished
  | name :: stack =>
    if name ∈ unmet then
      if name ∈ next name then .error name
      else
        let left := without unmet name
        finishing next left finished (((next name).filter (· ∈ left)).reverse ++ name :: stack)
    else if name ∈ finished then finishing next unmet finished stack
    else finishing next unmet (name :: finished) stack
termination_by stack => work next unmet + stack.length
decreasing_by
  · have h := work_without_lt next ‹name ∈ unmet›
    have hfilter := List.length_filter_le (· ∈ without unmet name) (next name)
    simp only [List.length_append, List.length_reverse, List.length_cons]
    omega
  · simp
  · simp

/-- Goes through a list of names and gives the first name, not met so far, that is linked to one of
them; `previous` gives the names that are linked to a name. -/
def backLink? (previous : String → List String) (unmet : List String) :
    List String → Option String
  | [] => none
  | name :: rest =>
    if name ∈ unmet then
      let left := without unmet name
      match (previous name).find? (· ∈ left) with
      | some other => some other
      | none => backLink? previous left rest
    else backLink? previous unmet rest

/-- One name is reached from another over the links of a list of pairs; both occur in the list. -/
def reaches (links : List (String × String)) (start goal : String) : Bool :=
  goal ∈ visit (fun name => (links.filter (·.1 == name)).map (·.2))
    (links.flatMap fun link => [link.1, link.2]) [start]

end LayerGraph.Search
