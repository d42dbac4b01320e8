/-!
# Tables

A table maps finitely many names to values and keeps its entries in ascending order of the names,
so that two tables with the same look-ups are the same table.

* `Table.get?` looks a name up, `Table.insert` sets one name and `Table.erase` forgets one.
* `Table.overlay` sets every name of a second table over a first; `Table.ofList` sets the pairs of
  a list one after the other, so that of two pairs with one name the later stands.
* `Table.get?_insert`, `Table.get?_erase` and `Table.ext_get?` say how the operations read through
  `Table.get?`.

Names are ordered by the code points of their characters.
-/

namespace LayerGraph
set_option autoImplicit false

/-- A finite map from names to values, in ascending order of the names. -/
structure Table (α : Type) where
  entries : List (String × α)
  ascending : entries.Pairwise (fun a b => a.1 < b.1)
  deriving DecidableEq

namespace Table

variable {α β : Type}

/-! ## Entry lists -/

/-- Sets `name` in an ascending list of entries, in place of an entry that has the name. -/
def insertEntry (name : String) (value : α) : List (String × α) → List (String × α)
  | [] => [(name, value)]
  | (key, old) :: rest =>
    if name < key then (name, value) :: (key, old) :: rest
    else if key = name then (name, value) :: rest
    else (key, old) :: insertEntry name value rest

theorem lookup_cons_eq (name : String) (head : String × α) (rest : List (String × α)) :
    (head :: rest).lookup name = if name = head.1 then some head.2 else rest.lookup name := by
  by_cases h : name = head.1
  · rw [if_pos h, h]
    exact List.lookup_cons_self
  · rw [if_neg h]
    show (match name == head.1 with | true => some head.2 | false => rest.lookup name) = _
    rw [beq_eq_false_iff_ne.2 h]

theorem mem_insertEntry {name : String} {value : α} {entry : String × α}
    {entries : List (String × α)} (h : entry ∈ insertEntry name value entries) :
    entry = (name, value) ∨ entry ∈ entries := by
  induction entries with
  | nil => simpa [insertEntry] using h
  | cons head rest ih =>
    obtain ⟨key, old⟩ := head
    rw [insertEntry] at h
    split at h
    · simpa using h
    · split at h
      · rcases List.mem_cons.1 h with h | h
        · exact .inl h
        · exact .inr (List.mem_cons_of_mem _ h)
      · rcases List.mem_cons.1 h with h | h
        · exact .inr (h ▸ List.mem_cons_self)
        · exact (ih h).imp id (List.mem_cons_of_mem _)

theorem pairwise_insertEntry (name : String) (value : α) {entries : List (String × α)}
    (h : entries.Pairwise (fun a b => a.1 < b.1)) :
    (insertEntry name value entries).Pairwise (fun a b => a.1 < b.1) := by
  induction entries with
  | nil => simp [insertEntry]
  | cons head rest ih =>
    obtain ⟨key, old⟩ := head
    obtain ⟨hhead, hrest⟩ := List.pairwise_cons.1 h
    rw [insertEntry]
    split
    · rename_i hlt
      refine List.pairwise_cons.2 ⟨fun entry hentry => ?_, h⟩
      rcases List.mem_cons.1 hentry with rfl | hentry
      · exact hlt
      · exact String.lt_trans hlt (hhead entry hentry)
    · rename_i hnlt
      split
      · rename_i heq
        exact List.pairwise_cons.2 ⟨fun entry hentry => heq ▸ hhead entry hentry, hrest⟩
      · rename_i hne
        refine List.pairwise_cons.2 ⟨fun entry hentry => ?_, ih hrest⟩
        rcases mem_insertEntry hentry with rfl | hentry
        · exact Classical.byContradiction fun hle =>
            hne (String.le_antisymm (String.not_lt.1 hnlt) (String.not_lt.1 hle))
        · exact hhead entry hentry

theorem lookup_insertEntry (name key : String) (value : α) (entries : List (String × α)) :
    (insertEntry name value entries).lookup key =
      if key = name then some value else entries.lookup key := by
  induction entries with
  | nil =>
    by_cases h : key = name <;> simp [insertEntry, lookup_cons_eq, h]
  | cons head rest ih =>
    obtain ⟨other, old⟩ := head
    rw [insertEntry]
    split
    · by_cases h : key = name <;> simp [lookup_cons_eq, h]
    · split
      · rename_i heq
        subst heq
        by_cases h : key = other <;> simp [lookup_cons_eq, h]
      · rename_i hne
        by_cases h : key = other
        · subst h
          simp [hne]
        · simp [lookup_cons_eq, h, ih]

/-! ## Operations -/

def empty : Table α := ⟨[], List.Pairwise.nil⟩

instance : EmptyCollection (Table α) := ⟨empty⟩

instance : Inhabited (Table α) := ⟨empty⟩

def get? (table : Table α) (name : String) : Option α := table.entries.lookup name

def names (table : Table α) : List String := table.entries.map (·.1)

def insert (table : Table α) (name : String) (value : α) : Table α :=
  ⟨insertEntry name value table.entries, pairwise_insertEntry name value table.ascending⟩

def erase (table : Table α) (name : String) : Table α :=
  ⟨table.entries.filter (·.1 != name), table.ascending.filter _⟩

/-- The pairs of a list set one after the other over a table. -/
def insertMany (table : Table α) (pairs : List (String × α)) : Table α :=
  pairs.foldl (fun table pair => table.insert pair.1 pair.2) table

/-- The pairs of a list as a table; of two pairs with one name the later stands. -/
def ofList (pairs : List (String × α)) : Table α := insertMany empty pairs

/-- Every name of `top` set over `base`. -/
def overlay (base top : Table α) : Table α := base.insertMany top.entries

/-- The names alone, each with a value that `f` gives it. -/
def map (f : String → α → β) (table : Table α) : Table β :=
  ⟨table.entries.map (fun entry => (entry.1, f entry.1 entry.2)),
    List.pairwise_map.2 table.ascending⟩

/-! ## Look-ups -/

@[simp] theorem get?_empty (name : String) : (empty : Table α).get? name = none := rfl

@[simp] theorem get?_insert (table : Table α) (name key : String) (value : α) :
    (table.insert name value).get? key = if key = name then some value else table.get? key :=
  lookup_insertEntry name key value table.entries

theorem get?_erase (table : Table α) (name key : String) :
    (table.erase name).get? key = if key = name then none else table.get? key := by
  have h : ∀ entries : List (String × α),
      (entries.filter (·.1 != name)).lookup key =
        if key = name then none else entries.lookup key := by
    intro entries
    induction entries with
    | nil => simp
    | cons head rest ih =>
      obtain ⟨other, old⟩ := head
      by_cases hother : other = name
      · rw [List.filter_cons_of_neg (by simp [hother]), ih, lookup_cons_eq]
        split <;> simp_all
      · rw [List.filter_cons_of_pos (by simp [hother]), lookup_cons_eq, lookup_cons_eq, ih]
        split <;> simp_all
  exact h table.entries

theorem get?_insertMany (table : Table α) (pairs : List (String × α)) (key : String) :
    (table.insertMany pairs).get? key = (pairs.reverse.lookup key).or (table.get? key) := by
  induction pairs generalizing table with
  | nil => simp [insertMany]
  | cons pair rest ih =>
    have hrest : table.insertMany (pair :: rest) =
        (table.insert pair.1 pair.2).insertMany rest := rfl
    rw [hrest, ih, List.reverse_cons, List.lookup_append, get?_insert, lookup_cons_eq,
      Option.or_assoc]
    by_cases h : key = pair.1 <;> simp [h]

theorem get?_ofList (pairs : List (String × α)) (key : String) :
    (ofList pairs).get? key = pairs.reverse.lookup key := by
  rw [ofList, get?_insertMany, get?_empty, Option.or_none]

theorem lookup_eq_some_iff {entries : List (String × α)}
    (h : (entries.map Prod.fst).Nodup) {key : String} {value : α} :
    entries.lookup key = some value ↔ (key, value) ∈ entries := by
  induction entries with
  | nil => simp
  | cons head rest ih =>
    obtain ⟨hhead, hrest⟩ := List.nodup_cons.1 h
    rw [lookup_cons_eq]
    by_cases hkey : key = head.1
    · have hnot : (key, value) ∉ rest := fun hmem =>
        hhead (hkey ▸ List.mem_map_of_mem hmem)
      simp [hkey, Prod.ext_iff, eq_comm]
      exact fun hmem => absurd (hkey ▸ hmem) hnot
    · have hne : (key, value) ≠ head := fun heq => hkey (heq ▸ rfl)
      simp [hkey, hne, ih hrest]

theorem lookup_reverse {entries : List (String × α)} (h : (entries.map Prod.fst).Nodup)
    (key : String) : entries.reverse.lookup key = entries.lookup key := by
  have hreverse : (entries.reverse.map Prod.fst).Nodup := by
    rw [List.map_reverse]
    exact List.pairwise_reverse.2 (h.imp Ne.symm)
  apply Option.ext
  intro value
  rw [lookup_eq_some_iff hreverse, lookup_eq_some_iff h, List.mem_reverse]

theorem nodup_names (table : Table α) : table.names.Nodup := by
  refine List.pairwise_map.2 (table.ascending.imp fun hlt heq => ?_)
  exact String.lt_irrefl _ (heq ▸ hlt)

theorem get?_overlay (base top : Table α) (key : String) :
    (base.overlay top).get? key = (top.get? key).or (base.get? key) := by
  have hnames : (top.entries.map Prod.fst).Nodup := top.nodup_names
  rw [overlay, get?_insertMany, lookup_reverse hnames]
  rfl

/-- The value of a name in a table of pairs with distinct names. -/
theorem get?_ofList_eq_some_iff {pairs : List (String × α)} (h : (pairs.map Prod.fst).Nodup)
    {key : String} {value : α} : (ofList pairs).get? key = some value ↔ (key, value) ∈ pairs := by
  rw [get?_ofList, lookup_reverse h, lookup_eq_some_iff h]

theorem lookup_eq_none_of_lt {name : String} {entries : List (String × α)}
    (h : ∀ entry ∈ entries, name < entry.1) : entries.lookup name = none := by
  induction entries with
  | nil => rfl
  | cons head rest ih =>
    have hne : name ≠ head.1 := fun heq =>
      String.lt_irrefl head.1 (heq ▸ h head List.mem_cons_self)
    rw [lookup_cons_eq, if_neg hne]
    exact ih fun entry hentry => h entry (List.mem_cons_of_mem _ hentry)

theorem lookup_head (head : String × α) (rest : List (String × α)) :
    (head :: rest).lookup head.1 = some head.2 := by
  rw [lookup_cons_eq, if_pos rfl]

/-- The first name of an ascending list is not above one that the list holds. -/
theorem not_lt_head {name : String} {head : String × α} {rest : List (String × α)}
    (h : (head :: rest).Pairwise (fun a b => a.1 < b.1))
    (hlookup : (head :: rest).lookup name ≠ none) : ¬ name < head.1 := by
  intro hlt
  refine hlookup (lookup_eq_none_of_lt fun entry hentry => ?_)
  rcases List.mem_cons.1 hentry with rfl | hentry
  · exact hlt
  · exact String.lt_trans hlt ((List.pairwise_cons.1 h).1 entry hentry)

theorem eq_of_lookup_eq {as bs : List (String × α)}
    (has : as.Pairwise (fun a b => a.1 < b.1)) (hbs : bs.Pairwise (fun a b => a.1 < b.1))
    (h : ∀ name, as.lookup name = bs.lookup name) : as = bs := by
  induction as generalizing bs with
  | nil =>
    cases bs with
    | nil => rfl
    | cons b bs => exact absurd ((h b.1).trans (lookup_head b bs)) (by simp)
  | cons a as ih =>
    cases bs with
    | nil => exact absurd ((h a.1).symm.trans (lookup_head a as)) (by simp)
    | cons b bs =>
      have hkey : a.1 = b.1 := String.le_antisymm
        (String.not_lt.1 (not_lt_head has (by rw [h, lookup_head]; simp)))
        (String.not_lt.1 (not_lt_head hbs (by rw [← h, lookup_head]; simp)))
      have hvalue : a.2 = b.2 := by
        have hname := h a.1
        rwa [lookup_head, hkey, lookup_head, Option.some.injEq] at hname
      obtain ⟨ha, hrest⟩ := List.pairwise_cons.1 has
      obtain ⟨hb, hrest'⟩ := List.pairwise_cons.1 hbs
      rw [ih hrest hrest' fun name => ?_, Prod.ext hkey hvalue]
      have hname := h name
      by_cases heq : name = a.1
      · subst heq
        rw [lookup_eq_none_of_lt ha, lookup_eq_none_of_lt fun entry he => hkey ▸ hb entry he]
      · rwa [lookup_cons_eq, if_neg heq, lookup_cons_eq, if_neg (hkey ▸ heq)] at hname

theorem ext_get? {first second : Table α} (h : ∀ name, first.get? name = second.get? name) :
    first = second := by
  obtain ⟨as, has⟩ := first
  obtain ⟨bs, hbs⟩ := second
  have heq : as = bs := eq_of_lookup_eq has hbs h
  subst heq
  rfl

end Table
end LayerGraph
