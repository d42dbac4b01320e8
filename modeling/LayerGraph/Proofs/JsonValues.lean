import LayerGraph.Json.Raw
import LayerGraph.Proofs.Numerals
/-!
# Values and their trees

* `Json.inductOn` is induction over values: what holds of the items holds of the array.
* `Json.Raw.IsWithin good k`: the numbers of the tree are good, and arrays and objects lie in each
  other at most `k` deep.
* `Json.floats` lists the floating-point numbers of a value. `Json.isWithin_isReadBack`: when those
  are read back and the other numbers are in range, all of them are read back.
* `Json.Raw.IsWithin.json?`: a value that is taken from a tree is taken from its own tree again.
-/

namespace LayerGraph
set_option autoImplicit false

/-! ## Entries of tables -/

namespace Table

variable {α : Type}

theorem ofList_entries (table : Table α) : ofList table.entries = table :=
  ext_get? fun name => by
    rw [get?_ofList, lookup_reverse table.nodup_names]
    rfl

theorem mem_of_mem_insertMany {table : Table α} {pairs : List (String × α)} {entry : String × α}
    (h : entry ∈ (table.insertMany pairs).entries) : entry ∈ pairs ∨ entry ∈ table.entries := by
  induction pairs generalizing table with
  | nil => exact .inr h
  | cons pair rest ih =>
    rcases ih h with hrest | hinsert
    · exact .inl (List.mem_cons_of_mem _ hrest)
    · rcases mem_insertEntry hinsert with rfl | hentry
      · exact .inl List.mem_cons_self
      · exact .inr hentry

theorem mem_of_mem_ofList {pairs : List (String × α)} {entry : String × α}
    (h : entry ∈ (ofList pairs).entries) : entry ∈ pairs := by
  rcases mem_of_mem_insertMany h with hpair | hentry
  · exact hpair
  · cases hentry

end Table

namespace Json

/-! ## Values -/

/-- Induction over values, in which arrays and objects have a hypothesis for each item. -/
theorem inductOn {motive : Json → Prop} (value : Json) (null : motive .null)
    (bool : ∀ value, motive (.bool value)) (number : ∀ value, motive (.number value))
    (string : ∀ value, motive (.string value))
    (array : ∀ items, (∀ item ∈ items, motive item) → motive (.array items))
    (object : ∀ fields, (∀ field ∈ fields, motive field.2) → motive (.object fields)) :
    motive value := by
  refine @Json.rec motive (fun items => ∀ item ∈ items, motive item)
    (fun fields => ∀ field ∈ fields, motive field.2) (fun field => motive field.2) null bool number
    string array object ?_ ?_ ?_ ?_ ?_ value
  · intro item hitem
    cases hitem
  · intro item rest hitem hrest
    exact List.forall_mem_cons.2 ⟨hitem, hrest⟩
  · intro field hfield
    cases hfield
  · intro field rest hfield hrest
    exact List.forall_mem_cons.2 ⟨hfield, hrest⟩
  · intro key value hvalue
    exact hvalue

theorem rawItems_eq (items : List Json) : rawItems items = items.map raw := by
  induction items with
  | nil => rfl
  | cons item rest ih => rw [rawItems, ih, List.map_cons]

theorem rawFields_eq (fields : List (String × Json)) :
    rawFields fields = fields.map fun field => (some field.1, field.2.raw) := by
  induction fields with
  | nil => rfl
  | cons field rest ih => rw [rawFields, ih, List.map_cons]

theorem raw_array (items : List Json) : (Json.array items).raw = .array (items.map raw) := by
  rw [raw, rawItems_eq]

theorem raw_object (fields : List (String × Json)) :
    (Json.object fields).raw = .object (fields.map fun field => (some field.1, field.2.raw)) := by
  rw [raw, rawFields_eq]

/-! ## Depth and numbers of a tree -/

/-- The numbers of the tree are good, and arrays and objects lie in each other at most so deep. -/
inductive Raw.IsWithin (good : Number → Prop) : Nat → Raw → Prop
  | null {k : Nat} : IsWithin good k .null
  | bool {k : Nat} (value : Bool) : IsWithin good k (.bool value)
  | number {k : Nat} {value : Number} (h : good value) : IsWithin good k (.number value)
  | string {k : Nat} (value : String) : IsWithin good k (.string value)
  | array {k : Nat} {items : List Raw} (h : ∀ item ∈ items, IsWithin good k item) :
      IsWithin good (k + 1) (.array items)
  | object {k : Nat} {fields : List (Option String × Raw)}
      (h : ∀ field ∈ fields, IsWithin good k field.2) : IsWithin good (k + 1) (.object fields)
  | unreadable {k : Nat} : IsWithin good k .unreadable

section

variable {good : Number → Prop} {k : Nat}

theorem Raw.IsWithin.array_iff {items : List Raw} :
    (Raw.array items).IsWithin good (k + 1) ↔ ∀ item ∈ items, item.IsWithin good k :=
  ⟨fun h => by cases h with | array h => exact h, .array⟩

theorem isWithin_array_iff {items : List Json} :
    (Json.array items).raw.IsWithin good (k + 1) ↔ ∀ item ∈ items, item.raw.IsWithin good k := by
  rw [raw_array, Raw.IsWithin.array_iff, List.forall_mem_map]

theorem isWithin_object_iff {fields : List (String × Json)} :
    (Json.object fields).raw.IsWithin good (k + 1) ↔
      ∀ field ∈ fields, field.2.raw.IsWithin good k := by
  rw [raw_object]
  constructor
  · intro h field hfield
    cases h with
    | object h => exact h _ (List.mem_map_of_mem hfield)
  · intro h
    refine .object fun field hfield => ?_
    obtain ⟨entry, hentry, rfl⟩ := List.mem_map.1 hfield
    exact h entry hentry

/-- An array or object has at least one level. -/
theorem exists_succ_of_isWithin_array {items : List Json}
    (h : (Json.array items).raw.IsWithin good k) : ∃ inner, k = inner + 1 := by
  rw [raw_array] at h
  cases h with
  | array => exact ⟨_, rfl⟩

theorem exists_succ_of_isWithin_object {fields : List (String × Json)}
    (h : (Json.object fields).raw.IsWithin good k) : ∃ inner, k = inner + 1 := by
  rw [raw_object] at h
  cases h with
  | object => exact ⟨_, rfl⟩

end

/-! ## Floating-point numbers -/

mutual

/-- The floating-point numbers of a value, in the order in which they are written. -/
def floats : Json → List Binary64
  | number (.float value) => [value]
  | array items => itemFloats items
  | object fields => fieldFloats fields
  | _ => []

def itemFloats : List Json → List Binary64
  | [] => []
  | item :: rest => floats item ++ itemFloats rest

def fieldFloats : List (String × Json) → List Binary64
  | [] => []
  | (_, value) :: rest => floats value ++ fieldFloats rest

end

theorem mem_itemFloats {x : Binary64} {items : List Json} {item : Json} (hitem : item ∈ items)
    (hx : x ∈ item.floats) : x ∈ itemFloats items := by
  induction hitem with
  | head => exact List.mem_append_left _ hx
  | tail _ _ ih => exact List.mem_append_right _ ih

theorem mem_fieldFloats {x : Binary64} {fields : List (String × Json)} {field : String × Json}
    (hfield : field ∈ fields) (hx : x ∈ field.2.floats) : x ∈ fieldFloats fields := by
  induction hfield with
  | head => exact List.mem_append_left _ hx
  | tail _ _ ih => exact List.mem_append_right _ ih

/-- Words are read back always, so it is enough that the floating-point numbers are. -/
theorem isWithin_isReadBack {value : Json} {k : Nat} (h : value.raw.IsWithin Number.InRange k)
    (hfloats : ∀ x ∈ value.floats, x.isFinite = true → x.IsReadBack) :
    value.raw.IsWithin Number.IsReadBack k := by
  induction value using inductOn generalizing k with
  | null => exact .null
  | bool value => exact .bool value
  | number value =>
    cases h with
    | number hrange =>
      cases value with
      | int value => exact .number (Number.IsReadBack.int hrange)
      | float value => exact .number (hfloats value List.mem_cons_self hrange)
  | string value => exact .string value
  | array items ih =>
    obtain ⟨k, rfl⟩ := exists_succ_of_isWithin_array h
    rw [isWithin_array_iff] at h ⊢
    exact fun item hitem => ih item hitem (h item hitem) fun x hx =>
      hfloats x (mem_itemFloats hitem hx)
  | object fields ih =>
    obtain ⟨k, rfl⟩ := exists_succ_of_isWithin_object h
    rw [isWithin_object_iff] at h ⊢
    exact fun field hfield => ih field hfield (h field hfield) fun x hx =>
      hfloats x (mem_fieldFloats hfield hx)

/-! ## Values of trees -/

namespace Raw

theorem exists_mem_of_items? {raws : List Raw} {items : List Json} (h : items? raws = some items)
    {item : Json} (hitem : item ∈ items) : ∃ raw ∈ raws, json? raw = some item := by
  induction raws generalizing items with
  | nil =>
    obtain rfl := Option.some.inj h
    cases hitem
  | cons raw rest ih =>
    rw [items?] at h
    split at h
    · rename_i hfirst hrest
      obtain rfl := Option.some.inj h
      rcases List.mem_cons.1 hitem with rfl | hitem
      · exact ⟨raw, List.mem_cons_self, hfirst⟩
      · obtain ⟨other, hother, hjson⟩ := ih hrest hitem
        exact ⟨other, List.mem_cons_of_mem _ hother, hjson⟩
    · cases h

theorem exists_mem_of_entries? {raws : List (Option String × Raw)} {entries : List (String × Json)}
    (h : entries? raws = some entries) {entry : String × Json} (hentry : entry ∈ entries) :
    ∃ field ∈ raws, json? field.2 = some entry.2 := by
  induction raws generalizing entries with
  | nil =>
    obtain rfl := Option.some.inj h
    cases hentry
  | cons field rest ih =>
    unfold entries? at h
    split at h
    · rename_i hfirst hrest
      obtain rfl := Option.some.inj h
      rcases List.mem_cons.1 hentry with rfl | hentry
      · exact ⟨_, List.mem_cons_self, hfirst⟩
      · obtain ⟨other, hother, hjson⟩ := ih hrest hentry
        exact ⟨other, List.mem_cons_of_mem _ hother, hjson⟩
    · cases h

theorem items?_map_raw {items : List Json} (h : ∀ item ∈ items, item.raw.json? = some item) :
    items? (items.map Json.raw) = some items := by
  induction items with
  | nil => rfl
  | cons item rest ih =>
    obtain ⟨hitem, hrest⟩ := List.forall_mem_cons.1 h
    rw [List.map_cons, items?, hitem, ih hrest]

theorem entries?_map_raw {fields : List (String × Json)}
    (h : ∀ field ∈ fields, field.2.raw.json? = some field.2) :
    entries? (fields.map fun field => (some field.1, field.2.raw)) = some fields := by
  induction fields with
  | nil => rfl
  | cons field rest ih =>
    obtain ⟨hfield, hrest⟩ := List.forall_mem_cons.1 h
    simp only [List.map_cons, entries?, hfield, ih hrest]

/-- The value of a tree is the value of its own tree, which lies within the same depth. -/
theorem IsWithin.json? {good : Number → Prop} {k : Nat} {tree : Raw} (h : tree.IsWithin good k)
    {value : Json} (hvalue : tree.json? = some value) :
    value.raw.json? = some value ∧ value.raw.IsWithin good k := by
  -- keys may occur twice in the tree, but the value has kept the last of each
  induction h generalizing value with
  | null =>
    obtain rfl := Option.some.inj hvalue
    exact ⟨rfl, .null⟩
  | bool =>
    obtain rfl := Option.some.inj hvalue
    exact ⟨rfl, .bool _⟩
  | number hgood =>
    obtain rfl := Option.some.inj hvalue
    exact ⟨rfl, .number hgood⟩
  | string =>
    obtain rfl := Option.some.inj hvalue
    exact ⟨rfl, .string _⟩
  | unreadable => cases hvalue
  | @array k raws _ ih =>
    obtain ⟨items, hitems, rfl⟩ := Option.map_eq_some_iff.1 hvalue
    have hall : ∀ item ∈ items, item.raw.json? = some item ∧ item.raw.IsWithin good k := by
      intro item hitem
      obtain ⟨raw, hraw, hjson⟩ := exists_mem_of_items? hitems hitem
      exact ih raw hraw hjson
    constructor
    · rw [raw_array, Raw.json?, items?_map_raw fun item hitem => (hall item hitem).1,
        Option.map_some]
    · exact isWithin_array_iff.2 fun item hitem => (hall item hitem).2
  | @object k raws _ ih =>
    obtain ⟨entries, hentries, rfl⟩ := Option.map_eq_some_iff.1 hvalue
    have hall : ∀ entry ∈ (Table.ofList entries).entries,
        entry.2.raw.json? = some entry.2 ∧ entry.2.raw.IsWithin good k := by
      intro entry hentry
      obtain ⟨field, hfield, hjson⟩ :=
        exists_mem_of_entries? hentries (Table.mem_of_mem_ofList hentry)
      exact ih field hfield hjson
    constructor
    · rw [raw_object, Raw.json?, entries?_map_raw fun entry hentry => (hall entry hentry).1,
        Option.map_some, Table.ofList_entries]
    · exact isWithin_object_iff.2 fun entry hentry => (hall entry hentry).2

end Raw
end Json
end LayerGraph
