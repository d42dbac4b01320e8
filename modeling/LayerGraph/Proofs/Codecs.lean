import LayerGraph.Document.Reading
import LayerGraph.Proofs.JsonTrees
import LayerGraph.Proofs.NodeShapes
/-!
# Readers and writers of documents

* `RoundTrips read write k`: whatever `read` takes from a tree of at most `k` levels, `write` writes
  within `k` levels, and `read` takes it from there again. Lists and tables of what round-trips
  round-trip.
* `FieldRestores` says the same of a field that may be left out.
* `Json.record` writes a record whose fields may be left out. `Json.Raw.fields?_record`: its fields
  are found again.
-/

namespace LayerGraph
set_option autoImplicit false
open Json (Raw)

/-! ## Values -/

/-- What is written lies within so many levels, and the value is read from it. -/
structure Restores {α : Type} (read : Raw → Option α) (k : Nat) (a : α) (written : Json) :
    Prop where
  read_raw : read written.raw = some a
  isWithin : written.raw.IsWithin Number.InRange k

/-- What is read from a tree within so many levels is written within as many and read again. -/
def RoundTrips {α : Type} (read : Raw → Option α) (write : α → Json) (k : Nat) : Prop :=
  ∀ tree a, tree.IsWithin Number.InRange k → read tree = some a → Restores read k a (write a)

namespace RoundTrips

variable {α : Type} {read : Raw → Option α} {write : α → Json} {k : Nat}

theorem string : RoundTrips Raw.string? .string k := by
  intro tree text _ h
  cases tree <;> cases h
  exact ⟨rfl, .string _⟩

theorem bool : RoundTrips Raw.bool? .bool k := by
  intro tree value _ h
  cases tree <;> cases h
  exact ⟨rfl, .bool _⟩

/-- Any value at all. -/
theorem json : RoundTrips Raw.json? id k := fun _ _ htree h =>
  ⟨(htree.json? h).1, (htree.json? h).2⟩

theorem mapM_map {β : Type} {f : β → Option α} {g : α → β} {items : List α}
    (h : ∀ a ∈ items, f (g a) = some a) : (items.map g).mapM f = some items := by
  induction items with
  | nil => rfl
  | cons a rest ih =>
    obtain ⟨ha, hrest⟩ := List.forall_mem_cons.1 h
    rw [List.map_cons, List.mapM_cons, ha, ih hrest]
    rfl

theorem list (h : RoundTrips read write k) :
    RoundTrips (Raw.list? read) (fun items => .array (items.map write)) (k + 1) := by
  intro tree items htree hread
  cases htree with
  | array htrees =>
    have hall : ∀ a ∈ items, Restores read k a (write a) := by
      intro a ha
      obtain ⟨item, hitem, hreadItem⟩ := mem_of_mapM_eq_some hread ha
      exact h item a (htrees item hitem) hreadItem
    constructor
    · rw [Json.raw_array, List.map_map]
      exact mapM_map fun a ha => (hall a ha).read_raw
    · refine Json.isWithin_array_iff.2 fun item hitem => ?_
      obtain ⟨a, ha, rfl⟩ := List.mem_map.1 hitem
      exact (hall a ha).isWithin
  | _ => cases hread

theorem table (h : RoundTrips read write k) :
    RoundTrips (Raw.table? read)
      (fun table => .object (table.map fun _ value => write value).entries) (k + 1) := by
  intro tree table htree hread
  cases htree with
  | @object _ fields hfields =>
    obtain ⟨pairs, hpairs, rfl⟩ := Option.map_eq_some_iff.1 hread
    have hall : ∀ entry ∈ (Table.ofList pairs).entries,
        Restores read k entry.2 (write entry.2) := by
      intro entry hentry
      obtain ⟨field, hfield, hpair⟩ :=
        mem_of_mapM_eq_some hpairs (Table.mem_of_mem_ofList hentry)
      obtain ⟨key, -, hvalue⟩ := Option.bind_eq_some_iff.1 hpair
      obtain ⟨value, hreadValue, rfl⟩ := Option.map_eq_some_iff.1 hvalue
      exact h field.2 value (hfields field hfield) hreadValue
    constructor
    · rw [Json.raw_object]
      refine Option.map_eq_some_iff.2 ⟨(Table.ofList pairs).entries, ?_, Table.ofList_entries _⟩
      rw [Table.map, List.map_map]
      refine mapM_map fun entry hentry => ?_
      show (read (write entry.2).raw).map (entry.1, ·) = some entry
      rw [(hall entry hentry).read_raw]
      rfl
    · refine Json.isWithin_object_iff.2 fun field hfield => ?_
      obtain ⟨entry, hentry, rfl⟩ := List.mem_map.1 hfield
      exact (hall entry hentry).isWithin
  | _ => cases hread

end RoundTrips

/-! ## Fields -/

/-- What is written of a field, if anything, lies within so many levels, and the value is read
from it. -/
structure FieldRestores {α : Type} (read : Option Raw → Option α) (k : Nat) (a : α)
    (written : Option Json) : Prop where
  read_raw : read (written.map Json.raw) = some a
  isWithin : ∀ value, written = some value → value.raw.IsWithin Number.InRange k

namespace FieldRestores

variable {α : Type} {read : Raw → Option α} {write : α → Json} {k : Nat} {field : Option Raw}
  {a default : α} {written : Option Json}

theorem of_restores {readField : Option Raw → Option α} (h : Restores read k a (write a))
    (hread : readField (some (write a).raw) = read (write a).raw) :
    FieldRestores readField k a (some (write a)) where
  read_raw := hread.trans h.read_raw
  isWithin _ hvalue := Option.some.inj hvalue ▸ h.isWithin

theorem required (h : RoundTrips read write k)
    (hfield : ∀ tree, field = some tree → tree.IsWithin Number.InRange k)
    (hread : Raw.required read field = some a) :
    FieldRestores (Raw.required read) k a (some (write a)) := by
  obtain ⟨tree, rfl, htree⟩ := Option.bind_eq_some_iff.1 hread
  exact of_restores (h tree a (hfield tree rfl) htree) rfl

theorem restores_of_withDefault (h : RoundTrips read write k)
    (hfield : ∀ tree, field = some tree → tree.IsWithin Number.InRange k)
    (hread : Raw.withDefault default read field = some a) :
    a = default ∨ Restores read k a (write a) := by
  cases field with
  | none => exact .inl (Option.some.inj hread).symm
  | some tree => exact .inr (h tree a (hfield tree rfl) hread)

/-- A field with a default that is always written. -/
theorem withDefault (h : RoundTrips read write k)
    (hdefault : Restores read k default (write default))
    (hfield : ∀ tree, field = some tree → tree.IsWithin Number.InRange k)
    (hread : Raw.withDefault default read field = some a) :
    FieldRestores (Raw.withDefault default read) k a (some (write a)) := by
  rcases restores_of_withDefault h hfield hread with rfl | hrestores
  · exact of_restores hdefault rfl
  · exact of_restores hrestores rfl

/-- A field that is left out when it has the default. -/
theorem leftOut (h : RoundTrips read write k)
    (hfield : ∀ tree, field = some tree → tree.IsWithin Number.InRange k)
    (hread : Raw.withDefault default read field = some a)
    (hwritten : a = default ∧ written = none ∨ a ≠ default ∧ written = some (write a)) :
    FieldRestores (Raw.withDefault default read) k a written := by
  rcases hwritten with ⟨rfl, rfl⟩ | ⟨hne, rfl⟩
  · exact ⟨rfl, fun value hvalue => by cases hvalue⟩
  · exact of_restores ((restores_of_withDefault h hfield hread).resolve_left hne) rfl

theorem nullable?_of_read {tree : Raw} (hnull : read .null = none) (h : read tree = some a) :
    Raw.nullable? read tree = some (some a) := by
  cases tree with
  | null => rw [hnull] at h; cases h
  | _ => exact congrArg (Option.map some) h

/-- A field that may be `null` and is left out when it is. -/
theorem nullable {value : Option α} (h : RoundTrips read write k) (hnull : read .null = none)
    (hfield : ∀ tree, field = some tree → tree.IsWithin Number.InRange k)
    (hread : Raw.withDefault none (Raw.nullable? read) field = some value) :
    FieldRestores (Raw.withDefault none (Raw.nullable? read)) k value (value.map write) := by
  cases value with
  | none => exact ⟨rfl, fun value hvalue => by cases hvalue⟩
  | some a =>
    cases field with
    | none => cases hread
    | some tree =>
      have htree : read tree = some a := by
        cases tree with
        | null => cases hread
        | _ =>
          obtain ⟨b, hb, hba⟩ := Option.map_eq_some_iff.1 hread
          rwa [Option.some.inj hba] at hb
      have hrestores := h tree a (hfield tree rfl) htree
      exact ⟨nullable?_of_read hnull hrestores.read_raw,
        fun value hvalue => Option.some.inj hvalue ▸ hrestores.isWithin⟩

end FieldRestores

/-! ## Records -/

/-- A record, in which the fields without a value are left out. -/
def Json.record (fields : List (String × Option Json)) : Json :=
  .object (fields.filterMap fun field => field.2.map (field.1, ·))

namespace Json

variable {fields : List (String × Option Json)} {good : Number → Prop} {k : Nat}

theorem isWithin_record
    (h : ∀ field ∈ fields, ∀ value, field.2 = some value → value.raw.IsWithin good k) :
    (Json.record fields).raw.IsWithin good (k + 1) := by
  refine isWithin_object_iff.2 fun entry hentry => ?_
  obtain ⟨field, hfield, hvalue⟩ := List.mem_filterMap.1 hentry
  obtain ⟨value, hsome, rfl⟩ := Option.map_eq_some_iff.1 hvalue
  exact h field hfield value hsome

/-- The trees of the fields of a record. -/
theorem Raw.isWithin_of_fields? {names : List String} {tree : Raw} {values : List (Option Raw)}
    (htree : tree.IsWithin good (k + 1)) (h : Raw.fields? names tree = some values) {field : Raw}
    (hfield : some field ∈ values) : field.IsWithin good k := by
  cases htree with
  | @object _ fields hfields =>
    rw [Raw.fields?] at h
    split at h
    · cases h
    obtain ⟨name, -, hname⟩ := mem_of_mapM_eq_some h hfield
    have hoccurs : field ∈ occurrences name fields := by
      unfold field? at hname
      split at hname
      · cases hname
      · rename_i hsingle
        rw [hsingle, Option.some.inj (Option.some.inj hname)]
        exact List.mem_singleton_self _
      · cases hname
    obtain ⟨entry, hentry, hvalue⟩ := List.mem_filterMap.1 hoccurs
    split at hvalue
    · exact Option.some.inj hvalue ▸ hfields entry hentry
    · cases hvalue
  | @array _ items hitems =>
    rw [Raw.fields?] at h
    split at h
    · cases h
    obtain rfl := Option.some.inj h
    rcases List.mem_append.1 hfield with hitem | hmissing
    · obtain ⟨item, hitem, hvalue⟩ := List.mem_map.1 hitem
      exact Option.some.inj hvalue ▸ hitems item hitem
    · cases List.eq_of_mem_replicate hmissing
  | _ => cases h

/-- The fields of the tree of a record. -/
def recordTrees (fields : List (String × Option Json)) : List (Option String × Raw) :=
  fields.filterMap fun field => field.2.map fun value => (some field.1, value.raw)

theorem raw_record (fields : List (String × Option Json)) :
    (Json.record fields).raw = .object (recordTrees fields) := by
  have htrees : ∀ field : String × Option Json,
      (field.2.map (field.1, ·)).map (fun entry => (some entry.1, entry.2.raw)) =
        field.2.map fun value => (some field.1, value.raw) := by
    intro field
    rw [Option.map_map]
    rfl
  rw [Json.record, raw_object, List.map_filterMap, recordTrees]
  simp only [htrees]

theorem occurrences_cons (name key : String) (tree : Raw) (rest : List (Option String × Raw)) :
    Raw.occurrences name ((some key, tree) :: rest) =
      if key = name then tree :: Raw.occurrences name rest else Raw.occurrences name rest := by
  unfold Raw.occurrences
  split
  · rename_i hname
    exact List.filterMap_cons_some (if_pos (congrArg some hname))
  · rename_i hname
    exact List.filterMap_cons_none (if_neg fun heq => hname (Option.some.inj heq))

theorem occurrences_of_not_mem {name : String} (h : name ∉ fields.map Prod.fst) :
    Raw.occurrences name (recordTrees fields) = [] := by
  induction fields with
  | nil => rfl
  | cons field rest ih =>
    obtain ⟨key, written⟩ := field
    obtain ⟨hkey, hrest⟩ := not_or.1 (mt List.mem_cons.2 h)
    cases written with
    | none => exact ih hrest
    | some value =>
      show Raw.occurrences name ((some key, value.raw) :: recordTrees rest) = []
      rw [occurrences_cons, if_neg (Ne.symm hkey)]
      exact ih hrest

theorem occurrences_of_mem (h : (fields.map Prod.fst).Nodup) {field : String × Option Json}
    (hfield : field ∈ fields) :
    Raw.occurrences field.1 (recordTrees fields) = (field.2.map Json.raw).toList := by
  induction fields with
  | nil => cases hfield
  | cons head rest ih =>
    obtain ⟨hhead, hrest⟩ := List.nodup_cons.1 h
    rcases List.mem_cons.1 hfield with rfl | hmem
    · obtain ⟨key, written⟩ := field
      cases written with
      | none =>
        show Raw.occurrences key (recordTrees rest) = []
        exact occurrences_of_not_mem hhead
      | some value =>
        show Raw.occurrences key ((some key, value.raw) :: recordTrees rest) = [value.raw]
        rw [occurrences_cons, if_pos rfl, occurrences_of_not_mem hhead]
    · obtain ⟨key, written⟩ := head
      have hname : field.1 ∈ rest.map Prod.fst := List.mem_map_of_mem hmem
      have hne : key ≠ field.1 := fun heq => hhead (heq ▸ hname)
      cases written with
      | none => exact ih hrest hmem
      | some value =>
        show Raw.occurrences field.1 ((some key, value.raw) :: recordTrees rest) = _
        rw [occurrences_cons, if_neg hne]
        exact ih hrest hmem

/-- The fields of a written record are found, those that are left out as missing. -/
theorem Raw.fields?_record {names : List String} (hnames : fields.map Prod.fst = names)
    (h : names.Nodup) :
    Raw.fields? names (Json.record fields).raw =
      some (fields.map fun field => field.2.map Json.raw) := by
  subst hnames
  have hkeys : ¬((recordTrees fields).any (·.1.isNone) = true) := by
    rw [List.any_eq_true]
    rintro ⟨entry, hentry, hnone⟩
    obtain ⟨field, -, hvalue⟩ := List.mem_filterMap.1 hentry
    obtain ⟨value, -, rfl⟩ := Option.map_eq_some_iff.1 hvalue
    cases hnone
  have hfields : ∀ field ∈ fields,
      field? (recordTrees fields) field.1 = some (field.2.map Json.raw) := by
    intro field hfield
    rw [field?, occurrences_of_mem h hfield]
    cases field.2 <;> rfl
  rw [raw_record, Raw.fields?, if_neg hkeys]
  -- the record stays as it is while the names are looked up one after the other
  generalize recordTrees fields = written at hfields
  clear h hkeys
  induction fields with
  | nil => rfl
  | cons field rest ih =>
    obtain ⟨hfield, hrest⟩ := List.forall_mem_cons.1 hfields
    rw [List.map_cons, List.mapM_cons, hfield, ih hrest]
    rfl

end Json
end LayerGraph
