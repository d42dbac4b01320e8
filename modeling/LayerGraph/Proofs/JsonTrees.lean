import LayerGraph.Proofs.JsonTokens
/-!
# Trees of texts

* `Assembly.gives_tokens`: the tokens of a value put its tree where a value is due, when the value
  lies within the levels that are left.
* `Json.Raw.ofText?_pretty`: the text of a value is read as the tree of the value.
* `Json.Raw.isWithin_of_ofText?`: a tree that is read lies within 127 levels, and its numbers are in
  range.
-/

namespace LayerGraph.Json
set_option autoImplicit false

namespace Assembly

variable {frames : List Frame} {k : Nat}

/-! ## The tokens of a value -/

theorem step_valueOrClose {token : Token} (h : token ≠ .closeBracket) :
    step (.building frames .valueOrClose) token = beginValue frames token := by
  unfold step
  split <;> simp_all

/-- A value, or a value in front of which an array could close. -/
def ValueDue (due : Due) : Prop := due = .value ∨ due = .valueOrClose

theorem step_value {due : Due} (hdue : ValueDue due) {token : Token} (h : token ≠ .closeBracket) :
    step (.building frames due) token = beginValue frames token := by
  rcases hdue with rfl | rfl
  · rfl
  · exact step_valueOrClose h

theorem close_of_length (value : Raw) (h : frames.length + (k + 1) ≤ depthLimit) :
    close value frames = place value frames := by
  rw [close, if_pos (by omega)]

/-- The tokens put the tree where a value is due. -/
def Gives (tokens : List Token) (tree : Raw) (k : Nat) : Prop :=
  ∀ frames due, ValueDue due → frames.length + k ≤ depthLimit →
    tokens.foldlM step (.building frames due) = place tree frames

/-- An item behind the items that are done. -/
theorem foldlM_item {item : Json} (h : Gives item.tokens item.raw k) (done : List Raw) {due : Due}
    (hdue : ValueDue due) (hdepth : frames.length + (k + 1) ≤ depthLimit) :
    item.tokens.foldlM step (.building (.array done :: frames) due) =
      some (.building (.array (item.raw :: done) :: frames) .commaOrClose) := by
  have hframes : (Frame.array done :: frames).length + k ≤ depthLimit := by
    rw [List.length_cons]
    omega
  rw [h _ _ hdue hframes]
  rfl

/-- The items of an array behind those that are done, up to the closing bracket. -/
theorem foldlM_items {items : List Json} (h : ∀ item ∈ items, Gives item.tokens item.raw k)
    (done : List Raw) (hdepth : frames.length + (k + 1) ≤ depthLimit) :
    (upTo .closeBracket (items.map tokens)).foldlM step
        (.building (.array done :: frames) .commaOrClose) =
      place (.array (done.reverse ++ items.map raw)) frames := by
  -- the frame keeps the items last first, so each step moves one over to `done`
  induction items generalizing done with
  | nil =>
    rw [List.map_nil, List.map_nil, List.append_nil, upTo_nil]
    exact (bind_pure _).trans (close_of_length _ hdepth)
  | cons item rest ih =>
    obtain ⟨hitem, hrest⟩ := List.forall_mem_cons.1 h
    rw [List.map_cons, upTo_cons, List.foldlM_cons]
    show (item.tokens ++ _).foldlM step (.building (.array done :: frames) .value) = _
    rw [List.foldlM_append, foldlM_item hitem done (.inl rfl) hdepth]
    show (upTo .closeBracket (rest.map tokens)).foldlM step
      (.building (.array (item.raw :: done) :: frames) .commaOrClose) = _
    rw [ih hrest (item.raw :: done), List.reverse_cons, List.append_assoc]
    rfl

theorem gives_array {items : List Json} (h : ∀ item ∈ items, Gives item.tokens item.raw k) :
    Gives (Json.array items).tokens (Json.array items).raw (k + 1) := by
  intro frames due hdue hdepth
  rw [tokens, itemTokens_eq, raw_array, List.foldlM_cons, step_value hdue (by simp)]
  show (separated (items.map tokens) ++ [Token.closeBracket]).foldlM step
    (.building (.array [] :: frames) .valueOrClose) = _
  cases items with
  | nil => exact (bind_pure _).trans (close_of_length _ hdepth)
  | cons item rest =>
    obtain ⟨hitem, hrest⟩ := List.forall_mem_cons.1 h
    rw [List.map_cons, separated_cons_append, List.foldlM_append,
      foldlM_item hitem [] (.inr rfl) hdepth]
    exact foldlM_items hrest [item.raw] hdepth

/-- A field behind the fields that are done. -/
theorem foldlM_field {key : String} {value : Json} (h : Gives value.tokens value.raw k)
    (done : List (Option String × Raw)) {due : Due} (hdue : due = .key ∨ due = .keyOrClose)
    (hdepth : frames.length + (k + 1) ≤ depthLimit) :
    (.string (some key) :: .colon :: value.tokens).foldlM step
        (.building (.object done :: frames) due) =
      some (.building (.object ((some key, value.raw) :: done) :: frames) .commaOrClose) := by
  have hframes : (Frame.field done (some key) :: frames).length + k ≤ depthLimit := by
    rw [List.length_cons]
    omega
  have hkey : step (.building (.object done :: frames) due) (.string (some key)) =
      some (.building (.field done (some key) :: frames) .colon) := by
    rcases hdue with rfl | rfl
    · rfl
    · cases done <;> rfl
  rw [List.foldlM_cons, hkey]
  show value.tokens.foldlM step (.building (.field done (some key) :: frames) .value) = _
  rw [h _ _ (.inl rfl) hframes]
  rfl

/-- The tokens of a field. -/
abbrev tokensOfField (field : String × Json) : List Token :=
  .string (some field.1) :: .colon :: field.2.tokens

/-- The fields of an object behind those that are done, up to the closing brace. -/
theorem foldlM_fields {fields : List (String × Json)}
    (h : ∀ field ∈ fields, Gives field.2.tokens field.2.raw k)
    (done : List (Option String × Raw)) (hdepth : frames.length + (k + 1) ≤ depthLimit) :
    (upTo .closeBrace (fields.map tokensOfField)).foldlM step
        (.building (.object done :: frames) .commaOrClose) =
      place (.object (done.reverse ++ fields.map fun field => (some field.1, field.2.raw)))
        frames := by
  induction fields generalizing done with
  | nil =>
    rw [List.map_nil, List.map_nil, List.append_nil, upTo_nil]
    exact (bind_pure _).trans (close_of_length _ hdepth)
  | cons field rest ih =>
    obtain ⟨hfield, hrest⟩ := List.forall_mem_cons.1 h
    rw [List.map_cons, upTo_cons, List.foldlM_cons]
    show (tokensOfField field ++ _).foldlM step (.building (.object done :: frames) .key) = _
    rw [List.foldlM_append, foldlM_field hfield done (.inl rfl) hdepth]
    show (upTo .closeBrace (rest.map tokensOfField)).foldlM step
      (.building (.object ((some field.1, field.2.raw) :: done) :: frames) .commaOrClose) = _
    rw [ih hrest, List.reverse_cons, List.append_assoc]
    rfl

theorem gives_object {fields : List (String × Json)}
    (h : ∀ field ∈ fields, Gives field.2.tokens field.2.raw k) :
    Gives (Json.object fields).tokens (Json.object fields).raw (k + 1) := by
  intro frames due hdue hdepth
  rw [tokens, fieldTokens_eq, raw_object, List.foldlM_cons, step_value hdue (by simp)]
  show (separated (fields.map tokensOfField) ++ [Token.closeBrace]).foldlM step
    (.building (.object [] :: frames) .keyOrClose) = _
  cases fields with
  | nil => exact (bind_pure _).trans (close_of_length _ hdepth)
  | cons field rest =>
    obtain ⟨hfield, hrest⟩ := List.forall_mem_cons.1 h
    rw [List.map_cons, separated_cons_append, List.foldlM_append,
      foldlM_field hfield [] (.inr rfl) hdepth]
    exact foldlM_fields hrest [(some field.1, field.2.raw)] hdepth

/-- The tokens of a value give its tree. -/
theorem gives_tokens {good : Number → Prop} {value : Json} (h : value.raw.IsWithin good k) :
    Gives value.tokens value.raw k := by
  induction value using inductOn generalizing k with
  | null => exact fun frames due hdue _ => (bind_pure _).trans (step_value hdue (by simp))
  | bool => exact fun frames due hdue _ => (bind_pure _).trans (step_value hdue (by simp))
  | number => exact fun frames due hdue _ => (bind_pure _).trans (step_value hdue (by simp))
  | string => exact fun frames due hdue _ => (bind_pure _).trans (step_value hdue (by simp))
  | array items ih =>
    obtain ⟨k, rfl⟩ := exists_succ_of_isWithin_array h
    rw [isWithin_array_iff] at h
    exact gives_array fun item hitem => ih item hitem (h item hitem)
  | object fields ih =>
    obtain ⟨k, rfl⟩ := exists_succ_of_isWithin_object h
    rw [isWithin_object_iff] at h
    exact gives_object fun field hfield => ih field hfield (h field hfield)

end Assembly

/-- The text of a value is read as the tree of the value. -/
theorem Raw.ofText?_pretty {value : Json} (h : value.raw.IsWithin Number.IsReadBack depthLimit) :
    Raw.ofText? value.pretty = some value.raw := by
  have hscan : Token.scan? value.pretty.toList = some value.tokens := by
    rw [pretty, String.toList_ofList]
    exact (scans_chars h (some 0)).scan?
  have hgives : value.tokens.foldlM Assembly.step Assembly.start = some (.done value.raw) :=
    Assembly.gives_tokens h [] .value (.inl rfl) (by simp)
  rw [Raw.ofText?, hscan, Option.bind_some, Raw.ofTokens?, hgives]
  rfl

/-! ## Trees that are read -/

/-- The trees that a frame holds. -/
def Frame.trees : Frame → List Raw
  | .array items => items
  | .object fields => fields.map Prod.snd
  | .field fields _ => fields.map Prod.snd

namespace Assembly

/-- What the frames hold lies within the levels that are left where they stand. -/
def FramesWithin : List Frame → Prop
  | [] => True
  | frame :: outer =>
    (∀ tree ∈ frame.trees, tree.IsWithin Number.InRange (depthLimit - (outer.length + 1))) ∧
      FramesWithin outer

/-- What has been put together lies within the levels that are left. -/
def IsWithin : Assembly → Prop
  | .building frames _ => FramesWithin frames
  | .done tree => tree.IsWithin Number.InRange depthLimit

variable {frames outer : List Frame} {next : Assembly} {token : Token}

theorem isWithin_of_place {value : Raw} (hframes : FramesWithin frames)
    (hvalue : value.IsWithin Number.InRange (depthLimit - frames.length))
    (h : place value frames = some next) : next.IsWithin := by
  cases frames with
  | nil =>
    obtain rfl := Option.some.inj h
    exact hvalue
  | cons frame outer =>
    obtain ⟨htrees, houter⟩ := hframes
    cases frame with
    | array items =>
      obtain rfl := Option.some.inj h
      exact ⟨List.forall_mem_cons.2 ⟨hvalue, htrees⟩, houter⟩
    | object fields => cases h
    | field fields key =>
      obtain rfl := Option.some.inj h
      exact ⟨List.forall_mem_cons.2 ⟨hvalue, htrees⟩, houter⟩

/-- An array or object below the deepest level has no value, whatever it holds. -/
theorem isWithin_of_close {value : Raw} (houter : FramesWithin outer)
    (hvalue : value.IsWithin Number.InRange (depthLimit - (outer.length + 1) + 1))
    (h : close value outer = some next) : next.IsWithin := by
  refine isWithin_of_place houter ?_ h
  split
  · rename_i hlength
    have hlevels : depthLimit - outer.length = depthLimit - (outer.length + 1) + 1 := by omega
    rw [hlevels]
    exact hvalue
  · exact .unreadable

theorem framesWithin_cons_empty {frame : Frame} (hempty : frame.trees = [])
    (houter : FramesWithin outer) : FramesWithin (frame :: outer) := by
  refine ⟨fun tree htree => ?_, houter⟩
  rw [hempty] at htree
  cases htree

theorem isWithin_of_beginValue (hframes : FramesWithin frames) (htoken : token.InRange)
    (h : beginValue frames token = some next) : next.IsWithin := by
  cases token with
  | null => exact isWithin_of_place hframes .null h
  | bool value => exact isWithin_of_place hframes (.bool value) h
  | number value =>
    cases value with
    | none => exact isWithin_of_place hframes .unreadable h
    | some value => exact isWithin_of_place hframes (.number htoken) h
  | string value =>
    cases value with
    | none => exact isWithin_of_place hframes .unreadable h
    | some value => exact isWithin_of_place hframes (.string value) h
  | openBracket =>
    obtain rfl := Option.some.inj h
    exact framesWithin_cons_empty rfl hframes
  | openBrace =>
    obtain rfl := Option.some.inj h
    exact framesWithin_cons_empty rfl hframes
  | closeBracket => cases h
  | closeBrace => cases h
  | comma => cases h
  | colon => cases h

theorem isWithin_of_beginField (hframes : FramesWithin frames)
    (h : beginField frames token = some next) : next.IsWithin := by
  unfold beginField at h
  split at h
  · split at h
    · obtain rfl := Option.some.inj h
      exact hframes
    · cases h
  · cases h

/-- A token keeps what has been put together within the levels. -/
theorem isWithin_of_step {state : Assembly} (hstate : state.IsWithin) (htoken : token.InRange)
    (h : step state token = some next) : next.IsWithin := by
  unfold step at h
  split at h
  · cases h
  · exact isWithin_of_beginValue hstate htoken h
  · exact isWithin_of_close hstate.2 (.array fun item hitem => by cases hitem) h
  · exact isWithin_of_beginValue hstate htoken h
  · exact isWithin_of_beginField hstate h
  · exact isWithin_of_close hstate.2 (.object fun field hfield => by cases hfield) h
  · exact isWithin_of_beginField hstate h
  · obtain rfl := Option.some.inj h
    exact hstate
  · split at h
    · obtain rfl := Option.some.inj h
      exact hstate
    · exact isWithin_of_close hstate.2
        (.array fun item hitem => hstate.1 item (List.mem_reverse.1 hitem)) h
    · cases h
  · split at h
    · obtain rfl := Option.some.inj h
      exact hstate
    · exact isWithin_of_close hstate.2
        (.object fun field hfield =>
          hstate.1 field.2 (List.mem_map_of_mem (List.mem_reverse.1 hfield))) h
    · cases h
  · cases h

theorem isWithin_of_foldlM {tokens : List Token} {state : Assembly} (hstate : state.IsWithin)
    (htokens : ∀ token ∈ tokens, token.InRange) (h : tokens.foldlM step state = some next) :
    next.IsWithin := by
  induction tokens generalizing state with
  | nil =>
    obtain rfl := Option.some.inj h
    exact hstate
  | cons token rest ih =>
    obtain ⟨htoken, hrest⟩ := List.forall_mem_cons.1 htokens
    rw [List.foldlM_cons] at h
    obtain ⟨state', hstep, h⟩ := Option.bind_eq_some_iff.1 h
    exact ih (isWithin_of_step hstate htoken hstep) hrest h

end Assembly

/-- A tree that is read lies within the deepest level, and its numbers are in range. -/
theorem Raw.isWithin_of_ofText? {text : String} {tree : Raw} (h : Raw.ofText? text = some tree) :
    tree.IsWithin Number.InRange depthLimit := by
  obtain ⟨tokens, htokens, h⟩ := Option.bind_eq_some_iff.1 h
  obtain ⟨last, hlast, htree⟩ := Option.bind_eq_some_iff.1 h
  -- the text decides the numbers, the tokens decide the depth
  have hstart : Assembly.start.IsWithin := trivial
  have hwithin := Assembly.isWithin_of_foldlM hstart (Token.inRange_of_scan? htokens) hlast
  cases last with
  | building frames due => cases htree
  | done other =>
    obtain rfl := Option.some.inj htree
    exact hwithin

end LayerGraph.Json
