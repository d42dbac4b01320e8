import LayerGraph.Proofs.Codecs
/-!
# Documents that are written are read again

* `Node.roundTrips`, `Edge.roundTrips`, `Graph.roundTrips` and `Project.roundTrips`: what is read from
  a tree is written within the same depth and read again, however the tree spells it.
* `Project.reads_own_text`: a project that has been read is read from its own text.
-/

namespace LayerGraph
set_option autoImplicit false
open Json (Raw)

/-! ## Parameters -/

theorem ParamValue.roundTrips (k : Nat) : RoundTrips ParamValue.ofRaw? ParamValue.json k := by
  intro tree value htree h
  cases htree with
  | bool b =>
    obtain rfl := Option.some.inj h
    exact ⟨rfl, .bool b⟩
  | string s =>
    obtain rfl := Option.some.inj h
    exact ⟨rfl, .string s⟩
  | @number _ number hrange =>
    obtain rfl := Option.some.inj h
    cases number with
    | float x => exact ⟨rfl, .number hrange⟩
    | int i =>
      by_cases hfits : Word.Fits i
      · have hint : ParamValue.ofNumber (.int i) = .int i := if_pos hfits
        rw [hint]
        exact ⟨congrArg some hint, .number hrange⟩
      · have hfloat : ParamValue.ofNumber (.int i) = .float (Binary64.ofInt i) := if_neg hfits
        rw [hfloat]
        exact ⟨rfl, .number (Binary64.isFinite_ofInt hrange.1 hrange.2)⟩
  | null => cases h
  | array => cases h
  | object => cases h
  | unreadable => cases h

theorem Params.roundTrips (k : Nat) : RoundTrips Params.ofRaw? Params.json (k + 1) :=
  (ParamValue.roundTrips k).table

/-! ## Shapes and types -/

theorem Dim.roundTrips (k : Nat) : RoundTrips Dim.ofRaw? Dim.json k := by
  intro tree dim htree h
  unfold Dim.ofRaw? at h
  split at h
  · rename_i size
    split at h
    · rename_i hfits
      obtain rfl := Option.some.inj h
      constructor
      · exact if_pos hfits
      · cases htree with
        | object hfields =>
          exact .object hfields
    · cases h
  · split at h
    · obtain rfl := Option.some.inj h
      exact ⟨rfl, .string _⟩
    · obtain rfl := Option.some.inj h
      exact ⟨rfl, .string _⟩
    · cases h

theorem Shape.roundTrips (k : Nat) : RoundTrips Shape.ofRaw? Shape.json (k + 1) := by
  intro tree shape htree h
  obtain ⟨dims, hdims, rfl⟩ := Option.map_eq_some_iff.1 h
  have hrestores := (Dim.roundTrips k).list tree dims htree hdims
  exact ⟨congrArg (Option.map Shape.mk) hrestores.read_raw, hrestores.isWithin⟩

theorem SemanticType.find?_word (t : SemanticType) : SemanticType.find? t.word = some t := by
  cases t <;> rfl

theorem SemanticType.roundTrips (k : Nat) :
    RoundTrips SemanticType.ofRaw? SemanticType.json k := fun _ t _ _ =>
  ⟨SemanticType.find?_word t, .string _⟩

/-! ## Nodes -/

/-- The types of a node as they are written, if there are any. -/
def writtenTypes : List SemanticType → Option Json
  | [] => none
  | types => some (.array (types.map SemanticType.json))

/-- A position as it is written, if there is one. -/
def writtenPosition : Json → Option Json
  | .null => none
  | position => some position

/-- The fields of a node, of which those without a value are left out. -/
def Node.fields (n : Node) : List (String × Option Json) :=
  [("id", some (.string n.id)), ("operatorId", some (.string n.operatorId)),
   ("label", some (.string n.label)), ("params", some n.params.json),
   ("isPipeline", some (.bool n.isPipeline)),
   ("propagatedOutputShape", n.outputShape.map Shape.json),
   ("propagatedOutputType", n.outputType.map SemanticType.json),
   ("propagatedOutputTypes", writtenTypes n.outputTypes),
   ("position", writtenPosition n.position)]

theorem Node.json_eq (n : Node) : n.json = Json.record n.fields := by
  obtain ⟨id, operatorId, label, params, isPipeline, shape, type, types, position⟩ := n
  cases shape <;> cases type <;> cases types <;> cases position <;> rfl

theorem Node.fields?_json (n : Node) :
    Raw.fields? Node.fieldNames n.json.raw =
      some (n.fields.map fun field => field.2.map Json.raw) := by
  rw [Node.json_eq]
  exact Raw.fields?_record rfl (by decide)

theorem writtenTypes_cases (types : List SemanticType) :
    types = [] ∧ writtenTypes types = none ∨
      types ≠ [] ∧ writtenTypes types = some (.array (types.map SemanticType.json)) := by
  cases types with
  | nil => exact .inl ⟨rfl, rfl⟩
  | cons => exact .inr ⟨List.cons_ne_nil _ _, rfl⟩

theorem writtenPosition_cases (position : Json) :
    position = .null ∧ writtenPosition position = none ∨
      position ≠ .null ∧ writtenPosition position = some position := by
  cases position with
  | null => exact .inl ⟨rfl, rfl⟩
  | _ => exact .inr ⟨nofun, rfl⟩

theorem Node.roundTrips (k : Nat) : RoundTrips Node.ofRaw? Node.json (k + 2) := by
  intro tree n htree h
  obtain ⟨values, hvalues, h⟩ := Option.bind_eq_some_iff.1 h
  split at h
  case h_2 => cases h
  rename_i id operatorId label params isPipeline shape type types position
  have hwithin : ∀ field ∈ [id, operatorId, label, params, isPipeline, shape, type, types, position],
      ∀ tree, field = some tree → tree.IsWithin Number.InRange (k + 1) :=
    fun field hfield value hvalue => Raw.isWithin_of_fields? htree hvalues (hvalue ▸ hfield)
  simp only [List.forall_mem_cons] at hwithin
  obtain ⟨hid, hoperatorId, hlabel, hparams, hisPipeline, hshape, htype, htypes, hposition, -⟩ :=
    hwithin
  obtain ⟨_, hreadId, h⟩ := Option.bind_eq_some_iff.1 h
  obtain ⟨_, hreadOperatorId, h⟩ := Option.bind_eq_some_iff.1 h
  obtain ⟨_, hreadLabel, h⟩ := Option.bind_eq_some_iff.1 h
  obtain ⟨_, hreadParams, h⟩ := Option.bind_eq_some_iff.1 h
  obtain ⟨_, hreadIsPipeline, h⟩ := Option.bind_eq_some_iff.1 h
  obtain ⟨_, hreadShape, h⟩ := Option.bind_eq_some_iff.1 h
  obtain ⟨_, hreadType, h⟩ := Option.bind_eq_some_iff.1 h
  obtain ⟨_, hreadTypes, h⟩ := Option.bind_eq_some_iff.1 h
  obtain ⟨_, hreadPosition, h⟩ := Option.bind_eq_some_iff.1 h
  obtain rfl := Option.some.inj h
  replace hid := FieldRestores.required RoundTrips.string hid hreadId
  replace hoperatorId := FieldRestores.required RoundTrips.string hoperatorId hreadOperatorId
  replace hlabel := FieldRestores.withDefault RoundTrips.string ⟨rfl, .string ""⟩ hlabel hreadLabel
  replace hparams := FieldRestores.withDefault (Params.roundTrips k)
    ⟨rfl, .object fun _ hfield => by cases hfield⟩ hparams hreadParams
  replace hisPipeline := FieldRestores.withDefault RoundTrips.bool ⟨rfl, .bool false⟩ hisPipeline
    hreadIsPipeline
  replace hshape := FieldRestores.nullable (Shape.roundTrips k) rfl hshape hreadShape
  replace htype := FieldRestores.nullable (SemanticType.roundTrips (k + 1)) rfl htype hreadType
  replace htypes := FieldRestores.leftOut (SemanticType.roundTrips k).list htypes hreadTypes
    (writtenTypes_cases _)
  replace hposition := FieldRestores.leftOut RoundTrips.json hposition hreadPosition
    (writtenPosition_cases _)
  constructor
  · rw [Node.ofRaw?, Node.fields?_json]
    simp only [Node.fields, List.map_cons, List.map_nil, Option.bind_eq_bind, Option.bind_some,
      hid.read_raw, hoperatorId.read_raw, hlabel.read_raw, hparams.read_raw, hisPipeline.read_raw,
      hshape.read_raw, htype.read_raw, htypes.read_raw, hposition.read_raw]
  · rw [Node.json_eq]
    refine Json.isWithin_record ?_
    simp only [Node.fields, List.forall_mem_cons]
    exact ⟨hid.isWithin, hoperatorId.isWithin, hlabel.isWithin, hparams.isWithin,
      hisPipeline.isWithin, hshape.isWithin, htype.isWithin, htypes.isWithin, hposition.isWithin,
      nofun⟩

/-! ## Edges -/

theorem EdgeKind.find?_word (kind : EdgeKind) : EdgeKind.find? kind.word = some kind := by
  cases kind <;> rfl

theorem EdgeKind.roundTrips (k : Nat) :
    RoundTrips EdgeKind.ofRaw? (fun kind => .string kind.word) k := fun _ kind _ _ =>
  ⟨EdgeKind.find?_word kind, .string _⟩

/-- The fields of an edge, of which handles that are not set are left out. -/
def Edge.fields (e : Edge) : List (String × Option Json) :=
  [("id", some (.string e.id)), ("source", some (.string e.source)),
   ("target", some (.string e.target)), ("kind", some (.string e.kind.word)),
   ("sourceHandle", e.sourceHandle.map .string), ("targetHandle", e.targetHandle.map .string)]

theorem Edge.json_eq (e : Edge) : e.json = Json.record e.fields := by
  obtain ⟨id, source, target, kind, sourceHandle, targetHandle⟩ := e
  cases sourceHandle <;> cases targetHandle <;> rfl

theorem Edge.fields?_json (e : Edge) :
    Raw.fields? Edge.fieldNames e.json.raw =
      some (e.fields.map fun field => field.2.map Json.raw) := by
  rw [Edge.json_eq]
  exact Raw.fields?_record rfl (by decide)

theorem Edge.roundTrips (k : Nat) : RoundTrips Edge.ofRaw? Edge.json (k + 1) := by
  intro tree e htree h
  obtain ⟨values, hvalues, h⟩ := Option.bind_eq_some_iff.1 h
  split at h
  case h_2 => cases h
  rename_i id source target kind sourceHandle targetHandle
  have hwithin : ∀ field ∈ [id, source, target, kind, sourceHandle, targetHandle],
      ∀ tree, field = some tree → tree.IsWithin Number.InRange k :=
    fun field hfield value hvalue => Raw.isWithin_of_fields? htree hvalues (hvalue ▸ hfield)
  simp only [List.forall_mem_cons] at hwithin
  obtain ⟨hid, hsource, htarget, hkind, hsourceHandle, htargetHandle, -⟩ := hwithin
  obtain ⟨_, hreadId, h⟩ := Option.bind_eq_some_iff.1 h
  obtain ⟨_, hreadSource, h⟩ := Option.bind_eq_some_iff.1 h
  obtain ⟨_, hreadTarget, h⟩ := Option.bind_eq_some_iff.1 h
  obtain ⟨_, hreadKind, h⟩ := Option.bind_eq_some_iff.1 h
  obtain ⟨_, hreadSourceHandle, h⟩ := Option.bind_eq_some_iff.1 h
  obtain ⟨_, hreadTargetHandle, h⟩ := Option.bind_eq_some_iff.1 h
  obtain rfl := Option.some.inj h
  replace hid := FieldRestores.required RoundTrips.string hid hreadId
  replace hsource := FieldRestores.required RoundTrips.string hsource hreadSource
  replace htarget := FieldRestores.required RoundTrips.string htarget hreadTarget
  replace hkind := FieldRestores.withDefault (EdgeKind.roundTrips k) ⟨rfl, .string _⟩ hkind hreadKind
  replace hsourceHandle :=
    FieldRestores.nullable RoundTrips.string rfl hsourceHandle hreadSourceHandle
  replace htargetHandle :=
    FieldRestores.nullable RoundTrips.string rfl htargetHandle hreadTargetHandle
  constructor
  · rw [Edge.ofRaw?, Edge.fields?_json]
    simp only [Edge.fields, List.map_cons, List.map_nil, Option.bind_eq_bind, Option.bind_some,
      hid.read_raw, hsource.read_raw, htarget.read_raw, hkind.read_raw, hsourceHandle.read_raw,
      htargetHandle.read_raw]
  · rw [Edge.json_eq]
    refine Json.isWithin_record ?_
    simp only [Edge.fields, List.forall_mem_cons]
    exact ⟨hid.isWithin, hsource.isWithin, htarget.isWithin, hkind.isWithin,
      hsourceHandle.isWithin, htargetHandle.isWithin, nofun⟩

/-! ## Graphs and projects -/

/-- The fields of a graph, both of which are written always. -/
def Graph.fields (g : Graph) : List (String × Option Json) :=
  [("nodes", some (.array (g.nodes.map Node.json))),
   ("edges", some (.array (g.edges.map Edge.json)))]

theorem Graph.json_eq (g : Graph) : g.json = Json.record g.fields := rfl

theorem Graph.fields?_json (g : Graph) :
    Raw.fields? ["nodes", "edges"] g.json.raw =
      some (g.fields.map fun field => field.2.map Json.raw) := by
  rw [Graph.json_eq]
  exact Raw.fields?_record rfl (by decide)

theorem Graph.roundTrips (k : Nat) : RoundTrips Graph.ofRaw? Graph.json (k + 4) := by
  intro tree g htree h
  obtain ⟨values, hvalues, h⟩ := Option.bind_eq_some_iff.1 h
  split at h
  case h_2 => cases h
  rename_i nodes edges
  have hwithin : ∀ field ∈ [nodes, edges],
      ∀ tree, field = some tree → tree.IsWithin Number.InRange (k + 3) :=
    fun field hfield value hvalue => Raw.isWithin_of_fields? htree hvalues (hvalue ▸ hfield)
  simp only [List.forall_mem_cons] at hwithin
  obtain ⟨hnodes, hedges, -⟩ := hwithin
  obtain ⟨_, hreadNodes, h⟩ := Option.bind_eq_some_iff.1 h
  obtain ⟨_, hreadEdges, h⟩ := Option.bind_eq_some_iff.1 h
  obtain rfl := Option.some.inj h
  replace hnodes := FieldRestores.withDefault (Node.roundTrips k).list
    ⟨rfl, .array fun _ hitem => by cases hitem⟩ hnodes hreadNodes
  replace hedges := FieldRestores.withDefault (Edge.roundTrips (k + 1)).list
    ⟨rfl, .array fun _ hitem => by cases hitem⟩ hedges hreadEdges
  constructor
  · rw [Graph.ofRaw?, Graph.fields?_json]
    simp only [Graph.fields, List.map_cons, List.map_nil, Option.bind_eq_bind, Option.bind_some,
      hnodes.read_raw, hedges.read_raw]
  · rw [Graph.json_eq]
    refine Json.isWithin_record ?_
    simp only [Graph.fields, List.forall_mem_cons]
    exact ⟨hnodes.isWithin, hedges.isWithin, nofun⟩

/-- The fields of a project, both of which are written always. -/
def Project.fields (p : Project) : List (String × Option Json) :=
  [("architecture", some p.architecture.json), ("pipeline", some p.pipeline.json)]

theorem Project.json_eq (p : Project) : p.json = Json.record p.fields := rfl

theorem Project.fields?_json (p : Project) :
    Raw.fields? ["architecture", "pipeline"] p.json.raw =
      some (p.fields.map fun field => field.2.map Json.raw) := by
  rw [Project.json_eq]
  exact Raw.fields?_record rfl (by decide)

/-- An empty graph is what is read from an empty object. -/
theorem Graph.restores_empty (k : Nat) : Restores Graph.ofRaw? (k + 4) {} (Graph.json {}) :=
  Graph.roundTrips k (.object []) {} (.object nofun) rfl

theorem Project.roundTrips (k : Nat) : RoundTrips Project.ofRaw? Project.json (k + 5) := by
  intro tree p htree h
  obtain ⟨values, hvalues, h⟩ := Option.bind_eq_some_iff.1 h
  split at h
  case h_2 => cases h
  rename_i architecture pipeline
  have hwithin : ∀ field ∈ [architecture, pipeline],
      ∀ tree, field = some tree → tree.IsWithin Number.InRange (k + 4) :=
    fun field hfield value hvalue => Raw.isWithin_of_fields? htree hvalues (hvalue ▸ hfield)
  simp only [List.forall_mem_cons] at hwithin
  obtain ⟨harchitecture, hpipeline, -⟩ := hwithin
  obtain ⟨_, hreadArchitecture, h⟩ := Option.bind_eq_some_iff.1 h
  obtain ⟨_, hreadPipeline, h⟩ := Option.bind_eq_some_iff.1 h
  obtain rfl := Option.some.inj h
  replace harchitecture :=
    FieldRestores.required (Graph.roundTrips k) harchitecture hreadArchitecture
  replace hpipeline := FieldRestores.withDefault (Graph.roundTrips k) (Graph.restores_empty k)
    hpipeline hreadPipeline
  constructor
  · rw [Project.ofRaw?, Project.fields?_json]
    simp only [Project.fields, List.map_cons, List.map_nil, Option.bind_eq_bind, Option.bind_some,
      harchitecture.read_raw, hpipeline.read_raw]
  · rw [Project.json_eq]
    refine Json.isWithin_record ?_
    simp only [Project.fields, List.forall_mem_cons]
    exact ⟨harchitecture.isWithin, hpipeline.isWithin, nofun⟩

/-! ## Texts -/

/-- A project that has been read from any text is read from its own text, and its text is the same
again. A floating-point number may lose its last digits when a text is read, so this is said of
projects whose finite numbers are read back from what is written of them. -/
theorem Project.reads_own_text {text : String} {p : Project} (h : Project.ofText? text = some p)
    (hfloats : ∀ x ∈ p.json.floats, x.isFinite = true → x.IsReadBack) :
    Project.ofText? p.text = some p ∧ (Project.ofText? p.text).map Project.text = some p.text := by
  obtain ⟨tree, htree, hread⟩ := Option.bind_eq_some_iff.1 h
  -- parameters stand five levels deep, so 122 of the levels are left below them
  have hrestores := Project.roundTrips 122 tree p (Json.Raw.isWithin_of_ofText? htree) hread
  have hreadBack := Json.isWithin_isReadBack hrestores.isWithin hfloats
  have hagain : Project.ofText? p.text = some p := by
    rw [Project.ofText?, Project.text, Json.Raw.ofText?_pretty hreadBack, Option.bind_some]
    exact hrestores.read_raw
  exact ⟨hagain, by rw [hagain, Option.map_some]⟩

/-- Records as arrays, a word as an object, a key twice, escapes, integers beyond the words and
negative zero. -/
def spelledProject : String :=
  "[[[[\"a\\u0041\\n\",\"linear\",\"\",\x7b\"n\":18446744073709551616,\"rate\":0.1,\"rate\":1e300," ++
    "\"zero\":-0,\"on\":true\x7d,false,[\"Batch\",\x7b\"Fixed\":3\x7d],null,[\"tensor\"]," ++
    "\x7b\"x\":[1.5,\x7b\x7d],\"x\":[-2.5e-7,[9223372036854775808]]\x7d]]," ++
    "[[\"e\",\"a\",\"b\",\x7b\"sum\":null\x7d,\"out\"]]]]"

theorem Project.reads_own_text_spelled :
    ∃ p, Project.ofText? spelledProject = some p ∧ p.json.floats.length = 4 ∧
      (∀ x ∈ p.json.floats, x.isFinite = true → x.IsReadBack) ∧
      Project.ofText? p.text = some p ∧
      (Project.ofText? p.text).map Project.text = some p.text := by
  have happend : ∀ a b c d : List Char, String.ofList a ++ String.ofList b ++ String.ofList c
      ++ String.ofList d = String.ofList (a ++ b ++ c ++ d) := by
    simp [String.append_assoc]
  -- the characters are taken from the literals, since reading them back from the text is slow
  obtain ⟨cs, hcs, hread⟩ : ∃ cs, String.ofList cs = spelledProject ∧
      ((((Json.Token.scan? cs).bind Json.Raw.ofTokens?).bind Project.ofRaw?).map fun p =>
        decide (p.json.floats.length = 4 ∧
          ∀ x ∈ p.json.floats, x.isFinite = true → x.IsReadBack)) = some true :=
    ⟨_, (happend _ _ _ _).symm, by decide +kernel⟩
  have hchars : cs = spelledProject.toList := by rw [← hcs, String.toList_ofList]
  rw [hchars] at hread
  obtain ⟨p, hp, hdecided⟩ := Option.map_eq_some_iff.1 hread
  obtain ⟨hlength, hfloats⟩ := of_decide_eq_true hdecided
  exact ⟨p, hp, hlength, hfloats, Project.reads_own_text hp hfloats⟩

end LayerGraph
