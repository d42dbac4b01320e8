import LayerGraph.Proofs.Retouch
import LayerGraph.Proofs.ShapeEquations
/-!
# Edits after an overlay has been written

`SessionStep.apply` writes the sizes that propagation learned into the parameters of the nodes.
Afterwards they look as if the user had set them, and propagation does not read them; but two tests
do. So a later edit can be refused on account of a size that was learned before it.

* `Graph.setParam` sets one parameter of one node, `Graph.written` writes an overlay.
* `Propagation.left?` are the sizes that an overlay has written and that the edit leaves.
* `Propagation.Lasts before after edges id name`: what is left of the first overlay passes the two
  tests, the second with the shapes after the edit.
* `valid_setParam_written_iff`: an edit that is in order without the overlay is in order with it
  exactly when the overlay lasts. It need not last (`not_valid_setParam_written`).
-/

namespace LayerGraph
set_option autoImplicit false

/-! ## Edits -/

namespace Graph

/-- The graph with one parameter of a node set. -/
def setParam (g : Graph) (id name : String) (value : ParamValue) : Graph :=
  { g with nodes := changeFirst id (·.insert name value) g.nodes }

/-- The graph with an overlay written into its nodes. -/
def written (g : Graph) (overlay : Propagation) : Graph :=
  { g with nodes := overlay.apply g.nodes }

end Graph

/-- The node with a parameter set, if it is the one of the id. -/
def Node.setParam (id name : String) (value : ParamValue) (n : Node) : Node :=
  if n.id = id then { n with params := n.params.insert name value } else n

section Edits

variable {id name : String} {value : ParamValue} {overlay : Propagation} {nodes : List Node}

theorem Node.keeps_setParam (id name : String) (value : ParamValue) :
    Node.Keeps (Node.setParam id name value) where
  id := by
    intro n
    unfold Node.setParam
    split <;> rfl
  operatorId := by
    intro n
    unfold Node.setParam
    split <;> rfl
  isPipeline := by
    intro n
    unfold Node.setParam
    split <;> rfl

theorem Node.keeps_applyTo (overlay : Propagation) : Node.Keeps overlay.applyTo where
  id := fun _ => rfl
  operatorId := fun _ => rfl
  isPipeline := fun _ => rfl

theorem Node.Keeps.comp {f g : Node → Node} (hf : Node.Keeps f) (hg : Node.Keeps g) :
    Node.Keeps fun n => f (g n) where
  id := fun n => (hf.id (g n)).trans (hg.id n)
  operatorId := fun n => (hf.operatorId (g n)).trans (hg.operatorId n)
  isPipeline := fun n => (hf.isPipeline (g n)).trans (hg.isPipeline n)

theorem Node.get?_setParam (n : Node) (key : String) :
    (n.setParam id name value).params.get? key =
      if n.id = id ∧ key = name then some value else n.params.get? key := by
  unfold Node.setParam
  by_cases hid : n.id = id <;> simp [hid]

theorem Node.get?_applyTo (n : Node) (key : String) :
    (overlay.applyTo n).params.get? key =
      ((overlay.learned.get? n.id).bind (·.get? key)).or (n.params.get? key) := by
  rw [Propagation.applyTo, Table.get?_overlay]
  cases overlay.learned.get? n.id <;> rfl

/-- With distinct ids the first node of an id is the only one. -/
theorem changeFirst_eq_map (hids : (nodes.map Node.id).Nodup) :
    Graph.changeFirst id (·.insert name value) nodes = nodes.map (Node.setParam id name value) := by
  induction nodes with
  | nil => rfl
  | cons n rest ih =>
    obtain ⟨hn, hrest⟩ := List.nodup_cons.1 hids
    rw [Graph.changeFirst, List.map_cons, Node.setParam]
    by_cases hid : n.id = id
    · have hothers : rest.map (Node.setParam id name value) = rest := by
        rw [List.map_congr_left (g := fun m => m), List.map_id']
        intro m hm
        have hne : m.id ≠ id := fun heq => hn (hid.trans heq.symm ▸ List.mem_map_of_mem hm)
        exact if_neg hne
      rw [if_pos hid, if_pos hid, hothers]
    · rw [if_neg hid, if_neg hid, ih hrest]

/-- A parameter that is set before an overlay is written can as well be set afterwards. -/
theorem Node.setParam_applyTo_setParam (n : Node) :
    (overlay.applyTo (n.setParam id name value)).setParam id name value =
      (overlay.applyTo n).setParam id name value := by
  have hparams : ((overlay.applyTo (n.setParam id name value)).setParam id name value).params =
      ((overlay.applyTo n).setParam id name value).params := by
    apply Table.ext_get?
    intro key
    have hid : (n.setParam id name value).id = n.id := (Node.keeps_setParam id name value).id n
    have happlied : ∀ m : Node, (overlay.applyTo m).id = m.id := fun _ => rfl
    simp only [Node.get?_setParam, Node.get?_applyTo, happlied, hid]
    split
    · rfl
    · rfl
  by_cases hid : n.id = id
  · have happlied : (overlay.applyTo n).id = id := hid
    have hset : (overlay.applyTo { n with params := n.params.insert name value }).id = id := hid
    simp only [Node.setParam, if_pos hid, if_pos happlied, if_pos hset] at hparams ⊢
    exact congrArg (fun params => { overlay.applyTo n with params := params }) hparams
  · simp only [Node.setParam, if_neg hid]

end Edits

/-! ## Written sizes -/

theorem get?_single (key : String) (size : Int) (name : String) :
    (Table.ofList [(key, ParamValue.int size)]).get? name =
      if name = key then some (.int size) else none := by
  rw [Table.ofList, Table.get?_insertMany]
  by_cases h : name = key <;> simp [Table.lookup_cons_eq, h]

/-- The size that an overlay has written for a parameter of a node, unless the edit of another
parameter sets this one. -/
def Propagation.left? (overlay : Propagation) (id name node param : String) : Option Int :=
  if node = id ∧ param = name then none
  else (overlay.learned.get? node).bind (·.int? param)

section Sizes

variable {net : Network} {overlay : Propagation} {faults : List Fault}
  {id name node param : String} {size : Int}

/-- What is recorded as learned is the size of the dimension that the rule learns. -/
theorem Propagation.size_of_learnedOf {rule : Rule} {params : Params} {inputs : List Shape}
    {result : RuleResult} (happly : rule.apply params inputs = .ok result) {learned : Params}
    (h : Propagation.learnedOf result = some learned) :
    ∃ input name size, inputs = [input] ∧ rule.learnedName? = some name ∧
      learnedDim? name input = some (.fixed size) ∧
        learned = Table.ofList [(name, .int size)] := by
  unfold Propagation.learnedOf at h
  split at h
  · cases h
  · rename_i hnonempty
    cases hname : rule.learnedName? with
    | none => exact absurd (List.isEmpty_iff.2 (Rule.learned_eq_nil happly hname)) hnonempty
    | some name =>
      obtain ⟨input, dim, hinputs, hdim, hlearn⟩ := Rule.learned_of_apply happly hname
      cases dim with
      | batch => simp [hlearn, Rule.learn, Dim.size?] at hnonempty
      | unknown => simp [hlearn, Rule.learn, Dim.size?] at hnonempty
      | fixed size =>
        have hlist : result.learned = [(name, .int size)] := hlearn
        exact ⟨input, name, size, hinputs, rfl, hdim, hlist ▸ (Option.some.inj h).symm⟩

/-- What is learned for a node is the one size that its rule learns. -/
theorem Network.IsSolved.exists_size (h : net.IsSolved overlay faults) {params : Params}
    (hlearned : overlay.learned.get? node = some params) :
    ∃ p ∈ net.nodes, p.id = node ∧ ∃ param size, p.operator.rule.learnedName? = some param ∧
      params = Table.ofList [(param, .int size)] := by
  obtain ⟨p, hp, hid, -, result, hgives, hresult⟩ := (h.learned node params).1 hlearned
  obtain ⟨inputs, happly⟩ := hgives.exists_apply
  obtain ⟨-, param, size, -, hname, -, hparams⟩ := Propagation.size_of_learnedOf happly hresult
  exact ⟨p, hp, hid, param, size, hname, hparams⟩

theorem Network.IsSolved.get?_learned (h : net.IsSolved overlay faults) (node param : String) :
    (overlay.learned.get? node).bind (·.get? param) =
      ((overlay.learned.get? node).bind (·.int? param)).map .int := by
  cases hlearned : overlay.learned.get? node with
  | none => rfl
  | some params =>
    obtain ⟨-, -, -, key, size, -, rfl⟩ := h.exists_size hlearned
    rw [Option.bind_some, Option.bind_some, Params.int?, get?_single]
    split <;> rfl

theorem Network.IsSolved.exists_of_left? (h : net.IsSolved overlay faults)
    (hleft : overlay.left? id name node param = some size) :
    ¬ (node = id ∧ param = name) ∧
      ∃ p ∈ net.nodes, p.id = node ∧ p.operator.rule.learnedName? = some param := by
  unfold Propagation.left? at hleft
  split at hleft
  · cases hleft
  · rename_i hother
    obtain ⟨params, hlearned, hint⟩ := Option.bind_eq_some_iff.1 hleft
    obtain ⟨p, hp, hid, key, size', hname, rfl⟩ := h.exists_size hlearned
    rw [Params.int?, get?_single] at hint
    split at hint
    · rename_i hkey
      exact ⟨hother, p, hp, hid, hkey ▸ hname⟩
    · cases hint

end Sizes

/-! ## The tests of parameters -/

theorem Table.mem_names_iff {α : Type} {table : Table α} {name : String} :
    name ∈ table.names ↔ table.get? name ≠ none := by
  have hnames : (table.entries.map Prod.fst).Nodup := table.nodup_names
  rw [Option.ne_none_iff_exists', Table.names, List.mem_map]
  constructor
  · rintro ⟨⟨key, value⟩, hentry, rfl⟩
    exact ⟨value, (Table.lookup_eq_some_iff hnames).2 hentry⟩
  · rintro ⟨value, hvalue⟩
    exact ⟨(name, value), (Table.lookup_eq_some_iff hnames).1 hvalue, rfl⟩

namespace Operator

theorem problems_eq_nil_iff {o : Operator} {params : Params} :
    o.problems params = [] ↔ (∀ decl ∈ o.params, declProblem? params decl = none) ∧
      ∀ name, params.get? name ≠ none → (o.param? name).isSome = true := by
  rw [problems, List.append_eq_nil_iff, List.filterMap_eq_nil_iff, List.map_eq_nil_iff,
    List.filter_eq_nil_iff]
  refine and_congr_right fun _ => forall_congr' fun name => ?_
  rw [Table.mem_names_iff]
  simp [Option.isSome_iff_ne_none]

/-- One declared parameter more is in order when it passes its own test. -/
theorem problems_set_iff {o : Operator} (hdeclared : o.WellDeclared) {a b : Params}
    (ha : o.problems a = []) {decl : ParamDecl} (hdecl : decl ∈ o.params) {value : ParamValue}
    (hb : ∀ key, b.get? key = if key = decl.name then some value else a.get? key) :
    o.problems b = [] ↔ decl.Checks value := by
  have hvalue : b.get? decl.name = some value := by rw [hb, if_pos rfl]
  constructor
  · intro h
    exact checks_of_problems_eq_nil h hdecl hvalue
  · intro hchecks
    obtain ⟨hdecls, hnames⟩ := problems_eq_nil_iff.1 ha
    refine problems_eq_nil_iff.2 ⟨fun other hother => ?_, fun key hkey => ?_⟩
    · by_cases hname : other.name = decl.name
      · obtain rfl := List.inj_on_of_nodup_map hdeclared.1 hother hdecl hname
        have hcheck : other.check value = .ok () := hchecks
        rw [declProblem?, hvalue]
        simp only [hcheck]
      · have hsame : declProblem? b other = declProblem? a other := by
          rw [declProblem?, declProblem?, hb, if_neg hname]
        rw [hsame]
        exact hdecls other hother
    · by_cases hname : key = decl.name
      · rw [hname, param?, List.find?_isSome]
        exact ⟨decl, hdecl, beq_self_eq_true decl.name⟩
      · rw [hb, if_neg hname] at hkey
        exact hnames key hkey

theorem inputSize_mem {o : Operator} (h : o ∈ Architecture.all) {param : String}
    (hname : o.rule.learnedName? = some param) : Architecture.inputSize param ∈ o.params := by
  have hall : ∀ o ∈ Architecture.all, ∀ param ∈ learnedNames,
      o.rule.learnedName? = some param → Architecture.inputSize param ∈ o.params := by
    decide +kernel
  exact hall o h param (Rule.learnedName?_mem hname) hname

theorem checks_inputSize_iff {param : String} {size : Int} :
    (Architecture.inputSize param).Checks (.int size) ↔ 1 ≤ size := by
  simp only [ParamDecl.Checks, ParamDecl.check, Architecture.inputSize, ParamDecl.int,
    ParamDecl.optional, ParamValue.int?, ParamDecl.checkInt]
  by_cases hsize : size < 1
  · simp [Option.filter, hsize]
  · simp [Option.filter, hsize]
    omega

end Operator

/-! ## The two tests after an edit -/

/-- The numbers of features that a node provides, by the propagated shapes. -/
def Propagation.features? (overlay : Propagation) (id : String) : Option Int :=
  ((overlay.shape? id).bind Shape.last?).bind Dim.size?

/-- What an overlay has written, and an edit has left, is still in order: every size is positive,
and every number of input features is the one that is provided after the edit. -/
structure Propagation.Lasts (before after : Propagation) (edges : List Edge) (id name : String) :
    Prop where
  positive : ∀ node param size, before.left? id name node param = some size → 1 ≤ size
  features : ∀ e ∈ edges, e.kind = .normal → ∀ stored provided,
    before.left? id name e.target "in_features" = some stored →
      after.features? e.source = some provided → stored = provided

/-- A node with an overlay written and a parameter set afterwards. -/
def Node.rewrite (overlay : Propagation) (id name : String) (value : ParamValue) (n : Node) :
    Node :=
  (overlay.applyTo n).setParam id name value

theorem Node.keeps_rewrite (overlay : Propagation) (id name : String) (value : ParamValue) :
    Node.Keeps (Node.rewrite overlay id name value) :=
  (Node.keeps_setParam id name value).comp (Node.keeps_applyTo overlay)

section Rewritten

variable {net : Network} {nodes : List Node} {edges : List Edge} {before after : Propagation}
  {faults : List Fault} {id name : String} {value : ParamValue} {m n : Node}

/-- After the edit a node has what the overlay has left, over what the edit alone gives it. -/
theorem Network.IsSolved.get?_rewrite (h : net.IsSolved before faults)
    (hm : m = n.setParam id name value) (key : String) :
    (m.rewrite before id name value).params.get? key =
      ((before.left? id name m.id key).map .int).or (m.params.get? key) := by
  have hid : (before.applyTo m).id = m.id := rfl
  rw [Node.rewrite, Node.get?_setParam, Node.get?_applyTo, hid, Propagation.left?]
  by_cases hset : m.id = id ∧ key = name
  · have hedited : m.params.get? key = some value := by
      have hnode : n.id = id := by
        rw [hm, (Node.keeps_setParam id name value).id] at hset
        exact hset.1
      rw [hm, Node.get?_setParam, if_pos ⟨hnode, hset.2⟩]
    rw [if_pos hset, if_pos hset, hedited]
    rfl
  · rw [if_neg hset, if_neg hset, h.get?_learned]

theorem Network.IsSolved.agrees_rewrite (h : net.IsSolved before faults)
    (hm : m = n.setParam id name value) :
    (m.rewrite before id name value).params.Agrees m.params := by
  intro key hkey
  rw [h.get?_rewrite hm]
  cases hleft : before.left? id name m.id key with
  | none => rfl
  | some size =>
    obtain ⟨-, p, -, -, hname⟩ := h.exists_of_left? hleft
    exact absurd (Rule.learnedName?_mem hname) hkey

theorem Network.IsSolved.learnedName?_of_left? (h : net.IsSolved before faults)
    (hnet : net.IsOf nodes edges) (hn : n ∈ nodes) (hm : m = n.setParam id name value)
    {o : Operator} (ho : m.operator = .ok o) {param : String} {size : Int}
    (hleft : before.left? id name m.id param = some size) :
    o.rule.learnedName? = some param := by
  have hkeeps := Node.keeps_setParam id name value
  obtain ⟨-, p, hp, hid, hname⟩ := h.exists_of_left? hleft
  have hnode : p.node = n := by
    rw [hm, hkeeps.id] at hid
    exact List.inj_on_of_nodup_map hnet.nodup_ids (hnet.node_mem hp) hn hid
  have hoperator := hnet.operator p hp
  rw [hnode, ← hkeeps.operator, ← hm, ho] at hoperator
  exact Except.ok.inj hoperator ▸ hname

theorem Network.IsSolved.get?_rewrite_of_left? (h : net.IsSolved before faults)
    (hnet : net.IsOf nodes edges) (hn : n ∈ nodes) (hm : m = n.setParam id name value)
    {o : Operator} (ho : m.operator = .ok o) {param : String} {size : Int}
    (hleft : before.left? id name m.id param = some size) (key : String) :
    (m.rewrite before id name value).params.get? key =
      if key = param then some (.int size) else m.params.get? key := by
  -- Only one size can be left, since the rule of the node learns only one.
  have hname := h.learnedName?_of_left? hnet hn hm ho hleft
  rw [h.get?_rewrite hm]
  split
  · rename_i hkey
    rw [hkey, hleft]
    rfl
  · rename_i hkey
    cases hother : before.left? id name m.id key with
    | none => rfl
    | some other =>
      have hlearned := h.learnedName?_of_left? hnet hn hm ho hother
      exact absurd (Option.some.inj (hlearned.symm.trans hname)) hkey

/-- The parameters of a node stay in order exactly when the sizes that are left are positive. -/
theorem Network.IsSolved.isProper_rewrite_iff (h : net.IsSolved before faults)
    (hnet : net.IsOf nodes edges) (hn : n ∈ nodes) (hm : m = n.setParam id name value)
    (hproper : m.IsProper .architecture) :
    (m.rewrite before id name value).IsProper .architecture ↔
      ∀ param size, before.left? id name m.id param = some size → 1 ≤ size := by
  obtain ⟨hmode, o, ho, hproblems⟩ := hproper
  have hkeeps := Node.keeps_rewrite before id name value
  rw [Node.isProper_iff ((hkeeps.operator m).trans ho) ((hkeeps.mode m).trans hmode)]
  by_cases hsome : ∃ param size, before.left? id name m.id param = some size
  · obtain ⟨param, size, hleft⟩ := hsome
    have hname := h.learnedName?_of_left? hnet hn hm ho hleft
    have hall := Node.mem_all_of_operator hmode ho
    rw [Operator.problems_set_iff (Operator.wellDeclared .architecture hall) hproblems
      (Operator.inputSize_mem hall hname) (h.get?_rewrite_of_left? hnet hn hm ho hleft),
      Operator.checks_inputSize_iff]
    constructor
    · intro hsize other size' hother
      have hlearned := h.learnedName?_of_left? hnet hn hm ho hother
      obtain rfl := Option.some.inj (hlearned.symm.trans hname)
      obtain rfl := Option.some.inj (hother.symm.trans hleft)
      exact hsize
    · intro hsizes
      exact hsizes param size hleft
  · have hsame : (m.rewrite before id name value).params = m.params := by
      apply Table.ext_get?
      intro key
      rw [h.get?_rewrite hm]
      cases hleft : before.left? id name m.id key with
      | none => rfl
      | some size => exact absurd ⟨key, size, hleft⟩ hsome
    rw [hsame]
    exact ⟨fun _ param size hleft => absurd ⟨param, size, hleft⟩ hsome, fun _ => hproblems⟩

theorem Network.IsSolved.forall_isProper_rewrite_iff (h : net.IsSolved before faults)
    (hnet : net.IsOf nodes edges)
    (hproper : ∀ m ∈ nodes.map (Node.setParam id name value), m.IsProper .architecture) :
    (∀ m ∈ nodes.map (Node.setParam id name value),
        (m.rewrite before id name value).IsProper .architecture) ↔
      ∀ node param size, before.left? id name node param = some size → 1 ≤ size := by
  constructor
  · intro hall node param size hleft
    obtain ⟨-, p, hp, hid, -⟩ := h.exists_of_left? hleft
    have hn := hnet.node_mem hp
    have hm := List.mem_map_of_mem (f := Node.setParam id name value) hn
    have hmid : (p.node.setParam id name value).id = node :=
      ((Node.keeps_setParam id name value).id p.node).trans hid
    exact (h.isProper_rewrite_iff hnet hn rfl (hproper _ hm)).1 (hall _ hm) param size
      (hmid ▸ hleft)
  · intro hsizes m hm
    obtain ⟨n, hn, heq⟩ := List.mem_map.1 hm
    exact (h.isProper_rewrite_iff hnet hn heq.symm (hproper m hm)).2 (hsizes m.id)

theorem exists_setParam_of_resolveEnds {e : Edge} {ends : Ends}
    (h : resolveEnds e (nodes.map (Node.setParam id name value)) = .ok ends) :
    ∃ n ∈ nodes, ends.target.node = n.setParam id name value := by
  obtain ⟨-, ⟨hfound, -⟩, -⟩ := resolveEnds_eq_ok_iff.1 h
  obtain ⟨n, hn, heq⟩ := List.mem_map.1 (List.mem_of_find?_eq_some hfound)
  exact ⟨n, hn, heq.symm⟩

theorem Network.IsSolved.int?_rewrite (h : net.IsSolved before faults) {ends : Ends}
    (hm : ends.target.node = n.setParam id name value) (key : String) :
    (ends.change (Node.rewrite before id name value)).target.node.params.int? key =
      (before.left? id name ends.target.id key).or (ends.target.node.params.int? key) := by
  have hnode : (ends.change (Node.rewrite before id name value)).target.node =
      ends.target.node.rewrite before id name value := rfl
  rw [hnode, Params.int?, Params.int?, h.get?_rewrite hm, Placed.id]
  cases before.left? id name ends.target.node.id key <;> rfl

/-- The dense layers keep the features that are provided exactly when the sizes that are left are
those numbers. -/
theorem Network.IsSolved.featuresFit_iff (h : net.IsSolved before faults)
    (hnet : net.IsOf nodes edges) {edited : Network} {order : Emission}
    (hsound : IsSound (nodes.map (Node.setParam id name value)) edges edited order after) :
    FeaturesFit (nodes.map (Node.setParam id name value)) edges after
        (Node.rewrite before id name value) ↔
      ∀ e ∈ edges, e.kind = .normal → ∀ stored provided,
        before.left? id name e.target "in_features" = some stored →
          after.features? e.source = some provided → stored = provided := by
  constructor
  · intro hfit e he hkind stored provided hleft hprovided
    obtain ⟨ends, hends, -⟩ := checkDrawn_eq_ok_iff.1 (hsound.drawn e he)
    obtain ⟨hsourceid, htargetid, -⟩ := ids_of_resolveEnds hends
    obtain ⟨n, hn, hm⟩ := exists_setParam_of_resolveEnds hends
    obtain ⟨-, ⟨-, hoperator⟩, -⟩ := resolveEnds_eq_ok_iff.1 hends
    rw [← htargetid] at hleft
    have hlinear : ends.target.operator.rule = .linear :=
      Rule.eq_linear_of_learnedName? (h.learnedName?_of_left? hnet hn hm hoperator hleft)
    obtain ⟨last, hlast, hsize⟩ := Option.bind_eq_some_iff.1 hprovided
    obtain ⟨produced, hproduced, hlast⟩ := Option.bind_eq_some_iff.1 hlast
    have hcheck := hfit e he hkind ends hends hlinear produced (hsourceid ▸ hproduced)
    apply checkFeatures_eq_ok_iff.1 hcheck
    · rw [h.int?_rewrite hm, hleft]
      rfl
    · rw [hlast]
      exact hsize
  · intro hsizes e he hkind ends hends hlinear produced hproduced
    obtain ⟨hsourceid, htargetid, -⟩ := ids_of_resolveEnds hends
    obtain ⟨n, hn, hm⟩ := exists_setParam_of_resolveEnds hends
    apply checkFeatures_eq_ok_iff.2
    intro declared provided hset hprovided
    rw [h.int?_rewrite hm] at hset
    cases hleft : before.left? id name ends.target.id "in_features" with
    | some stored =>
      rw [hleft] at hset
      obtain rfl : stored = declared := Option.some.inj hset
      apply hsizes e he hkind stored provided (htargetid ▸ hleft)
      rw [Propagation.features?, ← hsourceid, hproduced]
      exact hprovided
    | none =>
      -- Nothing is left here, so this is what the edit alone was tested with.
      rw [hleft] at hset
      obtain ⟨ends', hends', hshapes⟩ := checkDrawnShapes_eq_ok_iff.1 (hsound.shapes e he)
      obtain rfl := Except.ok.inj (hends'.symm.trans hends)
      obtain ⟨-, hfeatures, -⟩ := (checkShapes_operand_iff (.inl hkind)).1 hshapes produced hproduced
      exact checkFeatures_eq_ok_iff.1 (hfeatures hlinear) declared provided hset hprovided

end Rewritten

/-! ## Edits after a write-back -/

theorem Graph.nodes_setParam_written (g : Graph) (overlay : Propagation) (id name : String)
    (value : ParamValue) (hids : (g.nodes.map Node.id).Nodup) :
    ((g.written overlay).setParam id name value).nodes =
      (g.nodes.map (Node.setParam id name value)).map (Node.rewrite overlay id name value) := by
  have hwritten : ((overlay.apply g.nodes).map Node.id).Nodup := by
    rw [Propagation.apply, List.map_map]
    exact hids
  rw [Graph.setParam, Graph.written, changeFirst_eq_map hwritten, Propagation.apply, List.map_map,
    List.map_map]
  apply List.map_congr_left
  intro n _
  exact (Node.setParam_applyTo_setParam n).symm

theorem Project.isValid_withGraph_iff (p : Project) (g : Graph) :
    (p.withGraph .architecture g).report.isValid = true ↔
      (architectureReport g.nodes g.edges).faults = [] ∧
        (p.graphReport .pipeline).faults = [] := by
  rw [Report.isValid_iff, Project.report, Report.faults_append, List.append_eq_nil_iff]
  rfl

/-- An edit that is in order by itself is in order after an overlay has been written exactly when
what is left of the overlay lasts. -/
theorem valid_setParam_written_iff (p : Project) (before : Propagation) (id name : String)
    (value : ParamValue)
    (hbefore : propagate p.architecture.nodes p.architecture.edges = .ok before)
    (hvalid : (p.withGraph .architecture
      (p.architecture.setParam id name value)).report.isValid = true) :
    ∃ after,
      propagate (p.architecture.setParam id name value).nodes p.architecture.edges = .ok after ∧
      ((p.withGraph .architecture
          ((p.architecture.written before).setParam id name value)).report.isValid = true ↔
        before.Lasts after p.architecture.edges id name) := by
  obtain ⟨net, hnet, hall⟩ := bind_eq_ok_iff.1 (propagate_eq_ok_iff.1 hbefore)
  have hisOf := Network.isOf_of_ofGraph hnet
  have hsolved := Network.isSolved_of_propagateAll hall
  have hedited : (p.architecture.setParam id name value).nodes =
      p.architecture.nodes.map (Node.setParam id name value) :=
    changeFirst_eq_map hisOf.nodup_ids
  have hsame : (p.architecture.setParam id name value).edges = p.architecture.edges := rfl
  have hedges : ((p.architecture.written before).setParam id name value).edges =
      p.architecture.edges := rfl
  obtain ⟨harchitecture, hpipeline⟩ := (p.isValid_withGraph_iff _).1 hvalid
  obtain ⟨edited, order, after, hsound⟩ := architectureReport_isValid_iff.1 harchitecture
  refine ⟨after, hsound.propagate, ?_⟩
  rw [hedited, hsame] at hsound
  have hagrees : ∀ m ∈ p.architecture.nodes.map (Node.setParam id name value),
      (m.rewrite before id name value).params.Agrees m.params := by
    intro m hm
    obtain ⟨n, hn, rfl⟩ := List.mem_map.1 hm
    exact hsolved.agrees_rewrite rfl
  rw [p.isValid_withGraph_iff, and_iff_left hpipeline,
    p.architecture.nodes_setParam_written before id name value hisOf.nodup_ids, hedges,
    hsound.faults_map_iff (Node.keeps_rewrite before id name value) hagrees,
    hsolved.forall_isProper_rewrite_iff hisOf hsound.proper, hsolved.featuresFit_iff hisOf hsound]
  exact ⟨fun ⟨hpositive, hfeatures⟩ => ⟨hpositive, hfeatures⟩,
    fun hlasts => ⟨hlasts.positive, hlasts.features⟩⟩

/-- Two dense layers behind a flattened image. -/
def Project.dense : Project where
  architecture :=
    { nodes :=
        [{ id := "data", operatorId := "dataset" },
         { id := "flat", operatorId := "flatten" },
         { id := "hidden", operatorId := "linear" },
         { id := "head", operatorId := "linear" }]
      edges :=
        [{ id := "1", source := "data", target := "flat" },
         { id := "2", source := "flat", target := "hidden" },
         { id := "3", source := "hidden", target := "head" }] }

/-- The features of the last layer can be set after the overlay has been written. -/
theorem valid_setParam_written_head :
    (Project.dense.withGraph .architecture (Project.dense.architecture.setParam
      "head" "out_features" (.int 20))).report.isValid = true ∧
    ∃ before after, propagate Project.dense.architecture.nodes Project.dense.architecture.edges =
        .ok before ∧
      propagate (Project.dense.architecture.setParam "head" "out_features" (.int 20)).nodes
        Project.dense.architecture.edges = .ok after ∧
      before.Lasts after Project.dense.architecture.edges "head" "out_features" := by
  have hvalid : (Project.dense.withGraph .architecture (Project.dense.architecture.setParam
      "head" "out_features" (.int 20))).report.isValid = true := by
    decide +kernel
  have hvalue : (propagate Project.dense.architecture.nodes
      Project.dense.architecture.edges).toOption.any (fun before =>
        (Project.dense.withGraph .architecture ((Project.dense.architecture.written before).setParam
          "head" "out_features" (.int 20))).report.isValid) = true := by
    decide +kernel
  obtain ⟨before, hbefore, hwritten⟩ := exists_of_toOption_any hvalue
  obtain ⟨after, hafter, hlasts⟩ := valid_setParam_written_iff Project.dense before "head"
    "out_features" (.int 20) hbefore hvalid
  exact ⟨hvalid, before, after, hbefore, hafter, hlasts.1 hwritten⟩

/-- Those of the layer before it cannot, because the last layer keeps the number of features that
it has once learned. -/
theorem not_valid_setParam_written :
    (Project.dense.architecture.edges.map Edge.id).Nodup ∧
    (Project.dense.withGraph .architecture (Project.dense.architecture.setParam
      "hidden" "out_features" (.int 20))).report.isValid = true ∧
    ∃ before, propagate Project.dense.architecture.nodes Project.dense.architecture.edges =
        .ok before ∧
      (Project.dense.withGraph .architecture ((Project.dense.architecture.written before).setParam
        "hidden" "out_features" (.int 20))).report.isValid = false := by
  have hvalue : (propagate Project.dense.architecture.nodes
      Project.dense.architecture.edges).toOption.any (fun before =>
        !(Project.dense.withGraph .architecture
          ((Project.dense.architecture.written before).setParam
            "hidden" "out_features" (.int 20))).report.isValid) = true := by
    decide +kernel
  obtain ⟨before, hbefore, hwritten⟩ := exists_of_toOption_any hvalue
  refine ⟨by decide +kernel, by decide +kernel, before, hbefore, ?_⟩
  exact Bool.not_eq_true' _ ▸ hwritten

end LayerGraph
