import LayerGraph.Proofs.DefaultInputs
/-!
# Models with known names

Names are given while the nodes are written. When each node reads only what stands before it, no name
is given twice, and the names at the end depend on the order of the ids alone.

* `Emission.names order` is the table of names at the end, and `Emission.modelWith order overlay nameOf`
  the model in which the node of an id has the identifier `nameOf id`.
* `writeNodes_eq`: nodes are written as if all names had been known.
* `IsSound.model_eq`: the model of an architecture without faults is the one with the names of its order.
-/

namespace LayerGraph
set_option autoImplicit false

/-! ## Giving names in a row -/

namespace Names

/-- The names after several ids have asked for theirs, one after the other. -/
def allot (names : Names) (ids : List String) : Names :=
  ids.foldl (fun names id => (names.ident id).2) names

variable {names : Names}

theorem ident_ident (h : names.IsTable) (id : String) :
    (names.ident id).2.ident id = names.ident id := by
  obtain ⟨-, -, hname⟩ := ident_spec h id
  exact ident_of_name? hname

theorem allot_spec (h : names.IsTable) (ids : List String) :
    (names.allot ids).IsTable ∧ names.Extends (names.allot ids) ∧
      ∀ id ∈ ids, ∃ name, (names.allot ids).name? id = some name := by
  induction ids generalizing names with
  | nil => exact ⟨h, .refl names, fun _ hid => nomatch hid⟩
  | cons first rest ih =>
    obtain ⟨htable, hextends, hfirst⟩ := ident_spec h first
    obtain ⟨hlast, hlater, hrest⟩ := ih htable
    refine ⟨hlast, hextends.trans hlater, fun id hid => ?_⟩
    rcases List.mem_cons.1 hid with rfl | hid
    · exact ⟨_, hlater id _ hfirst⟩
    · exact hrest id hid

/-! ## Names that are there already -/

theorem Covers.extends {later : Names} {root id : String} (h : names.Covers root id)
    (hextends : names.Extends later) : later.Covers root id := by
  rcases h with hroot | ⟨name, hname⟩
  · exact .inl hroot
  · exact .inr ⟨name, hextends id name hname⟩

theorem Covers.variableOf_eq {later : Names} {root id : String} (h : names.Covers root id)
    (hextends : names.Extends later) : names.variableOf root id = later.variableOf root id := by
  rw [variableOf, variableOf]
  split
  · rfl
  · rename_i hroot
    obtain ⟨name, hname⟩ := h.resolve_left hroot
    rw [nameOf_eq hname, nameOf_eq (hextends id name hname)]

theorem Covers.variable_eq {root id : String} (h : names.Covers root id) :
    names.variable root id = (names.variableOf root id, names) := by
  rw [Names.variable, variableOf]
  split
  · rfl
  · rename_i hroot
    obtain ⟨name, hname⟩ := h.resolve_left hroot
    rw [output, ident_of_name? hname, nameOf_eq hname]

/-- Asking for names that are there leaves the table as it is. -/
theorem variables_eq {root : String} {ids : List String} (h : ∀ id ∈ ids, names.Covers root id) :
    names.variables root ids = (ids.map (names.variableOf root), names) := by
  induction ids with
  | nil => rfl
  | cons id rest ih =>
    have hfirst := (h id List.mem_cons_self).variable_eq
    have hrest := ih fun other hother => h other (List.mem_cons_of_mem _ hother)
    simp only [Names.variables, hfirst, hrest, List.map_cons]

end Names

/-! ## Writing with known names -/

/-- The variable of an id whose identifier is known. -/
def variableWith (nameOf : String → String) (root id : String) : String :=
  if id = root then "x" else nameOf id ++ "_out"

/-- The field of a layer whose identifier is known. -/
def fieldWith (nameOf : String → String) (p : Placed) (params : Params) : FieldDecl where
  name := nameOf p.id
  constructor := .call (p.operator.callee.getD "") [] (keywordArgs p.operator params)

/-- The value of a node over the variables of its operands. -/
def valueWith (nameOf : String → String) (p : Placed) (params : Params) (vars : List String) :
    NodeValue :=
  match p.operator.rule with
  | .add => ⟨.sum (vars.map .var), none⟩
  | .concat => ⟨.concat (vars.map .var) ((params.int? "dim").getD 1), none⟩
  | .flatten =>
    ⟨.call "torch.flatten" ((vars.take 1).map .var)
      [("start_dim", ((params.int? "start_dim").getD 1).repr)], none⟩
  | _ =>
    ⟨.call ("self." ++ nameOf p.id) ((vars.take 1).map .var) [], some (fieldWith nameOf p params)⟩

namespace Emission

variable (order : Emission) (overlay : Propagation) (nameOf : String → String)

/-- What is written for a node: its assignment, then the additions of each kind. -/
def textWith (p : Placed) : NodeText :=
  let vars := List.map (variableWith nameOf order.root.id)
  let target := nameOf p.id ++ "_out"
  let value := valueWith nameOf p (overlay.effectiveParams p) (vars (order.inputsOf p.id))
  { target
    field := value.field
    statements := .assign target value.value
      :: (additions target .residual (vars (order.addendsOf .residual p.id))
        ++ additions target .sum (vars (order.addendsOf .sum p.id))) }

/-- The model in which the node of an id has the identifier `nameOf id`. -/
def modelWith : Model :=
  let texts := order.nodes.map (order.textWith overlay nameOf)
  { fields := texts.filterMap NodeText.field
    forward := texts.flatMap NodeText.statements
      ++ [.returns (.var (order.last?.elim "x" fun p => nameOf p.id ++ "_out"))]
    blocks := Block.all.filter fun block =>
      order.nodes.any (·.operator.block? = some block) }

/-- The names that the emitted nodes are given, in their order. -/
def names : Names := Names.allot {} (order.nodes.map Placed.id)

variable {order overlay nameOf}

theorem mem_readsOf {id s : String} :
    s ∈ order.readsOf id ↔ s ∈ order.inputsOf id ∨ s ∈ order.addendsOf .residual id ∨
      s ∈ order.addendsOf .sum id := by
  rw [readsOf, List.mem_append, List.mem_append]

/-- A text depends on the name of its node and on the variables that it reads. -/
theorem textWith_congr {nameOf' : String → String} {p : Placed}
    (hname : nameOf p.id = nameOf' p.id)
    (hreads : ∀ s ∈ order.readsOf p.id,
      variableWith nameOf order.root.id s = variableWith nameOf' order.root.id s) :
    order.textWith overlay nameOf p = order.textWith overlay nameOf' p := by
  have hvars : ∀ ids : List String, (∀ s ∈ ids, s ∈ order.readsOf p.id) →
      ids.map (variableWith nameOf order.root.id) = ids.map (variableWith nameOf' order.root.id) :=
    fun ids hids => List.map_congr_left fun s hs => hreads s (hids s hs)
  have hinputs := hvars (order.inputsOf p.id) fun s hs => mem_readsOf.2 (.inl hs)
  have hresidual := hvars (order.addendsOf .residual p.id) fun s hs =>
    mem_readsOf.2 (.inr (.inl hs))
  have hsum := hvars (order.addendsOf .sum p.id) fun s hs => mem_readsOf.2 (.inr (.inr hs))
  simp only [textWith, valueWith, fieldWith, hname, hinputs, hresidual, hsum]

end Emission

/-! ## Nodes one after the other -/

section Writing

variable {names : Names} {order : Emission} {overlay : Propagation} {p : Placed}

/-- Layers are given their names for their fields, other nodes only for their variables. -/
theorem nodeValue_eq (h : names.IsTable) (params : Params) {operands vars : List String}
    (hwritable : Writable p operands) (hvars : vars = [] → operands = []) :
    nodeValue names p params vars =
      .ok (valueWith (names.ident p.id).2.nameOf p params vars,
        if p.isLayer then (names.ident p.id).2 else names) := by
  obtain ⟨-, -, hname⟩ := Names.ident_spec h p.id
  unfold nodeValue
  split
  · rename_i hrule
    simp [valueWith, Placed.isLayer, Operator.isMerge, Rule.isMerge, hrule]
  · rename_i hrule
    simp [valueWith, Placed.isLayer, Operator.isMerge, Rule.isMerge, hrule]
  · rename_i hadd hconcat
    have hmerge : p.operator.isMerge = false := by
      unfold Operator.isMerge
      cases hrule : p.operator.rule with
      | add => exact absurd hrule hadd
      | concat => exact absurd hrule hconcat
      | _ => rfl
    cases vars with
    | nil => exact absurd (hvars rfl) (hwritable.operand hmerge)
    | cons input rest =>
      by_cases hflatten : p.operator.rule = .flatten
      · simp [valueWith, Placed.isLayer, hflatten]
      · obtain ⟨callee, hcallee⟩ := hwritable.callee hmerge hflatten
        have hconstructor : constructorCall p.operator params =
            .ok (.call callee [] (keywordArgs p.operator params)) := by
          rw [constructorCall, hcallee]
        have hlayer : p.isLayer = true := by simp [Placed.isLayer, hmerge, hflatten]
        have hvalue : valueWith (names.ident p.id).2.nameOf p params (input :: rest) =
            ⟨.call ("self." ++ (names.ident p.id).1) [.var input] [],
              some ⟨(names.ident p.id).1, .call callee [] (keywordArgs p.operator params)⟩⟩ := by
          simp [valueWith, fieldWith, hcallee, Names.nameOf_eq hname]
        simp only [hflatten, if_false, hconstructor, hlayer, if_true, hvalue]
        rfl

theorem writeNode_eq (h : names.IsTable) (hwritable : Writable p (order.inputsOf p.id))
    (hreads : ∀ s ∈ order.readsOf p.id, names.Covers order.root.id s) :
    writeNode order overlay names p =
      .ok (order.textWith overlay (names.ident p.id).2.nameOf p, (names.ident p.id).2) := by
  obtain ⟨htable, hextends, hname⟩ := Names.ident_spec h p.id
  have hcovers : ∀ s ∈ order.readsOf p.id, (names.ident p.id).2.Covers order.root.id s :=
    fun s hs => (hreads s hs).extends hextends
  have hinputs : names.variables order.root.id (order.inputsOf p.id) =
      ((order.inputsOf p.id).map ((names.ident p.id).2.variableOf order.root.id), names) := by
    rw [Names.variables_eq fun s hs => hreads s (Emission.mem_readsOf.2 (.inl hs))]
    refine congrArg (·, names) (List.map_congr_left fun s hs => ?_)
    exact (hreads s (Emission.mem_readsOf.2 (.inl hs))).variableOf_eq hextends
  have hresidual : (names.ident p.id).2.variables order.root.id (order.addendsOf .residual p.id) =
      _ := Names.variables_eq fun s hs => hcovers s (Emission.mem_readsOf.2 (.inr (.inl hs)))
  have hsum : (names.ident p.id).2.variables order.root.id (order.addendsOf .sum p.id) = _ :=
    Names.variables_eq fun s hs => hcovers s (Emission.mem_readsOf.2 (.inr (.inr hs)))
  have houtput : (if p.isLayer then (names.ident p.id).2 else names).output p.id =
      ((names.ident p.id).2.nameOf p.id ++ "_out", (names.ident p.id).2) := by
    have hfirst : (names.ident p.id).1 = (names.ident p.id).2.nameOf p.id :=
      (Names.nameOf_eq hname).symm
    cases p.isLayer with
    | false => simp [Names.output, ← hfirst]
    | true => simp [Names.output, Names.ident_ident h, ← hfirst]
  have hvalue : nodeValue names p (overlay.effectiveParams p)
      ((order.inputsOf p.id).map ((names.ident p.id).2.variableOf order.root.id)) = .ok _ :=
    nodeValue_eq h (overlay.effectiveParams p) hwritable List.map_eq_nil_iff.1
  simp only [writeNode, hinputs, hvalue, bind, Except.bind, houtput, hresidual, hsum]
  rfl

/-- Nodes that read only what stands before them are written with the names at the end. -/
theorem writeNodes_eq (h : names.IsTable) {nodes : List Placed}
    (hwritable : ∀ p ∈ nodes, Writable p (order.inputsOf p.id))
    (hreads : ∀ before p after, nodes = before ++ p :: after → ∀ s ∈ order.readsOf p.id,
      names.Covers order.root.id s ∨ s ∈ before.map Placed.id) :
    writeNodes order overlay names nodes =
      .ok (nodes.map (order.textWith overlay (names.allot (nodes.map Placed.id)).nameOf)) := by
  induction nodes generalizing names with
  | nil => rfl
  | cons p rest ih =>
    obtain ⟨htable, hextends, hname⟩ := Names.ident_spec h p.id
    have hfirst : ∀ s ∈ order.readsOf p.id, names.Covers order.root.id s := by
      intro s hs
      exact (hreads [] p rest rfl s hs).resolve_right List.not_mem_nil
    have hrest := ih htable (fun q hq => hwritable q (List.mem_cons_of_mem _ hq)) fun before q
        after hsplit s hs => by
      rcases hreads (p :: before) q after (by rw [hsplit]; rfl) s hs with hs | hs
      · exact .inl (hs.extends hextends)
      · rcases List.mem_cons.1 hs with rfl | hs
        · exact .inl (.inr ⟨_, hname⟩)
        · exact .inr hs
    obtain ⟨-, hlater, -⟩ := Names.allot_spec htable (rest.map Placed.id)
    have htext : order.textWith overlay (names.ident p.id).2.nameOf p =
        order.textWith overlay ((names.ident p.id).2.allot (rest.map Placed.id)).nameOf p := by
      apply Emission.textWith_congr
      · rw [Names.nameOf_eq hname, Names.nameOf_eq (hlater _ _ hname)]
      · intro s hs
        exact ((hfirst s hs).extends hextends).variableOf_eq hlater
    simp only [writeNodes, writeNode_eq h (hwritable p List.mem_cons_self) hfirst, hrest, bind,
      Except.bind, htext]
    rfl

end Writing

/-! ## The model of an architecture without faults -/

namespace IsSound

variable {nodes : List Node} {edges : List Edge} {net : Network} {order : Emission}
  {overlay : Propagation}

theorem feeds_of_mem_readsOf (h : IsSound nodes edges net order overlay) {p : Placed}
    (hp : p ∈ order.nodes) {s : String} (hs : s ∈ order.readsOf p.id) : Feeds edges s p.id := by
  have hnet := h.isEmission.mem_net hp
  have hadded : ∀ kind, kind ≠ .normal → s ∈ order.addendsOf kind p.id → Feeds edges s p.id := by
    intro kind hkind hs
    rw [h.isEmission.addendsOf p hnet kind hkind] at hs
    split at hs
    · cases hs
    · obtain ⟨e, he, hsource, htarget, -⟩ := Network.exists_edge_of_mem_sourcesOfKind hs
      exact ⟨e, h.edges_eq ▸ he, hsource, htarget⟩
  rcases Emission.mem_readsOf.1 hs with hs | hs | hs
  · rw [h.isEmission.inputsOf p hp] at hs
    rw [← h.edges_eq]
    exact Network.feeds_of_mem_operands hs
  · exact hadded .residual (by decide) hs
  · exact hadded .sum (by decide) hs

/-- An emitted node reads the root and what stands before it. -/
theorem reads_before (h : IsSound nodes edges net order overlay) {before after : List Placed}
    {p : Placed} (hnodes : order.nodes = before ++ p :: after) {s : String}
    (hs : s ∈ order.readsOf p.id) : s = order.root.id ∨ s ∈ before.map Placed.id := by
  have hp : p ∈ order.nodes := hnodes ▸ List.mem_append_right _ List.mem_cons_self
  have hfeeds := h.feeds_of_mem_readsOf hp hs
  obtain ⟨e, he, rfl, htarget⟩ := hfeeds
  rcases h.source_emitted he hp htarget with hroot | ⟨q, hq, hid⟩
  · exact .inl hroot
  · have hfeeds : Feeds net.edges q.id p.id := h.edges_eq ▸ ⟨e, he, hid.symm, htarget⟩
    have hq := h.isEmission.mem_before before p after hnodes q hq hfeeds
    exact .inr (hid ▸ List.mem_map_of_mem hq)

theorem model_eq (h : IsSound nodes edges net order overlay) :
    order.model overlay = .ok (order.modelWith overlay order.names.nameOf) := by
  have hwritten : writeNodes order overlay {} order.nodes = .ok _ :=
    writeNodes_eq Names.isTable_empty (fun p hp => h.writable hp) fun before p after hnodes s hs =>
      (h.reads_before hnodes hs).imp_left .inl
  simp only [Emission.model, hwritten, bind, Except.bind, Emission.modelWith, List.getLast?_map]
  cases hlast : order.nodes.getLast? with
  | none => simp [Emission.last?, hlast, Emission.names]
  | some last => simp [Emission.last?, hlast, Emission.names, Emission.textWith]

/-- Emitted nodes have identifiers, and different nodes different ones. -/
theorem nameOf_inj (h : IsSound nodes edges net order overlay) {p q : Placed}
    (hp : p ∈ order.nodes) (hq : q ∈ order.nodes)
    (hname : order.names.nameOf p.id = order.names.nameOf q.id) : p = q := by
  obtain ⟨htable, -, hnamed⟩ :=
    Names.allot_spec Names.isTable_empty (order.nodes.map Placed.id)
  obtain ⟨first, hfirst⟩ := hnamed p.id (List.mem_map_of_mem hp)
  obtain ⟨second, hsecond⟩ := hnamed q.id (List.mem_map_of_mem hq)
  rw [Emission.names, Names.nameOf_eq hfirst, Names.nameOf_eq hsecond] at hname
  have hids := htable p.id q.id first hfirst (hname ▸ hsecond)
  exact List.inj_on_of_nodup_map h.isEmission.nodup_ids hp hq hids

end IsSound
end LayerGraph
