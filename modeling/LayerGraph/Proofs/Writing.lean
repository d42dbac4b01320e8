import LayerGraph.Proofs.Drawing
import LayerGraph.Proofs.Emission
import LayerGraph.Proofs.Naming
/-!
# How nodes are written

The names grow while nodes are written, but what an id was named stays. So each node is written as if
the names at the end had been known from the start:

* `ValueText` is the value of a node over the variables of its operands, `Writes` its assignment and
  the additions behind it, both with one table of names.
* `exists_writeNodes`: nodes that have operands and constructors are all written, with one table in
  which different ids have different names.
* `exists_isModel`: so every model is written, since nothing else can be.
-/

namespace LayerGraph
set_option autoImplicit false

/-! ## Variables -/

namespace Names

theorem output_spec {names : Names} (h : names.IsTable) (id : String) :
    (names.output id).2.IsTable ∧ names.Extends (names.output id).2 ∧
      ∃ name, (names.output id).2.name? id = some name ∧ (names.output id).1 = name ++ "_out" := by
  obtain ⟨htable, hextends, hname⟩ := ident_spec h id
  exact ⟨htable, hextends, _, hname, rfl⟩

theorem variable_spec {names : Names} (h : names.IsTable) (root id : String) :
    (names.variable root id).2.IsTable ∧ names.Extends (names.variable root id).2 ∧
      ∀ final : Names, (names.variable root id).2.Extends final → final.Covers root id ∧
        (names.variable root id).1 = final.variableOf root id := by
  unfold Names.variable
  by_cases hroot : id = root
  · rw [if_pos hroot]
    exact ⟨h, Extends.refl names, fun final _ =>
      ⟨.inl hroot, by rw [variableOf, if_pos hroot]⟩⟩
  · rw [if_neg hroot]
    obtain ⟨htable, hextends, name, hname, hvariable⟩ := output_spec h id
    exact ⟨htable, hextends, fun final hfinal => ⟨.inr ⟨name, hfinal id name hname⟩,
      by rw [variableOf, if_neg hroot, nameOf_eq (hfinal id name hname), hvariable]⟩⟩

theorem variables_spec {names : Names} (h : names.IsTable) (root : String) (ids : List String) :
    (names.variables root ids).2.IsTable ∧ names.Extends (names.variables root ids).2 ∧
      ∀ final : Names, (names.variables root ids).2.Extends final →
        (∀ id ∈ ids, final.Covers root id) ∧
          (names.variables root ids).1 = ids.map (final.variableOf root) := by
  induction ids generalizing names with
  | nil =>
    exact ⟨h, Extends.refl names, fun _ _ => ⟨(fun _ hid => nomatch hid), rfl⟩⟩
  | cons id rest ih =>
    obtain ⟨htable, hextends, hfirst⟩ := variable_spec h root id
    obtain ⟨htable', hextends', hrest⟩ := ih htable
    simp only [Names.variables]
    refine ⟨htable', hextends.trans hextends', fun final hfinal => ⟨fun other hother => ?_, ?_⟩⟩
    · rcases List.mem_cons.1 hother with rfl | hother
      · exact (hfirst final (hextends'.trans hfinal)).1
      · exact (hrest final hfinal).1 other hother
    · rw [List.map_cons, (hfirst final (hextends'.trans hfinal)).2, (hrest final hfinal).2]

end Names

/-! ## Values -/

/-- What is written for the value of a node. -/
inductive ValueText (names : Names) (root : String) (p : Placed) (params : Params)
    (operands : List String) : NodeValue → Prop
  | sum (hrule : p.operator.rule = .add) :
    ValueText names root p params operands
      ⟨.sum (operands.map fun s => .var (names.variableOf root s)), none⟩
  | concat (hrule : p.operator.rule = .concat) :
    ValueText names root p params operands
      ⟨.concat (operands.map fun s => .var (names.variableOf root s))
        ((params.int? "dim").getD 1), none⟩
  | flatten (s : String) (rest : List String) (hrule : p.operator.rule = .flatten)
      (hoperands : operands = s :: rest) :
    ValueText names root p params operands
      ⟨.call "torch.flatten" [.var (names.variableOf root s)]
        [("start_dim", ((params.int? "start_dim").getD 1).repr)], none⟩
  | field (s : String) (rest : List String) (constructor : Expr)
      (hmerge : p.operator.isMerge = false) (hrule : p.operator.rule ≠ .flatten)
      (hoperands : operands = s :: rest)
      (hconstructor : constructorCall p.operator params = .ok constructor) :
    ValueText names root p params operands
      ⟨.call ("self." ++ names.nameOf p.id) [.var (names.variableOf root s)] [],
        some ⟨names.nameOf p.id, constructor⟩⟩

/-- A node can be written when it has an operand and, if it is given a field, something to call;
merges need neither. -/
structure Writable (p : Placed) (operands : List String) : Prop where
  operand : p.operator.isMerge = false → operands ≠ []
  callee : p.operator.isMerge = false → p.operator.rule ≠ .flatten →
    ∃ callee, p.operator.callee = some callee

theorem Writable.of_isMerge {p : Placed} {operands : List String}
    (h : p.operator.isMerge = true) : Writable p operands where
  operand := fun hnot => absurd (h.symm.trans hnot) (by decide)
  callee := fun hnot => absurd (h.symm.trans hnot) (by decide)

theorem exists_nodeValue {names : Names} (h : names.IsTable) (root : String) {p : Placed}
    (params : Params) {operands vars : List String} (hwritable : Writable p operands)
    (hvars : ∀ final : Names, names.Extends final → vars = operands.map (final.variableOf root)) :
    ∃ value later, nodeValue names p params vars = .ok (value, later) ∧ later.IsTable ∧
      names.Extends later ∧
      ∀ final : Names, later.Extends final → ValueText final root p params operands value := by
  unfold nodeValue
  split
  · rename_i hrule
    refine ⟨_, names, rfl, h, .refl names, fun final hfinal => ?_⟩
    rw [hvars final hfinal, List.map_map]
    exact .sum hrule
  · rename_i hrule
    refine ⟨_, names, rfl, h, .refl names, fun final hfinal => ?_⟩
    rw [hvars final hfinal, List.map_map]
    exact .concat hrule
  · rename_i hadd hconcat
    have hmerge : p.operator.isMerge = false := by
      unfold Operator.isMerge
      cases hrule : p.operator.rule with
      | add => exact absurd hrule hadd
      | concat => exact absurd hrule hconcat
      | _ => rfl
    obtain ⟨s, rest, rfl⟩ := List.exists_cons_of_ne_nil (hwritable.operand hmerge)
    obtain rfl := hvars names (.refl names)
    have hinput : ∀ final : Names, names.Extends final →
        names.variableOf root s = final.variableOf root s :=
      fun final hfinal => (List.cons.inj (hvars final hfinal)).1
    rw [List.map_cons]
    by_cases hflatten : p.operator.rule = .flatten
    · simp only [hflatten, if_true]
      refine ⟨_, names, rfl, h, .refl names, fun final hfinal => ?_⟩
      rw [hinput final hfinal]
      exact .flatten s rest hflatten rfl
    · obtain ⟨callee, hcallee⟩ := hwritable.callee hmerge hflatten
      obtain ⟨htable, hextends, hname⟩ := Names.ident_spec h p.id
      have hconstructor : constructorCall p.operator params =
          .ok (.call callee [] (keywordArgs p.operator params)) := by
        rw [constructorCall, hcallee]
      simp only [hflatten, if_false, hconstructor]
      refine ⟨_, _, rfl, htable, hextends, fun final hfinal => ?_⟩
      rw [hinput final (hextends.trans hfinal), ← Names.nameOf_eq (hfinal p.id _ hname)]
      exact .field s rest _ hmerge hflatten rfl hconstructor

/-! ## Nodes -/

/-- What is written for a node. -/
structure Writes (order : Emission) (overlay : Propagation) (names : Names) (p : Placed)
    (text : NodeText) : Prop where
  covers : ∀ s, s = p.id ∨ s ∈ order.inputsOf p.id ∨ s ∈ order.addendsOf .residual p.id ∨
    s ∈ order.addendsOf .sum p.id → names.Covers order.root.id s
  named : ∃ name, names.name? p.id = some name
  target : text.target = names.nameOf p.id ++ "_out"
  value : ∃ value,
    ValueText names order.root.id p (overlay.effectiveParams p) (order.inputsOf p.id) value ∧
      text.field = value.field ∧
      text.statements = .assign text.target value.value
        :: (additions text.target .residual
              ((order.addendsOf .residual p.id).map (names.variableOf order.root.id))
            ++ additions text.target .sum
              ((order.addendsOf .sum p.id).map (names.variableOf order.root.id)))

theorem Writes.target_eq {order : Emission} {overlay : Propagation} {names : Names} {p : Placed}
    {text : NodeText} (h : Writes order overlay names p text) (hne : p.id ≠ order.root.id) :
    text.target = names.variableOf order.root.id p.id := by
  rw [h.target, Names.variableOf, if_neg hne]

theorem exists_writeNode {names : Names} (h : names.IsTable) (order : Emission)
    (overlay : Propagation) {p : Placed} (hwritable : Writable p (order.inputsOf p.id)) :
    ∃ text later, writeNode order overlay names p = .ok (text, later) ∧ later.IsTable ∧
      names.Extends later ∧
      ∀ final : Names, later.Extends final → Writes order overlay final p text := by
  obtain ⟨htable₁, hextends₁, hvars₁⟩ :=
    Names.variables_spec h order.root.id (order.inputsOf p.id)
  obtain ⟨value, names₂, hvalue, htable₂, hextends₂, hfinal₂⟩ :=
    exists_nodeValue htable₁ order.root.id (overlay.effectiveParams p) hwritable
      fun final hfinal => (hvars₁ final hfinal).2
  obtain ⟨htable₃, hextends₃, name, hname, htarget⟩ := Names.output_spec htable₂ p.id
  obtain ⟨htable₄, hextends₄, hvars₄⟩ :=
    Names.variables_spec htable₃ order.root.id (order.addendsOf .residual p.id)
  obtain ⟨htable₅, hextends₅, hvars₅⟩ :=
    Names.variables_spec htable₄ order.root.id (order.addendsOf .sum p.id)
  refine ⟨_, _, by simp only [writeNode, hvalue, bind, Except.bind]; rfl, htable₅,
    ((hextends₁.trans hextends₂).trans hextends₃).trans (hextends₄.trans hextends₅),
    fun final hfinal => ?_⟩
  have hfinal₄ := hextends₅.trans hfinal
  have hfinal₃ := hextends₄.trans hfinal₄
  refine ⟨fun s hs => ?_, ⟨name, hfinal₃ p.id name hname⟩, ?_, value,
    hfinal₂ final (hextends₃.trans hfinal₃), rfl, ?_⟩
  · rcases hs with rfl | hs | hs | hs
    · exact .inr ⟨name, hfinal₃ _ name hname⟩
    · exact (hvars₁ final (hextends₂.trans (hextends₃.trans hfinal₃))).1 s hs
    · exact (hvars₄ final hfinal₄).1 s hs
    · exact (hvars₅ final hfinal).1 s hs
  · rw [Names.nameOf_eq (hfinal₃ p.id name hname)]
    exact htarget
  · rw [(hvars₄ final hfinal₄).2, (hvars₅ final hfinal).2]
    rfl

/-- Nodes are written one after the other, all with the names at the end. -/
theorem exists_writeNodes {names : Names} (h : names.IsTable) (order : Emission)
    (overlay : Propagation) {nodes : List Placed}
    (hwritable : ∀ p ∈ nodes, Writable p (order.inputsOf p.id)) :
    ∃ texts final, writeNodes order overlay names nodes = .ok texts ∧ final.IsTable ∧
      names.Extends final ∧ List.Forall₂ (Writes order overlay final) nodes texts := by
  induction nodes generalizing names with
  | nil => exact ⟨[], names, rfl, h, .refl names, .nil⟩
  | cons p rest ih =>
    obtain ⟨text, later, htext, htable, hextends, hwrites⟩ :=
      exists_writeNode h order overlay (hwritable p List.mem_cons_self)
    obtain ⟨texts, final, htexts, hfinal, hextends', hall⟩ :=
      ih htable fun q hq => hwritable q (List.mem_cons_of_mem _ hq)
    exact ⟨text :: texts, final, by simp only [writeNodes, htext, htexts, bind, Except.bind],
      hfinal, hextends.trans hextends', .cons (hwrites final hextends') hall⟩

/-! ## Nodes that have been written -/

theorem Names.length_variables (names : Names) (root : String) (ids : List String) :
    (names.variables root ids).1.length = ids.length := by
  induction ids generalizing names with
  | nil => rfl
  | cons id rest ih => rw [Names.variables, List.length_cons, List.length_cons, ih]

theorem writable_of_nodeValue {names : Names} {p : Placed} {params : Params}
    {operands vars : List String} {written : NodeValue × Names}
    (h : nodeValue names p params vars = .ok written) (hvars : vars.length = operands.length) :
    Writable p operands := by
  unfold nodeValue at h
  split at h
  case h_1 hrule => exact .of_isMerge (by rw [Operator.isMerge, hrule]; rfl)
  case h_2 hrule => exact .of_isMerge (by rw [Operator.isMerge, hrule]; rfl)
  case h_3 =>
    cases vars with
    | nil => cases h
    | cons input rest =>
      refine ⟨fun _ hempty => ?_, fun _ hflatten => ?_⟩
      · rw [hempty] at hvars
        cases hvars
      · simp only [hflatten, if_false] at h
        obtain ⟨constructor, hconstructor, -⟩ := bind_eq_ok_iff.1 h
        unfold constructorCall at hconstructor
        split at hconstructor
        · rename_i callee hcallee
          exact ⟨callee, hcallee⟩
        · cases hconstructor

/-- Whatever has been written could be written. -/
theorem writable_of_writeNodes {names : Names} {order : Emission} {overlay : Propagation}
    {nodes : List Placed} {texts : List NodeText}
    (h : writeNodes order overlay names nodes = .ok texts) :
    ∀ p ∈ nodes, Writable p (order.inputsOf p.id) := by
  induction nodes generalizing names texts with
  | nil => exact fun _ hp => nomatch hp
  | cons first rest ih =>
    obtain ⟨⟨text, later⟩, hfirst, h⟩ := bind_eq_ok_iff.1 h
    obtain ⟨more, hrest, -⟩ := bind_eq_ok_iff.1 h
    intro p hp
    rcases List.mem_cons.1 hp with rfl | hp
    · obtain ⟨written, hvalue, -⟩ := bind_eq_ok_iff.1 hfirst
      exact writable_of_nodeValue hvalue (Names.length_variables _ _ _)
    · exact ih hrest p hp

/-! ## The model class -/

/-- A model whose nodes are written with one table of names. -/
structure Emission.IsModel (order : Emission) (overlay : Propagation) (model : Model)
    (names : Names) (texts : List NodeText) : Prop where
  table : names.IsTable
  written : List.Forall₂ (Writes order overlay names) order.nodes texts
  fields : model.fields = texts.filterMap NodeText.field
  forward : model.forward = texts.flatMap NodeText.statements
    ++ [.returns (.var ((texts.getLast?.map NodeText.target).getD "x"))]

theorem exists_model {order : Emission} {overlay : Propagation}
    (hwritable : ∀ p ∈ order.nodes, Writable p (order.inputsOf p.id)) :
    ∃ model names texts, order.model overlay = .ok model ∧
      order.IsModel overlay model names texts := by
  obtain ⟨texts, final, htexts, htable, -, hall⟩ :=
    exists_writeNodes Names.isTable_empty order overlay hwritable
  refine ⟨_, final, texts, by simp only [Emission.model, htexts, bind, Except.bind]; rfl,
    htable, hall, rfl, rfl⟩

/-- Every model that is made is written with one table of names. -/
theorem exists_isModel {order : Emission} {overlay : Propagation} {model : Model}
    (h : order.model overlay = .ok model) :
    ∃ names texts, order.IsModel overlay model names texts := by
  obtain ⟨texts, hwritten, -⟩ := bind_eq_ok_iff.1 h
  obtain ⟨again, names, texts, hagain, hmodel⟩ :
      ∃ model names texts, order.model overlay = .ok model ∧
        order.IsModel overlay model names texts :=
    exists_model (writable_of_writeNodes hwritten)
  obtain rfl : model = again := Except.ok.inj (h.symm.trans hagain)
  exact ⟨names, texts, hmodel⟩

namespace Emission.IsModel

variable {order : Emission} {overlay : Propagation} {model : Model} {names : Names}
  {texts : List NodeText}

theorem exists_writes (h : order.IsModel overlay model names texts) {p : Placed}
    (hp : p ∈ order.nodes) : ∃ text ∈ texts, Writes order overlay names p text := by
  have hwritten := h.written
  clear h
  generalize order.nodes = written at hp hwritten
  induction hwritten with
  | nil => cases hp
  | cons hfirst hrest ih =>
    rcases List.mem_cons.1 hp with rfl | hp
    · exact ⟨_, List.mem_cons_self, hfirst⟩
    · obtain ⟨text, htext, hwrites⟩ := ih hp
      exact ⟨text, List.mem_cons_of_mem _ htext, hwrites⟩

theorem covers (h : order.IsModel overlay model names texts) {id : String}
    (hid : order.Emits id) :
    names.Covers order.root.id id := by
  rcases hid with hroot | ⟨p, hp, rfl⟩
  · exact .inl hroot
  · obtain ⟨text, -, hwrites⟩ := h.exists_writes hp
    exact .inr hwrites.named

/-- No two of the root and the emitted nodes have one variable. -/
theorem variableOf_inj (h : order.IsModel overlay model names texts) {a b : String}
    (ha : order.Emits a) (hb : order.Emits b)
    (heq : names.variableOf order.root.id a = names.variableOf order.root.id b) : a = b :=
  Names.variableOf_inj h.table (h.covers ha) (h.covers hb) heq

/-- What the texts give together, if each gives what its node gives. -/
theorem flatMap_eq (h : order.IsModel overlay model names texts) {β : Type}
    {f : NodeText → List β} {g : Placed → List β}
    (hfg : ∀ p ∈ order.nodes, ∀ text, Writes order overlay names p text → f text = g p) :
    texts.flatMap f = order.nodes.flatMap g := by
  have hwritten := h.written
  clear h
  generalize order.nodes = written at hfg hwritten
  induction hwritten with
  | nil => rfl
  | cons hfirst hrest ih =>
    rw [List.flatMap_cons, List.flatMap_cons, hfg _ List.mem_cons_self _ hfirst,
      ih fun p hp => hfg p (List.mem_cons_of_mem _ hp)]

/-- The variables of the nodes, in the order of the nodes. -/
theorem targets_eq (h : order.IsModel overlay model names texts) {net : Network}
    (hemission : net.IsEmission order) :
    texts.map NodeText.target =
      (order.nodes.map Placed.id).map (names.variableOf order.root.id) := by
  rw [List.map_map, List.map_eq_flatMap, List.map_eq_flatMap]
  refine h.flatMap_eq fun p hp text hwrites => ?_
  rw [hwrites.target_eq (hemission.id_ne_root hp)]
  rfl

/-- No two of the argument and the variables of the nodes are the same. -/
theorem nodup_targets (h : order.IsModel overlay model names texts) {net : Network}
    (hemission : net.IsEmission order) : ("x" :: texts.map NodeText.target).Nodup := by
  have hx : "x" = names.variableOf order.root.id order.root.id := by
    rw [Names.variableOf, if_pos rfl]
  rw [h.targets_eq hemission, hx, ← List.map_cons]
  refine List.Nodup.map_on (fun a ha b hb heq => h.variableOf_inj ?_ ?_ heq)
    (List.nodup_cons.2 ⟨fun hmem => ?_, hemission.nodup_ids⟩)
  · exact (List.mem_cons.1 ha).imp_right List.mem_map.1
  · exact (List.mem_cons.1 hb).imp_right List.mem_map.1
  · obtain ⟨p, hp, hid⟩ := List.mem_map.1 hmem
    exact hemission.id_ne_root hp hid

end Emission.IsModel

end LayerGraph
