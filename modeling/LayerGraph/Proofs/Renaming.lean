import LayerGraph.Proofs.Emission
import LayerGraph.Proofs.Drawing
/-!
# Renamed drawings

Giving new ids to the nodes and to the edges of a drawing, different ones to different nodes and
edges, commutes with everything that is made of the drawing: there is one `_rename` lemma for each
function of networks, up to `Network.emission_rename`.

* `Graph.rename f g` has the nodes renamed by `f`, also at the ends of the edges, and the edges by `g`.
  Placed nodes, tables, faults and emission orders are renamed likewise.
* `renamed f r` is the answer of a function for the renamed drawing: its value, if there is one, is
  renamed by `r`, and its fault by `f`. `renamed_bind` carries this through a chain of tests.
-/

namespace LayerGraph
set_option autoImplicit false

/-! ## What is renamed -/

def Node.rename (f : String → String) (n : Node) : Node := { n with id := f n.id }

def Edge.rename (f g : String → String) (e : Edge) : Edge :=
  { e with id := g e.id, source := f e.source, target := f e.target }

def Graph.rename (f g : String → String) (drawing : Graph) : Graph where
  nodes := drawing.nodes.map (Node.rename f)
  edges := drawing.edges.map (Edge.rename f g)

def Placed.rename (f : String → String) (p : Placed) : Placed := { p with node := p.node.rename f }

/-- The table with its names and its values renamed. -/
def Table.rename {α β : Type} (f : String → String) (r : α → β) (table : Table α) : Table β :=
  .ofList (table.entries.map fun entry => (f entry.1, r entry.2))

def Emission.rename (f : String → String) (order : Emission) : Emission where
  root := order.root.rename f
  nodes := order.nodes.map (Placed.rename f)
  inputs := order.inputs.rename f (List.map f)
  residualSources := order.residualSources.rename f (List.map f)
  sumSources := order.sumSources.rename f (List.map f)
  loss := order.loss.map (Placed.rename f)
  unreachable := order.unreachable.map (Placed.rename f)

def EdgeShapeFault.rename (f : String → String) : EdgeShapeFault → EdgeShapeFault
  | .needsFlatten source layout shape label => .needsFlatten (f source) layout shape label
  | .needsReshape source layout shape label => .needsReshape (f source) layout shape label
  | .features declared source provided => .features declared (f source) provided
  | .addend kind source added output => .addend kind (f source) added output
  | .rule fault => .rule fault

/-- The fault with the nodes that it names renamed. -/
def Fault.rename (f : String → String) : Fault → Fault
  | .duplicateNode id => .duplicateNode (f id)
  | .noDataset => .noDataset
  | .missingEnd role id => .missingEnd role (f id)
  | .selfLoop id => .selfLoop (f id)
  | .intoDataset target => .intoDataset (f target)
  | .wrongGraph id mode => .wrongGraph (f id) mode
  | .betweenGraphs source sourceMode target targetMode =>
    .betweenGraphs (f source) sourceMode (f target) targetMode
  | .alreadyConnected source target => .alreadyConnected (f source) (f target)
  | .secondDefaultInput target => .secondDefaultInput (f target)
  | .refusedType source produced target label => .refusedType (f source) produced (f target) label
  | .refusedWorkflowType source produced target expected =>
    .refusedWorkflowType (f source) produced (f target) expected
  | .callbackFeeds source target => .callbackFeeds (f source) (f target)
  | .wrongSuccessor source producer target consumer =>
    .wrongSuccessor (f source) producer (f target) consumer
  | .tooFewOperands label id count => .tooFewOperands label (f id) count
  | .noDefaultInput id => .noDefaultInput (f id)
  | .fedFromOutside source target root => .fedFromOutside (f source) (f target) (f root)
  | .noLayers root => .noLayers (f root)
  | .noInput id => .noInput (f id)
  | .noConstructor operator => .noConstructor operator
  | .vanished id => .vanished (f id)
  | .noOptimizer operator => .noOptimizer operator
  | .cycle id => .cycle (f id)
  | .unknownOperator node operator => .unknownOperator (f node) operator
  | .param node problem => .param (f node) problem
  | .datasetRule node fault => .datasetRule (f node) fault
  | .rule node fault => .rule (f node) fault
  | .edgeShape target fault => .edgeShape (f target) (fault.rename f)
  | .settings problem => .settings problem

/-- A fault is of the same kind when the nodes that it names are renamed. -/
theorem Fault.kind_rename (f : String → String) (fault : Fault) :
    (fault.rename f).kind = fault.kind := by
  cases fault <;> rfl

/-! ## Answers -/

/-- The answer for the renamed drawing. -/
def renamed {α β : Type} (f : String → String) (r : α → β) : Except Fault α → Except Fault β
  | .ok a => .ok (r a)
  | .error fault => .error (fault.rename f)

@[simp] theorem renamed_ok {α β : Type} (f : String → String) (r : α → β) (a : α) :
    renamed f r (.ok a) = .ok (r a) := rfl

@[simp] theorem renamed_error {α β : Type} (f : String → String) (r : α → β) (fault : Fault) :
    renamed f r (.error fault) = .error (fault.rename f) := rfl

theorem renamed_bind {α β γ δ : Type} {f : String → String} {r : α → β} {r' : γ → δ}
    {x : Except Fault α} {next : α → Except Fault γ} {next' : β → Except Fault δ}
    (h : ∀ a, next' (r a) = renamed f r' (next a)) :
    renamed f r x >>= next' = renamed f r' (x >>= next) := by
  cases x with
  | error fault => rfl
  | ok a => exact h a

theorem renamed_ite {α β : Type} {f : String → String} {r : α → β} (p : Prop) [Decidable p]
    (x y : Except Fault α) :
    renamed f r (if p then x else y) = if p then renamed f r x else renamed f r y := by
  split <;> rfl

section Renaming

variable {f g : String → String} (hf : f.Injective)

/-! ## Tables -/

namespace Table

variable {α β : Type}

include hf in
theorem get?_rename_eq_some_iff (r : α → β) (table : Table α) (name : String) (value : β) :
    (table.rename f r).get? name = some value ↔
      ∃ key old, f key = name ∧ table.get? key = some old ∧ r old = value := by
  have hkeys : ((table.entries.map fun entry => (f entry.1, r entry.2)).map Prod.fst).Nodup := by
    have hnames : ((table.entries.map Prod.fst).map f).Nodup := table.nodup_names.map hf
    rwa [List.map_map] at hnames ⊢
  rw [rename, get?_ofList_eq_some_iff hkeys, List.mem_map]
  constructor
  · rintro ⟨⟨key, old⟩, hentry, heq⟩
    obtain ⟨hkey, hvalue⟩ := Prod.mk.inj heq
    exact ⟨key, old, hkey, (lookup_eq_some_iff table.nodup_names).2 hentry, hvalue⟩
  · rintro ⟨key, old, rfl, hold, rfl⟩
    exact ⟨(key, old), (lookup_eq_some_iff table.nodup_names).1 hold, rfl⟩

include hf in
theorem get?_rename (r : α → β) (table : Table α) (name : String) :
    (table.rename f r).get? (f name) = (table.get? name).map r := by
  apply Option.ext
  intro value
  rw [get?_rename_eq_some_iff hf, Option.map_eq_some_iff]
  constructor
  · rintro ⟨key, old, hkey, hold, hvalue⟩
    exact ⟨old, hf hkey ▸ hold, hvalue⟩
  · rintro ⟨old, hold, hvalue⟩
    exact ⟨name, old, rfl, hold, hvalue⟩

include hf in
theorem rename_insert (r : α → β) (table : Table α) (name : String) (value : α) :
    (table.insert name value).rename f r = (table.rename f r).insert (f name) (r value) := by
  apply ext_get?
  intro key
  apply Option.ext
  intro found
  rw [get?_rename_eq_some_iff hf, get?_insert]
  split
  · rename_i heq
    simp only [heq, get?_insert, hf.eq_iff, Option.some.injEq]
    constructor
    · rintro ⟨other, old, rfl, hold, rfl⟩
      rw [if_pos rfl] at hold
      rw [Option.some.inj hold]
    · rintro rfl
      exact ⟨name, value, rfl, if_pos rfl, rfl⟩
  · rename_i hne
    rw [get?_rename_eq_some_iff hf]
    apply exists_congr
    intro other
    apply exists_congr
    intro old
    apply and_congr_right
    rintro rfl
    rw [get?_insert, if_neg fun heq => hne (congrArg f heq)]

include hf in
theorem rename_ofList (r : α → β) (pairs : List (String × α)) :
    (ofList pairs).rename f r = ofList (pairs.map fun pair => (f pair.1, r pair.2)) := by
  have hmany : ∀ (pairs : List (String × α)) (table : Table α),
      (table.insertMany pairs).rename f r =
        (table.rename f r).insertMany (pairs.map fun pair => (f pair.1, r pair.2)) := by
    intro pairs
    induction pairs with
    | nil => exact fun _ => rfl
    | cons pair rest ih =>
      intro table
      have hstep : table.insertMany (pair :: rest) =
          (table.insert pair.1 pair.2).insertMany rest := rfl
      rw [hstep, ih, rename_insert hf]
      rfl
  exact hmany pairs empty

end Table

/-! ## Searches -/

namespace Search

variable {next next' : String → List String}

include hf

theorem mem_map_iff {names : List String} {name : String} : f name ∈ names.map f ↔ name ∈ names :=
  List.mem_map_of_injective hf

theorem without_map (names : List String) (name : String) :
    without (names.map f) (f name) = (without names name).map f := by
  rw [without, without, List.filter_map]
  refine congrArg (List.map f) (List.filter_congr fun other _ => ?_)
  simp only [Function.comp_apply, bne, hf.beq_eq]

theorem visit_map (hnext : ∀ name, next' (f name) = (next name).map f)
    (unmet frontier : List String) :
    visit next' (unmet.map f) (frontier.map f) = (visit next unmet frontier).map f := by
  fun_induction visit next unmet frontier with
  | case1 => rw [List.map_nil, visit]
  | case2 unmet name frontier hname ih =>
    rw [List.map_cons, visit, if_pos ((mem_map_iff hf).2 hname), without_map hf, hnext,
      ← List.map_append, ih, List.map_cons]
  | case3 unmet name frontier hname ih =>
    rw [List.map_cons, visit, if_neg fun h => hname ((mem_map_iff hf).1 h), ih]

theorem filter_mem_map (names kept : List String) :
    (names.map f).filter (· ∈ kept.map f) = (names.filter (· ∈ kept)).map f := by
  rw [List.filter_map]
  refine congrArg (List.map f) (List.filter_congr fun name _ => ?_)
  simp only [Function.comp_apply, mem_map_iff hf]

theorem finishing_map (hnext : ∀ name, next' (f name) = (next name).map f)
    (unmet finished stack : List String) :
    finishing next' (unmet.map f) (finished.map f) (stack.map f) =
      ((finishing next unmet finished stack).map (List.map f)).mapError f := by
  fun_induction finishing next unmet finished stack with
  | case1 => rw [List.map_nil, finishing]; rfl
  | case2 unmet finished name stack hname hself =>
    rw [List.map_cons, finishing, if_pos ((mem_map_iff hf).2 hname), hnext,
      if_pos ((mem_map_iff hf).2 hself)]
    rfl
  | case3 unmet finished name stack hname hself left ih =>
    have hleft : without (unmet.map f) (f name) = left.map f := without_map hf unmet name
    rw [List.map_cons, finishing, if_pos ((mem_map_iff hf).2 hname), hnext,
      if_neg fun h => hself ((mem_map_iff hf).1 h)]
    dsimp only
    rw [hleft, filter_mem_map hf, ← List.map_reverse, ← List.map_cons, ← List.map_append, ih]
  | case4 unmet finished name stack hname hfinished ih =>
    rw [List.map_cons, finishing, if_neg fun h => hname ((mem_map_iff hf).1 h),
      if_pos ((mem_map_iff hf).2 hfinished), ih]
  | case5 unmet finished name stack hname hfinished ih =>
    rw [List.map_cons, finishing, if_neg fun h => hname ((mem_map_iff hf).1 h),
      if_neg fun h => hfinished ((mem_map_iff hf).1 h), ← List.map_cons, ih]

theorem backLink?_map {previous previous' : String → List String}
    (hprevious : ∀ name, previous' (f name) = (previous name).map f) (unmet order : List String) :
    backLink? previous' (unmet.map f) (order.map f) = (backLink? previous unmet order).map f := by
  have hfind : ∀ left name : List String,
      (name.map f).find? (· ∈ left.map f) = (name.find? (· ∈ left)).map f := by
    intro left names
    rw [List.find?_map]
    refine congrArg (Option.map f) ?_
    apply congrArg (List.find? · names)
    funext name
    simp only [Function.comp_apply, mem_map_iff hf]
  induction order generalizing unmet with
  | nil => rfl
  | cons name rest ih =>
    rw [List.map_cons, backLink?, backLink?]
    by_cases hname : name ∈ unmet
    · rw [if_pos hname, if_pos ((mem_map_iff hf).2 hname)]
      simp only [without_map hf, hprevious, hfind, ih]
      cases (previous name).find? (· ∈ without unmet name) <;> rfl
    · rw [if_neg hname, if_neg fun h => hname ((mem_map_iff hf).1 h), ih]

end Search

/-! ## Networks -/

theorem Node.operator_rename (f : String → String) (n : Node) :
    (n.rename f).operator = renamed f (fun operator => operator) n.operator := by
  have hmode : (n.rename f).mode = n.mode := rfl
  have hoperator : (n.rename f).operatorId = n.operatorId := rfl
  have hid : (n.rename f).id = f n.id := rfl
  rw [Node.operator, Node.operator, hmode, hoperator, hid]
  cases Catalog.find? n.mode n.operatorId <;> rfl

@[simp] theorem Placed.id_rename (f : String → String) (p : Placed) :
    (p.rename f).id = f p.id := rfl

@[simp] theorem Placed.operator_rename (f : String → String) (p : Placed) :
    (p.rename f).operator = p.operator := rfl

theorem Placed.map_id_rename (f : String → String) (placed : List Placed) :
    (placed.map (Placed.rename f)).map Placed.id = (placed.map Placed.id).map f := by
  rw [List.map_map, List.map_map]
  rfl

/-- A test of renamed nodes that comes out as for the nodes. -/
theorem Placed.filter_rename {keep keep' : Placed → Bool}
    (hkeep : ∀ p, keep' (p.rename f) = keep p) (placed : List Placed) :
    (placed.map (Placed.rename f)).filter keep' = (placed.filter keep).map (Placed.rename f) := by
  rw [List.filter_map]
  exact congrArg (List.map (Placed.rename f)) (List.filter_congr fun p _ => hkeep p)

theorem Edge.filter_rename {keep keep' : Edge → Bool} (hkeep : ∀ e, keep' (e.rename f g) = keep e)
    (edges : List Edge) :
    (edges.map (Edge.rename f g)).filter keep' = (edges.filter keep).map (Edge.rename f g) := by
  rw [List.filter_map]
  exact congrArg (List.map (Edge.rename f g)) (List.filter_congr fun e _ => hkeep e)

theorem Edge.map_source_rename (edges : List Edge) :
    (edges.map (Edge.rename f g)).map Edge.source = (edges.map Edge.source).map f := by
  rw [List.map_map, List.map_map]
  rfl

theorem Edge.map_target_rename (edges : List Edge) :
    (edges.map (Edge.rename f g)).map Edge.target = (edges.map Edge.target).map f := by
  rw [List.map_map, List.map_map]
  rfl

namespace Network

/-- The network with its nodes and edges renamed. -/
def rename (g : String → String) (net : Network) : Network where
  nodes := net.nodes.map (Placed.rename f)
  edges := net.edges.map (Edge.rename f g)
  nodup_ids := by
    rw [Placed.map_id_rename]
    exact net.nodup_ids.map hf
  ends_mem := by
    intro e he
    obtain ⟨d, hd, rfl⟩ := List.mem_map.1 he
    rw [Placed.map_id_rename]
    exact (net.ends_mem d hd).imp List.mem_map_of_mem List.mem_map_of_mem

variable (g) (net : Network)

theorem ids_rename : (net.rename hf g).ids = net.ids.map f := Placed.map_id_rename f net.nodes

theorem find?_rename (id : String) :
    (net.rename hf g).find? (f id) = (net.find? id).map (Placed.rename f) := by
  have hkey : ((·.id == f id) : Placed → Bool) ∘ Placed.rename f = (·.id == id) := by
    funext p
    exact hf.beq_eq
  rw [find?, find?, rename, List.find?_map, hkey]

theorem incoming_rename (id : String) :
    (net.rename hf g).incoming (f id) = (net.incoming id).map (Edge.rename f g) :=
  Edge.filter_rename (fun _ => hf.beq_eq) net.edges

theorem outgoing_rename (id : String) :
    (net.rename hf g).outgoing (f id) = (net.outgoing id).map (Edge.rename f g) :=
  Edge.filter_rename (fun _ => hf.beq_eq) net.edges

theorem targets_rename (id : String) :
    (net.rename hf g).targets (f id) = (net.targets id).map f := by
  rw [targets, targets, outgoing_rename, Edge.map_target_rename]

theorem latestTargets_rename (id : String) :
    (net.rename hf g).latestTargets (f id) = (net.latestTargets id).map f := by
  rw [latestTargets, latestTargets, targets_rename, List.map_reverse]

theorem sources_rename (id : String) :
    (net.rename hf g).sources (f id) = (net.sources id).map f := by
  rw [sources, sources, incoming_rename, Edge.map_source_rename]

theorem isMerge_rename (id : String) : (net.rename hf g).isMerge (f id) = net.isMerge id := by
  rw [isMerge, isMerge, find?_rename]
  cases net.find? id <;> rfl

theorem operands_rename (id : String) :
    (net.rename hf g).operands (f id) = (net.operands id).map f := by
  have hnormal : ((net.incoming id).map (Edge.rename f g)).filter (·.kind = .normal) =
      ((net.incoming id).filter (·.kind = .normal)).map (Edge.rename f g) :=
    Edge.filter_rename (fun _ => rfl) (net.incoming id)
  rw [operands, operands, isMerge_rename, incoming_rename, hnormal, ← List.map_take,
    Edge.map_source_rename, Edge.map_source_rename]
  split <;> rfl

theorem roots_rename : (net.rename hf g).roots = net.roots.map (Placed.rename f) :=
  Placed.filter_rename (fun _ => rfl) net.nodes

theorem root_rename : (net.rename hf g).root = renamed f (Placed.rename f) net.root := by
  rw [root, root, roots_rename]
  cases net.roots <;> rfl

/-! ### Cycles -/

theorem cycleNode?_rename : (net.rename hf g).cycleNode? = net.cycleNode?.map f := by
  have hfinishing := Search.finishing_map hf (net.latestTargets_rename g hf) net.ids [] net.ids
  rw [List.map_nil] at hfinishing
  rw [cycleNode?, cycleNode?, ids_rename, hfinishing]
  cases Search.finishing net.latestTargets net.ids [] net.ids with
  | error id => rfl
  | ok order => exact Search.backLink?_map hf (net.sources_rename g hf) net.ids order

theorem checkAcyclic_rename :
    (net.rename hf g).checkAcyclic = renamed f id net.checkAcyclic := by
  rw [checkAcyclic, checkAcyclic, cycleNode?_rename]
  cases net.cycleNode? <;> rfl

/-! ### Orders -/

include hf in
theorem lastOccurrences_map (names : List String) :
    lastOccurrences (names.map f) = (lastOccurrences names).map f := by
  induction names with
  | nil => rfl
  | cons a rest ih =>
    rw [List.map_cons, lastOccurrences, lastOccurrences, ih]
    simp only [Search.mem_map_iff hf]
    split <;> rfl

theorem released_rename (pending : List String) (id : String) :
    (net.rename hf g).released (pending.map f) (f id) = (net.released pending id).map f := by
  rw [released, released, targets_rename, lastOccurrences_map hf, List.filter_map]
  refine congrArg (List.map f) (List.filter_congr fun target _ => ?_)
  rw [Function.comp_apply, sources_rename, List.all_map]
  congr 1
  funext source
  simp only [Function.comp_apply, Search.mem_map_iff hf]

theorem drain_rename (pending queue : List String) :
    (net.rename hf g).drain (pending.map f) (queue.map f) = (net.drain pending queue).map f := by
  fun_induction net.drain pending queue with
  | case1 => rw [List.map_nil, drain]
  | case2 pending id queue hid left ih =>
    have hleft : Search.without (pending.map f) (f id) = left.map f :=
      Search.without_map hf pending id
    rw [List.map_cons, drain, if_pos ((Search.mem_map_iff hf).2 hid), hleft]
    dsimp only
    rw [released_rename, ← List.map_append, ih, List.map_cons]
  | case3 pending id queue hid ih =>
    rw [List.map_cons, drain, if_neg fun h => hid ((Search.mem_map_iff hf).1 h), ih]

theorem sourceless_rename : (net.rename hf g).sourceless = net.sourceless.map f := by
  rw [sourceless, sourceless, ids_rename, List.filter_map]
  refine congrArg (List.map f) (List.filter_congr fun id _ => ?_)
  rw [Function.comp_apply, incoming_rename, List.isEmpty_map]

theorem topological_rename :
    (net.rename hf g).topological = renamed f (List.map f) net.topological := by
  rw [topological_eq, topological_eq, checkAcyclic_rename, ids_rename, sourceless_rename,
    drain_rename]
  cases net.checkAcyclic <;> rfl

theorem reachable_rename (id : String) :
    (net.rename hf g).reachable (f id) = (net.reachable id).map f := by
  have hvisit := Search.visit_map hf (net.targets_rename g hf) net.ids [id]
  rw [reachable, reachable, ids_rename, ← List.map_singleton, hvisit, Search.filter_mem_map hf]

theorem sourcesOfKind_rename (kind : EdgeKind) (id : String) :
    (net.rename hf g).sourcesOfKind kind (f id) = (net.sourcesOfKind kind id).map f := by
  have hnodes : (net.rename hf g).nodes = net.nodes.map (Placed.rename f) := rfl
  rw [sourcesOfKind, sourcesOfKind, hnodes, List.flatMap_map, List.map_flatMap]
  apply List.flatMap_congr
  intro p _
  have hfilter : ((net.outgoing p.id).map (Edge.rename f g)).filter
      (fun e => e.target = f id ∧ e.kind = kind) =
        ((net.outgoing p.id).filter fun e => e.target = id ∧ e.kind = kind).map
          (Edge.rename f g) := by
    apply Edge.filter_rename
    intro e
    simp only [Edge.rename, hf.eq_iff]
  rw [Placed.id_rename, outgoing_rename, hfilter, Edge.map_source_rename]

theorem addends_rename (kind : EdgeKind) :
    (net.rename hf g).addends kind = (net.addends kind).rename f (List.map f) := by
  have hat : ∀ p : Placed, (net.rename hf g).addendsAt? kind (p.rename f) =
      (net.addendsAt? kind p).map fun entry => (f entry.1, entry.2.map f) := by
    intro p
    rw [addendsAt?, addendsAt?, Placed.id_rename, Placed.operator_rename, sourcesOfKind_rename]
    split
    · rfl
    · cases net.sourcesOfKind kind p.id <;> rfl
  rw [addends, addends, Table.rename_ofList hf]
  refine congrArg Table.ofList ?_
  rw [rename, List.filterMap_map, List.map_filterMap]
  exact List.filterMap_congr fun p _ => hat p

theorem filterMap_find?_rename (ids : List String) :
    (ids.map f).filterMap (net.rename hf g).find? =
      (ids.filterMap net.find?).map (Placed.rename f) := by
  rw [List.filterMap_map, List.map_filterMap]
  exact List.filterMap_congr fun id _ => net.find?_rename g hf id

theorem emissionFrom_rename (root : Placed) :
    (net.rename hf g).emissionFrom (root.rename f) = (net.emissionFrom root).rename f := by
  let nodes := ((net.drain (net.reachable root.id) [root.id]).filterMap net.find?).filter fun p =>
    decide (p.id ≠ root.id ∧ ¬ p.operator.isLoss)
  have hreachable : (net.rename hf g).reachable (root.rename f).id =
      (net.reachable root.id).map f := net.reachable_rename g hf root.id
  have hnodes : (((net.rename hf g).drain ((net.reachable root.id).map f)
      [(root.rename f).id]).filterMap (net.rename hf g).find?).filter
        (fun p => decide (p.id ≠ (root.rename f).id ∧ ¬ p.operator.isLoss)) =
          nodes.map (Placed.rename f) := by
    rw [Placed.id_rename, ← List.map_singleton, drain_rename, filterMap_find?_rename]
    apply Placed.filter_rename
    intro p
    simp only [Placed.id_rename, Placed.operator_rename, ne_eq, hf.eq_iff]
  have hinputs : (nodes.map (Placed.rename f)).map
      (fun p => (p.id, (net.rename hf g).operands p.id)) =
        (nodes.map fun p => (p.id, net.operands p.id)).map
          fun pair => (f pair.1, pair.2.map f) := by
    rw [List.map_map, List.map_map]
    apply List.map_congr_left
    intro p _
    simp only [Function.comp_apply, Placed.id_rename, operands_rename]
  have hloss : (net.nodes.map (Placed.rename f)).find? (·.operator.isLoss) =
      (net.nodes.find? (·.operator.isLoss)).map (Placed.rename f) := List.find?_map
  have hunreached : (net.nodes.map (Placed.rename f)).filter
      (fun p => decide (p.id ∉ (net.reachable root.id).map f)) =
        (net.nodes.filter fun p => decide (p.id ∉ net.reachable root.id)).map
          (Placed.rename f) := by
    apply Placed.filter_rename
    intro p
    simp only [Placed.id_rename, Search.mem_map_iff hf]
  have hplaced : (net.rename hf g).nodes = net.nodes.map (Placed.rename f) := rfl
  simp only [emissionFrom, Emission.rename, hreachable, addends_rename, Table.rename_ofList hf,
    hplaced, hnodes, hinputs, hloss, hunreached, nodes]

theorem emission_rename :
    (net.rename hf g).emission = renamed f (Emission.rename f) net.emission := by
  rw [emission_eq, emission_eq, root_rename]
  apply renamed_bind
  intro root
  rw [checkAcyclic_rename]
  apply renamed_bind
  intro _
  rw [emissionFrom_rename, renamed_ok]

/-! ### Drawn nodes and edges -/

/-- Placed nodes with their ids renamed. -/
def Nodes.rename (placed : Nodes) : Nodes :=
  ⟨placed.1.map (Placed.rename f), by
    rw [Placed.map_id_rename]
    exact placed.2.map hf⟩

theorem addNode_rename (placed : Nodes) (n : Node) :
    addNode (placed.rename hf) (n.rename f) = renamed f (Nodes.rename hf) (addNode placed n) := by
  have hid : f n.id ∈ (placed.1.map (Placed.rename f)).map Placed.id ↔
      n.id ∈ placed.1.map Placed.id := by
    rw [Placed.map_id_rename, Search.mem_map_iff hf]
  rw [addNode, addNode, Node.operator_rename]
  cases n.operator with
  | error fault => rfl
  | ok operator =>
    by_cases hmem : n.id ∈ placed.1.map Placed.id
    · have hmem' : (n.rename f).id ∈ (placed.rename hf).1.map Placed.id := hid.2 hmem
      simp only [renamed_ok, dif_pos hmem, dif_pos hmem']
      rfl
    · have hmem' : (n.rename f).id ∉ (placed.rename hf).1.map Placed.id :=
        fun h => hmem (hid.1 h)
      simp only [renamed_ok, dif_neg hmem, dif_neg hmem']
      refine congrArg Except.ok (Subtype.ext ?_)
      let p : Placed := ⟨n, operator⟩
      show placed.1.map (Placed.rename f) ++ [p.rename f] =
        (placed.1 ++ [p]).map (Placed.rename f)
      rw [List.map_append, List.map_singleton]

theorem placeNodes_rename (nodes : List Node) :
    placeNodes (nodes.map (Node.rename f)) = renamed f (Nodes.rename hf) (placeNodes nodes) := by
  have hall : ∀ (nodes : List Node) (placed : Nodes),
      (nodes.map (Node.rename f)).foldlM addNode (placed.rename hf) =
        renamed f (Nodes.rename hf) (nodes.foldlM addNode placed) := by
    intro nodes
    induction nodes with
    | nil => exact fun _ => rfl
    | cons n rest ih =>
      intro placed
      rw [List.map_cons, List.foldlM_cons, List.foldlM_cons, addNode_rename]
      exact renamed_bind ih
  exact hall nodes ⟨[], by simp⟩

theorem ofNodes_rename (placed : Nodes) (edges : List Edge) :
    ofNodes (placed.rename hf) (edges.map (Edge.rename f g)) =
      (ofNodes placed edges).rename hf g := by
  have hedges : (edges.map (Edge.rename f g)).filter
      (fun e => e.source ∈ (placed.rename hf).1.map Placed.id ∧
        e.target ∈ (placed.rename hf).1.map Placed.id) =
      (edges.filter fun e => e.source ∈ placed.1.map Placed.id ∧
        e.target ∈ placed.1.map Placed.id).map (Edge.rename f g) := by
    apply Edge.filter_rename
    intro e
    simp only [Nodes.rename, Edge.rename, Placed.map_id_rename, Search.mem_map_iff hf]
  simp only [ofNodes, rename, hedges]
  rfl

theorem ofGraph_rename (nodes : List Node) (edges : List Edge) :
    ofGraph (nodes.map (Node.rename f)) (edges.map (Edge.rename f g)) =
      renamed f (rename hf g) (ofGraph nodes edges) := by
  rw [ofGraph, ofGraph, placeNodes_rename hf]
  cases placeNodes nodes with
  | error fault => rfl
  | ok placed => exact congrArg Except.ok (ofNodes_rename g hf placed edges)

end Network
end Renaming
end LayerGraph
