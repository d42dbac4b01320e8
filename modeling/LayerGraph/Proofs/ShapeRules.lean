import LayerGraph.Proofs.Catalog
import LayerGraph.Proofs.Concatenation
import LayerGraph.Validation.Edge
/-!
# What the shape rules keep

* `Shape.IsBatched s`: the batch comes first and fixed dimensions follow. Every rule but the scalar
  one makes batched shapes of batched shapes (`isBatched_of_apply`).
* `Rule.inputRank?` is the rank that a rule wants of its input (`rank_of_apply`), and
  `Rule.learnedName?` the parameter that it takes from a dimension of its input
  (`learned_of_apply`).
* `rule_of_declaredLayout_flat`: what is declared flat comes from a dense layer or from flattening.
-/

namespace LayerGraph
set_option autoImplicit false

/-! ## Batched shapes -/

/-- The dimension has a size. -/
def Dim.IsFixed (d : Dim) : Prop := ∃ size, d = .fixed size

/-- The batch and then fixed dimensions, at least one of them. -/
def Shape.IsBatched (s : Shape) : Prop :=
  ∃ rest, s.dims = .batch :: rest ∧ rest ≠ [] ∧ ∀ d ∈ rest, d.IsFixed

theorem Shape.IsBatched.ne_unknown {s : Shape} (h : s.IsBatched) : ∀ d ∈ s.dims, d ≠ .unknown := by
  obtain ⟨rest, hdims, -, hfixed⟩ := h
  intro d hd
  rw [hdims] at hd
  rcases List.mem_cons.1 hd with rfl | hd
  · simp
  · obtain ⟨size, rfl⟩ := hfixed d hd
    simp

theorem Shape.IsBatched.isFixed_last {s : Shape} (h : s.IsBatched) :
    ∃ size, s.last? = some (.fixed size) := by
  obtain ⟨rest, hdims, hne, hfixed⟩ := h
  obtain ⟨size, hsize⟩ := hfixed (rest.getLast hne) (List.getLast_mem hne)
  refine ⟨size, ?_⟩
  rw [last?, hdims, List.getLast?_cons_of_ne_nil hne, List.getLast?_eq_getLast_of_ne_nil hne, hsize]

theorem Shape.IsBatched.isFixed_get? {s : Shape} (h : s.IsBatched) :
    ∃ size, s.get? 1 = some (.fixed size) := by
  obtain ⟨rest, hdims, hne, hfixed⟩ := h
  obtain ⟨d, more, rfl⟩ := List.exists_cons_of_ne_nil hne
  obtain ⟨size, rfl⟩ := hfixed d List.mem_cons_self
  exact ⟨size, by rw [get?, hdims]; rfl⟩

namespace Rule

/-! ## One input -/

theorem onlyInput_eq_ok_iff {inputs : List Shape} {input : Shape} :
    onlyInput inputs = .ok input ↔ inputs = [input] := by
  rw [onlyInput.eq_def]
  split
  · rename_i shape
    exact ⟨fun h => by rw [Except.ok.inj h], fun h => by rw [(List.cons.inj h).1]⟩
  · rename_i hnot
    exact ⟨(nomatch ·), fun h => absurd h (hnot input)⟩

theorem exists_of_onlyInput {inputs : List Shape} {f : Shape → Except RuleFault RuleResult}
    {result : RuleResult} (h : onlyInput inputs >>= f = .ok result) :
    ∃ input, inputs = [input] ∧ f input = .ok result := by
  obtain ⟨input, hinput, h⟩ := bind_eq_ok_iff.1 h
  exact ⟨input, onlyInput_eq_ok_iff.1 hinput, h⟩

theorem channelled_eq_ok {what : String} {ranks : List Nat} {s : Shape} {first channels : Dim}
    {rest : List Dim} (h : channelled what ranks s = .ok (first, channels, rest)) :
    s.rank ∈ ranks ∧ s.dims = first :: channels :: rest := by
  unfold channelled at h
  split at h
  · rename_i hrank
    split at h
    · rename_i hdims
      obtain ⟨rfl, hrest⟩ := Prod.mk.inj (Except.ok.inj h)
      obtain ⟨rfl, rfl⟩ := Prod.mk.inj hrest
      exact ⟨hrank, hdims⟩
    · cases h
  · cases h

/-- A window slides over each dimension on its own. -/
theorem slide_eq_ok_iff {w : Window} {dims slid : List Dim} :
    slide w dims = .ok slid ↔ List.Forall₂ (fun d d' => w.apply d = .ok d') dims slid := by
  rw [slide, mapError_eq_ok_iff, mapM_eq_ok_iff]

theorem exists_of_mem_slide {w : Window} {dims slid : List Dim} (h : slide w dims = .ok slid)
    {d' : Dim} (hd' : d' ∈ slid) : ∃ d ∈ dims, w.apply d = .ok d' :=
  mem_of_mapM_eq_ok (mapError_eq_ok_iff.1 h) hd'

theorem isFixed_of_slide {w : Window} {dims result : List Dim} (h : slide w dims = .ok result)
    (hdims : ∀ d ∈ dims, d.IsFixed) : ∀ d ∈ result, d.IsFixed := by
  intro d' hd'
  obtain ⟨d, hd, happly⟩ := exists_of_mem_slide h hd'
  obtain ⟨size, rfl⟩ := hdims d hd
  obtain ⟨positions, -, rfl⟩ := map_eq_ok_iff.1 happly
  exact ⟨positions, rfl⟩

/-- A batched shape with its channels replaced and its other dimensions changed. -/
theorem isBatched_of_channelled {s : Shape} {first channels channels' : Dim}
    {rest rest' : List Dim} (hs : s.IsBatched) (hdims : s.dims = first :: channels :: rest)
    (hchannels : channels.IsFixed → channels'.IsFixed)
    (hrest : (∀ d ∈ rest, d.IsFixed) → ∀ d ∈ rest', d.IsFixed) :
    (⟨first :: channels' :: rest'⟩ : Shape).IsBatched := by
  obtain ⟨more, hmore, -, hfixed⟩ := hs
  rw [hdims] at hmore
  obtain ⟨rfl, rfl⟩ := List.cons.inj hmore
  refine ⟨channels' :: rest', rfl, List.cons_ne_nil _ _, fun d hd => ?_⟩
  rcases List.mem_cons.1 hd with rfl | hd
  · exact hchannels (hfixed channels List.mem_cons_self)
  · exact hrest (fun d hd => hfixed d (List.mem_cons_of_mem _ hd)) d hd

theorem isFixed_of_collapse {whole : Shape} {size : Int} {dims : List Dim} {d : Dim}
    (h : collapse whole size false dims = .ok d) (hdims : ∀ d ∈ dims, d.IsFixed) : d.IsFixed := by
  induction dims generalizing size with
  | nil => exact ⟨size, (Except.ok.inj h).symm⟩
  | cons first rest ih =>
    obtain ⟨n, rfl⟩ := hdims first List.mem_cons_self
    unfold collapse at h
    split at h
    · exact ih h fun d hd => hdims d (List.mem_cons_of_mem _ hd)
    · cases h

theorem isBatched_linearShape {params : Params} {input : Shape} {result : RuleResult}
    (h : linearShape params input = .ok result) (hinput : input.IsBatched) :
    result.shape.IsBatched := by
  simp only [linearShape, refuse_eq_ok_iff] at h
  obtain ⟨-, h⟩ := h
  split at h
  · cases h
  · obtain ⟨features, -, h⟩ := bind_eq_ok_iff.1 h
    obtain rfl := Except.ok.inj h
    obtain ⟨rest, hdims, hne, hfixed⟩ := hinput
    refine ⟨rest.dropLast ++ [.fixed features], ?_, by simp, fun d hd => ?_⟩
    · simp only [hdims, List.dropLast_cons_of_ne_nil hne, List.cons_append]
    · rcases List.mem_append.1 hd with hd | hd
      · exact hfixed d (List.mem_of_mem_dropLast hd)
      · exact ⟨features, List.mem_singleton.1 hd⟩

theorem isBatched_convShape {spatial : Nat} {params : Params} {input : Shape}
    {result : RuleResult} (h : convShape spatial params input = .ok result)
    (hinput : input.IsBatched) : result.shape.IsBatched := by
  simp only [convShape, bind_eq_ok_iff] at h
  obtain ⟨⟨first, channels, rest⟩, hdims, out, -, kernel, -, stride, -, padding, -, slid, hslid,
    h⟩ := h
  obtain rfl := Except.ok.inj h
  exact isBatched_of_channelled hinput (channelled_eq_ok hdims).2 (fun _ => ⟨out, rfl⟩)
    (isFixed_of_slide hslid)

theorem isBatched_poolShape {spatial : Nat} {params : Params} {input : Shape}
    {result : RuleResult} (h : poolShape spatial params input = .ok result)
    (hinput : input.IsBatched) : result.shape.IsBatched := by
  simp only [poolShape, bind_eq_ok_iff] at h
  obtain ⟨⟨first, channels, rest⟩, hdims, kernel, -, padding, -, h⟩ := h
  split at h
  · obtain ⟨slid, hslid, h⟩ := bind_eq_ok_iff.1 h
    obtain rfl := Except.ok.inj h
    exact isBatched_of_channelled hinput (channelled_eq_ok hdims).2 id (isFixed_of_slide hslid)
  · cases h

theorem isBatched_adaptivePoolShape {params : Params} {input : Shape} {result : RuleResult}
    (h : adaptivePoolShape params input = .ok result) (hinput : input.IsBatched) :
    result.shape.IsBatched := by
  simp only [adaptivePoolShape, bind_eq_ok_iff] at h
  obtain ⟨⟨first, channels, rest⟩, hdims, size, -, h⟩ := h
  obtain rfl := Except.ok.inj h
  refine isBatched_of_channelled hinput (channelled_eq_ok hdims).2 id fun _ d hd => ⟨size, ?_⟩
  simpa using hd

theorem isBatched_flattenShape {params : Params} {input : Shape} {result : RuleResult}
    (h : flattenShape params input = .ok result) (hinput : input.IsBatched) {start : Int}
    (hparam : params.int? "start_dim" = some start) (hstart : 1 ≤ start) :
    result.shape.IsBatched := by
  obtain ⟨rest, hdims, -, hfixed⟩ := hinput
  simp only [flattenShape, intParam, hparam, bind_eq_ok_iff, Except.ok.injEq, exists_eq_left',
    refuse_eq_ok_iff] at h
  obtain ⟨-, -, collapsed, hcollapsed, h⟩ := h
  obtain rfl := h
  obtain ⟨more, hmore⟩ : ∃ more, start.toNat = more + 1 := ⟨start.toNat - 1, by omega⟩
  rw [hmore, hdims, List.drop_succ_cons] at hcollapsed
  have hfixed' : ∀ d ∈ rest.take more ++ [collapsed], d.IsFixed := fun d hd => by
    rcases List.mem_append.1 hd with hd | hd
    · exact hfixed d (List.mem_of_mem_take hd)
    · rw [List.mem_singleton.1 hd]
      exact isFixed_of_collapse hcollapsed fun d hd => hfixed d (List.mem_of_mem_drop hd)
  refine ⟨rest.take more ++ [collapsed], ?_, by simp, hfixed'⟩
  simp only [hmore, hdims, List.take_succ_cons, List.cons_append]

theorem shape_batchNormShape {ranks : List Nat} {input : Shape} {result : RuleResult}
    (h : batchNormShape ranks input = .ok result) : result.shape = input := by
  simp only [batchNormShape, bind_eq_ok_iff] at h
  obtain ⟨dims, -, h⟩ := h
  exact Except.ok.inj h ▸ rfl

theorem shape_layerNormShape {input : Shape} {result : RuleResult}
    (h : layerNormShape input = .ok result) : result.shape = input := by
  unfold layerNormShape at h
  split at h
  · cases h
  · exact Except.ok.inj h ▸ rfl

theorem isBatched_residualShape {params : Params} {input : Shape} {result : RuleResult}
    (h : residualShape params input = .ok result) (hinput : input.IsBatched) :
    result.shape.IsBatched := by
  simp only [residualShape, bind_eq_ok_iff] at h
  obtain ⟨⟨first, channels, rest⟩, hdims, out, -, stride, -, slid, hslid, h⟩ := h
  obtain rfl := Except.ok.inj h
  exact isBatched_of_channelled hinput (channelled_eq_ok hdims).2 (fun _ => ⟨out, rfl⟩)
    (isFixed_of_slide hslid)

theorem isBatched_inceptionShape {params : Params} {input : Shape} {result : RuleResult}
    (h : inceptionShape params input = .ok result) (hinput : input.IsBatched) :
    result.shape.IsBatched := by
  simp only [inceptionShape, bind_eq_ok_iff] at h
  obtain ⟨⟨first, channels, rest⟩, hdims, total, -, h⟩ := h
  obtain rfl := Except.ok.inj h
  exact isBatched_of_channelled hinput (channelled_eq_ok hdims).2 (fun _ => ⟨total, rfl⟩) id

/-! ## Several inputs -/

theorem shape_addShape {inputs : List Shape} {result : RuleResult}
    (h : addShape inputs = .ok result) : result.shape ∈ inputs := by
  rw [addShape.eq_def] at h
  split at h
  · split at h
    · cases h
    · exact Except.ok.inj h ▸ List.mem_cons_self
  · cases h

/-- A concatenation of batched shapes does not touch the batch. -/
theorem isBatched_concatShape {params : Params} {inputs : List Shape} {result : RuleResult}
    (h : concatShape params inputs = .ok result) (hinputs : ∀ s ∈ inputs, s.IsBatched) :
    result.shape.IsBatched := by
  obtain ⟨dim, axis, first, hfirst, -, hstacks, -, rfl⟩ := concatShape_eq_ok h
  have hmem := List.mem_of_mem_head? hfirst
  obtain ⟨more, hdims, hne, hfixed⟩ := hinputs first hmem
  have hbehind : axis ≠ 0 := fun hzero =>
    hstacks.notBatch first hmem (by rw [hzero, Shape.get?, hdims]; rfl)
  have hknown : .unknown ∉ Shape.dimsAt axis inputs := fun hunknown => by
    obtain ⟨s, hs, hget⟩ := Shape.mem_dimsAt.1 hunknown
    exact (hinputs s hs).ne_unknown _ (List.mem_of_getElem? hget) rfl
  obtain ⟨position, rfl⟩ := Nat.exists_eq_succ_of_ne_zero hbehind
  refine ⟨more.set position (Shape.joinedDim (position + 1) inputs), by rw [hdims]; rfl,
    by simpa using hne, fun d hd => ?_⟩
  rcases List.mem_or_eq_of_mem_set hd with hd | rfl
  · exact hfixed d hd
  · exact ⟨_, if_neg hknown⟩

/-! ## All rules -/

theorem isBatched_datasetShape {params : Params} {result : RuleResult}
    (h : datasetShape params = .ok result) : result.shape.IsBatched := by
  unfold datasetShape at h
  split at h
  · cases h
  · split at h
    · cases h
    · rename_i found _
      obtain rfl := Except.ok.inj h
      refine ⟨_, rfl, List.cons_ne_nil _ _, fun d hd => ?_⟩
      simp only [List.mem_cons, List.not_mem_nil, or_false] at hd
      rcases hd with rfl | rfl | rfl <;> exact ⟨_, rfl⟩

theorem isBatched_of_apply {rule : Rule} {params : Params} {inputs : List Shape}
    {result : RuleResult} (h : rule.apply params inputs = .ok result) (hscalar : rule ≠ .scalar)
    (hflatten : rule = .flatten → ∃ start, params.int? "start_dim" = some start ∧ 1 ≤ start)
    (hinputs : ∀ s ∈ inputs, s.IsBatched) : result.shape.IsBatched := by
  have hone : ∀ {f : Shape → Except RuleFault RuleResult}, onlyInput inputs >>= f = .ok result →
      ∃ input, f input = .ok result ∧ input.IsBatched := fun hbind => by
    obtain ⟨input, rfl, hshape⟩ := exists_of_onlyInput hbind
    exact ⟨input, hshape, hinputs input (List.mem_singleton_self _)⟩
  cases rule with
  | dataset => exact isBatched_datasetShape h
  | preserve =>
    unfold apply at h
    cases honly : onlyInput inputs with
    | error fault => simp [honly, Except.map] at h
    | ok input =>
      obtain rfl := onlyInput_eq_ok_iff.1 honly
      rw [honly] at h
      exact Except.ok.inj h ▸ hinputs input (List.mem_singleton_self _)
  | linear =>
    obtain ⟨input, hshape, hinput⟩ := hone h
    exact isBatched_linearShape hshape hinput
  | conv spatial =>
    obtain ⟨input, hshape, hinput⟩ := hone h
    exact isBatched_convShape hshape hinput
  | pool spatial =>
    obtain ⟨input, hshape, hinput⟩ := hone h
    exact isBatched_poolShape hshape hinput
  | adaptivePool =>
    obtain ⟨input, hshape, hinput⟩ := hone h
    exact isBatched_adaptivePoolShape hshape hinput
  | flatten =>
    obtain ⟨input, hshape, hinput⟩ := hone h
    obtain ⟨start, hparam, hstart⟩ := hflatten rfl
    exact isBatched_flattenShape hshape hinput hparam hstart
  | batchNorm ranks =>
    obtain ⟨input, hshape, hinput⟩ := hone h
    exact shape_batchNormShape hshape ▸ hinput
  | layerNorm =>
    obtain ⟨input, hshape, hinput⟩ := hone h
    exact shape_layerNormShape hshape ▸ hinput
  | add => exact hinputs _ (shape_addShape h)
  | concat => exact isBatched_concatShape h hinputs
  | block kind =>
    cases kind with
    | residual =>
      obtain ⟨input, hshape, hinput⟩ := hone h
      exact isBatched_residualShape hshape hinput
    | inception =>
      obtain ⟨input, hshape, hinput⟩ := hone h
      exact isBatched_inceptionShape hshape hinput
  | scalar => exact absurd rfl hscalar

/-- The rank of its input that a rule tests. -/
def testedRank? : Rule → Option Nat
  | conv spatial => some (spatial + 2)
  | pool spatial => some (spatial + 2)
  | adaptivePool => some 4
  | batchNorm [rank] => some rank
  | block _ => some 4
  | _ => none

/-- The parameter that a rule learns from its input. -/
def learnedName? : Rule → Option String
  | linear => some "in_features"
  | conv _ => some "in_channels"
  | batchNorm _ => some "num_features"
  | layerNorm => some "normalized_shape"
  | block _ => some "in_channels"
  | _ => none

end Rule

/-- The parameters that have to equal a dimension of the input. -/
def learnedNames : List String := ["in_features", "in_channels", "num_features", "normalized_shape"]

theorem Rule.learnedName?_mem {rule : Rule} {name : String} (h : rule.learnedName? = some name) :
    name ∈ learnedNames := by
  cases rule <;> cases h <;> decide

theorem Rule.eq_linear_of_learnedName? {rule : Rule} (h : rule.learnedName? = some "in_features") :
    rule = .linear := by
  cases rule <;> simp [Rule.learnedName?] at h ⊢

/-- The dimension of its input that a learned parameter of a layer equals. -/
def learnedDim? (name : String) (input : Shape) : Option Dim :=
  if name = "in_features" ∨ name = "normalized_shape" then input.last?
  else if name = "in_channels" ∨ name = "num_features" then input.get? 1
  else none

namespace Rule

theorem get?_of_channelled {what : String} {ranks : List Nat} {s : Shape} {first channels : Dim}
    {rest : List Dim} (h : channelled what ranks s = .ok (first, channels, rest)) :
    s.get? 1 = some channels := by
  rw [Shape.get?, (channelled_eq_ok h).2]
  rfl

/-- A rule with one tested rank succeeds on an input of this rank only. -/
theorem rank_of_apply {rule : Rule} {params : Params} {inputs : List Shape} {result : RuleResult}
    (h : rule.apply params inputs = .ok result) {rank : Nat} (hrank : rule.testedRank? = some rank) :
    ∃ input, inputs = [input] ∧ input.rank = rank := by
  -- Each of these rules begins with the test of the rank.
  have htested : ∀ {what : String} {ranks : List Nat}
      {f : Shape → Dim × Dim × List Dim → Except RuleFault RuleResult},
      (onlyInput inputs >>= fun input => channelled what ranks input >>= f input) = .ok result →
      ranks = [rank] → ∃ input, inputs = [input] ∧ input.rank = rank := fun hbind hranks => by
    obtain ⟨input, hinput, hshape⟩ := exists_of_onlyInput hbind
    obtain ⟨dims, hdims, -⟩ := bind_eq_ok_iff.1 hshape
    exact ⟨input, hinput, List.mem_singleton.1 (hranks ▸ (channelled_eq_ok hdims).1)⟩
  cases rule with
  | conv spatial => exact htested h (by rw [Option.some.inj hrank])
  | pool spatial => exact htested h (by rw [Option.some.inj hrank])
  | adaptivePool => exact htested h (by rw [Option.some.inj hrank])
  | batchNorm ranks =>
    match ranks, hrank with
    | [tested], hrank => exact htested h (by rw [Option.some.inj hrank])
  | block kind =>
    cases kind with
    | residual => exact htested h (by rw [Option.some.inj hrank])
    | inception => exact htested h (by rw [Option.some.inj hrank])
  | _ => cases hrank

theorem learned_of_apply {rule : Rule} {params : Params} {inputs : List Shape} {result : RuleResult}
    (h : rule.apply params inputs = .ok result) {name : String}
    (hname : rule.learnedName? = some name) :
    ∃ input dim, inputs = [input] ∧ learnedDim? name input = some dim ∧
      result.learned = learn name dim := by
  cases rule with
  | linear =>
    obtain rfl := Option.some.inj hname
    obtain ⟨input, rfl, hshape⟩ := exists_of_onlyInput h
    simp only [linearShape, refuse_eq_ok_iff] at hshape
    obtain ⟨-, hshape⟩ := hshape
    split at hshape
    · cases hshape
    · rename_i last hlast
      obtain ⟨features, -, hshape⟩ := bind_eq_ok_iff.1 hshape
      exact ⟨input, last, rfl, hlast, Except.ok.inj hshape ▸ rfl⟩
  | conv spatial =>
    obtain rfl := Option.some.inj hname
    obtain ⟨input, rfl, hshape⟩ := exists_of_onlyInput h
    simp only [convShape, bind_eq_ok_iff] at hshape
    obtain ⟨⟨first, channels, rest⟩, hdims, _, -, _, -, _, -, _, -, _, -, hshape⟩ := hshape
    exact ⟨input, channels, rfl, get?_of_channelled hdims, Except.ok.inj hshape ▸ rfl⟩
  | batchNorm ranks =>
    obtain rfl := Option.some.inj hname
    obtain ⟨input, rfl, hshape⟩ := exists_of_onlyInput h
    simp only [batchNormShape, bind_eq_ok_iff] at hshape
    obtain ⟨⟨first, channels, rest⟩, hdims, hshape⟩ := hshape
    exact ⟨input, channels, rfl, get?_of_channelled hdims, Except.ok.inj hshape ▸ rfl⟩
  | layerNorm =>
    obtain rfl := Option.some.inj hname
    obtain ⟨input, rfl, hshape⟩ := exists_of_onlyInput h
    unfold layerNormShape at hshape
    split at hshape
    · cases hshape
    · rename_i last hlast
      exact ⟨input, last, rfl, hlast, Except.ok.inj hshape ▸ rfl⟩
  | block kind =>
    obtain rfl := Option.some.inj hname
    cases kind with
    | residual =>
      obtain ⟨input, rfl, hshape⟩ := exists_of_onlyInput h
      simp only [residualShape, bind_eq_ok_iff] at hshape
      obtain ⟨⟨first, channels, rest⟩, hdims, _, -, _, -, _, -, hshape⟩ := hshape
      exact ⟨input, channels, rfl, get?_of_channelled hdims, Except.ok.inj hshape ▸ rfl⟩
    | inception =>
      obtain ⟨input, rfl, hshape⟩ := exists_of_onlyInput h
      simp only [inceptionShape, bind_eq_ok_iff] at hshape
      obtain ⟨⟨first, channels, rest⟩, hdims, _, -, hshape⟩ := hshape
      exact ⟨input, channels, rfl, get?_of_channelled hdims, Except.ok.inj hshape ▸ rfl⟩
  | _ => cases hname

/-- A rule without a learned parameter learns nothing. -/
theorem learned_eq_nil {rule : Rule} {params : Params} {inputs : List Shape} {result : RuleResult}
    (h : rule.apply params inputs = .ok result) (hname : rule.learnedName? = none) :
    result.learned = [] := by
  cases rule with
  | dataset =>
    simp only [apply, datasetShape] at h
    split at h
    · cases h
    · split at h
      · cases h
      · exact Except.ok.inj h ▸ rfl
  | preserve | scalar =>
    simp only [apply] at h
    cases hinput : onlyInput inputs with
    | error fault =>
      rw [hinput] at h
      cases h
    | ok input =>
      rw [hinput] at h
      exact Except.ok.inj h ▸ rfl
  | pool spatial =>
    obtain ⟨input, -, hshape⟩ := exists_of_onlyInput h
    simp only [poolShape, bind_eq_ok_iff] at hshape
    obtain ⟨⟨first, channels, rest⟩, -, _, -, _, -, hshape⟩ := hshape
    split at hshape
    · obtain ⟨_, -, hshape⟩ := bind_eq_ok_iff.1 hshape
      exact Except.ok.inj hshape ▸ rfl
    · cases hshape
  | adaptivePool =>
    obtain ⟨input, -, hshape⟩ := exists_of_onlyInput h
    simp only [adaptivePoolShape, bind_eq_ok_iff] at hshape
    obtain ⟨⟨first, channels, rest⟩, -, _, -, hshape⟩ := hshape
    exact Except.ok.inj hshape ▸ rfl
  | flatten =>
    obtain ⟨input, -, hshape⟩ := exists_of_onlyInput h
    simp only [flattenShape, bind_eq_ok_iff, refuse_eq_ok_iff] at hshape
    obtain ⟨_, -, -, -, _, -, hshape⟩ := hshape
    exact Except.ok.inj hshape ▸ rfl
  | add =>
    rw [apply, addShape.eq_def] at h
    split at h
    · split at h
      · cases h
      · exact Except.ok.inj h ▸ rfl
    · cases h
  | concat =>
    obtain ⟨_, _, _, -, -, -, -, rfl⟩ := concatShape_eq_ok h
    rfl
  | linear | conv | batchNorm | layerNorm | block => cases hname

end Rule

/-! ## Layouts and operators -/

namespace Operator

/-- The rank of what an operator may read, where there is only one. -/
def inputRank? (o : Operator) : Option Nat :=
  if o.id = "linear" then some 2
  else if o.id = "conv1d" then some 3
  else if o.id = "conv2d" ∨ o.id = "batchnorm2d" ∨ o.category = .pooling ∨ o.category = .block then
    some 4
  else none

theorem inputRank?_eq_some {o : Operator} (h : o ∈ Architecture.all) {rank : Nat}
    (hrank : o.inputRank? = some rank) :
    o.rule = .linear ∧ rank = 2 ∨ o.rule.testedRank? = some rank := by
  have hall : ∀ o ∈ Architecture.all, ∀ rank, o.inputRank? = some rank →
      o.rule = .linear ∧ rank = 2 ∨ o.rule.testedRank? = some rank := by decide +kernel
  exact hall o h rank hrank

/-- A parameter that has to equal a dimension of the input is the one that the rule learns. -/
theorem learnedName?_eq_some {o : Operator} (h : o ∈ Architecture.all) {decl : ParamDecl}
    (hdecl : decl ∈ o.params)
    (hname : decl.name ∈ learnedNames) : o.rule.learnedName? = some decl.name := by
  have hall : ∀ o ∈ Architecture.all, ∀ decl ∈ o.params, decl.name ∈ learnedNames →
      o.rule.learnedName? = some decl.name := by decide +kernel
  exact hall o h decl hdecl hname

end Operator

/-- Flattening from the first dimension on leaves two dimensions. -/
theorem Rule.rank_flattenShape {params : Params} {input : Shape} {result : RuleResult}
    (h : flattenShape params input = .ok result) (hparam : params.int? "start_dim" = some 1) :
    result.shape.rank = 2 := by
  simp only [flattenShape, intParam, hparam, bind_eq_ok_iff, Except.ok.injEq, exists_eq_left',
    refuse_eq_ok_iff] at h
  obtain ⟨-, hrank, collapsed, -, h⟩ := h
  obtain rfl := h
  simp only [Shape.rank, List.length_append, List.length_take, List.length_singleton] at hrank ⊢
  omega

theorem Rule.two_le_rank_of_linearShape {params : Params} {input : Shape} {result : RuleResult}
    (h : linearShape params input = .ok result) : 2 ≤ input.rank := by
  simp only [linearShape, refuse_eq_ok_iff] at h
  exact Nat.le_of_not_lt h.1

theorem Rule.rank_linearShape {params : Params} {input : Shape} {result : RuleResult}
    (h : linearShape params input = .ok result) : result.shape.rank = input.rank := by
  simp only [linearShape, refuse_eq_ok_iff] at h
  obtain ⟨hrank, h⟩ := h
  split at h
  · cases h
  · obtain ⟨features, -, h⟩ := bind_eq_ok_iff.1 h
    obtain rfl := Except.ok.inj h
    simp only [Shape.rank, List.length_append, List.length_dropLast, List.length_singleton]
      at hrank ⊢
    omega

theorem declaredLayout?_of_linear {p : Placed} (h : p.operator.rule = .linear) :
    declaredLayout? p = some .flat := by
  rw [declaredLayout?, h]

/-- Only dense layers and flattening from the first dimension on are declared flat. -/
theorem rule_of_declaredLayout_flat {p : Placed} (h : declaredLayout? p = some .flat) :
    p.operator.rule = .linear ∨
      p.operator.rule = .flatten ∧
        (p.operator.resolve p.node.params).int? "start_dim" = some 1 := by
  unfold declaredLayout? at h
  split at h
  case h_6 hrule => exact .inl hrule
  case h_7 hrule =>
    split at h
    · rename_i hstart
      exact .inr ⟨hrule, hstart⟩
    · cases h
  case h_5 =>
    split at h
    · cases h
    · cases h
  case h_8 =>
    obtain ⟨dataset, -, hlayout⟩ := Option.bind_eq_some_iff.1 h
    cases hlayout
  all_goals cases h

end LayerGraph
