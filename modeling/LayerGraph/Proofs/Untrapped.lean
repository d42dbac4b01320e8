import LayerGraph.Proofs.Trapping
import LayerGraph.Proofs.WordSizes
/-!
# No rule is trapped

On inputs in signed words and parameters that their operator accepts, the rules end step by step as
`Rule.apply` says (`Rule.steps_eq`). The tests of the rank make the positions, the test of the stride
makes the division, and the kernel of at least one element makes the sum behind the division.

* `Window.countSteps_eq_ite`: where a window is trapped. With a kernel of at least one element it is
  nowhere (`Window.countSteps_eq`).
* `Rule.steps_eq`: neither is a rule whose own numbers are sound (`Rule.RanksFit`).
* `rules_never_trapped`: the operators of the architecture have such rules, and what they compute is
  in signed words again. So no rule is trapped in a propagation
  (`Network.IsPropagation.steps_eq`).
-/

namespace LayerGraph
set_option autoImplicit false

open Steps (ended ended_bind_congr ended_ite ended_ok_bind item_eq)

/-! ## Windows -/

namespace Window

variable {w : Window}

/-- All that is trapped is the sum behind the division, where a window is moved on by one over a span
as large as a word. -/
theorem countSteps_eq_ite (size : Int) :
    w.countSteps size =
      if w.stride = 1 ∧ w.padded? size = some (w.kernel + Word.greatest) then Steps.trapped .range
      else ended (w.count size) := by
  rw [countSteps, count]
  cases hpadded : w.padded? size with
  | none =>
    rw [if_neg (by simp)]
    rfl
  | some padded =>
    simp only [Option.some_inj]
    cases hspan : Word.checked (padded - w.kernel) with
    | none =>
      have hne : padded ≠ w.kernel + Word.greatest := by
        intro heq
        have hgreatest : padded - w.kernel = Word.greatest := by omega
        exact Word.checked_eq_none_iff.1 hspan (hgreatest ▸ by decide)
      rw [if_neg (mt And.right hne)]
      rfl
    | some span =>
      obtain ⟨hfits, rfl⟩ := Word.checked_eq_some_iff.1 hspan
      have hgreatest : padded = w.kernel + Word.greatest ↔ padded - w.kernel = Word.greatest := by
        omega
      simp only [hgreatest]
      by_cases hnegative : padded - w.kernel < 0
      · have hne : padded - w.kernel ≠ Word.greatest := by unfold Word.greatest; omega
        rw [if_neg (mt And.right hne), if_pos hnegative, if_pos hnegative]
        rfl
      by_cases hstride : w.stride < 1
      · have hne : w.stride ≠ 1 := by omega
        rw [if_neg (mt And.left hne), if_neg hnegative, if_neg hnegative, if_pos hstride,
          if_pos hstride]
        rfl
      have hquotient := Word.fits_ediv hfits (Int.not_lt.1 hnegative) (Int.not_lt.1 hstride)
      have hsum := Word.fits_ediv_add_one_iff hfits (Int.not_lt.1 hnegative) (Int.not_lt.1 hstride)
      rw [if_neg hnegative, if_neg hnegative, if_neg hstride, if_neg hstride,
        Steps.quotient_eq (by omega) (by omega) hquotient, ended_ok_bind, Steps.sum, Steps.provided]
      by_cases htrap : w.stride = 1 ∧ padded - w.kernel = Word.greatest
      · rw [if_pos htrap, if_neg (mt hsum.1 (not_not_intro htrap))]
      · rw [if_neg htrap, if_pos (hsum.2 htrap)]

/-- Without an element in the kernel the sum behind the division leaves the words. -/
example : (⟨0, 1, 0⟩ : Window).countSteps Word.greatest = Steps.trapped .range := rfl

/-- Behind a padded size that is checked, a kernel of at least one element leaves less. -/
theorem countSteps_eq (hkernel : 1 ≤ w.kernel) (size : Int) :
    w.countSteps size = ended (w.count size) := by
  have hnot : w.padded? size ≠ some (w.kernel + Word.greatest) := by
    intro hpadded
    obtain ⟨-, ⟨-, hle⟩, heq⟩ := padded?_eq_some_iff.1 hpadded
    omega
  rw [countSteps_eq_ite, if_neg (mt And.right hnot)]

theorem applySteps_eq (hkernel : 1 ≤ w.kernel) (d : Dim) : w.applySteps d = ended (w.apply d) := by
  cases d with
  | fixed size =>
    rw [applySteps, countSteps_eq hkernel, apply]
    cases w.count size <;> rfl
  | batch => rfl
  | unknown => rfl

end Window

namespace Rule

variable {α : Type} {params : Params} {input : Shape}

/-! ## Ranks and windows -/

/-- A rank that leaves room for the batch and the channels lets them be read. -/
theorem ended_expectRank_bind {what : String} {ranks : List Nat} {f : Unit → Steps RuleFault α}
    {g : Dim × Dim × List Dim → Except RuleFault α} (hranks : ∀ rank ∈ ranks, 2 ≤ rank)
    (h : ∀ first channels rest, input.dims = first :: channels :: rest →
      f () = ended (g (first, channels, rest))) :
    ended (expectRank what ranks input) >>= f = ended (channelled what ranks input >>= g) := by
  unfold expectRank channelled
  split
  · rename_i hrank
    obtain ⟨first, channels, rest, hdims⟩ :
        ∃ first channels rest, input.dims = first :: channels :: rest := by
      have hlength : 2 ≤ input.dims.length := hranks _ hrank
      match hdims : input.dims with
      | first :: channels :: rest => exact ⟨first, channels, rest, rfl⟩
      | [_] | [] => rw [hdims] at hlength; simp at hlength
    rw [hdims]
    exact h first channels rest hdims
  · rfl

theorem windowSteps_bind {w : Window} {first channels channels' : Dim} {rest : List Dim}
    {f : List Dim → Steps RuleFault α} {g : List Dim → Except RuleFault α}
    (hkernel : 1 ≤ w.kernel) (h : ∀ slid, f (first :: channels' :: slid) = ended (g slid)) :
    windowSteps (first :: channels :: rest) channels' w >>= f = ended (slide w rest >>= g) := by
  have hslide : (rest.mapM w.applySteps).adapt .window = ended (slide w rest) := by
    rw [Steps.ended_mapM fun d _ => Window.applySteps_eq hkernel d, Steps.adapt_ended, slide]
  rw [windowSteps, Steps.replace_eq (by simp), ended_ok_bind]
  -- What is replaced is in front of the dimensions that are slid over.
  change ((rest.mapM w.applySteps).adapt .window >>= fun slid =>
    pure (first :: channels' :: slid)) >>= f = _
  rw [hslide, bind_assoc]
  exact ended_bind_congr fun slid _ => h slid

theorem convSteps_eq {spatial : Nat} (hspatial : Word.Fits ↑(spatial + 2))
    (hkernel : params.HasKernel) :
    convSteps spatial params input = ended (convShape spatial params input) := by
  rw [convSteps, Steps.sumNat_eq hspatial, ended_ok_bind]
  refine ended_expectRank_bind (by simp) fun first channels rest hdims => ?_
  refine ended_bind_congr fun out _ => ended_bind_congr fun kernel hset =>
    ended_bind_congr fun stride _ => ended_bind_congr fun padding _ => ?_
  rw [hdims]
  exact windowSteps_bind (hkernel kernel (intParam_eq_ok_iff.1 hset)) fun slid => rfl

theorem poolSteps_eq {spatial : Nat} (hspatial : Word.Fits ↑(spatial + 2))
    (hkernel : params.HasKernel) :
    poolSteps spatial params input = ended (poolShape spatial params input) := by
  rw [poolSteps, Steps.sumNat_eq hspatial, ended_ok_bind]
  refine ended_expectRank_bind (by simp) fun first channels rest hdims => ?_
  refine ended_bind_congr fun kernel hset => ended_bind_congr fun padding _ =>
    ended_ite (fun _ => ?_) fun _ => rfl
  rw [hdims, item_eq rfl, ended_ok_bind]
  exact windowSteps_bind (hkernel kernel (intParam_eq_ok_iff.1 hset)) fun slid => rfl

theorem residualSteps_eq : residualSteps params input = ended (residualShape params input) := by
  refine ended_expectRank_bind (by simp) fun first channels rest hdims => ?_
  refine ended_bind_congr fun out _ => ended_bind_congr fun stride _ => ?_
  rw [hdims]
  exact windowSteps_bind (by show (1 : Int) ≤ 3; omega) fun slid => rfl

/-! ## Other rules of one input -/

theorem linearSteps_eq : linearSteps params input = ended (linearShape params input) := by
  refine ended_ite (fun _ => rfl) fun hshort => ?_
  cases hlast : input.last? with
  | none => rfl
  | some last =>
    refine ended_bind_congr fun features _ => ?_
    have hlt : input.rank - 1 < input.dims.length := Nat.sub_one_lt (by omega)
    have hset : input.dims.set (input.rank - 1) (.fixed features) =
        input.dims.dropLast ++ [.fixed features] := by
      obtain ⟨front, hdims⟩ := List.getLast?_eq_some_iff.1 hlast
      simp [Shape.rank, hdims]
    rw [Steps.lessNat_eq (by omega), ended_ok_bind, Steps.replace_eq hlt, hset]
    rfl

theorem adaptivePoolSteps_eq :
    adaptivePoolSteps params input = ended (adaptivePoolShape params input) := by
  refine ended_expectRank_bind (by simp) fun first channels rest hdims => ?_
  refine ended_bind_congr fun size _ => ?_
  rw [hdims]
  rfl

theorem flattenSteps_eq : flattenSteps params input = ended (flattenShape params input) := by
  refine ended_bind_congr fun start _ =>
    ended_ite (fun _ => rfl) fun _ => ended_ite (fun _ => rfl) fun hbehind => ?_
  have hle : start.toNat ≤ input.dims.length := Nat.le_of_not_le hbehind
  rw [Steps.fromOn_eq hle, ended_ok_bind]
  refine ended_bind_congr fun collapsed _ => ?_
  rw [Steps.before_eq hle]
  rfl

theorem batchNormSteps_eq {ranks : List Nat} (hranks : ∀ rank ∈ ranks, 2 ≤ rank) :
    batchNormSteps ranks input = ended (batchNormShape ranks input) := by
  refine ended_expectRank_bind hranks fun first channels rest hdims => ?_
  rw [hdims]
  rfl

theorem inceptionSteps_eq : inceptionSteps params input = ended (inceptionShape params input) := by
  refine ended_expectRank_bind (by simp) fun first channels rest hdims => ?_
  refine ended_bind_congr fun total _ => ?_
  rw [hdims]
  rfl

/-! ## Several inputs -/

theorem addSteps_eq (inputs : List Shape) : addSteps inputs = ended (addShape inputs) := by
  match inputs with
  | [] | [_] => rfl
  | first :: second :: rest =>
    rw [addSteps, if_neg (by simp), item_eq rfl, ended_ok_bind, List.drop_one, List.tail_cons,
      addShape]
    cases (second :: rest).zipIdx 1 |>.find? (·.1 ≠ first) <;> rfl

/-- The dimensions of one input stand at the positions of the first from `front` on. -/
theorem joinDimsSteps_eq {axis index : Nat} {first : Shape} {front back dims : List Dim}
    {sum : AxisSum} (hfirst : first.dims = front ++ back) (hlength : dims.length = back.length) :
    joinDimsSteps axis index first sum (dims.zipIdx front.length) =
      ended (joinDims axis index sum ((dims.zip back).zipIdx front.length)) := by
  induction dims generalizing front back sum with
  | nil => rfl
  | cons dim dims ih =>
    obtain ⟨other, back, rfl⟩ := List.exists_cons_of_length_eq_add_one hlength.symm
    have hfirst' : first.dims = (front ++ [other]) ++ back := by rw [hfirst, List.append_cons]
    have hrest : ∀ sum, joinDimsSteps axis index first sum (dims.zipIdx (front.length + 1)) =
        ended (joinDims axis index sum ((dims.zip back).zipIdx (front.length + 1))) := by
      intro sum
      have hposition : (front ++ [other]).length = front.length + 1 := List.length_append
      rw [← hposition]
      exact ih hfirst' (Nat.succ.inj hlength)
    rw [List.zip_cons_cons, List.zipIdx_cons, List.zipIdx_cons, joinDimsSteps, joinDims]
    refine ended_ite (fun _ => ended_bind_congr fun sum _ => hrest sum) fun _ => ?_
    have hother : first.dims[front.length]? = some other := by simp [hfirst]
    rw [item_eq hother, ended_ok_bind]
    exact ended_ite (fun _ => hrest sum) fun _ => rfl

theorem joinShapesSteps_eq {axis : Nat} {first : Shape} {shapes : List (Shape × Nat)}
    {sum : AxisSum} :
    joinShapesSteps axis first sum shapes = ended (joinShapes axis first sum shapes) := by
  induction shapes generalizing sum with
  | nil => rfl
  | cons entry rest ih =>
    obtain ⟨shape, index⟩ := entry
    rw [joinShapesSteps, joinShapes]
    refine ended_ite (fun hrank => ?_) fun _ => rfl
    have hjoin : joinDimsSteps axis index first sum shape.dims.zipIdx =
        ended (joinDims axis index sum (shape.dims.zip first.dims).zipIdx) :=
      joinDimsSteps_eq (List.nil_append _).symm hrank
    rw [hjoin]
    exact ended_bind_congr fun sum _ => ih

theorem axisSteps_eq {rank : Nat} {dim : Int} (hrank : Word.Fits rank) (hdim : Word.Fits dim) :
    axisSteps rank dim = ended (.ok (if dim < 0 then rank + dim else dim)) := by
  unfold axisSteps
  by_cases hnegative : dim < 0
  · rw [if_pos hnegative, if_pos hnegative]
    refine Steps.sum_eq ?_
    unfold Word.Fits Word.least Word.greatest at hrank hdim ⊢
    omega
  · rw [if_neg hnegative, if_neg hnegative]
    rfl

theorem concatSteps_eq {inputs : List Shape} (hparams : params.InWords)
    (hranks : ∀ s ∈ inputs, Word.Fits s.rank) :
    concatSteps params inputs = ended (concatShape params inputs) := by
  match inputs with
  | [] | [_] => rfl
  | first :: second :: rest =>
    have hfits : Word.Fits first.rank := hranks first List.mem_cons_self
    rw [concatSteps, if_neg (by simp)]
    refine ended_bind_congr fun dim hset => ?_
    have hdim : Word.Fits dim := hparams "dim" dim (intParam_eq_ok_iff.1 hset)
    rw [item_eq rfl, ended_ok_bind, Steps.count_eq hfits, ended_ok_bind, axisSteps_eq hfits hdim,
      ended_ok_bind]
    generalize (if dim < 0 then (first.rank : Int) + dim else dim) = axis
    refine ended_ite (fun _ => rfl) fun hrange => ?_
    obtain ⟨hnonneg, hlt⟩ := not_or.1 hrange
    have hlt' : axis.toNat < first.dims.length := by
      unfold Shape.rank at hlt
      omega
    rw [Steps.position_eq (by omega), ended_ok_bind, joinShapesSteps_eq]
    refine ended_bind_congr fun sum _ => ?_
    rw [Steps.replace_eq hlt']
    rfl

/-! ## All rules -/

/-- The ranks that a rule tests are words, or leave room for the channels that it reads behind. -/
def RanksFit : Rule → Prop
  | conv spatial => Word.Fits ↑(spatial + 2)
  | pool spatial => Word.Fits ↑(spatial + 2)
  | batchNorm ranks => ∀ rank ∈ ranks, 2 ≤ rank
  | _ => True

instance (rule : Rule) : Decidable rule.RanksFit :=
  match rule with
  | conv _ | pool _ => inferInstanceAs (Decidable (Word.Fits _))
  | batchNorm ranks => inferInstanceAs (Decidable (∀ rank ∈ ranks, 2 ≤ rank))
  | dataset | preserve | linear | adaptivePool | flatten | layerNorm | add | concat | block _
  | scalar => inferInstanceAs (Decidable True)

/-- The rules end step by step as they do at once. -/
theorem steps_eq {rule : Rule} {inputs : List Shape} (hranks : rule.RanksFit)
    (hparams : params.InWords) (hkernel : params.HasKernel)
    (hinputs : ∀ s ∈ inputs, Word.Fits s.rank) :
    rule.steps params inputs = ended (rule.apply params inputs) := by
  have hone : ∀ {f : Shape → Steps RuleFault RuleResult} {g : Shape → Except RuleFault RuleResult},
      (∀ input, f input = ended (g input)) →
      ended (onlyInput inputs) >>= f = ended (onlyInput inputs >>= g) :=
    fun h => ended_bind_congr fun input _ => h input
  cases rule with
  | linear => exact hone fun _ => linearSteps_eq
  | conv spatial => exact hone fun _ => convSteps_eq hranks hkernel
  | pool spatial => exact hone fun _ => poolSteps_eq hranks hkernel
  | adaptivePool => exact hone fun _ => adaptivePoolSteps_eq
  | flatten => exact hone fun _ => flattenSteps_eq
  | batchNorm ranks => exact hone fun _ => batchNormSteps_eq hranks
  | add => exact addSteps_eq inputs
  | concat => exact concatSteps_eq hparams hinputs
  | block kind =>
    cases kind with
    | residual => exact hone fun _ => residualSteps_eq
    | inception => exact hone fun _ => inceptionSteps_eq
  | layerNorm => exact hone fun _ => rfl
  | dataset | preserve | scalar => rfl

end Rule

theorem Operator.steps_resolve {o : Operator} (ho : o ∈ Architecture.all) {params : Params}
    (hproblems : o.problems params = []) (hparams : params.InWords) {inputs : List Shape}
    (hinputs : ∀ s ∈ inputs, s.InWords) :
    o.rule.steps (o.resolve params) inputs = ended (o.rule.apply (o.resolve params) inputs) := by
  have hranks : ∀ o ∈ Architecture.all, o.rule.RanksFit := by decide
  exact Rule.steps_eq (hranks o ho) (inWords_resolve ho hparams) (hasKernel_resolve ho hproblems)
    fun s hs => (hinputs s hs).rank

/-- A rule of the architecture is never trapped: on inputs in signed words, and with parameters that
its operator accepts, its steps end as the rule does, and what they compute is in signed words. -/
theorem rules_never_trapped (o : Operator) (ho : o ∈ Operator.Architecture.all) (params : Params)
    (hproblems : o.problems params = []) (hparams : params.InWords) (inputs : List Shape)
    (hinputs : ∀ s ∈ inputs, s.InWords) :
    o.rule.steps (o.resolve params) inputs = ended (o.rule.apply (o.resolve params) inputs) ∧
      ∀ result, o.rule.apply (o.resolve params) inputs = .ok result → result.InWords :=
  ⟨Operator.steps_resolve ho hproblems hparams hinputs, fun _ happly =>
    Rule.inWords_of_apply happly (Operator.inWords_resolve ho hparams)
      (Operator.hasKernel_resolve ho hproblems) hinputs⟩

/-- A kernel of one element stands at every position of the largest images. -/
theorem rules_never_trapped_greatest :
    let conv := Operator.Architecture.conv "conv2d" "Conv2d" 2 "nn.Conv2d"
    let params : Params := .ofList [("kernel_size", .int 1)]
    let input := Shape.image 3 Word.greatest Word.greatest
    ∃ result : RuleResult, conv.rule.steps (conv.resolve params) [input] = ended (.ok result) ∧
      result.InWords ∧ result.shape = Shape.image 32 Word.greatest Word.greatest := by
  intro conv params input
  obtain ⟨result, happly, hshape⟩ :
      ∃ result : RuleResult, conv.rule.apply (conv.resolve params) [input] = .ok result ∧
        result.shape = Shape.image 32 Word.greatest Word.greatest := ⟨_, rfl, rfl⟩
  obtain ⟨hsteps, hwords⟩ := rules_never_trapped conv (by decide) params (by decide +kernel)
    (Params.inWords_ofList (by decide)) [input] (by decide)
  exact ⟨result, by rw [hsteps, happly], hwords result happly, hshape⟩

/-! ## Propagation -/

namespace Network.IsPropagation

variable {net : Network} {overlay : Propagation} {faults : List Fault}

/-- Shapes stay in signed words all along the network. -/
theorem inWords (h : net.IsPropagation overlay faults) (hparams : net.HasParams)
    (hwords : ∀ p ∈ net.nodes, p.node.params.InWords) {id : String} {shape : Shape}
    (hshape : overlay.shape? id = some shape) : shape.InWords := by
  refine h.forall_shape (fun _ shape => shape.InWords)
    (fun p hp hgraph inputs result hinputs happly => ?_) hshape
  obtain ⟨ho, hproblems⟩ := hparams p hp hgraph
  refine (Rule.inWords_of_apply happly (Operator.inWords_resolve ho (hwords p hp))
    (Operator.hasKernel_resolve ho hproblems) fun input hinput => ?_).shape
  obtain ⟨s, -, -, hinput⟩ := hinputs input hinput
  exact hinput

/-- No rule is trapped on what its node reads. -/
theorem steps_eq (h : net.IsPropagation overlay faults) (hparams : net.HasParams)
    (hwords : ∀ p ∈ net.nodes, p.node.params.InWords) {p : Placed} (hp : p ∈ net.nodes)
    (hgraph : p.node.isPipeline = false) {inputs : List Shape}
    (hinputs : overlay.inputs? net p = some inputs) :
    p.operator.rule.steps (p.operator.resolve p.node.params) inputs =
      ended (p.operator.rule.apply (p.operator.resolve p.node.params) inputs) := by
  obtain ⟨ho, hproblems⟩ := hparams p hp hgraph
  refine Operator.steps_resolve ho hproblems (hwords p hp) fun input hinput => ?_
  obtain ⟨-, -, hread⟩ := Propagation.inputs?_eq_some_iff.1 hinputs
  obtain ⟨s, -, hshape⟩ := mem_of_mapM_eq_some hread hinput
  exact h.inWords hparams hwords hshape

end Network.IsPropagation
end LayerGraph
