import Doxa.Schnorr.Completeness

/-!
# `set_schnorr_witness`

The witness of the verification gadget replays the chain: eighty gates of four steps each, over
the bits of challenge and response from the top, and a last step that adds the constant which
cancels the offset. Where the native verification accepts and no step meets two points of one
`x`, nothing panics and the wires satisfy the gadget.
-/

namespace Doxa.Circuit

open Lib WeierstrassCurve.Affine

/-! ## The builder -/

/-- The bit of a step, or the constant of the step after the last bit. -/
def gateBit (bits : ℕ → Bool) (rest : F) (gateIdx : ℕ) (k : Fin 4) : F :=
  let bitIdx := 4 * gateIdx + k
  if bitIdx < 319 then (if bits bitIdx then 1 else 0) else rest

/-- The array of bits after `reverse`. -/
def reversedBits (s : Scalar) (i : ℕ) : Bool := s.toBitArr (Scalar.BITS - 1 - i)

/-- The first `n` rounds of the loop: the accumulator and the gates filled so far. -/
def fillGates (q : EwPoint) (eBits sBits : ℕ → Bool) (accin : EwPoint) :
    (n : ℕ) → Option (EwPoint × (Fin n → DoubleAdd4xTargets))
  | 0 => some (accin, Fin.elim0)
  | gateIdx + 1 => do
    let (accin, da4x) ← fillGates q eBits sBits accin gateIdx
    let sp := gateBit eBits 0 gateIdx
    let sg := gateBit sBits 1 gateIdx
    let w ← computeGateWitness sp sg q accin (gateIdx = 79)
    some (w.acco4, Fin.snoc da4x (w.targets q accin sp sg (gateIdx = 79)))

/-- Panics with a gate, or where the chain does not end in the point that `cr` encodes. -/
def setSchnorrWitness (q : EwPoint) (cr : QuinticExtension) (e s : Scalar) :
    Option SchnorrTargets :=
  let accin := EwPoint.ofLocal offset
  if accin.isOnCurve then do
    let (accin, da4x) ← fillGates q (reversedBits e) (reversedBits s) accin 80
    let encoded ← accin.encode
    if encoded = cr then some { q := q.toLocal, cr, da4x } else none
  else none

/-! ## Steps of a gate -/

/-- Four steps, each from the result of the one before. -/
theorem thread_four {α : Type*} {S : ℕ → α → Prop} {R : Fin 4 → α → α → α → Prop}
    (hstep : ∀ (k : Fin 4) a, S k a → ∃ d o, R k a d o ∧ S (k + 1) o) {a : α} (ha : S 0 a) :
    ∃ acc dbl out : Fin 4 → α, acc 0 = a ∧ acc 1 = out 0 ∧ acc 2 = out 1 ∧ acc 3 = out 2 ∧
      (∀ k, R k (acc k) (dbl k) (out k)) ∧ S 4 (out 3) := by
  obtain ⟨d0, o0, h0, hs1⟩ := hstep 0 a ha
  obtain ⟨d1, o1, h1, hs2⟩ := hstep 1 o0 hs1
  obtain ⟨d2, o2, h2, hs3⟩ := hstep 2 o1 hs2
  obtain ⟨d3, o3, h3, hs4⟩ := hstep 3 o2 hs3
  refine ⟨![a, o0, o1, o2], ![d0, d1, d2, d3], ![o0, o1, o2, o3], rfl, rfl, rfl, rfl, ?_, hs4⟩
  intro k
  match k with
  | 0 => exact h0
  | 1 => exact h1
  | 2 => exact h2
  | 3 => exact h3

/-- The constraints of step `k`, with the slope that the builder assigns. -/
def StepHolds (p : LocalPointEw) (isLast : Bool) (k : Fin 4) (spi sgi : F)
    (acc dbl out : LocalPointEw) : Prop :=
  (if isLast && k = 3 then dbl = acc else P2DoubleOfP1 1 acc dbl) ∧
    DoubleAccChain dbl p (if isLast && k = 3 then offsetNeg319 else generatorPoint) out
      (slope dbl p) spi sgi

section Gate

variable {p : LocalPointEw} {isLast : Bool} {sp sg : Fin 4 → F}
  {acc dbl out : Fin 4 → LocalPointEw}

/-- The steps of a gate, threaded, satisfy the gate. -/
theorem ofSteps_satisfied_of
    (h : ∀ k, StepHolds p isLast k (sp k) (sg k) (acc k) (dbl k) (out k))
    (h1 : acc 1 = out 0) (h2 : acc 2 = out 1) (h3 : acc 3 = out 2) :
    (DoubleAdd4xTargets.ofSteps p (acc 0) sp sg (if isLast then 1 else 0) dbl out
      fun k => slope (dbl k) p).Satisfied := by
  have hearly : ∀ k : Fin 4, k ≠ 3 → (isLast && decide (k = 3)) = false := by
    intro k hk
    rw [decide_eq_false hk, Bool.and_false]
  have hdouble (k : Fin 4) (hk : k ≠ 3) : P2DoubleOfP1 1 (acc k) (dbl k) := by
    have hstep := (h k).1
    rwa [hearly k hk] at hstep
  have hchain (k : Fin 4) (hk : k ≠ 3) : DoubleAccChain (dbl k) p generatorPoint (out k)
      (slope (dbl k) p) (sp k) (sg k) := by
    have hstep := (h k).2
    rwa [hearly k hk] at hstep
  have hdbl1 := hdouble 1 (by decide)
  have hdbl2 := hdouble 2 (by decide)
  obtain ⟨hdbl3, hchain3⟩ := h 3
  rw [h1] at hdbl1
  rw [h2] at hdbl2
  rw [h3] at hdbl3
  cases isLast with
  | false =>
    refine ⟨hdouble 0 (by decide), hdbl1, hdbl2, zero_mul _, ?_, ⟨assertEqual_zero _ _,
      assertEqual_zero _ _⟩, hchain 0 (by decide), hchain 1 (by decide), hchain 2 (by decide), ?_⟩
    · change P2DoubleOfP1 (1 - 0) (out 2) (dbl 3)
      rw [sub_zero]
      exact hdbl3
    · change DoubleAccChain (dbl 3) p (lastPoint 0) (out 3) _ _ _
      rw [lastPoint_zero]
      exact hchain3
  | true =>
    have hkeep : dbl 3 = out 2 := hdbl3
    refine ⟨hdouble 0 (by decide), hdbl1, hdbl2, ?_, ?_, ?_, hchain 0 (by decide),
      hchain 1 (by decide), hchain 2 (by decide), ?_⟩
    · change (1 : F) * (1 - 1) = 0
      rw [sub_self, mul_zero]
    · change P2DoubleOfP1 (1 - 1) (out 2) (dbl 3)
      rw [sub_self]
      exact ⟨assertEqual_zero _ _, assertEqual_zero _ _⟩
    · change AssertEqual 1 (out 2).x (dbl 3).x ∧ AssertEqual 1 (out 2).y (dbl 3).y
      rw [hkeep]
      exact ⟨assertEqual_of_eq rfl, assertEqual_of_eq rfl⟩
    · change DoubleAccChain (dbl 3) p (lastPoint 1) (out 3) _ _ _
      rw [lastPoint_one]
      exact hchain3

/-- The values of four steps. -/
def witnessOfSteps (p : LocalPointEw) (dbl out : Fin 4 → LocalPointEw) :
    DoubleAdd4xGateWitness where
  accdblin := .ofLocal (dbl 0)
  acco1 := .ofLocal (out 0)
  accdblo1 := .ofLocal (dbl 1)
  acco2 := .ofLocal (out 1)
  accdblo2 := .ofLocal (dbl 2)
  acco3 := .ofLocal (out 2)
  accdblo3 := .ofLocal (dbl 3)
  acco4 := .ofLocal (out 3)
  lambda1 := slope (dbl 0) p
  lambda2 := slope (dbl 1) p
  lambda3 := slope (dbl 2) p
  lambda4 := slope (dbl 3) p

theorem witnessOfSteps_targets (accin : LocalPointEw) :
    (witnessOfSteps p dbl out).targets (.ofLocal p) (.ofLocal accin) sp sg isLast =
      .ofSteps p accin sp sg (if isLast then 1 else 0) dbl out fun k => slope (dbl k) p := rfl

/-- The witness of a gate whose four steps succeed. -/
theorem computeGateWitness_of_steps (hguard : isLast = true → sp 3 = 0 ∧ sg 3 = 1)
    (h : ∀ k, gateWitnessStep (.ofLocal p) isLast (.ofLocal (acc k)) (sp k) (sg k) k =
      some (.ofLocal (dbl k), .ofLocal (out k), slope (dbl k) p))
    (h1 : acc 1 = out 0) (h2 : acc 2 = out 1) (h3 : acc 3 = out 2) :
    computeGateWitness sp sg (.ofLocal p) (.ofLocal (acc 0)) isLast =
      some (witnessOfSteps p dbl out) := by
  have hnot : ¬ (isLast = true ∧ ¬ (sp 3 = 0 ∧ sg 3 = 1)) := fun hlast =>
    hlast.2 (hguard hlast.1)
  have e0 := h 0
  have e1 := h 1
  have e2 := h 2
  have e3 := h 3
  rw [h1] at e1
  rw [h2] at e2
  rw [h3] at e3
  simp only [computeGateWitness, if_neg hnot, e0, e1, e2, e3, Option.bind_eq_bind,
    Option.bind_some, witnessOfSteps]

end Gate

/-- Only the last step of the last gate is special. -/
theorem gateWitnessStep_early {isLast : Bool} {k : Fin 4} (h : (isLast && decide (k = 3)) = false)
    (p acc : EwPoint) (spi sgi : F) :
    gateWitnessStep p isLast acc spi sgi k = gateWitnessStep p false acc spi sgi k := by
  unfold gateWitnessStep
  rw [h]
  simp only [Bool.false_and]

/-- The last step adds the constant without doubling. -/
theorem gateWitnessStep_last {p acc : LocalPointEw} {P A C : PointEw} (hacc : acc.Holds A)
    (hp : p.Holds P) (hC : offsetNeg319.Holds C) (hx : xCoord A ≠ xCoord P)
    (hlast : xCoord A ≠ xCoord C) :
    ∃ out : LocalPointEw, gateWitnessStep (.ofLocal p) true (.ofLocal acc) 0 1 3 =
        some (.ofLocal acc, .ofLocal out, slope acc p) ∧
      out.Holds (A + C) ∧ StepHolds p true 3 0 1 acc acc out := by
  have hne := (hacc.xCoord_ne_iff hp).mp hx
  have hne' := (hacc.xCoord_ne_iff hC).mp hlast
  have htangent : (EwPoint.ofLocal acc).tangent (.ofLocal p) = some (slope acc p) := if_neg hne
  have hsum := slopeSum_holds hacc hC hne' (slope_mul hne')
  have hadd := (addTwoPoints_iff hacc hC hne').mpr hsum
  refine ⟨slopeSum acc offsetNeg319 (slope acc offsetNeg319), ?_, hsum, rfl, ?_⟩
  · have hstep : gateWitnessStep (.ofLocal p) true (.ofLocal acc) 0 1 3 =
        (EwPoint.ofLocal acc).tangent (.ofLocal p) >>= fun l =>
          (EwPoint.ofLocal acc).add (.ofLocal offsetNeg319) >>= fun o =>
            some (.ofLocal acc, o, l) := by
      unfold gateWitnessStep
      simp
    rw [hstep, htangent, EwPoint.add_ofLocal hne']
    rfl
  · change DoubleAccChain acc p offsetNeg319 _ (slope acc p) 0 1
    exact chain_second hadd

/-! ## The chain -/

/-- The accumulator before step `i`: 319 steps of double-and-add from the offset, and the step
that cancels what the offset has become. -/
def chainAcc (Q : PointEw) (eBits sBits : ℕ → Bool) : ℕ → PointEw
  | 0 => offsetPoint.point
  | i + 1 =>
    if i < 319 then doubleAddStep Q (chainAcc Q eBits sBits i) (eBits i) (sBits i)
    else chainAcc Q eBits sBits i + -(2 ^ 319 • offsetPoint.point)

/-- No step meets two points of one `x`: every step takes the slope from the accumulator, doubled
but in the last step, to the key, and may add the second point. -/
structure ChainDistinct (Q : PointEw) (eBits sBits : ℕ → Bool) : Prop where
  key : ∀ i < 319, xCoord (chainAcc Q eBits sBits i + chainAcc Q eBits sBits i) ≠ xCoord Q
  generator : ∀ i < 319, sBits i = true →
    xCoord (chainAcc Q eBits sBits i + chainAcc Q eBits sBits i + (eBits i).toNat • Q) ≠
      xCoord generator
  last_key : xCoord (chainAcc Q eBits sBits 319) ≠ xCoord Q
  last : xCoord (chainAcc Q eBits sBits 319) ≠ xCoord (-(2 ^ 319 • offsetPoint.point))

/-- The point of order two. -/
def orderTwoPoint : PointEw := (DoubleOdd.onCurve_order_two (E := ecgfp5)).point

/-- The key has a square `u`, as that of every private key has, or the chain doubles no point of
order two. -/
def ChainDoubles (Q : PointEw) (eBits sBits : ℕ → Bool) : Prop :=
  Q ∈ ecgfp5.squares ∨ ∀ i < 319, chainAcc Q eBits sBits i ≠ orderTwoPoint

section Chain

variable {Q : PointEw} {eBits sBits : ℕ → Bool} {q : LocalPointEw}

theorem chainAcc_succ {i : ℕ} (hi : i < 319) : chainAcc Q eBits sBits (i + 1) =
    doubleAddStep Q (chainAcc Q eBits sBits i) (eBits i) (sBits i) := if_pos hi

theorem yNonzero_of_ne_orderTwo {P : PointEw} (hne : P ≠ 0) (htwo : P ≠ orderTwoPoint) :
    YNonzero P := by
  cases P with
  | zero => exact absurd rfl hne
  | some x y hns =>
    have h : ecgfp5.OnCurve x y := DoubleOdd.equation_iff.mp hns.1
    intro hy
    exact htwo (DoubleOdd.point_congr h _ (h.y_eq_zero_iff.mp hy) hy)

theorem ChainDistinct.regularStep (h : ChainDistinct Q eBits sBits) {i : ℕ} (hi : i < 319)
    (hy : YNonzero (chainAcc Q eBits sBits i)) :
    RegularStep Q (chainAcc Q eBits sBits i) (eBits i) (sBits i) where
  double := hy
  first _ := h.key i hi
  second := h.generator i hi

/-- Every accumulator but the last one can be doubled. -/
theorem ChainDistinct.yNonzero (h : ChainDistinct Q eBits sBits) (hq : q.Holds Q)
    (hkey : ChainDoubles Q eBits sBits) {i : ℕ} (hi : i < 319) :
    YNonzero (chainAcc Q eBits sBits i) := by
  induction i with
  | zero => exact offsetPoint.y_ne_zero
  | succ i ih =>
    have hi' : i < 319 := Nat.lt_of_succ_lt hi
    have hreg := h.regularStep hi' (ih hi')
    have hfinite : chainAcc Q eBits sBits i ≠ 0 := by
      intro hzero
      have hy := ih hi'
      rw [hzero] at hy
      exact hy
    obtain ⟨a, ha⟩ := EwPoint.exists_holds hfinite
    obtain ⟨d, o, -, -, ho, -⟩ := (gateWitnessStep_spec hreg ha hq 0).2 (h.key i hi')
    rw [← chainAcc_succ hi'] at ho
    have hne : chainAcc Q eBits sBits (i + 1) ≠ 0 := by
      obtain ⟨ho, heq⟩ := ho
      rw [← heq]
      exact Point.some_ne_zero _
    rcases hkey with hQ | htwo
    · refine EwPoint.yNonzero_of_mem ?_ hne
      rw [chainAcc_succ hi']
      exact add_mem (add_mem (ha.double_mem (ha.x_ne_of_yNonzero (ih hi'))) (nsmul_mem hQ _))
        (nsmul_mem generator_mem _)
    · exact yNonzero_of_ne_orderTwo hne (htwo (i + 1) hi)

theorem gateBit_of_lt {bits : ℕ → Bool} {rest : F} {g : ℕ} {k : Fin 4} (h : 4 * g + k < 319) :
    gateBit bits rest g k = ((bits (4 * g + k)).toNat : F) := by
  unfold gateBit
  simp only [if_pos h]
  cases bits (4 * g + k)
  · exact Nat.cast_zero.symm
  · exact Nat.cast_one.symm

/-- Step `4 g + k` succeeds with a value that satisfies its constraints. -/
theorem ChainDistinct.step (h : ChainDistinct Q eBits sBits) (hq : q.Holds Q)
    (hkey : ChainDoubles Q eBits sBits) {g : ℕ} (hg : g < 80) (k : Fin 4) {acc : LocalPointEw}
    (hacc : acc.Holds (chainAcc Q eBits sBits (4 * g + k))) :
    ∃ dbl out : LocalPointEw, gateWitnessStep (.ofLocal q) (g = 79) (.ofLocal acc)
        (gateBit eBits 0 g k) (gateBit sBits 1 g k) k =
          some (.ofLocal dbl, .ofLocal out, slope dbl q) ∧
      out.Holds (chainAcc Q eBits sBits (4 * g + k + 1)) ∧
      StepHolds q (g = 79) k (gateBit eBits 0 g k) (gateBit sBits 1 g k) acc dbl out := by
  by_cases hi : 4 * g + k < 319
  · have hreg := h.regularStep hi (h.yNonzero hq hkey hi)
    obtain ⟨dbl, out, hstep, hdbl, hout, hne⟩ :=
      (gateWitnessStep_spec hreg hacc hq k).2 (h.key _ hi)
    have hearly : (decide (g = 79) && decide (k = 3)) = false := by
      rw [Bool.and_eq_false_iff, decide_eq_false_iff_not, decide_eq_false_iff_not]
      omega
    refine ⟨dbl, out, ?_, ?_, ?_, ?_⟩
    · rw [gateWitnessStep_early hearly, gateBit_of_lt hi, gateBit_of_lt hi, hstep]
    · rwa [chainAcc_succ hi]
    · rw [hearly]
      exact (p2Double_iff hacc hreg.double).mpr hdbl
    · rw [hearly, gateBit_of_lt hi, gateBit_of_lt hi]
      exact gateStep_chain hreg hq hdbl (fun _ _ => slope_mul hne) hout
  · obtain rfl : g = 79 := by omega
    obtain rfl : k = 3 := by
      apply Fin.ext
      show k.val = 3
      omega
    obtain ⟨out, hstep, hout, hconstraints⟩ :=
      gateWitnessStep_last hacc hq offsetNeg319_holds h.last_key h.last
    exact ⟨acc, out, hstep, hout, hconstraints⟩

/-- What is assigned to gate `g`. -/
structure FilledGate (Q : PointEw) (eBits sBits : ℕ → Bool) (q : LocalPointEw) (g : ℕ)
    (t : DoubleAdd4xTargets) : Prop where
  satisfied : t.Satisfied
  p : t.p = q
  sp : t.sp = gateBit eBits 0 g
  accin : t.accin.Holds (chainAcc Q eBits sBits (4 * g))
  acco4 : t.acco4.Holds (chainAcc Q eBits sBits (4 * (g + 1)))

theorem ChainDistinct.gate (h : ChainDistinct Q eBits sBits) (hq : q.Holds Q)
    (hkey : ChainDoubles Q eBits sBits) {g : ℕ} (hg : g < 80) {accin : LocalPointEw}
    (haccin : accin.Holds (chainAcc Q eBits sBits (4 * g))) :
    ∃ w out, computeGateWitness (gateBit eBits 0 g) (gateBit sBits 1 g) (.ofLocal q)
        (.ofLocal accin) (g = 79) = some w ∧ w.acco4 = .ofLocal out ∧
      FilledGate Q eBits sBits q g (w.targets (.ofLocal q) (.ofLocal accin) (gateBit eBits 0 g)
        (gateBit sBits 1 g) (g = 79)) := by
  have hguard : decide (g = 79) = true → gateBit eBits 0 g 3 = 0 ∧ gateBit sBits 1 g 3 = 1 := by
    intro hlast
    obtain rfl := of_decide_eq_true hlast
    exact ⟨rfl, rfl⟩
  obtain ⟨acc, dbl, out, rfl, h1, h2, h3, hsteps, hout⟩ := thread_four
    (S := fun k a => a.Holds (chainAcc Q eBits sBits (4 * g + k)))
    (R := fun k a d o => gateWitnessStep (.ofLocal q) (g = 79) (.ofLocal a) (gateBit eBits 0 g k)
        (gateBit sBits 1 g k) k = some (.ofLocal d, .ofLocal o, slope d q) ∧
      StepHolds q (g = 79) k (gateBit eBits 0 g k) (gateBit sBits 1 g k) a d o)
    (fun k a ha => by
      obtain ⟨d, o, hstep, ho, hholds⟩ := h.step hq hkey hg k ha
      exact ⟨d, o, ⟨hstep, hholds⟩, ho⟩) haccin
  refine ⟨witnessOfSteps q dbl out, out 3,
    computeGateWitness_of_steps hguard (fun k => (hsteps k).1) h1 h2 h3, rfl, ?_⟩
  rw [witnessOfSteps_targets]
  exact ⟨ofSteps_satisfied_of (fun k => (hsteps k).2) h1 h2 h3, rfl, rfl, haccin, hout⟩

/-- The loop fills its gates. -/
theorem ChainDistinct.fillGates (h : ChainDistinct Q eBits sBits) (hq : q.Holds Q)
    (hkey : ChainDoubles Q eBits sBits) {n : ℕ} (hn : n ≤ 80) :
    ∃ acc da4x, Circuit.fillGates (.ofLocal q) eBits sBits (.ofLocal offset) n =
        some (.ofLocal acc, da4x) ∧ acc.Holds (chainAcc Q eBits sBits (4 * n)) ∧
      ∀ g : Fin n, FilledGate Q eBits sBits q g (da4x g) := by
  induction n with
  | zero => exact ⟨offset, Fin.elim0, rfl, offset_holds, fun g => g.elim0⟩
  | succ n ih =>
    obtain ⟨acc, da4x, hfill, hacc, hgates⟩ := ih (Nat.le_of_succ_le hn)
    obtain ⟨w, out, hw, hout, hgate⟩ := h.gate hq hkey hn hacc
    refine ⟨out, Fin.snoc da4x (w.targets (.ofLocal q) (.ofLocal acc) (gateBit eBits 0 n)
      (gateBit sBits 1 n) (n = 79)), ?_, ?_, fun g => ?_⟩
    · rw [Circuit.fillGates, hfill]
      simp only [Option.bind_eq_bind, Option.bind_some, hw, hout]
    · have hacco4 : w.acco4.toLocal.Holds _ := hgate.acco4
      rwa [hout] at hacco4
    · refine Fin.lastCases ?_ (fun g => ?_) g
      · rw [Fin.snoc_last]
        exact hgate
      · rw [Fin.snoc_castSucc]
        exact hgates g

/-! ## The result -/

theorem chainAcc_eq {i : ℕ} (hi : i ≤ 319) : chainAcc Q eBits sBits i =
    2 ^ i • offsetPoint.point + fromTop (fun i => (eBits i).toNat) i • Q +
      fromTop (fun i => (sBits i).toNat) i • generator := by
  induction i with
  | zero =>
    rw [chainAcc, fromTop, fromTop, pow_zero, one_nsmul, zero_nsmul, zero_nsmul, add_zero, add_zero]
  | succ i ih =>
    rw [chainAcc_succ hi, doubleAddStep, ih (Nat.le_of_succ_le hi)]
    exact SchnorrTargets.nsmul_step _ _ _ _ _ _ _ _

end Chain

/-- The bits from the top spell the integer that scalar multiplication uses. -/
theorem fromTop_reversedBits (s : Scalar) :
    fromTop (fun i => (reversedBits s i).toNat) 319 = bitsVal s.toBitArr Scalar.BITS := by
  rw [fromTop_eq]
  refine bitsVal_congr fun j hj => ?_
  have hj' : j < 319 := hj
  have hindex : Scalar.BITS - 1 - (319 - 1 - j) = j := by
    unfold Scalar.BITS
    omega
  rw [reversedBits, hindex]

/-- The offset cancels. -/
theorem chainAcc_last (Q : PointEw) (e s : Scalar) :
    chainAcc Q (reversedBits e) (reversedBits s) 320 = scalarMul generator s + scalarMul Q e := by
  have hstep : chainAcc Q (reversedBits e) (reversedBits s) 320 =
      chainAcc Q (reversedBits e) (reversedBits s) 319 + -(2 ^ 319 • offsetPoint.point) :=
    if_neg (lt_irrefl 319)
  rw [hstep, chainAcc_eq le_rfl, fromTop_reversedBits, fromTop_reversedBits, scalarMul_eq,
    scalarMul_eq]
  generalize (2 : ℕ) ^ 319 • offsetPoint.point = D
  abel

theorem compressionGate_of_encode {a : LocalPointEw} {A : PointEw} {w : QuinticExtension}
    (h : a.Holds A) (henc : Doxa.encode A = some w) : CompressionGate 1 w a := by
  obtain ⟨hcurve, rfl⟩ := h
  have hdef : Doxa.encode hcurve.toPoint =
      if ECGFP5_A_DIV_3 - a.x = 0 then none else some (a.y / (ECGFP5_A_DIV_3 - a.x)) := rfl
  rw [hdef] at henc
  split at henc
  · cases henc
  · case isFalse hne =>
      obtain rfl := Option.some.inj henc
      have hx : a.x ≠ ecgfp5.e := fun hx => hne (sub_eq_zero.mpr hx.symm)
      exact compressionGate_ofOdd ⟨a.x, a.y, hcurve, hx⟩

/-- The challenge bits on the wires. -/
theorem allEBits_of_filled {t : SchnorrTargets} {e : Scalar}
    (hsp : ∀ g : Fin 80, (t.da4x g).sp = gateBit (reversedBits e) 0 g)
    (hlast : e.toBitArr 319 = false) {n : ℕ} (hn : n < 320) :
    t.allEBits n = ((e.toBitArr n).toNat : F) := by
  by_cases hn' : n < 319
  · obtain ⟨bits, hbits⟩ : ∃ bits : ℕ → Bool,
        ∀ j, bits j = if j < 319 then reversedBits e j else false := ⟨_, fun _ => rfl⟩
    have hwires : ∀ (g : Fin 80) (i : Fin 4), (t.da4x g).sp i = ((bits (4 * g + i)).toNat : F) := by
      intro g i
      rw [hsp, hbits]
      unfold gateBit
      dsimp only
      split
      · cases reversedBits e (4 * g + i)
        · exact Nat.cast_zero.symm
        · exact Nat.cast_one.symm
      · exact Nat.cast_zero.symm
    have hindex : Scalar.BITS - 1 - (318 - n) = n := by
      unfold Scalar.BITS
      omega
    rw [SchnorrTargets.allEBits_of_steps hwires hn', hbits, if_pos (by omega), reversedBits, hindex]
  · obtain rfl : n = 319 := by omega
    rw [hlast, SchnorrTargets.allEBits, if_neg hn']
    exact Nat.cast_zero.symm

variable (perm : State → State)

/-- Filled gates that end in the encoded point satisfy the gadget. -/
theorem satisfied_of_filled {Q : PointEw} {message : HashOut} {cr : QuinticExtension}
    {pubkey : PubkeyTarget} {q : LocalPointEw} {sBits : ℕ → Bool} {R : PointEw} (hqQ : q.Holds Q)
    (hq : Doxa.encode Q = some pubkey.toQuintic) {da4x : Fin 80 → DoubleAdd4xTargets}
    (hgates : ∀ g : Fin 80, FilledGate Q (reversedBits
      (schnorrChallenge perm cr pubkey.toQuintic (List.ofFn message))) sBits q g (da4x g))
    (hR : (da4x 79).acco4.Holds R) (hencode : Doxa.encode R = some cr) :
    SchnorrTargets.Satisfied { q, cr, da4x } perm message pubkey 1 := by
  have hbits : ∀ n < 320, SchnorrTargets.allEBits { q, cr, da4x } n =
      (((schnorrChallenge perm cr pubkey.toQuintic (List.ofFn message)).toBitArr n).toNat : F) :=
    fun n hn => allEBits_of_filled (fun g => (hgates g).sp) (fromHash_bit_319 _) hn
  obtain ⟨hlimbs, hlast⟩ := SchnorrTargets.limbs_of_challenge perm message pubkey hbits
  refine {
    gates := fun g => (hgates g).satisfied
    chained := fun g => ?_
    key_point := fun g => (hgates g).p
    start := ?_
    compress_r := compressionGate_of_encode hR hencode
    compress_q := compressionGate_of_encode hqQ hq
    limbs := fun k => ?_
    last_limb := by rw [hlast, mul_zero] }
  · have hout := (hgates g.castSucc).acco4
    have hin := (hgates g.succ).accin
    rw [Fin.val_castSucc] at hout
    rw [Fin.val_succ] at hin
    exact hout.unique hin
  · have hin := (hgates 0).accin
    rw [Fin.val_zero, Nat.mul_zero] at hin
    exact hin.unique offset_holds
  · rw [hlimbs]
    exact condEq_self _ _

theorem isOnCurve_of_holds {a : LocalPointEw} {A : PointEw} (h : a.Holds A) :
    (EwPoint.ofLocal a).isOnCurve = true := by
  have hpoint := (EwPoint.isPoint_iff (.ofLocal a)).mpr ⟨A, EwPoint.ofPoint_of_holds h⟩
  rcases hpoint with hneutral | hcurve
  · cases congrArg EwPoint.atInf hneutral
  · exact hcurve.2

theorem setSchnorrWitness_of_filled {q acc : EwPoint} {cr : QuinticExtension} {e s : Scalar}
    {da4x : Fin 80 → DoubleAdd4xTargets}
    (hfill : fillGates q (reversedBits e) (reversedBits s) (.ofLocal offset) 80 =
      some (acc, da4x)) (hencode : acc.encode = some cr) :
    setSchnorrWitness q cr e s = some { q := q.toLocal, cr, da4x } := by
  have hdef : setSchnorrWitness q cr e s = if (EwPoint.ofLocal offset).isOnCurve then
      fillGates q (reversedBits e) (reversedBits s) (.ofLocal offset) 80 >>= fun filled =>
        filled.1.encode >>= fun encoded =>
          if encoded = cr then some { q := q.toLocal, cr, da4x := filled.2 } else none
      else none := rfl
  rw [hdef, if_pos (isOnCurve_of_holds offset_holds), hfill, Option.bind_eq_bind, Option.bind_some, hencode,
    Option.bind_eq_bind, Option.bind_some, if_pos rfl]

/-! ## A chain without coincidence

The signature `(G, 1)` under the key `G`, for a permutation whose challenge is zero. -/

namespace Residues

/-- None of the first `n` doubles has the first coordinate `x`. -/
def doublesAvoid (A x : Residues) : ℕ → DoubleOdd.Jacobian Residues → Bool
  | 0, _ => true
  | n + 1, j =>
    let d := j.double A
    decide ((d.X - x * (d.Z * d.Z)).c0 % ORDER ≠ 0) && doublesAvoid A x n d

theorem offset_avoids :
    doublesAvoid (ofField ECGFP5_CAP_A) (ofField GENERATOR_X) 319 offset = true ∧
      beforeLast.x ≠ GENERATOR_X ∧ beforeLast.x ≠ OFFSET_NEG_319_X := by
  decide +kernel

theorem doublesAvoid_iterate {A x : Residues} {n k : ℕ} {j : DoubleOdd.Jacobian Residues}
    (h : doublesAvoid A x n j = true) (hk : k < n) :
    (toJacobian ((DoubleOdd.Jacobian.double A)^[k + 1] j)).X ≠
      x.toField * (toJacobian ((DoubleOdd.Jacobian.double A)^[k + 1] j)).Z ^ 2 := by
  induction n generalizing j k with
  | zero => exact absurd hk (Nat.not_lt_zero k)
  | succ n ih =>
    obtain ⟨hfirst, hrest⟩ := Bool.and_eq_true_iff.mp h
    cases k with
    | zero =>
      intro heq
      refine toField_ne_zero (of_decide_eq_true hfirst) ?_
      rw [toField_sub, toField_mul, toField_mul, ← pow_two]
      exact sub_eq_zero.mpr heq
    | succ k =>
      have hnext := ih hrest (Nat.lt_of_succ_lt_succ hk)
      exact hnext

end Residues

theorem offsetDouble_x_ne {i : ℕ} (hi : i < 319) : (offsetDouble (i + 1)).x ≠ GENERATOR_X := by
  have hstart : Residues.toJacobian Residues.offset = offsetJacobian := by
    simp only [Residues.toJacobian, Residues.offset, offsetJacobian, Residues.toField_ofField]
  have hof := offsetJacobian_of.iterate (i + 1)
  have havoid := Residues.doublesAvoid_iterate Residues.offset_avoids.1 hi
  rw [Residues.toJacobian_iterate, Residues.toField_ofField, Residues.toField_ofField,
    hstart] at havoid
  intro heq
  refine havoid ?_
  rw [← heq]
  exact hof.X_eq

theorem zero_toBitArr (n : ℕ) : Scalar.ZERO.toBitArr n = false := by
  unfold Scalar.toBitArr
  split
  · exact BitVec.getLsbD_zero
  · rfl

theorem one_toBitArr {n : ℕ} (hn : n < 320) : Scalar.ONE.toBitArr n = decide (n = 0) := by
  obtain ⟨bits, hbits⟩ : ∃ bits : ℕ → Bool, bits = fun n => decide (n = 0) := ⟨_, rfl⟩
  have hlimbs : ∀ k : Fin 5, (Scalar.ONE k).toNat = bitsVal (fun j => bits (64 * k + j)) 64 := by
    rw [hbits]
    intro k
    match k with
    | 0 | 1 | 2 | 3 | 4 => rfl
  rw [toBitArr_of_limbs hlimbs hn, hbits]

/-- The accumulators before the bit of the response. -/
theorem chainAcc_double {eBits sBits : ℕ → Bool} (he : ∀ i, eBits i = false)
    (hs : ∀ i < 318, sBits i = false) {i : ℕ} (hi : i ≤ 318) :
    chainAcc generator eBits sBits i = (offsetDouble i).point := by
  induction i with
  | zero => rfl
  | succ i ih =>
    have hlt : i < 319 := by omega
    rw [chainAcc_succ hlt, doubleAddStep, ih (Nat.le_of_succ_le hi), he, hs i hi, Bool.toNat_false,
      zero_nsmul, add_zero, add_zero, offsetDouble_succ, DoubleOdd.OddPoint.double_point_eq]

theorem beforeLast_holds :
    beforeLast.Holds ((offsetDouble 318).point + (offsetDouble 318).point + generator) := by
  have hdbl : (ofOdd (offsetDouble 319)).Holds
      ((offsetDouble 318).point + (offsetDouble 318).point) := by
    rw [← DoubleOdd.OddPoint.double_point_eq, ← offsetDouble_succ]
    exact ⟨(offsetDouble 319).onCurve, rfl⟩
  have hne : (ofOdd (offsetDouble 319)).x ≠ GENERATOR_X := offsetDouble_x_ne (by decide)
  have hchain : DoubleAccChain (ofOdd (offsetDouble 319)) generatorPoint generatorPoint beforeLast
      0 0 1 := honestLast_satisfied.chain3
  have hsum := doubleAccChain_holds hdbl generatorPoint_holds generatorPoint_holds
    ⟨fun h => absurd h zero_ne_one, fun _ _ => hne, fun h => absurd h zero_ne_one⟩ hchain
  have hzero : (0 : F).val = 0 := rfl
  have hone : (1 : F).val = 1 := rfl
  rwa [hzero, hone, zero_nsmul, one_nsmul, add_zero] at hsum

/-- The signature `(G, 1)`. -/
def unitSignature : Native.Signature := ⟨.ofPoint generator, Scalar.ONE⟩

theorem unit_challenge : schnorrChallenge zeroPerm generatorCompressed generatorKey.toQuintic
    (List.ofFn (0 : HashOut)) = Scalar.ZERO := by
  have hhash : hashNoPad5 zeroPerm (coeffs generatorCompressed ++ coeffs generatorKey.toQuintic ++
      List.ofFn (0 : HashOut)) = 0 := rfl
  rw [schnorrChallenge, hhash]
  funext k
  fin_cases k
  all_goals rfl

theorem encode_generator : Doxa.encode generator = some generatorCompressed :=
  encode_point generator_onCurve (sub_ne_zero.mpr generator_mem.1.symm)

theorem unit_verified : Native.schnorrVerify zeroPerm (.ofPoint generator)
    (List.ofFn (0 : HashOut)) unitSignature = some true := by
  rw [unitSignature, Native.schnorrVerify_ofPoint zeroPerm (AddSubgroup.mem_zmultiples generator)]
  refine schnorrVerify_of_eq zeroPerm encode_generator encode_generator ?_
  have hone : Scalar.ONE.toNat = 1 := rfl
  have hzero : Scalar.ZERO.toNat = 0 := rfl
  have hchallenge := unit_challenge
  change schnorrChallenge zeroPerm generatorCompressed generatorCompressed _ = _ at hchallenge
  rw [hchallenge, Scalar.bitsVal_toBitArr, Scalar.bitsVal_toBitArr, hone, hzero, one_nsmul,
    zero_nsmul, add_zero]
  · rw [hzero]
    exact Nat.two_pow_pos _
  · rw [hone]
    exact Nat.one_lt_two_pow (by decide)

theorem unit_distinct :
    ChainDistinct generator (reversedBits Scalar.ZERO) (reversedBits Scalar.ONE) := by
  have he (i : ℕ) : reversedBits Scalar.ZERO i = false := zero_toBitArr _
  have hs : ∀ i < 318, reversedBits Scalar.ONE i = false := by
    intro i hi
    have hne : 319 - 1 - i ≠ 0 := by omega
    have hlt : 319 - 1 - i < 320 := by omega
    exact (one_toBitArr hlt).trans (decide_eq_false hne)
  have hone : reversedBits Scalar.ONE 318 = true := one_toBitArr (by decide)
  have hdouble {i : ℕ} (hi : i < 319) : xCoord
      (chainAcc generator (reversedBits Scalar.ZERO) (reversedBits Scalar.ONE) i +
        chainAcc generator (reversedBits Scalar.ZERO) (reversedBits Scalar.ONE) i) ≠
      xCoord generator := by
    rw [chainAcc_double he hs (Nat.le_of_lt_succ hi), ← DoubleOdd.OddPoint.double_point_eq,
      ← offsetDouble_succ]
    exact fun h => offsetDouble_x_ne hi (Option.some.inj h)
  have hlast : chainAcc generator (reversedBits Scalar.ZERO) (reversedBits Scalar.ONE) 319 =
      (offsetDouble 318).point + (offsetDouble 318).point + generator := by
    rw [chainAcc_succ (by decide), doubleAddStep, chainAcc_double he hs le_rfl, he, hone,
      Bool.toNat_false, Bool.toNat_true, zero_nsmul, one_nsmul, add_zero]
  obtain ⟨-, hkey, hconstant⟩ := Residues.offset_avoids
  refine ⟨fun i hi => hdouble hi, fun i hi _ => ?_, ?_, ?_⟩
  · rw [he, Bool.toNat_false, zero_nsmul, add_zero]
    exact hdouble hi
  · rw [hlast]
    exact (beforeLast_holds.xCoord_ne_iff generatorPoint_holds).mpr hkey
  · rw [hlast]
    exact (beforeLast_holds.xCoord_ne_iff offsetNeg319_holds).mpr hconstant

/-- For a signature that the native verification accepts, on a chain that meets no two points of
one `x`, the builder's wires satisfy the gadget. -/
theorem schnorr_witness_complete {Q : PointEw} {message : HashOut} {sig : Native.Signature}
    {cr : QuinticExtension} {pubkey : PubkeyTarget} (hfinite : Q ≠ 0)
    (hr : sig.r.encode = some cr) (hq : (EwPoint.ofPoint Q).encode = some pubkey.toQuintic)
    (hverify : Native.schnorrVerify perm (.ofPoint Q) (List.ofFn message) sig = some true)
    (hdistinct : ChainDistinct Q
      (reversedBits (schnorrChallenge perm cr pubkey.toQuintic (List.ofFn message)))
      (reversedBits sig.s))
    (hdoubles : ChainDoubles Q
      (reversedBits (schnorrChallenge perm cr pubkey.toQuintic (List.ofFn message)))
      (reversedBits sig.s)) :
    ∃ t, setSchnorrWitness (.ofPoint Q) cr
        (schnorrChallenge perm cr pubkey.toQuintic (List.ofFn message)) sig.s = some t ∧
      t.Satisfied perm message pubkey 1 := by
  rw [EwPoint.encode_ofPoint] at hq
  have hencode := Native.encode_of_schnorrVerify perm hr hq hverify
  obtain ⟨q, hqQ⟩ := EwPoint.exists_holds hfinite
  obtain ⟨acc, da4x, hfill, hacc, hgates⟩ := hdistinct.fillGates hqQ hdoubles le_rfl
  have hlast : 4 * ((79 : Fin 80).val + 1) = 320 := rfl
  have hcount : 4 * 80 = 320 := rfl
  have hR := (hgates 79).acco4
  rw [hlast, chainAcc_last] at hR
  rw [hcount, chainAcc_last] at hacc
  have hfinal : (EwPoint.ofLocal acc).encode = some cr := by
    rw [← EwPoint.ofPoint_of_holds hacc, EwPoint.encode_ofPoint]
    exact hencode
  refine ⟨{ q, cr, da4x }, ?_, satisfied_of_filled perm hqQ hq hgates hR hencode⟩
  rw [EwPoint.ofPoint_of_holds hqQ]
  exact setSchnorrWitness_of_filled hfill hfinal

theorem unit_witness_complete : generator ≠ 0 ∧
    Native.schnorrVerify zeroPerm (.ofPoint generator) (List.ofFn (0 : HashOut)) unitSignature =
      some true ∧
    ∃ t, setSchnorrWitness (.ofPoint generator) generatorCompressed
        (schnorrChallenge zeroPerm generatorCompressed generatorKey.toQuintic
          (List.ofFn (0 : HashOut))) unitSignature.s = some t ∧
      t.Satisfied zeroPerm 0 generatorKey 1 := by
  have hencode : (EwPoint.ofPoint generator).encode = some generatorCompressed := by
    rw [EwPoint.encode_ofPoint, encode_generator]
  have hdistinct : ChainDistinct generator (reversedBits (schnorrChallenge zeroPerm
      generatorCompressed generatorKey.toQuintic (List.ofFn (0 : HashOut))))
      (reversedBits unitSignature.s) := by
    rw [unit_challenge]
    exact unit_distinct
  exact ⟨generator_ne_zero, unit_verified, schnorr_witness_complete zeroPerm generator_ne_zero
    hencode hencode unit_verified hdistinct (.inl generator_mem)⟩

end Doxa.Circuit
