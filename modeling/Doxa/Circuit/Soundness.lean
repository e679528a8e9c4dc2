import Doxa.Circuit.Offset

/-!
# What the Schnorr gadget proves

The constraints of one addition determine the sum unless the two points have one `x`, and
the constraints of a doubling determine the double unless the point is `N`. Where the key
point has a square `u` no accumulator is `N`, so a run of the chain whose additions are
regular and whose last gate alone is marked as the last one computes `s G + e Q`, and the
gadget accepts only what the native verification accepts. Nothing in the gadget rules the
other runs out.
-/

namespace Doxa.Circuit

open Lib WeierstrassCurve.Affine

/-! ## One operation -/

/-- The wires hold a finite point of the curve. -/
def LocalPointEw.OnCurve (p : LocalPointEw) : Prop := ecgfp5.OnCurve p.x p.y

/-- The point on the wires. -/
def LocalPointEw.OnCurve.toPoint {p : LocalPointEw} (h : p.OnCurve) : PointEw :=
  DoubleOdd.OnCurve.point h

/-- Finite wires with a given value. -/
def LocalPointEw.Holds (p : LocalPointEw) (P : PointEw) : Prop := ∃ h : p.OnCurve, h.toPoint = P

theorem addTwoPoints_holds {p1 p2 po : LocalPointEw} {P1 P2 : PointEw} (h1 : p1.Holds P1)
    (h2 : p2.Holds P2) (hx : p1.x ≠ p2.x) (h : AddTwoPoints 1 p1 p2 po) : po.Holds (P1 + P2) := by
  obtain ⟨h1, rfl⟩ := h1
  obtain ⟨h2, rfl⟩ := h2
  obtain ⟨hX, hY⟩ := h
  rw [assertEqual_one] at hX hY
  have hne : p2.x - p1.x ≠ 0 := sub_ne_zero.mpr hx.symm
  have hx₃ : po.x = ((p2.y - p1.y) / (p2.x - p1.x)) ^ 2 - p1.x - p2.x := by
    field_simp
    linear_combination hX
  have hy₃ : po.y = (p2.y - p1.y) / (p2.x - p1.x) * (p1.x - po.x) - p1.y := by
    field_simp
    linear_combination hY
  obtain ⟨h3, hsum⟩ := DoubleOdd.add_point h1 h2 hx hx₃ hy₃
  exact ⟨h3, hsum.symm⟩

/-- The sum computed with the slope satisfies the constraints of the addition. -/
theorem addTwoPoints_slopeSum {p1 p2 : LocalPointEw} {lambda : QuinticExtension}
    (h : lambda * (p2.x - p1.x) = p2.y - p1.y) :
    AddTwoPoints 1 p1 p2 (slopeSum p1 p2 lambda) := by
  refine ⟨?_, ?_⟩
  · rw [assertEqual_one, ← h]
    simp only [slopeSum]
    ring
  · rw [assertEqual_one, ← h]
    simp only [slopeSum]
    ring

theorem slopeSum_holds {p1 p2 : LocalPointEw} {P1 P2 : PointEw} {lambda : QuinticExtension}
    (h1 : p1.Holds P1) (h2 : p2.Holds P2) (hx : p1.x ≠ p2.x)
    (h : lambda * (p2.x - p1.x) = p2.y - p1.y) : (slopeSum p1 p2 lambda).Holds (P1 + P2) :=
  addTwoPoints_holds h1 h2 hx (addTwoPoints_slopeSum h)

theorem addThreePoints_holds {p1 p2 p3 po : LocalPointEw} {P1 P2 P3 : PointEw}
    {lambda : QuinticExtension} (h1 : p1.Holds P1) (h2 : p2.Holds P2) (h3 : p3.Holds P3)
    (hx : p1.x ≠ p2.x) (hx' : (slopeSum p1 p2 lambda).x ≠ p3.x)
    (h : AddThreePoints 1 p1 p2 p3 lambda po) : po.Holds (P1 + P2 + P3) := by
  obtain ⟨hslope, hX, hY⟩ := h
  have hfirst := slopeSum_holds h1 h2 hx (assertEqual_one.mp hslope)
  rw [add_comm]
  refine addTwoPoints_holds h3 hfirst hx'.symm ⟨?_, ?_⟩
  · rw [assertEqual_one] at hX ⊢
    linear_combination hX
  · rw [assertEqual_one] at hY ⊢
    linear_combination hY

theorem p2Double_holds {p1 p2 : LocalPointEw} {P : PointEw} (h1 : p1.Holds P)
    (hx : p1.x ≠ ECGFP5_A_DIV_3) (h : P2DoubleOfP1 1 p1 p2) : p2.Holds (P + P) := by
  obtain ⟨h1, rfl⟩ := h1
  have hy : p1.y ≠ 0 := DoubleOdd.OnCurve.y_ne_zero h1 hx
  have htwo := ecgfp5.two_ne_zero
  obtain ⟨hX, hY⟩ := h
  rw [assertEqual_one] at hX hY
  have hA : ecgfp5.A = ECGFP5_CAP_A := rfl
  have hx₃ : p2.x = ((3 * p1.x ^ 2 + ecgfp5.A) / (2 * p1.y)) ^ 2 - p1.x - p1.x := by
    rw [hA]
    field_simp
    linear_combination hX
  have hy₃ : p2.y = (3 * p1.x ^ 2 + ecgfp5.A) / (2 * p1.y) * (p1.x - p2.x) - p1.y := by
    have hden : (p1.y * 2) ^ 2 ≠ 0 := pow_ne_zero 2 (mul_ne_zero hy htwo)
    have hmul : (p2.y + p1.y) * (2 * p1.y) =
        (3 * p1.x ^ 2 + ECGFP5_CAP_A) * (p1.x - p2.x) := by
      refine mul_right_cancel₀ hden ?_
      linear_combination hY + (3 * p1.x ^ 2 + ECGFP5_CAP_A) * hX
    rw [hA]
    field_simp
    linear_combination hmul
  obtain ⟨h3, hsum⟩ := DoubleOdd.double_point h1 hy hx₃ hy₃
  exact ⟨h3, hsum.symm⟩

/-! ## One step of the chain -/

/-- No selected addition meets two points with one `x`. -/
structure RegularChain (acci p1 p2 : LocalPointEw) (lambda : QuinticExtension) (b0 b1 : F) :
    Prop where
  first : b0 = 1 → acci.x ≠ p1.x
  second : b0 = 0 → b1 = 1 → acci.x ≠ p2.x
  third : b0 = 1 → b1 = 1 → (slopeSum acci p1 lambda).x ≠ p2.x

theorem bit_cases {b : F} (h : (1 - b) * b = 0) : b = 0 ∨ b = 1 := by
  rcases mul_eq_zero.mp h with h | h
  · exact .inr (sub_eq_zero.mp h).symm
  · exact .inl h

theorem doubleAccChain_holds {acci p1 p2 acco : LocalPointEw} {P P1 P2 : PointEw}
    {lambda : QuinticExtension} {b0 b1 : F} (hacc : acci.Holds P) (h1 : p1.Holds P1)
    (h2 : p2.Holds P2) (hreg : RegularChain acci p1 p2 lambda b0 b1)
    (h : DoubleAccChain acci p1 p2 acco lambda b0 b1) :
    acco.Holds (P + b0.val • P1 + b1.val • P2) := by
  obtain ⟨⟨hb0, hb1⟩, ⟨hkeepX, hkeepY⟩, hfirst, hsecond, hthird⟩ := h
  have hzero : (0 : F).val = 0 := rfl
  have hone : (1 : F).val = 1 := rfl
  rcases bit_cases hb0 with rfl | rfl <;> rcases bit_cases hb1 with rfl | rfl
  · rw [sub_zero, mul_one, assertEqual_one] at hkeepX hkeepY
    have hsame : acco = acci := LocalPointEw.ext hkeepX.symm hkeepY.symm
    rw [hzero, zero_nsmul, zero_nsmul, add_zero, add_zero, hsame]
    exact hacc
  · rw [sub_zero, mul_one] at hsecond
    rw [hzero, hone, zero_nsmul, one_nsmul, add_zero]
    exact addTwoPoints_holds hacc h2 (hreg.second rfl rfl) hsecond
  · rw [sub_zero, mul_one] at hfirst
    rw [hzero, hone, zero_nsmul, one_nsmul, add_zero]
    exact addTwoPoints_holds hacc h1 (hreg.first rfl) hfirst
  · rw [mul_one] at hthird
    rw [hone, one_nsmul, one_nsmul]
    exact addThreePoints_holds hacc h1 h2 (hreg.first rfl) (hreg.third rfl rfl) hthird

theorem LocalPointEw.Holds.x_ne {p : LocalPointEw} {P : PointEw} (h : p.Holds P)
    (hP : P ∈ ecgfp5.squares) : p.x ≠ ECGFP5_A_DIV_3 := by
  obtain ⟨_, rfl⟩ := h
  exact hP.1

/-- A double lies among the points with square `u`. -/
theorem LocalPointEw.Holds.double_mem {p : LocalPointEw} {P : PointEw} (h : p.Holds P)
    (hx : p.x ≠ ECGFP5_A_DIV_3) : P + P ∈ ecgfp5.squares := by
  obtain ⟨h, rfl⟩ := h
  exact DoubleOdd.tangent_isSquarePoint h hx

/-- A doubling and the selected additions; the result is not `N`. -/
theorem step_holds {acc dbl p1 p2 acco : LocalPointEw} {P P1 P2 : PointEw}
    {lambda : QuinticExtension} {b0 b1 : F} (hacc : acc.Holds P) (hx : acc.x ≠ ECGFP5_A_DIV_3)
    (h1 : p1.Holds P1) (h2 : p2.Holds P2) (hP1 : P1 ∈ ecgfp5.squares) (hP2 : P2 ∈ ecgfp5.squares)
    (hdbl : P2DoubleOfP1 1 acc dbl) (hreg : RegularChain dbl p1 p2 lambda b0 b1)
    (hchain : DoubleAccChain dbl p1 p2 acco lambda b0 b1) :
    acco.Holds (P + P + b0.val • P1 + b1.val • P2) ∧ acco.x ≠ ECGFP5_A_DIV_3 := by
  have hout := doubleAccChain_holds (p2Double_holds hacc hx hdbl) h1 h2 hreg hchain
  have hmem : P + P + b0.val • P1 + b1.val • P2 ∈ ecgfp5.squares :=
    add_mem (add_mem (hacc.double_mem hx) (nsmul_mem hP1 _)) (nsmul_mem hP2 _)
  exact ⟨hout, hout.x_ne hmem⟩

/-! ## The steps of the gates -/

namespace DoubleAdd4xTargets

variable (t : DoubleAdd4xTargets)

/-- The accumulator before step `i` of the gate. -/
def accIn : Fin 4 → LocalPointEw := ![t.accin, t.acco1, t.acco2, t.acco3]

/-- Its double. -/
def accDbl : Fin 4 → LocalPointEw := ![t.accdblin, t.accdblo1, t.accdblo2, t.accdblo3]

/-- The accumulator after step `i`. -/
def accOut : Fin 4 → LocalPointEw := ![t.acco1, t.acco2, t.acco3, t.acco4]

def lambda : Fin 4 → QuinticExtension := ![t.lambda1, t.lambda2, t.lambda3, t.lambda4]

/-- The second point of step `i`. -/
def second (i : Fin 4) : LocalPointEw := if i = 3 then lastPoint t.lgs else generatorPoint

/-- The additions of the gate are regular. -/
def Regular : Prop :=
  ∀ i, RegularChain (t.accDbl i) t.p (t.second i) (t.lambda i) (t.sp i) (t.sg i)

variable {t}

theorem Satisfied.double (h : t.Satisfied) (hlgs : t.lgs = 0) (i : Fin 4) :
    P2DoubleOfP1 1 (t.accIn i) (t.accDbl i) := by
  have hlast := h.dbl3
  rw [hlgs, sub_zero] at hlast
  fin_cases i
  · exact h.dblin
  · exact h.dbl1
  · exact h.dbl2
  · exact hlast

theorem Satisfied.double_early (h : t.Satisfied) {i : Fin 4} (hi : i ≠ 3) :
    P2DoubleOfP1 1 (t.accIn i) (t.accDbl i) := by
  fin_cases i
  · exact h.dblin
  · exact h.dbl1
  · exact h.dbl2
  · exact absurd rfl hi

theorem Satisfied.chain (h : t.Satisfied) (i : Fin 4) :
    DoubleAccChain (t.accDbl i) t.p (t.second i) (t.accOut i) (t.lambda i) (t.sp i) (t.sg i) := by
  fin_cases i
  · exact h.chain1
  · exact h.chain2
  · exact h.chain3
  · exact h.chain4

end DoubleAdd4xTargets

theorem lastPoint_zero : lastPoint 0 = generatorPoint := by
  simp only [lastPoint, generatorPoint, sub_zero, map_zero, map_one, one_mul, zero_mul, add_zero]

theorem lastPoint_one : lastPoint 1 = offsetNeg319 := by
  simp only [lastPoint, offsetNeg319, sub_self, map_zero, map_one, one_mul, zero_mul, zero_add]

/-! ## Points -/

theorem generatorPoint_holds : generatorPoint.Holds generator := ⟨generator_onCurve, rfl⟩

theorem offset_holds : offset.Holds offsetPoint.point := ⟨offsetPoint.onCurve, rfl⟩

/-- The last constant is `-2^319` times the offset. -/
theorem offsetNeg319_holds : offsetNeg319.Holds (-(2 ^ 319 • offsetPoint.point)) := by
  rw [← offsetDouble_point]
  have hneg : -(offsetDouble 319).point = (offsetDouble 319).onCurve.neg.point :=
    (offsetDouble 319).onCurve.neg_point
  have hx : (offsetDouble 319).x = offsetNeg319.x := offsetDouble_319.1
  have hy : -(offsetDouble 319).y = offsetNeg319.y := by rw [offsetDouble_319.2, neg_neg]; rfl
  have hcurve : offsetNeg319.OnCurve := by
    unfold LocalPointEw.OnCurve
    rw [← hx, ← hy]
    exact (offsetDouble 319).onCurve.neg
  refine ⟨hcurve, ?_⟩
  rw [hneg]
  exact DoubleOdd.point_congr _ _ hx.symm hy.symm

/-! ## The chain -/

namespace SchnorrTargets

variable (t : SchnorrTargets)

/-- The gate of step `s`. -/
def gate (s : ℕ) : DoubleAdd4xTargets := t.da4x (Fin.ofNat 80 (s / 4))

/-- The accumulator before step `s`. -/
def accIn (s : ℕ) : LocalPointEw := (t.gate s).accIn (Fin.ofNat 4 s)

/-- The accumulator after step `s`. -/
def accOut (s : ℕ) : LocalPointEw := (t.gate s).accOut (Fin.ofNat 4 s)

def spStep (s : ℕ) : F := (t.gate s).sp (Fin.ofNat 4 s)

def sgStep (s : ℕ) : F := (t.gate s).sg (Fin.ofNat 4 s)

/-- Challenge bit `n`. -/
def eBit (n : ℕ) : Bool := decide (t.allEBits n = 1)

/-- Bit `n` of the scalar on the `sg` wires. -/
def sBit (n : ℕ) : Bool := if n < 319 then decide (t.sgStep (318 - n) = 1) else false

/-- The scalar on the 319 `sg` wires. -/
def sgScalar : Scalar := fun k => BitVec.ofNat 64 (bitsVal (fun j => t.sBit (64 * k + j)) 64)

/-- The integer of the bits of limb `k` of the challenge. -/
def limbVal (k : ℕ) : ℕ := bitsVal (fun j => t.eBit (64 * k + j)) 64

/-- A run of the chain in which the gadget's omissions do no harm: the key point has a
nonzero square `u`, only the last gate is marked and its last step adds the constant, the
limbs are canonical, and no addition meets two points with one `x`. -/
structure Regular (perm : State → State) (message : HashOut) (pubkey : PubkeyTarget) : Prop where
  key : t.q.x ≠ ECGFP5_A_DIV_3 ∧ IsSquare (t.q.x - ECGFP5_A_DIV_3)
  lgs : ∀ g : Fin 80, (t.da4x g).lgs = if g = 79 then 1 else 0
  last_step : (t.da4x 79).sp 3 = 0 ∧ (t.da4x 79).sg 3 = 1
  limbs : ∀ k : Fin 4, t.limbVal k < ORDER
  last_limb : t.limbVal 4 < 2 ^ 62 ∧ t.limbVal 4 ≤ (t.eHash perm message pubkey 4).val
  additions : ∀ g, (t.da4x g).Regular

variable {t} {perm : State → State} {message : HashOut} {pubkey : PubkeyTarget} {applyCheck : F}

theorem allEBits_eq {n : ℕ} (hn : n < 319) : t.allEBits n = t.spStep (318 - n) := by
  have hgate : 79 - (n + 1) / 4 = (318 - n) / 4 := by omega
  have hslot : Fin.ofNat 4 (3 - (n + 1) % 4) = Fin.ofNat 4 (318 - n) := by
    apply Fin.ext
    simp only [Fin.val_ofNat]
    omega
  rw [allEBits, if_pos hn, spStep, gate]
  simp only [hgate, hslot]

/-- The steps are threaded through the gates. -/
theorem Satisfied.accIn_succ (h : t.Satisfied perm message pubkey applyCheck) {s : ℕ}
    (hs : s + 1 < 320) : t.accIn (s + 1) = t.accOut s := by
  obtain ⟨g, i, hi, rfl⟩ : ∃ g i, i < 4 ∧ s = 4 * g + i := ⟨s / 4, s % 4, by omega, by omega⟩
  have hg : (4 * g + i) / 4 = g := by omega
  unfold accIn accOut gate
  rw [hg]
  by_cases hlast : i = 3
  · subst hlast
    have hchain := h.chained ⟨g, by omega⟩
    have hcast : (⟨g, by omega⟩ : Fin 79).castSucc = Fin.ofNat 80 g := by
      apply Fin.ext
      simp only [Fin.val_castSucc, Fin.val_ofNat]
      omega
    have hsucc : (⟨g, by omega⟩ : Fin 79).succ = Fin.ofNat 80 ((4 * g + 3 + 1) / 4) := by
      apply Fin.ext
      simp only [Fin.val_succ, Fin.val_ofNat]
      omega
    have hfirst : Fin.ofNat 4 (4 * g + 3 + 1) = 0 := by
      apply Fin.ext
      simp only [Fin.val_ofNat]
      omega
    have hthird : Fin.ofNat 4 (4 * g + 3) = 3 := by
      apply Fin.ext
      simp only [Fin.val_ofNat]
      omega
    rw [hcast, hsucc] at hchain
    rw [hfirst, hthird]
    exact hchain.symm
  · have hsame : (4 * g + i + 1) / 4 = g := by omega
    have hmod : ∀ j < 4, Fin.ofNat 4 (4 * g + j) = Fin.ofNat 4 j := by
      intro j _
      apply Fin.ext
      simp only [Fin.val_ofNat]
      omega
    rw [hsame, Nat.add_assoc, hmod (i + 1) (by omega), hmod i hi]
    interval_cases i
    · rfl
    · rfl
    · rfl
    · exact absurd rfl hlast

/-- The point the chain has reached before step `s`. -/
def reached (Q : PointEw) (s : ℕ) : PointEw :=
  2 ^ s • offsetPoint.point + fromTop (fun i => (t.spStep i).val) s • Q +
    fromTop (fun i => (t.sgStep i).val) s • generator

theorem nsmul_step {A : Type*} [AddCommGroup A] (D Q G : A) (s a b x y : ℕ) :
    2 ^ s • D + a • Q + b • G + (2 ^ s • D + a • Q + b • G) + x • Q + y • G =
      2 ^ (s + 1) • D + (2 * a + x) • Q + (2 * b + y) • G := by
  rw [pow_succ', mul_nsmul', two_nsmul, add_nsmul, add_nsmul, mul_nsmul' Q, mul_nsmul' G, two_nsmul,
    two_nsmul]
  abel

theorem Regular.lgs_step (hr : t.Regular perm message pubkey) {s : ℕ} (hs : s < 316) :
    (t.gate s).lgs = 0 := by
  have hne : Fin.ofNat 80 (s / 4) ≠ 79 := by
    intro heq
    have hval := congrArg Fin.val heq
    simp only [Fin.val_ofNat] at hval
    change s / 4 % 80 = 79 at hval
    omega
  rw [gate, hr.lgs, if_neg hne]

/-- Every step but the last one doubles and adds key and generator. -/
theorem Satisfied.step (h : t.Satisfied perm message pubkey applyCheck)
    (hr : t.Regular perm message pubkey) {s : ℕ} (hs : s < 319) :
    P2DoubleOfP1 1 (t.accIn s) ((t.gate s).accDbl (Fin.ofNat 4 s)) ∧
      (t.gate s).second (Fin.ofNat 4 s) = generatorPoint := by
  by_cases hslot : Fin.ofNat 4 s = 3
  · have hval : s % 4 = 3 := by
      have := congrArg Fin.val hslot
      simpa [Fin.val_ofNat] using this
    have hlgs := hr.lgs_step (s := s) (by omega)
    refine ⟨(h.gates _).double hlgs _, ?_⟩
    rw [DoubleAdd4xTargets.second, if_pos hslot, hlgs, lastPoint_zero]
  · refine ⟨(h.gates _).double_early hslot, ?_⟩
    rw [DoubleAdd4xTargets.second, if_neg hslot]

theorem Satisfied.reached_holds (h : t.Satisfied perm message pubkey applyCheck)
    (hr : t.Regular perm message pubkey) {Q : PointEw} (hq : t.q.Holds Q)
    (hQ : Q ∈ ecgfp5.squares) {s : ℕ} (hs : s ≤ 319) :
    (t.accIn s).Holds (t.reached Q s) ∧ (t.accIn s).x ≠ ECGFP5_A_DIV_3 := by
  induction s with
  | zero =>
    have hstart : t.accIn 0 = offset := h.start
    rw [hstart]
    refine ⟨?_, offsetPoint.x_ne⟩
    rw [reached, fromTop, fromTop, pow_zero, one_nsmul, zero_nsmul, zero_nsmul, add_zero, add_zero]
    exact offset_holds
  | succ s ih =>
    obtain ⟨hacc, hx⟩ := ih (Nat.le_of_succ_le hs)
    obtain ⟨hdbl, hsecond⟩ := h.step hr (s := s) (by omega)
    have hchain := (h.gates (Fin.ofNat 80 (s / 4))).chain (Fin.ofNat 4 s)
    have hreg := hr.additions (Fin.ofNat 80 (s / 4)) (Fin.ofNat 4 s)
    have hkey : (t.gate s).p = t.q := h.key_point _
    change (t.gate s).second _ = _ at hsecond
    change DoubleAccChain _ (t.gate s).p ((t.gate s).second _) _ _ _ _ at hchain
    change RegularChain _ (t.gate s).p ((t.gate s).second _) _ _ _ at hreg
    rw [hkey, hsecond] at hchain hreg
    have hout := step_holds hacc hx hq generatorPoint_holds hQ generator_mem hdbl hreg hchain
    rw [h.accIn_succ (by omega)]
    have hreached : t.reached Q (s + 1) = t.reached Q s + t.reached Q s +
        (t.spStep s).val • Q + (t.sgStep s).val • generator := (nsmul_step _ _ _ _ _ _ _ _).symm
    rw [hreached]
    exact hout

/-! ## The last step -/

theorem Satisfied.r_holds (h : t.Satisfied perm message pubkey applyCheck)
    (hr : t.Regular perm message pubkey) {Q : PointEw} (hq : t.q.Holds Q)
    (hQ : Q ∈ ecgfp5.squares) :
    t.r.Holds (fromTop (fun i => (t.sgStep i).val) 319 • generator +
      fromTop (fun i => (t.spStep i).val) 319 • Q) := by
  have hacc := (h.reached_holds hr hq hQ le_rfl).1
  have hgate := h.gates 79
  have hlgs : (t.da4x 79).lgs = 1 := hr.lgs 79
  have hkeep := hgate.keep3
  rw [hlgs, assertEqual_one, assertEqual_one] at hkeep
  -- the last step does not double
  have hdbl : (t.da4x 79).accdblo3 = t.accIn 319 :=
    LocalPointEw.ext hkeep.1.symm hkeep.2.symm
  have hchain := hgate.chain4
  have hreg : RegularChain (t.da4x 79).accdblo3 (t.da4x 79).p (lastPoint (t.da4x 79).lgs)
      (t.da4x 79).lambda4 ((t.da4x 79).sp 3) ((t.da4x 79).sg 3) := hr.additions 79 3
  rw [hlgs, lastPoint_one, h.key_point, hdbl] at hchain hreg
  have hout := doubleAccChain_holds hacc hq offsetNeg319_holds hreg hchain
  have hzero : ((t.da4x 79).sp 3).val = 0 := by rw [hr.last_step.1]; rfl
  have hone : ((t.da4x 79).sg 3).val = 1 := by rw [hr.last_step.2]; rfl
  rw [hzero, hone, zero_nsmul, one_nsmul, add_zero] at hout
  have hcancel : t.reached Q 319 + -(2 ^ 319 • offsetPoint.point) =
      fromTop (fun i => (t.sgStep i).val) 319 • generator +
        fromTop (fun i => (t.spStep i).val) 319 • Q := by
    unfold reached
    generalize (2 : ℕ) ^ 319 • offsetPoint.point = D
    abel
  rw [hcancel] at hout
  exact hout

/-! ## Bits and limbs -/

theorem bit_val {b : F} (h : (1 - b) * b = 0) : b.val = (decide (b = 1)).toNat := by
  rcases bit_cases h with rfl | rfl
  · rfl
  · rfl

theorem Satisfied.spStep_bool (h : t.Satisfied perm message pubkey applyCheck) (s : ℕ) :
    (1 - t.spStep s) * t.spStep s = 0 := ((h.gates _).chain _).1.1

theorem Satisfied.sgStep_bool (h : t.Satisfied perm message pubkey applyCheck) (s : ℕ) :
    (1 - t.sgStep s) * t.sgStep s = 0 := ((h.gates _).chain _).1.2

/-- The `sg` wires spell the scalar. -/
theorem Satisfied.sg_value (h : t.Satisfied perm message pubkey applyCheck) :
    fromTop (fun i => (t.sgStep i).val) 319 = bitsVal t.sgScalar.toBitArr Scalar.BITS := by
  have hbits : (fun i => (t.sgStep i).val) = fun i => (decide (t.sgStep i = 1)).toNat :=
    funext fun i => bit_val (h.sgStep_bool i)
  have hlimbs : ∀ k : Fin 5, (t.sgScalar k).toNat = bitsVal (fun j => t.sBit (64 * k + j)) 64 :=
    fun k => by rw [sgScalar, BitVec.toNat_ofNat, Nat.mod_eq_of_lt (bitsVal_lt _ 64)]
  rw [hbits, fromTop_eq]
  refine bitsVal_congr fun n hn => ?_
  rw [toBitArr_of_limbs hlimbs (n := n) (by omega), sBit, if_pos hn]

/-- The `sp` wires spell the challenge bits. -/
theorem Satisfied.sp_value (h : t.Satisfied perm message pubkey applyCheck) :
    fromTop (fun i => (t.spStep i).val) 319 = bitsVal t.eBit 319 := by
  have hbits : (fun i => (t.spStep i).val) = fun i => (decide (t.spStep i = 1)).toNat :=
    funext fun i => bit_val (h.spStep_bool i)
  rw [hbits, fromTop_eq]
  refine bitsVal_congr fun n hn => ?_
  rw [eBit, allEBits_eq hn]

theorem Satisfied.eBit_toNat (h : t.Satisfied perm message pubkey applyCheck) {n : ℕ} :
    t.allEBits n = ((t.eBit n).toNat : F) := by
  have hbool : (1 - t.allEBits n) * t.allEBits n = 0 := by
    by_cases hn : n < 319
    · rw [allEBits_eq hn]
      exact h.spStep_bool _
    · rw [allEBits, if_neg hn, mul_zero]
  rw [eBit, ← bit_val hbool, ZMod.natCast_zmod_val]

theorem Satisfied.reconstructed_val (h : t.Satisfied perm message pubkey applyCheck) {k : ℕ}
    (hk : k < 5) : t.reconstructed k = (t.limbVal k : F) :=
  reconstructed_eq (fun _ _ => h.eBit_toNat) hk

/-- A difference of field elements that is a small multiple of `2^62` is one of integers. -/
theorem val_mod_of_sub {a : F} {v q : ℕ} (hv : v ≤ a.val) (hq : q < 4)
    (h : a - (v : F) = ((2 ^ 62 * q : ℕ) : F)) (hlt : v < 2 ^ 62) : a.val % 2 ^ 62 = v := by
  have hcast : ((a.val - v : ℕ) : F) = ((2 ^ 62 * q : ℕ) : F) := by
    rw [Nat.cast_sub hv, ZMod.natCast_zmod_val, h]
  have ha := ZMod.val_lt a
  have hval := congrArg ZMod.val hcast
  rw [ZMod.val_natCast_of_lt (by omega), ZMod.val_natCast_of_lt (by omega)] at hval
  omega

theorem Satisfied.challenge_limb (h : t.Satisfied perm message pubkey 1)
    (hr : t.Regular perm message pubkey) (k : Fin 5) :
    (schnorrChallenge perm t.cr pubkey.toQuintic (List.ofFn message) k).toNat = t.limbVal k := by
  have hhash : schnorrChallenge perm t.cr pubkey.toQuintic (List.ofFn message) =
      Scalar.fromHash (t.eHash perm message pubkey) := rfl
  rw [hhash, fromHash_toNat]
  split
  · case isTrue hk =>
      subst hk
      have hprod := h.last_limb
      rw [one_mul, lastLimbProduct_eq_zero_iff, h.reconstructed_val (by decide)] at hprod
      obtain ⟨hlt, hle⟩ := hr.last_limb
      rcases hprod with hd | hd | hd | hd
      · exact val_mod_of_sub (q := 0) hle (by decide) (hd.trans (by norm_num)) hlt
      · exact val_mod_of_sub (q := 1) hle (by decide) (hd.trans (by norm_num)) hlt
      · exact val_mod_of_sub (q := 2) hle (by decide) (hd.trans (by norm_num)) hlt
      · exact val_mod_of_sub (q := 3) hle (by decide) (hd.trans (by norm_num)) hlt
  · case isFalse hk =>
      obtain ⟨j, rfl⟩ : ∃ j : Fin 4, j.castSucc = k :=
        ⟨k.castPred hk, Fin.castSucc_castPred k hk⟩
      have hlimb := condEq_one.mp (h.limbs j)
      rw [← hlimb, h.reconstructed_val (j.isLt.trans (by decide))]
      exact ZMod.val_natCast_of_lt (hr.limbs j)

/-! ## The gadget against the native verification -/

variable (t) in
/-- The key point is the one the key decodes to. -/
def KeyDecoded (S : BaseSqrt) (pubkey : PubkeyTarget) : Prop :=
  ∃ h : t.q.OnCurve, decode S pubkey.toQuintic = some h.toPoint

variable (t) in
/-- The gadget's assignment is a signature the native verification accepts. -/
structure Sound (S : BaseSqrt) (perm : State → State) (message : HashOut)
    (pubkey : PubkeyTarget) : Prop where
  key : t.KeyDecoded S pubkey
  challenge : ∀ n < 319, t.eBit n =
    (schnorrChallenge perm t.cr pubkey.toQuintic (List.ofFn message)).toBitArr n
  accepted : ∃ (Q : PointEw) (hr : t.r.OnCurve), decode S pubkey.toQuintic = some Q ∧
    schnorrVerify perm Q (List.ofFn message) ⟨hr.toPoint, t.sgScalar⟩ = some true

theorem compressionGate_onCurve {w : QuinticExtension} {p : LocalPointEw}
    (h : CompressionGate 1 w p) : p.OnCurve := by
  have hcurve := h.2
  rw [map_one, mul_one] at hcurve
  unfold LocalPointEw.OnCurve DoubleOdd.OnCurve
  rw [ecgfp5_B]
  change p.y ^ 2 = p.x ^ 3 + ECGFP5_CAP_A * p.x + ECGFP5_CAP_B
  linear_combination -hcurve

theorem compressionGate_encode {w : QuinticExtension} {p : LocalPointEw}
    (h : CompressionGate 1 w p) (hx : p.x ≠ ECGFP5_A_DIV_3) :
    encode (compressionGate_onCurve h).toPoint = some w := by
  have hne : ECGFP5_A_DIV_3 - p.x ≠ 0 := sub_ne_zero.mpr hx.symm
  change (if ECGFP5_A_DIV_3 - p.x = 0 then none else some (p.y / (ECGFP5_A_DIV_3 - p.x))) = _
  rw [if_neg hne, ← h.1, mul_div_cancel_right₀ _ hne]

theorem Satisfied.keyDecoded_iff (S : BaseSqrt) (h : t.Satisfied perm message pubkey applyCheck) :
    t.KeyDecoded S pubkey ↔
      t.q.x ≠ ECGFP5_A_DIV_3 ∧ IsSquare (t.q.x - ECGFP5_A_DIV_3) := by
  have hcurve := compressionGate_onCurve h.compress_q
  constructor
  · rintro ⟨hq, hdec⟩
    obtain ⟨hne, hsq⟩ := isSquare_of_decode S hq hdec
    exact ⟨sub_ne_zero.mp hne, hsq⟩
  · rintro ⟨hne, hsq⟩
    exact ⟨hcurve, decode_of_isSquare S hcurve h.compress_q.1 (sub_ne_zero.mpr hne) hsq⟩

theorem Satisfied.sound (S : BaseSqrt) (h : t.Satisfied perm message pubkey 1)
    (hr : t.Regular perm message pubkey) : t.Sound S perm message pubkey := by
  have hkey := (h.keyDecoded_iff S).mpr hr.key
  have hcurve := compressionGate_onCurve h.compress_q
  have hQ : hcurve.toPoint ∈ ecgfp5.squares := hr.key
  obtain ⟨hR, hsum⟩ := h.r_holds hr ⟨hcurve, rfl⟩ hQ
  have hmem : hR.toPoint ∈ ecgfp5.squares := by
    rw [hsum]
    exact add_mem (nsmul_mem generator_mem _) (nsmul_mem hQ _)
  have hchallenge : ∀ n < 320, (schnorrChallenge perm t.cr pubkey.toQuintic
      (List.ofFn message)).toBitArr n = t.eBit n :=
    fun n hn => toBitArr_of_limbs (h.challenge_limb hr) hn
  have hbits : bitsVal (schnorrChallenge perm t.cr pubkey.toQuintic
      (List.ofFn message)).toBitArr Scalar.BITS = bitsVal t.eBit 319 :=
    bitsVal_congr fun n hn => hchallenge n (Nat.lt_succ_of_lt hn)
  refine ⟨hkey, fun n hn => (hchallenge n (Nat.lt_succ_of_lt hn)).symm,
    hcurve.toPoint, hR, hkey.2, ?_⟩
  refine schnorrVerify_of_eq perm (compressionGate_encode h.compress_r hmem.1)
    (compressionGate_encode h.compress_q hr.key.1) ?_
  rw [← h.sg_value, hbits, ← h.sp_value]
  exact hsum.symm

/-- The key point is the decoded key exactly when its `u` is a nonzero square, and an
assignment of a regular run is a signature the native verification accepts. -/
theorem schnorr_gadget_sound (S : BaseSqrt) (h : t.Satisfied perm message pubkey 1) :
    (t.KeyDecoded S pubkey ↔
      t.q.x ≠ ECGFP5_A_DIV_3 ∧ IsSquare (t.q.x - ECGFP5_A_DIV_3)) ∧
    (t.Regular perm message pubkey → t.Sound S perm message pubkey) :=
  ⟨h.keyDecoded_iff S, h.sound S⟩

end SchnorrTargets

/-! ## A regular run

The signature `(G, 1)` for the key `G` under a permutation whose challenge is zero. -/

/-- The double of the offset after 319 steps, plus the generator. -/
def beforeLast : LocalPointEw where
  x := ⟨2395904900736700546, 17514759722535375371, 3116738343286662747, 16615369972125853981,
    10115806098877227948⟩
  y := ⟨14925572335962564697, 1865055128535805675, 1811494170538928900, 4524449750749811804,
    1782540269592191579⟩

/-- A gate that only doubles. -/
def honestGate (g : ℕ) : DoubleAdd4xTargets where
  p := generatorPoint
  accin := ofOdd (offsetDouble (4 * g))
  acco4 := ofOdd (offsetDouble (4 * g + 4))
  sp := fun _ => 0
  sg := fun _ => 0
  lgs := 0
  acco1 := ofOdd (offsetDouble (4 * g + 1))
  acco2 := ofOdd (offsetDouble (4 * g + 2))
  acco3 := ofOdd (offsetDouble (4 * g + 3))
  accdblin := ofOdd (offsetDouble (4 * g + 1))
  accdblo1 := ofOdd (offsetDouble (4 * g + 2))
  accdblo2 := ofOdd (offsetDouble (4 * g + 3))
  accdblo3 := ofOdd (offsetDouble (4 * g + 4))
  lambda1 := 0
  lambda2 := 0
  lambda3 := 0
  lambda4 := 0

/-- The last gate adds the generator and the constant. -/
def honestLast : DoubleAdd4xTargets :=
  { honestGate 79 with
    acco4 := generatorPoint
    sg := ![0, 0, 1, 1]
    lgs := 1
    acco3 := beforeLast
    accdblo3 := beforeLast }

/-- The compressed generator. -/
def generatorCompressed : QuinticExtension := GENERATOR_Y / (ECGFP5_A_DIV_3 - GENERATOR_X)

def generatorKey : PubkeyTarget :=
  ![generatorCompressed.c0, generatorCompressed.c1, generatorCompressed.c2, generatorCompressed.c3,
    generatorCompressed.c4]

def honestTargets : SchnorrTargets where
  q := generatorPoint
  cr := generatorCompressed
  da4x := fun g => if g = 79 then honestLast else honestGate g

/-- The permutation with the constant state zero. -/
def zeroPerm : State → State := fun _ => 0

theorem chain_none (acc p1 p2 : LocalPointEw) : DoubleAccChain acc p1 p2 acc 0 0 0 := by
  refine ⟨⟨mul_zero _, mul_zero _⟩, ⟨assertEqual_of_eq rfl, assertEqual_of_eq rfl⟩, ?_, ?_, ?_⟩
  · rw [zero_mul]
    exact ⟨assertEqual_zero _ _, assertEqual_zero _ _⟩
  · rw [mul_zero]
    exact ⟨assertEqual_zero _ _, assertEqual_zero _ _⟩
  · rw [mul_zero]
    exact ⟨assertEqual_zero _ _, assertEqual_zero _ _, assertEqual_zero _ _⟩

/-- Only the second point is added. -/
theorem chain_second {acc p1 p2 acco : LocalPointEw} {lambda : QuinticExtension}
    (h : AddTwoPoints 1 acc p2 acco) : DoubleAccChain acc p1 p2 acco lambda 0 1 := by
  refine ⟨⟨mul_zero _, by rw [sub_self, zero_mul]⟩, ?_, ?_, ?_, ?_⟩
  · rw [sub_self, mul_zero]
    exact ⟨assertEqual_zero _ _, assertEqual_zero _ _⟩
  · rw [zero_mul]
    exact ⟨assertEqual_zero _ _, assertEqual_zero _ _⟩
  · rw [sub_zero, mul_one]
    exact h
  · rw [zero_mul]
    exact ⟨assertEqual_zero _ _, assertEqual_zero _ _, assertEqual_zero _ _⟩

theorem offsetDouble_p2Double (s : F) (n : ℕ) :
    P2DoubleOfP1 s (ofOdd (offsetDouble n)) (ofOdd (offsetDouble (n + 1))) := by
  rw [offsetDouble_succ]
  exact p2Double_double s _

theorem honestGate_satisfied (g : ℕ) : (honestGate g).Satisfied where
  dblin := offsetDouble_p2Double 1 _
  dbl1 := offsetDouble_p2Double 1 _
  dbl2 := offsetDouble_p2Double 1 _
  lgs_bool := zero_mul _
  dbl3 := offsetDouble_p2Double _ _
  keep3 := ⟨assertEqual_zero _ _, assertEqual_zero _ _⟩
  chain1 := chain_none _ _ _
  chain2 := chain_none _ _ _
  chain3 := chain_none _ _ _
  chain4 := chain_none _ _ _

/-- The wires of the last double. -/
theorem ofOdd_319 : ofOdd (offsetDouble 319) = ⟨OFFSET_NEG_319_X, -OFFSET_NEG_319_Y⟩ :=
  LocalPointEw.ext offsetDouble_319.1 offsetDouble_319.2

theorem honestLast_satisfied : honestLast.Satisfied where
  dblin := offsetDouble_p2Double 1 _
  dbl1 := offsetDouble_p2Double 1 _
  dbl2 := offsetDouble_p2Double 1 _
  lgs_bool := by rw [show honestLast.lgs = 1 from rfl, sub_self, mul_zero]
  dbl3 := by
    rw [show honestLast.lgs = 1 from rfl, sub_self]
    exact ⟨assertEqual_zero _ _, assertEqual_zero _ _⟩
  keep3 := ⟨assertEqual_of_eq rfl, assertEqual_of_eq rfl⟩
  chain1 := chain_none _ _ _
  chain2 := chain_none _ _ _
  chain3 := by
    refine chain_second ?_
    change AddTwoPoints 1 (ofOdd (offsetDouble 319)) generatorPoint beforeLast
    rw [ofOdd_319]
    exact ⟨assertEqual_of_eq (by decide +kernel), assertEqual_of_eq (by decide +kernel)⟩
  chain4 := by
    refine chain_second ?_
    change AddTwoPoints 1 beforeLast (lastPoint 1) generatorPoint
    rw [lastPoint_one]
    exact ⟨assertEqual_of_eq (by decide +kernel), assertEqual_of_eq (by decide +kernel)⟩

theorem honestTargets_sp (g : Fin 80) (i : Fin 4) : (honestTargets.da4x g).sp i = 0 := by
  simp only [honestTargets]
  split
  · rfl
  · rfl

theorem honestTargets_allEBits (n : ℕ) : honestTargets.allEBits n = 0 := by
  unfold SchnorrTargets.allEBits
  split
  · exact honestTargets_sp _ _
  · rfl

theorem honestTargets_reconstructed (k : ℕ) : honestTargets.reconstructed k = 0 := by
  have hsum : ∀ start, honestTargets.leSum32 start = 0 := by
    intro start
    refine Finset.sum_eq_zero fun i _ => ?_
    rw [honestTargets_allEBits, zero_mul]
  rw [SchnorrTargets.reconstructed, hsum, hsum, mul_zero, add_zero]

theorem honestTargets_limbVal (k : ℕ) : honestTargets.limbVal k = 0 := by
  rw [SchnorrTargets.limbVal, bitsVal_eq_sum]
  refine Finset.sum_eq_zero fun i _ => ?_
  have hbit : honestTargets.eBit (64 * k + i) = false := by
    rw [SchnorrTargets.eBit, honestTargets_allEBits]
    rfl
  rw [hbit, Bool.toNat_false, zero_mul]

theorem honestTargets_eHash (k : Fin 5) : honestTargets.eHash zeroPerm 0 generatorKey k = 0 := rfl

theorem honestTargets_satisfied : honestTargets.Satisfied zeroPerm 0 generatorKey 1 where
  gates := by
    intro g
    simp only [honestTargets]
    split
    · exact honestLast_satisfied
    · exact honestGate_satisfied g
  chained := by
    intro g
    have hcast : g.castSucc ≠ (79 : Fin 80) := (Fin.castSucc_lt_last g).ne
    simp only [honestTargets, if_neg hcast]
    split
    · case isTrue hlast =>
        have hg : g.val = 78 := by
          have := congrArg Fin.val hlast
          simpa using this
        simp only [honestGate, honestLast, Fin.val_castSucc, hg]
    · rfl
  key_point := by
    intro g
    simp only [honestTargets]
    split
    · rfl
    · rfl
  start := rfl
  compress_r := ⟨by decide +kernel, by decide +kernel⟩
  compress_q := ⟨by decide +kernel, by decide +kernel⟩
  limbs := by
    intro k
    rw [honestTargets_reconstructed, honestTargets_eHash]
    exact condEq_self _ _
  last_limb := by
    rw [SchnorrTargets.lastLimbProduct, honestTargets_reconstructed, honestTargets_eHash]
    simp

theorem honestTargets_regular : honestTargets.Regular zeroPerm 0 generatorKey where
  key := generator_mem
  lgs := by
    intro g
    simp only [honestTargets]
    split
    · rfl
    · rfl
  last_step := ⟨rfl, rfl⟩
  limbs := by
    intro k
    rw [honestTargets_limbVal]
    decide
  last_limb := by
    rw [honestTargets_limbVal]
    exact ⟨by decide, Nat.zero_le _⟩
  additions := by
    intro g i
    have hsp : (honestTargets.da4x g).sp i ≠ 1 := by
      rw [honestTargets_sp]
      exact zero_ne_one
    refine ⟨fun h => absurd h hsp, fun _ hsg => ?_, fun h => absurd h hsp⟩
    revert hsg
    simp only [honestTargets]
    split
    · intro hsg
      -- only the last two steps add a point
      fin_cases i
      · exact absurd hsg zero_ne_one
      · exact absurd hsg zero_ne_one
      · change (ofOdd (offsetDouble 319)).x ≠ GENERATOR_X
        rw [ofOdd_319]
        decide +kernel
      · change beforeLast.x ≠ (lastPoint 1).x
        rw [lastPoint_one]
        decide +kernel
    · intro hsg
      exact absurd hsg zero_ne_one

/-- Some square root of the base field. -/
noncomputable def someBaseSqrt : BaseSqrt where
  sqrt := fun x => open Classical in if h : IsSquare x then some h.choose else none
  mul_self_of_some := by
    intro x r h
    split at h
    · case isTrue hsq =>
        rw [← Option.some.inj h]
        exact hsq.choose_spec.symm
    · exact absurd h (by simp)
  not_isSquare_of_none := by
    intro x h
    split at h
    · exact absurd h (by simp)
    · case isFalse hsq => exact hsq

theorem honest_signature_sound :
    honestTargets.Satisfied zeroPerm 0 generatorKey 1 ∧
      honestTargets.Sound someBaseSqrt zeroPerm 0 generatorKey :=
  ⟨honestTargets_satisfied, (SchnorrTargets.schnorr_gadget_sound someBaseSqrt
    honestTargets_satisfied).2 honestTargets_regular⟩

/-- The gadget accepts every key and message with a key point that no key decodes to. -/
theorem forged_signature_accepted :
    (∀ perm message pubkey,
      (forgedTargets perm message pubkey).Satisfied perm message pubkey 1) ∧
    ∀ S perm message pubkey, ¬ (forgedTargets perm message pubkey).Sound S perm message pubkey := by
  refine ⟨fun perm message pubkey => forgedTargets_satisfied perm message pubkey 1, ?_⟩
  intro S perm message pubkey hsound
  have hkey := ((forgedTargets_satisfied perm message pubkey 1).keyDecoded_iff S).mp hsound.key
  exact hkey.1 rfl

end Doxa.Circuit
