import Doxa.Circuit.GateWitness
import Doxa.Schnorr.GroupOrder
import Doxa.Schnorr.SquareRoot

/-!
# Points by their coordinates

`PointEw` as the code has it: coordinates and a flag for infinity, with operations that panic
where they divide by zero. On the points of the group, other than the one of order two, they
compute what the group does; the compressed form and its decoder are compared with those of the
group on every element of the field.
-/

namespace Doxa

open Lib Circuit WeierstrassCurve.Affine

namespace Circuit.EwPoint

def isOnCurve (p : EwPoint) : Bool :=
  decide (p.y ^ 2 = p.x ^ 2 * p.x + ECGFP5_CAP_A * p.x + ECGFP5_CAP_B)

/-- Panics at the point of order two. -/
def encode (p : EwPoint) : Option QuinticExtension :=
  if p.atInf then some 0
  else (ECGFP5_A_DIV_3 - p.x).inverse.map fun i => p.y * i

/-- The outer `none` is a panic. -/
def decode (S : BaseSqrt) (w : QuinticExtension) : Option (Option EwPoint) :=
  if w = 0 then some (some neutral)
  else do
    let e := w ^ 2 - ECGFP5_A
    let delta := e ^ 2 - ECGFP5_4BZ
    match ← delta.trySqrt S with
    | none => some none
    | some r =>
      let half : F := 9223372034707292161
      let x1 := (e + r) * Quintic.ofBase half
      let x2 := (e - r) * Quintic.ofBase half
      let symbol ← x1.tryLegendre
      let x := if symbol = .one then x1 else x2
      let y := -w * x
      some (some ⟨x + ECGFP5_A_DIV_3, y, false⟩)

/-- The loop of `scalar_mul` over the bits below `i`, the highest first. -/
def doubleAndAdd (p : EwPoint) (bits : ℕ → Bool) : ℕ → EwPoint → Option EwPoint
  | 0, acc => some acc
  | i + 1, acc => acc.double >>= fun acc =>
    (if bits i then acc.add p else some acc) >>= fun acc => doubleAndAdd p bits i acc

def scalarMul (p : EwPoint) (s : Scalar) : Option EwPoint :=
  if p.atInf then some neutral
  else
    match topBit s.toBitArr Scalar.BITS with
    | 0 => some neutral
    | top + 1 => doubleAndAdd p s.toBitArr top p

/-- The coordinates of a point. -/
def ofPoint : PointEw → EwPoint
  | .zero => neutral
  | .some x y _ => ⟨x, y, false⟩

/-- Infinity, or a point that passes the curve check. -/
def IsPoint (p : EwPoint) : Prop := p = neutral ∨ p.atInf = false ∧ p.isOnCurve = true

theorem isPoint_iff (p : EwPoint) : p.IsPoint ↔ ∃ P, ofPoint P = p := by
  constructor
  · rintro (rfl | ⟨hinf, hcurve⟩)
    · exact ⟨0, rfl⟩
    · obtain ⟨x, y, atInf⟩ := p
      subst hinf
      have h : ecgfp5.OnCurve x y := by
        have heq := of_decide_eq_true hcurve
        unfold DoubleOdd.OnCurve
        rw [ecgfp5_B]
        change y ^ 2 = x ^ 3 + ECGFP5_CAP_A * x + ECGFP5_CAP_B
        linear_combination heq
      exact ⟨h.point, rfl⟩
  · rintro ⟨P, rfl⟩
    cases P with
    | zero => exact .inl rfl
    | some x y hns =>
      have h : ecgfp5.OnCurve x y := DoubleOdd.equation_iff.mp hns.1
      unfold DoubleOdd.OnCurve at h
      rw [ecgfp5_B] at h
      change y ^ 2 = x ^ 3 + ECGFP5_CAP_A * x + ECGFP5_CAP_B at h
      refine .inr ⟨rfl, decide_eq_true ?_⟩
      change y ^ 2 = x ^ 2 * x + ECGFP5_CAP_A * x + ECGFP5_CAP_B
      linear_combination h

/-! ## The compressed form -/

theorem encode_ofPoint (P : PointEw) : (ofPoint P).encode = Doxa.encode P := by
  cases P with
  | zero => rfl
  | some x y hns =>
    have hraw : (ofPoint (.some x y hns)).encode =
        (if ECGFP5_A_DIV_3 - x = 0 then none else some (ECGFP5_A_DIV_3 - x)⁻¹).map
          fun i => y * i := rfl
    have hgroup : Doxa.encode (.some x y hns) =
        if ECGFP5_A_DIV_3 - x = 0 then none else some (y / (ECGFP5_A_DIV_3 - x)) := rfl
    rw [hraw, hgroup]
    split
    · rfl
    · rw [Option.map_some, div_eq_mul_inv]

/-- The decoder never panics: its discriminant is not zero. -/
theorem decode_ofPoint (S : BaseSqrt) (w : QuinticExtension) :
    decode S w = some ((Doxa.decode S w).map ofPoint) := by
  unfold decode Doxa.decode
  split
  · rfl
  · dsimp only
    rw [QuinticExtension.trySqrt_of_ne_zero S (delta_ne_zero _)]
    split
    · case h_1 hnone =>
        simp only [hnone, Option.bind_eq_bind, Option.bind_some, Option.map_none]
    · case h_2 r hr =>
        simp only [hr, Option.bind_eq_bind, Option.bind_some, QuinticExtension.tryLegendre_eq]
        rfl

/-! ## The group operations -/

theorem ofPoint_of_holds {a : LocalPointEw} {A : PointEw} (h : a.Holds A) :
    ofPoint A = ofLocal a := by
  obtain ⟨h, rfl⟩ := h
  rfl

theorem exists_holds {P : PointEw} (hP : P ≠ 0) : ∃ a : LocalPointEw, a.Holds P := by
  cases P with
  | zero => exact absurd rfl hP
  | some x y hns => exact ⟨⟨x, y⟩, DoubleOdd.equation_iff.mp hns.1, rfl⟩

theorem yNonzero_of_mem {P : PointEw} (hP : P ∈ ecgfp5.squares) (hne : P ≠ 0) : YNonzero P := by
  cases P with
  | zero => exact absurd rfl hne
  | some x y hns => exact (DoubleOdd.equation_iff.mp hns.1).y_ne_zero hP.1

theorem double_ofPoint {P : PointEw} (hP : YNonzero P) :
    (ofPoint P).double = some (ofPoint (P + P)) := by
  have hne : P ≠ 0 := by
    rintro rfl
    exact hP
  obtain ⟨a, ha⟩ := exists_holds hne
  obtain ⟨d, hdouble, hd⟩ := double_ofLocal ha hP
  rw [ofPoint_of_holds ha, ofPoint_of_holds hd, hdouble]

theorem double_eq_none {p : EwPoint} (h : p.y = 0) : p.double = none := by
  have hden : p.y * 2 = 0 := by rw [h, zero_mul]
  exact if_pos hden

/-- Doubling panics at infinity and at the point of order two. -/
theorem yNonzero_of_double {P : PointEw} {p : EwPoint} (h : (ofPoint P).double = some p) :
    YNonzero P := by
  cases P with
  | zero =>
    rw [double_eq_none rfl] at h
    cases h
  | some x y hns =>
    rintro (rfl : y = 0)
    rw [double_eq_none rfl] at h
    cases h

theorem add_self {P : PointEw} (hP : P ≠ 0) : (ofPoint P).add (ofPoint P) = (ofPoint P).double := by
  obtain ⟨a, ha⟩ := exists_holds hP
  rw [ofPoint_of_holds ha]
  unfold add
  simp [ofLocal]

/-- Addition tells equal and inverse points apart; it panics where it doubles the point of order
two. -/
theorem add_ofPoint_of {P Q : PointEw} (hreg : P = Q → P ≠ 0 → YNonzero P) :
    (ofPoint P).add (ofPoint Q) = some (ofPoint (P + Q)) := by
  by_cases hP : P = 0
  · subst hP
    rw [zero_add]
    rfl
  by_cases hQ : Q = 0
  · subst hQ
    obtain ⟨a, ha⟩ := exists_holds hP
    rw [add_zero, ofPoint_of_holds ha]
    rfl
  by_cases hsame : P = Q
  · subst hsame
    rw [add_self hP, double_ofPoint (hreg rfl hP)]
  obtain ⟨a, ha⟩ := exists_holds hP
  obtain ⟨b, hb⟩ := exists_holds hQ
  by_cases hx : a.x = b.x
  · have hneg : P = -Q := by
      obtain ⟨ha, rfl⟩ := ha
      obtain ⟨hb, rfl⟩ := hb
      exact (Point.X_eq_iff.mp hx).resolve_left hsame
    have hy : a.y ≠ b.y := by
      intro hy
      have hab : a = b := LocalPointEw.ext hx hy
      subst hab
      obtain ⟨ha, rfl⟩ := ha
      obtain ⟨hb, rfl⟩ := hb
      exact hsame rfl
    have hadd : (ofLocal a).add (ofLocal b) =
        if a.y = b.y then (ofLocal a).double else some neutral := if_pos hx
    rw [ofPoint_of_holds ha, ofPoint_of_holds hb, hadd, if_neg hy, hneg, neg_add_cancel]
    rfl
  · rw [ofPoint_of_holds ha, ofPoint_of_holds hb, add_ofLocal hx,
      ofPoint_of_holds (slopeSum_holds ha hb hx (slope_mul hx))]

theorem add_ofPoint {P : PointEw} (hP : P ∈ ecgfp5.squares) (Q : PointEw) :
    (ofPoint P).add (ofPoint Q) = some (ofPoint (P + Q)) :=
  add_ofPoint_of fun _ hne => yNonzero_of_mem hP hne

theorem eq_of_add {P Q : PointEw} {p : EwPoint} (h : (ofPoint P).add (ofPoint Q) = some p) :
    p = ofPoint (P + Q) := by
  have hreg : P = Q → P ≠ 0 → YNonzero P := by
    rintro rfl hne
    rw [add_self hne] at h
    exact yNonzero_of_double h
  rw [add_ofPoint_of hreg] at h
  exact (Option.some.inj h).symm

theorem eq_of_doubleAndAdd {P A : PointEw} {p : EwPoint} {bits : ℕ → Bool} {i : ℕ}
    (h : (ofPoint P).doubleAndAdd bits i (ofPoint A) = some p) :
    p = ofPoint (Doxa.doubleAndAdd P bits i A) := by
  induction i generalizing A with
  | zero => exact (Option.some.inj h).symm
  | succ i ih =>
    obtain ⟨acc, hdouble, hstep⟩ := Option.bind_eq_some_iff.mp h
    obtain ⟨out, hadd, hrest⟩ := Option.bind_eq_some_iff.mp hstep
    rw [double_ofPoint (yNonzero_of_double hdouble)] at hdouble
    obtain rfl := Option.some.inj hdouble
    rw [Doxa.doubleAndAdd]
    split at hadd
    · case isTrue hbit =>
        rw [eq_of_add hadd] at hrest
        rw [if_pos hbit]
        exact ih hrest
    · case isFalse hbit =>
        obtain rfl := Option.some.inj hadd
        rw [if_neg hbit]
        exact ih hrest

/-- Where scalar multiplication does not panic, it is that of the group. -/
theorem eq_of_scalarMul {P : PointEw} {p : EwPoint} {s : Scalar}
    (h : (ofPoint P).scalarMul s = some p) : p = ofPoint (Doxa.scalarMul P s) := by
  by_cases hne : P = 0
  · subst hne
    rw [scalarMul_eq, nsmul_zero]
    exact (Option.some.inj h).symm
  · obtain ⟨a, ha⟩ := exists_holds hne
    have hfinite : (ofPoint P).atInf = false := by
      rw [ofPoint_of_holds ha]
      rfl
    unfold scalarMul at h
    unfold Doxa.scalarMul scalarMulBits
    rw [hfinite, if_neg Bool.false_ne_true] at h
    rw [if_neg hne]
    cases htop : topBit s.toBitArr Scalar.BITS with
    | zero =>
      rw [htop] at h
      exact (Option.some.inj h).symm
    | succ top =>
      rw [htop] at h
      exact eq_of_doubleAndAdd h

end Circuit.EwPoint

/-! ## The group of prime order -/

/-- The multiples of the generator. -/
abbrev primeGroup : AddSubgroup PointEw := AddSubgroup.zmultiples generator

theorem primeGroup_le_squares : primeGroup ≤ ecgfp5.squares :=
  AddSubgroup.zmultiples_le.mpr generator_mem

theorem card_primeGroup : Nat.card primeGroup = Scalar.N.toNat := by
  rw [Nat.card_zmultiples, addOrderOf_generator]

theorem nsmul_ne_zero {P : PointEw} (hP : P ∈ primeGroup) (hne : P ≠ 0) {m : ℕ} (hm : 0 < m)
    (hlt : m < Scalar.N.toNat) : m • P ≠ 0 := by
  intro hzero
  have hdvd : addOrderOf P ∣ Scalar.N.toNat := by
    obtain ⟨n, rfl⟩ := hP
    refine addOrderOf_dvd_of_nsmul_eq_zero ?_
    change Scalar.N.toNat • n • generator = 0
    rw [smul_comm, N_nsmul]
    exact zsmul_zero n
  have horder : addOrderOf P = Scalar.N.toNat := by
    refine ((Nat.dvd_prime N_prime).mp hdvd).resolve_left fun hone => hne ?_
    exact AddMonoid.addOrderOf_eq_one_iff.mp hone
  have hle := Nat.le_of_dvd hm (addOrderOf_dvd_of_nsmul_eq_zero hzero)
  omega

theorem pow_318_lt_N : 2 ^ 318 < Scalar.N.toNat := by
  have hpow : (2 : ℕ) ^ 318 = 2 ^ 159 * 2 ^ 159 := pow_add 2 159 159
  rw [Scalar.N_toNat, hpow]
  norm_num

namespace Circuit.EwPoint

/-- The loop on a multiple that leaves room for the remaining doublings. -/
theorem doubleAndAdd_ofPoint {P : PointEw} (hP : P ∈ primeGroup) (hne : P ≠ 0)
    (bits : ℕ → Bool) {i m : ℕ} (hm : 0 < m) (hroom : (m + 1) * 2 ^ i ≤ 2 ^ 319) :
    (ofPoint P).doubleAndAdd bits i (ofPoint (m • P)) =
      some (ofPoint (Doxa.doubleAndAdd P bits i (m • P))) := by
  induction i generalizing m with
  | zero => rfl
  | succ i ih =>
    have hmem (n : ℕ) : n • P ∈ ecgfp5.squares :=
      primeGroup_le_squares (AddSubgroup.nsmul_mem _ hP n)
    -- the accumulator is doubled before the last bit only while it is below the order
    have hlt : m < Scalar.N.toNat := by
      have hhalf : (m + 1) * 2 ≤ 2 ^ 318 * 2 := by
        rw [← pow_succ]
        refine le_trans ?_ hroom
        exact Nat.mul_le_mul_left _ (Nat.le_self_pow (Nat.succ_ne_zero i) 2)
      have hbound := pow_318_lt_N
      omega
    have hdouble := double_ofPoint (yNonzero_of_mem (hmem m) (nsmul_ne_zero hP hne hm hlt))
    have htwo : m • P + m • P = (2 * m) • P := by rw [← two_nsmul, mul_nsmul']
    have hroom' : (2 * m + 1 + 1) * 2 ^ i ≤ 2 ^ 319 := by
      refine le_trans (le_of_eq ?_) hroom
      rw [pow_succ]
      ring
    rw [doubleAndAdd, Doxa.doubleAndAdd, hdouble, htwo]
    simp only [Option.bind_eq_bind, Option.bind_some]
    cases bits i with
    | false =>
      simp only [Bool.false_eq_true, if_false, Option.bind_some]
      refine ih (by omega) (le_trans ?_ hroom')
      exact Nat.mul_le_mul_right _ (Nat.le_succ _)
    | true =>
      have hsucc : (2 * m) • P + P = (2 * m + 1) • P := (succ_nsmul P (2 * m)).symm
      simp only [if_true, add_ofPoint (hmem _), Option.bind_some, hsucc]
      exact ih (Nat.succ_pos _) hroom'

theorem topBit_le (bits : ℕ → Bool) (n : ℕ) : topBit bits n ≤ n := by
  induction n with
  | zero => exact le_rfl
  | succ n ih =>
    rw [topBit]
    split
    · exact le_rfl
    · exact Nat.le_succ_of_le ih

/-- Scalar multiplication never panics in the group of prime order, whatever the scalar. -/
theorem scalarMul_ofPoint {P : PointEw} (hP : P ∈ primeGroup) (s : Scalar) :
    (ofPoint P).scalarMul s = some (ofPoint (Doxa.scalarMul P s)) := by
  by_cases hne : P = 0
  · subst hne
    rw [scalarMul_eq, nsmul_zero]
    rfl
  · obtain ⟨a, ha⟩ := exists_holds hne
    have hfinite : (ofPoint P).atInf = false := by
      rw [ofPoint_of_holds ha]
      rfl
    have hle := topBit_le s.toBitArr Scalar.BITS
    unfold scalarMul Doxa.scalarMul scalarMulBits
    rw [hfinite, if_neg Bool.false_ne_true, if_neg hne]
    cases htop : topBit s.toBitArr Scalar.BITS with
    | zero => rfl
    | succ top =>
        have hroom : (1 + 1) * 2 ^ top ≤ 2 ^ 319 := by
          rw [htop] at hle
          have hpow : (1 + 1) * 2 ^ top = 2 ^ (top + 1) := (pow_succ' 2 top).symm
          rw [hpow]
          exact Nat.pow_le_pow_right (by decide) hle
        have hloop := doubleAndAdd_ofPoint hP hne s.toBitArr Nat.one_pos hroom
        rwa [one_nsmul] at hloop

end Circuit.EwPoint

/-! ## The round trips -/

/-- Decoding finds a point of the curve that is encoded as its argument, and fails only where
there is none; encoding loses no point of the group of prime order. -/
theorem point_encoding (S : BaseSqrt) :
    (∀ w, ∃ decoded, EwPoint.decode S w = some decoded ∧
      (∀ p, decoded = some p → p.IsPoint ∧ p.encode = some w) ∧
      (decoded = none ↔ ∀ p : EwPoint, p.IsPoint → p.encode ≠ some w)) ∧
    Nat.card primeGroup = Scalar.N.toNat ∧
    ∀ P ∈ primeGroup, ∃ w, (EwPoint.ofPoint P).encode = some w ∧
      EwPoint.decode S w = some (some (EwPoint.ofPoint P)) := by
  refine ⟨fun w => ⟨_, EwPoint.decode_ofPoint S w, ?_, ?_⟩, card_primeGroup, fun P hP => ?_⟩
  · intro p hp
    obtain ⟨P, hP, rfl⟩ := Option.map_eq_some_iff.mp hp
    refine ⟨(EwPoint.isPoint_iff _).mpr ⟨P, rfl⟩, ?_⟩
    rw [EwPoint.encode_ofPoint, encode_of_decode S hP]
  · constructor
    · intro hnone p hp henc
      obtain ⟨P, rfl⟩ := (EwPoint.isPoint_iff p).mp hp
      rw [EwPoint.encode_ofPoint] at henc
      have hsome := decode_isSome_of_encode S henc
      rw [Option.map_eq_none_iff.mp hnone] at hsome
      exact absurd hsome (by simp)
    · intro hnot
      rw [Option.map_eq_none_iff]
      cases hdec : decode S w with
      | none => rfl
      | some P =>
        refine absurd ?_ (hnot _ ((EwPoint.isPoint_iff _).mpr ⟨P, rfl⟩))
        rw [EwPoint.encode_ofPoint, encode_of_decode S hdec]
  · obtain ⟨w, henc, hdec⟩ := decode_encode S (primeGroup_le_squares hP)
    refine ⟨w, ?_, ?_⟩
    · rw [EwPoint.encode_ofPoint, henc]
    · rw [EwPoint.decode_ofPoint, hdec]
      rfl

end Doxa
