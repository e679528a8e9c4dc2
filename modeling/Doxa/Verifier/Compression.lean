import Doxa.Verifier.Field
import Mathlib.Algebra.QuadraticAlgebra.Basic
import Mathlib.Data.Nat.Bitwise

/-!
# Compressed points

A point of one of the two curves is sent as its first coordinate and what chooses the second one:
a sign, and on the twist also the hint for the complex root. Compressing and decompressing are two
readings of one relation between a point and a word (`EncodesG1`, `EncodesG2`), so each undoes the
other, and what they accept are the reduced points of the curve. On the twist the points whose
second coordinate is imaginary are refused: the complex root divides by its real part.
-/

namespace Doxa.Verifier

open Lib Lib.SquareRoots

/-! ## The functions -/

def compressG1 (x y : ℕ) : Except VerifierError ℕ :=
  if x ≥ P ∨ y ≥ P then .error .proofInvalid
  else if x = 0 ∧ y = 0 then .ok 0
  else do
    let yPos ← sqrtFp (addmod (mulmod (mulmod x x P) x P) 3 P)
    if y = yPos then .ok ((x <<< 1) ||| 0)
    else if y = negate yPos then .ok ((x <<< 1) ||| 1)
    else .error .proofInvalid

def decompressG1 (c : ℕ) : Except VerifierError (ℕ × ℕ) :=
  if c = 0 then .ok (0, 0)
  else if c >>> 1 ≥ P then .error .proofInvalid
  else do
    let y ← sqrtFp (addmod (mulmod (mulmod (c >>> 1) (c >>> 1) P) (c >>> 1) P) 3 P)
    .ok (c >>> 1, if c &&& 1 = 1 then negate y else y)

/-- `y^2`, real and imaginary part, which both functions below compute. -/
def twistSquare (x0 x1 : ℕ) : ℕ × ℕ :=
  let n3ab := mulmod (mulmod x0 x1 P) (P - 3) P
  let a3 := mulmod (mulmod x0 x0 P) x0 P
  let b3 := mulmod (mulmod x1 x1 P) x1 P
  (addmod FRACTION_27_82_FP (addmod a3 (mulmod n3ab x1 P) P) P,
    negate (addmod FRACTION_3_82_FP (addmod b3 (mulmod n3ab x0 P) P) P))

def compressG2 (x0 x1 y0 y1 : ℕ) : Except VerifierError (ℕ × ℕ) :=
  if x0 ≥ P ∨ x1 ≥ P ∨ y0 ≥ P ∨ y1 ≥ P then .error .proofInvalid
  else if x0 ||| x1 ||| y0 ||| y1 = 0 then .ok (0, 0)
  else do
    let square := twistSquare x0 x1
    let d ← sqrtFp (addmod (mulmod square.1 square.1 P) (mulmod square.2 square.2 P) P)
    let hint := !isSquareFp (mulmod (addmod square.1 d P) FRACTION_1_2_FP P)
    let yPos ← sqrtFp2 square.1 square.2 hint
    if y0 = yPos.1 ∧ y1 = yPos.2 then .ok ((x0 <<< 2) ||| (if hint then 2 else 0) ||| 0, x1)
    else if y0 = negate yPos.1 ∧ y1 = negate yPos.2 then
      .ok ((x0 <<< 2) ||| (if hint then 2 else 0) ||| 1, x1)
    else .error .proofInvalid

def decompressG2 (c0 c1 : ℕ) : Except VerifierError (ℕ × ℕ × ℕ × ℕ) :=
  if c0 = 0 ∧ c1 = 0 then .ok (0, 0, 0, 0)
  else if c0 >>> 2 ≥ P ∨ c1 ≥ P then .error .proofInvalid
  else do
    let square := twistSquare (c0 >>> 2) c1
    let y ← sqrtFp2 square.1 square.2 (decide (c0 &&& 2 = 2))
    .ok (c0 >>> 2, c1, if c0 &&& 1 = 1 then negate y.1 else y.1, if c0 &&& 1 = 1 then negate y.2 else y.2)

/-! ## The curves -/

/-- The complex extension of the base field. -/
abbrev Fp2 := QuadraticAlgebra Fp (-1) 0

def OnCurve (x y : Fp) : Prop := y * y = x * x * x + 3

/-- `y^2 = x^3 + 3 / (9 + i)`. -/
def OnTwist (x y : Fp2) : Prop := (⟨9, 1⟩ : Fp2) * (y * y - x * x * x) = ⟨3, 0⟩

theorem three_ne_zero_Fp : (3 : Fp) ≠ 0 := by
  unfold Fp P
  decide

theorem not_isSquare_three : ¬IsSquare (3 : Fp) := by
  have hexp : P / 2 =
      10944121435919637611123202872628637544348155578648911831344518947322613104291 := by
    norm_num [P]
  rw [ZMod.euler_criterion P three_ne_zero_Fp, hexp]
  unfold Fp P
  intro h
  reduce_mod_char at h
  revert h
  decide

theorem not_isSquare_eighty_two : ¬IsSquare (82 : Fp) := by
  have hexp : P / 2 =
      10944121435919637611123202872628637544348155578648911831344518947322613104291 := by
    norm_num [P]
  have hne : (82 : Fp) ≠ 0 := by
    unfold Fp P
    decide
  rw [ZMod.euler_criterion P hne, hexp]
  unfold Fp P
  intro h
  reduce_mod_char at h
  revert h
  decide

/-- No point of the curve has order two. -/
theorem cube_ne_neg_three (x : Fp) : x * x * x + 3 ≠ 0 := by
  intro h
  have hcube : x ^ 3 = -3 := by linear_combination h
  have hx : x ≠ 0 := by
    rintro rfl
    rw [zero_pow three_ne_zero, zero_eq_neg] at hcube
    exact three_ne_zero_Fp hcube
  have hexp : P - 1 =
      3 * 7296080957279758407415468581752425029565437052432607887563012631548408736194 := by
    norm_num [P]
  have hone := ZMod.pow_card_sub_one_eq_one hx
  rw [hexp, pow_mul, hcube] at hone
  revert hone
  unfold Fp P
  intro hone
  reduce_mod_char at hone
  revert hone
  decide

/-! ## Signs and words -/

/-- The root that is a square, or the other one. -/
def signed (sign : Bool) (y : ℕ) : ℕ := if sign then negate y else y

section Words

variable {x y s k : ℕ} {sign : Bool}

theorem shiftLeft_or_eq (hs : s < 2 ^ k) : (x <<< k) ||| s = 2 ^ k * x + s := by
  rw [Nat.shiftLeft_eq, mul_comm, Nat.two_pow_add_eq_or_of_lt hs]

theorem signWord_eq :
    (if sign then (x <<< 1) ||| 1 else (x <<< 1) ||| 0) = 2 * x + sign.toNat := by
  cases sign with
  | false => exact shiftLeft_or_eq (by norm_num)
  | true => exact shiftLeft_or_eq (by norm_num)

theorem signed_lt (hy : y < P) : signed sign y < P := by
  cases sign with
  | false => exact hy
  | true => exact negate_lt

theorem signed_cast : ((signed sign y : ℕ) : Fp) = if sign then -(y : Fp) else y := by
  cases sign with
  | false => rfl
  | true => exact negate_cast

theorem signed_signed (hy : y < P) : signed sign (signed sign y) = y := by
  cases sign with
  | false => rfl
  | true =>
    rw [eq_iff_cast (signed_lt (signed_lt hy)) hy, signed_cast, if_pos rfl, signed_cast, if_pos rfl, neg_neg]

/-- The sign tells whether a root is a square. -/
theorem signed_isSquare (hy : (y : Fp) ≠ 0) :
    IsSquare ((signed sign y : ℕ) : Fp) ↔ (sign = true ↔ ¬IsSquare (y : Fp)) := by
  rw [signed_cast]
  cases sign with
  | false => simp
  | true => simp [neg_isSquare_iff P_mod_four hy]

theorem ne_negate (hy : (y : Fp) ≠ 0) : y ≠ negate y := by
  intro h
  have hsquare : IsSquare ((signed true y : ℕ) : Fp) ↔ (true = true ↔ ¬IsSquare (y : Fp)) :=
    signed_isSquare hy
  rw [signed, if_pos rfl, ← h] at hsquare
  tauto

theorem eq_signed {y pos : ℕ} : (if sign then y = negate pos else y = pos) ↔ y = signed sign pos := by
  cases sign with
  | false => rfl
  | true => rfl

theorem eq_signed_pair {y0 y1 pos0 pos1 : ℕ} :
    (if sign then y0 = negate pos0 ∧ y1 = negate pos1 else y0 = pos0 ∧ y1 = pos1) ↔
      (y0, y1) = (signed sign pos0, signed sign pos1) := by
  rw [Prod.mk.injEq]
  cases sign with
  | false => rfl
  | true => rfl

/-- The three branches that end a compression. -/
theorem pick_eq_ok {β : Type} {p q : Prop} [Decidable p] [Decidable q] {a b c : β} (hpq : ¬(p ∧ q)) :
    (if p then .ok a else if q then .ok b else .error VerifierError.proofInvalid) =
        (.ok c : Except VerifierError β) ↔
      ∃ sign : Bool, (if sign then q else p) ∧ (if sign then b else a) = c := by
  constructor
  · intro h
    split at h
    · rename_i hp
      exact ⟨false, hp, Except.ok.inj h⟩
    · split at h
      · rename_i hq
        exact ⟨true, hq, Except.ok.inj h⟩
      · cases h
  · rintro ⟨sign, h, rfl⟩
    cases sign with
    | false => exact if_pos h
    | true =>
      have hp : ¬p := fun hp => hpq ⟨hp, h⟩
      rw [if_neg hp]
      exact if_pos h

end Words

/-! ## Points of the curve -/

section CurvePoints

variable {x y c : ℕ} {sign : Bool}

/-- The word `c` stands for the point `(x, y)`. -/
def EncodesG1 (x y c : ℕ) : Prop :=
  (x < P ∧ y < P) ∧ (x = 0 ∧ y = 0 ∧ c = 0 ∨
    OnCurve x y ∧ ∃ sign : Bool, c = 2 * x + sign.toNat ∧ (sign = true ↔ ¬IsSquare (y : Fp)))

theorem OnCurve.ne_zero {x y : Fp} (h : OnCurve x y) : x ≠ 0 ∧ y ≠ 0 := by
  constructor
  · rintro rfl
    refine not_isSquare_three ⟨y, ?_⟩
    rw [OnCurve, mul_zero, zero_add] at h
    exact h.symm
  · rintro rfl
    rw [OnCurve, mul_zero] at h
    exact cube_ne_neg_three x h.symm

theorem sqrtFp_curve : sqrtFp (addmod (mulmod (mulmod x x P) x P) 3 P) = .ok y ↔
    y < P ∧ OnCurve x y ∧ IsSquare (y : Fp) := by
  rw [sqrtFp_eq_ok, sqrt_eq_some P_mod_four, addmod_cast, mulmod_cast, mulmod_cast, Nat.cast_ofNat]
  exact and_iff_right addmod_lt

/-- A root under its sign. -/
theorem signed_curve : (∃ yPos, sqrtFp (addmod (mulmod (mulmod x x P) x P) 3 P) = .ok yPos ∧
      y = signed sign yPos) ↔ y < P ∧ OnCurve x y ∧ (sign = true ↔ ¬IsSquare (y : Fp)) := by
  have hcurve : ∀ {z : ℕ}, OnCurve (x : Fp) ((signed sign z : ℕ) : Fp) ↔ OnCurve (x : Fp) (z : Fp) := by
    intro z
    rw [signed_cast]
    cases sign with
    | false => rfl
    | true => simp only [if_true, OnCurve, neg_mul_neg]
  constructor
  · rintro ⟨yPos, hroot, rfl⟩
    obtain ⟨hlt, hon, hsquare⟩ := sqrtFp_curve.mp hroot
    have hon' := hcurve.mpr hon
    refine ⟨signed_lt hlt, hon', ?_⟩
    rw [← signed_isSquare hon'.ne_zero.2, signed_signed hlt]
    exact hsquare
  · rintro ⟨hlt, hon, hsign⟩
    refine ⟨signed sign y, ?_, (signed_signed hlt).symm⟩
    rw [sqrtFp_curve, hcurve, signed_isSquare hon.ne_zero.2]
    exact ⟨signed_lt hlt, hon, hsign⟩

theorem compressG1_eq_ok : compressG1 x y = .ok c ↔ EncodesG1 x y c := by
  unfold compressG1 EncodesG1
  by_cases hreduced : x < P ∧ y < P
  · rw [if_neg (by omega), and_iff_right hreduced]
    by_cases hzero : x = 0 ∧ y = 0
    · obtain ⟨rfl, rfl⟩ := hzero
      have hoff : ¬OnCurve ((0 : ℕ) : Fp) ((0 : ℕ) : Fp) := fun h => h.ne_zero.1 Nat.cast_zero
      rw [if_pos ⟨rfl, rfl⟩, Except.ok.injEq]
      tauto
    · have hpick : ∀ {yPos : ℕ}, sqrtFp (addmod (mulmod (mulmod x x P) x P) 3 P) = .ok yPos →
          ¬(y = yPos ∧ y = negate yPos) := by
        rintro yPos hroot ⟨rfl, h⟩
        exact ne_negate (sqrtFp_curve.mp hroot).2.1.ne_zero.2 h
      rw [if_neg hzero, bind_eq_ok]
      constructor
      · rintro ⟨yPos, hroot, h⟩
        obtain ⟨sign, hy, rfl⟩ := (pick_eq_ok (hpick hroot)).mp h
        obtain ⟨-, hon, hsign⟩ := signed_curve.mp ⟨yPos, hroot, eq_signed.mp hy⟩
        exact Or.inr ⟨hon, sign, signWord_eq, hsign⟩
      · rintro (⟨rfl, rfl, -⟩ | ⟨hon, sign, rfl, hsign⟩)
        · exact absurd ⟨rfl, rfl⟩ hzero
        · obtain ⟨yPos, hroot, hy⟩ := signed_curve.mpr ⟨hreduced.2, hon, hsign⟩
          exact ⟨yPos, hroot, (pick_eq_ok (hpick hroot)).mpr ⟨sign, eq_signed.mpr hy, signWord_eq⟩⟩
  · rw [if_pos (by omega)]
    simp [hreduced]

theorem decompressG1_eq_ok : decompressG1 c = .ok (x, y) ↔ EncodesG1 x y c := by
  unfold decompressG1 EncodesG1
  by_cases hzero : c = 0
  · subst hzero
    rw [if_pos rfl, Except.ok.injEq, Prod.mk.injEq]
    constructor
    · rintro ⟨rfl, rfl⟩
      exact ⟨⟨prime_P.pos, prime_P.pos⟩, Or.inl ⟨rfl, rfl, rfl⟩⟩
    · rintro ⟨-, ⟨rfl, rfl, -⟩ | ⟨hon, sign, hc, -⟩⟩
      · exact ⟨rfl, rfl⟩
      · have hx : x = 0 := by omega
        subst hx
        exact absurd Nat.cast_zero hon.ne_zero.1
  · have hword : ∀ {x : ℕ} {sign : Bool},
        c = 2 * x + sign.toNat ↔ c >>> 1 = x ∧ decide (c &&& 1 = 1) = sign := by
      intro x sign
      rw [Nat.shiftRight_eq_div_pow, Nat.and_one_is_mod]
      cases sign with
      | false => simp; omega
      | true => simp; omega
    have hsigned : ∀ {y : ℕ}, (if c &&& 1 = 1 then negate y else y) = signed (decide (c &&& 1 = 1)) y := by
      intro y
      simp only [signed, decide_eq_true_eq]
    rw [if_neg hzero]
    constructor
    · intro h
      split at h
      · cases h
      · rename_i hlt
        obtain ⟨yPos, hroot, h⟩ := bind_eq_ok.mp h
        obtain ⟨rfl, hy⟩ := Prod.mk.inj (Except.ok.inj h)
        obtain ⟨hy, hon, hsign⟩ := signed_curve.mp ⟨yPos, hroot, hy.symm.trans hsigned⟩
        exact ⟨⟨Nat.lt_of_not_le hlt, hy⟩, Or.inr ⟨hon, _, hword.mpr ⟨rfl, rfl⟩, hsign⟩⟩
    · rintro ⟨⟨hx, hy⟩, ⟨-, -, hc⟩ | ⟨hon, sign, hc, hsign⟩⟩
      · exact absurd hc hzero
      · obtain ⟨rfl, rfl⟩ := hword.mp hc
        obtain ⟨yPos, hroot, rfl⟩ := signed_curve.mpr ⟨hy, hon, hsign⟩
        rw [if_neg (Nat.not_le.mpr hx), bind_eq_ok]
        exact ⟨yPos, hroot, by rw [hsigned]⟩

/-- Compressing and decompressing undo each other, and accept the points of the curve. -/
theorem compressG1_iff : (compressG1 x y = .ok c ↔ decompressG1 c = .ok (x, y)) ∧
    ((∃ w, compressG1 x y = .ok w) ↔ (x < P ∧ y < P) ∧ (x = 0 ∧ y = 0 ∨ OnCurve x y)) := by
  refine ⟨compressG1_eq_ok.trans decompressG1_eq_ok.symm, ?_⟩
  simp only [compressG1_eq_ok, EncodesG1]
  constructor
  · rintro ⟨w, hreduced, ⟨hx, hy, -⟩ | ⟨hon, -⟩⟩
    · exact ⟨hreduced, Or.inl ⟨hx, hy⟩⟩
    · exact ⟨hreduced, Or.inr hon⟩
  · rintro ⟨hreduced, ⟨hx, hy⟩ | hon⟩
    · exact ⟨0, hreduced, Or.inl ⟨hx, hy, rfl⟩⟩
    · classical
      exact ⟨_, hreduced, Or.inr ⟨hon, decide (¬IsSquare (y : Fp)), rfl, decide_eq_true_iff⟩⟩

end CurvePoints

/-! ## Points of the twist -/

section TwistPoints

variable {x0 x1 y0 y1 c0 c1 : ℕ} {hint sign : Bool}

/-- An element of the extension from its parts. -/
def complex (x0 x1 : ℕ) : Fp2 := ⟨x0, x1⟩

/-- The hint that belongs to the square of an element. -/
def hintOfRoot (y0 y1 : Fp) : Bool := hintOf (y0 * y0 - y1 * y1) (2 * (y0 * y1))

/-- The words `c0` and `c1` stand for the point `(x0 + x1 i, y0 + y1 i)`. -/
def EncodesG2 (x0 x1 y0 y1 c0 c1 : ℕ) : Prop :=
  ((x0 < P ∧ x1 < P) ∧ y0 < P ∧ y1 < P) ∧
    ((x0 = 0 ∧ x1 = 0) ∧ (y0 = 0 ∧ y1 = 0) ∧ c0 = 0 ∧ c1 = 0 ∨
      OnTwist (complex x0 x1) (complex y0 y1) ∧ (y0 : Fp) ≠ 0 ∧ c1 = x1 ∧
        ∃ sign : Bool, c0 = 4 * x0 + (2 * (hintOfRoot y0 y1).toNat + sign.toNat) ∧
          (sign = true ↔ ¬IsSquare (y0 : Fp)))

theorem eighty_two_ne_zero : (82 : Fp) ≠ 0 := by
  unfold Fp P
  decide

theorem fraction_27_82_cast : ((FRACTION_27_82_FP : ℕ) : Fp) * 82 = 27 := by
  unfold Fp P FRACTION_27_82_FP
  decide

theorem fraction_3_82_cast : ((FRACTION_3_82_FP : ℕ) : Fp) * 82 = 3 := by
  unfold Fp P FRACTION_3_82_FP
  decide

theorem minus_three_cast : ((P - 3 : ℕ) : Fp) = -3 := by
  rw [Nat.cast_sub (by norm_num [P]), ZMod.natCast_self, zero_sub, Nat.cast_ofNat]

theorem onTwist_iff : OnTwist (complex x0 x1) (complex y0 y1) ↔
    (y0 : Fp) * (y0 : Fp) - (y1 : Fp) * (y1 : Fp) = ((twistSquare x0 x1).1 : Fp) ∧
      2 * ((y0 : Fp) * (y1 : Fp)) = ((twistSquare x0 x1).2 : Fp) := by
  have h27 := fraction_27_82_cast
  have h3 := fraction_3_82_cast
  have hcancel : ∀ {a b : Fp}, 82 * a = 82 * b → a = b := fun h => mul_left_cancel₀ eighty_two_ne_zero h
  simp only [OnTwist, complex, QuadraticAlgebra.ext_iff, QuadraticAlgebra.re_mul, QuadraticAlgebra.im_mul,
    QuadraticAlgebra.re_sub, QuadraticAlgebra.im_sub, twistSquare, addmod_cast, mulmod_cast, negate_cast,
    minus_three_cast]
  constructor
  · rintro ⟨hre, him⟩
    constructor
    · apply hcancel
      linear_combination 9 * hre + him - h27
    · apply hcancel
      linear_combination 9 * him - hre + h3
  · rintro ⟨hre, him⟩
    constructor
    · apply hcancel
      linear_combination 9 * 82 * hre - 82 * him + 9 * h27 + h3
    · apply hcancel
      linear_combination 82 * hre + 9 * 82 * him + h27 - 9 * h3

theorem onTwist_neg : OnTwist (complex x0 x1) (complex (signed sign y0) (signed sign y1)) ↔
    OnTwist (complex x0 x1) (complex y0 y1) := by
  rw [onTwist_iff, onTwist_iff, signed_cast, signed_cast]
  cases sign with
  | false => rfl
  | true => simp only [if_true, neg_mul_neg]

theorem hintOfRoot_signed :
    hintOfRoot ((signed sign y0 : ℕ) : Fp) ((signed sign y1 : ℕ) : Fp) = hintOfRoot (y0 : Fp) (y1 : Fp) := by
  rw [signed_cast, signed_cast]
  cases sign with
  | false => rfl
  | true => simp only [if_true, hintOfRoot, neg_mul_neg]

/-- The first coordinate zero stands for no point but the one at infinity. -/
theorem not_onTwist_zero : ¬OnTwist (complex 0 0) (complex y0 y1) := by
  intro h
  obtain ⟨hre, him⟩ := onTwist_iff.mp h
  have h27 := fraction_27_82_cast
  have h3 := fraction_3_82_cast
  simp only [twistSquare, addmod_cast, mulmod_cast, negate_cast, Nat.cast_zero, mul_zero, add_zero] at hre him
  -- the norm of the square is the norm of `3 / (9 + i)`, a square divided by `82`
  have hnorm : (82 * ((y0 : Fp) * (y0 : Fp) + (y1 : Fp) * (y1 : Fp))) *
      (82 * ((y0 : Fp) * (y0 : Fp) + (y1 : Fp) * (y1 : Fp))) = 82 * (3 * 3) := by
    linear_combination 82 * 82 * ((y0 : Fp) * (y0 : Fp) - (y1 : Fp) * (y1 : Fp) + FRACTION_27_82_FP) * hre +
      82 * 82 * (2 * ((y0 : Fp) * (y1 : Fp)) - FRACTION_3_82_FP) * him +
      (FRACTION_27_82_FP * 82 + 27) * h27 + (FRACTION_3_82_FP * 82 + 3) * h3
  refine not_isSquare_eighty_two
    ⟨82 * ((y0 : Fp) * (y0 : Fp) + (y1 : Fp) * (y1 : Fp)) / 3, ?_⟩
  rw [div_mul_div_comm, hnorm, mul_div_assoc, div_self (mul_ne_zero three_ne_zero_Fp three_ne_zero_Fp), mul_one]

theorem sqrtFp2_twist : sqrtFp2 (twistSquare x0 x1).1 (twistSquare x0 x1).2 hint = .ok (y0, y1) ↔
    (y0 < P ∧ y1 < P) ∧ OnTwist (complex x0 x1) (complex y0 y1) ∧ (y0 : Fp) ≠ 0 ∧
      hint = hintOfRoot y0 y1 ∧ IsSquare (y0 : Fp) := by
  have hlt : (twistSquare x0 x1).1 < P ∧ (twistSquare x0 x1).2 < P := ⟨addmod_lt, negate_lt⟩
  rw [sqrtFp2_eq_ok, and_iff_right hlt, complexSqrt_eq_some P_mod_four, onTwist_iff, hintOfRoot]
  constructor
  · rintro ⟨hy, hne, hsquare, hre, him, hhint⟩
    rw [hre, him]
    exact ⟨hy, ⟨rfl, rfl⟩, hne, hhint, hsquare⟩
  · rintro ⟨hy, ⟨hre, him⟩, hne, hhint, hsquare⟩
    rw [hre, him] at hhint
    exact ⟨hy, hne, hsquare, hre, him, hhint⟩

/-- A complex root under its sign. -/
theorem signed_twist : (∃ yPos : ℕ × ℕ,
      sqrtFp2 (twistSquare x0 x1).1 (twistSquare x0 x1).2 hint = .ok yPos ∧
        (y0, y1) = (signed sign yPos.1, signed sign yPos.2)) ↔
    (y0 < P ∧ y1 < P) ∧ OnTwist (complex x0 x1) (complex y0 y1) ∧ (y0 : Fp) ≠ 0 ∧
      hint = hintOfRoot y0 y1 ∧ (sign = true ↔ ¬IsSquare (y0 : Fp)) := by
  have hzero : ∀ {z : ℕ}, ((signed sign z : ℕ) : Fp) ≠ 0 ↔ (z : Fp) ≠ 0 := by
    intro z
    rw [signed_cast]
    cases sign with
    | false => rfl
    | true => simp
  constructor
  · rintro ⟨⟨r0, r1⟩, hroot, hy⟩
    obtain ⟨rfl, rfl⟩ := Prod.mk.inj hy
    obtain ⟨⟨h0, h1⟩, hon, hne, hhint, hsquare⟩ := sqrtFp2_twist.mp hroot
    have hne' := hzero.mpr hne
    refine ⟨⟨signed_lt h0, signed_lt h1⟩, onTwist_neg.mpr hon, hne', hhint.trans hintOfRoot_signed.symm, ?_⟩
    rw [← signed_isSquare hne', signed_signed h0]
    exact hsquare
  · rintro ⟨⟨h0, h1⟩, hon, hne, hhint, hsign⟩
    refine ⟨(signed sign y0, signed sign y1), ?_, ?_⟩
    · rw [sqrtFp2_twist, onTwist_neg, hintOfRoot_signed, hzero, signed_isSquare hne]
      exact ⟨⟨signed_lt h0, signed_lt h1⟩, hon, hne, hhint, hsign⟩
    · simp only [signed_signed h0, signed_signed h1]

/-- The first root of a complex root. -/
theorem sqrtFp_of_sqrtFp2 {a0 a1 : ℕ} {y : ℕ × ℕ} (h : sqrtFp2 a0 a1 hint = .ok y) :
    ∃ d, sqrtFp (addmod (mulmod a0 a0 P) (mulmod a1 a1 P) P) = .ok d := by
  obtain ⟨d, hd, -⟩ := bind_eq_ok.mp h
  exact ⟨d, hd⟩

/-- The hint a compression sends is the one that belongs to the number. -/
theorem hint_eq {a0 a1 d : ℕ} (hd : sqrtFp (addmod (mulmod a0 a0 P) (mulmod a1 a1 P) P) = .ok d) :
    (!isSquareFp (mulmod (addmod a0 d P) FRACTION_1_2_FP P)) = hintOf (a0 : Fp) (a1 : Fp) := by
  obtain ⟨-, -, hroot⟩ := sqrtFp_eq_ok.mp hd
  rw [addmod_cast, mulmod_cast, mulmod_cast, sqrt_steps] at hroot
  have hcandidate := @candidate_cast a0 a1 false d hroot.2
  rw [if_neg Bool.false_ne_true] at hcandidate
  rw [isSquareFp_eq, hcandidate, hintOf, ← decide_not]
  simp only [mulmod_lt, true_and, ne_eq]

theorem twistWord_eq :
    (if sign then ((x0 <<< 2) ||| (if hint then 2 else 0) ||| 1, x1)
      else ((x0 <<< 2) ||| (if hint then 2 else 0) ||| 0, x1)) =
      (4 * x0 + (2 * hint.toNat + sign.toNat), x1) := by
  have hor : ∀ {s : ℕ}, s < 4 → (x0 <<< 2) ||| s = 4 * x0 + s := fun hs => shiftLeft_or_eq hs
  rw [Nat.or_assoc, Nat.or_assoc]
  cases hint <;> cases sign <;> exact congrArg (·, x1) (hor (by decide))

theorem twistWord_iff :
    c0 = 4 * x0 + (2 * hint.toNat + sign.toNat) ↔
      c0 >>> 2 = x0 ∧ decide (c0 &&& 2 = 2) = hint ∧ decide (c0 &&& 1 = 1) = sign := by
  have htwo : c0 &&& 2 = c0 / 2 % 2 * 2 := by
    rw [← Nat.toNat_testBit c0 1]
    exact Nat.and_two_pow c0 1
  rw [Nat.shiftRight_eq_div_pow, Nat.and_one_is_mod, htwo]
  cases hint <;> cases sign <;> simp <;> omega

theorem compressG2_eq_ok : compressG2 x0 x1 y0 y1 = .ok (c0, c1) ↔ EncodesG2 x0 x1 y0 y1 c0 c1 := by
  unfold compressG2 EncodesG2
  by_cases hreduced : (x0 < P ∧ x1 < P) ∧ y0 < P ∧ y1 < P
  · have hpoint : x0 ||| x1 ||| y0 ||| y1 = 0 ↔ (x0 = 0 ∧ x1 = 0) ∧ y0 = 0 ∧ y1 = 0 := by
      simp only [Nat.or_eq_zero_iff, and_assoc]
    rw [if_neg (by omega), and_iff_right hreduced]
    by_cases hzero : (x0 = 0 ∧ x1 = 0) ∧ y0 = 0 ∧ y1 = 0
    · rw [if_pos (hpoint.mpr hzero)]
      obtain ⟨⟨rfl, rfl⟩, rfl, rfl⟩ := hzero
      rw [Except.ok.injEq, Prod.mk.injEq]
      constructor
      · rintro ⟨rfl, rfl⟩
        exact Or.inl ⟨⟨rfl, rfl⟩, ⟨rfl, rfl⟩, rfl, rfl⟩
      · rintro (⟨-, -, rfl, rfl⟩ | ⟨hon, -⟩)
        · exact ⟨rfl, rfl⟩
        · exact absurd hon not_onTwist_zero
    · have hpick : ∀ {hint : Bool} {r0 r1 : ℕ},
          sqrtFp2 (twistSquare x0 x1).1 (twistSquare x0 x1).2 hint = .ok (r0, r1) →
          ¬((y0 = r0 ∧ y1 = r1) ∧ y0 = negate r0 ∧ y1 = negate r1) := by
        rintro hint r0 r1 hroot ⟨⟨rfl, -⟩, h, -⟩
        exact ne_negate (sqrtFp2_twist.mp hroot).2.2.1 h
      rw [if_neg fun h => hzero (hpoint.mp h), bind_eq_ok]
      constructor
      · rintro ⟨d, hd, h⟩
        obtain ⟨⟨r0, r1⟩, hroot, h⟩ := bind_eq_ok.mp h
        obtain ⟨sign, hy, hc⟩ := (pick_eq_ok (hpick hroot)).mp h
        rw [twistWord_eq] at hc
        obtain ⟨rfl, rfl⟩ := Prod.mk.inj hc
        obtain ⟨-, hon, hne, hhint, hsign⟩ := signed_twist.mp ⟨(r0, r1), hroot, eq_signed_pair.mp hy⟩
        rw [hhint]
        exact Or.inr ⟨hon, hne, rfl, sign, rfl, hsign⟩
      · rintro (⟨hx, hy, -⟩ | ⟨hon, hne, rfl, sign, rfl, hsign⟩)
        · exact absurd ⟨hx, hy⟩ hzero
        · obtain ⟨⟨r0, r1⟩, hroot, hy⟩ := signed_twist.mpr ⟨hreduced.2, hon, hne, rfl, hsign⟩
          obtain ⟨d, hd⟩ := sqrtFp_of_sqrtFp2 hroot
          have hhint := hint_eq hd
          obtain ⟨hre, him⟩ := onTwist_iff.mp hon
          rw [← hre, ← him] at hhint
          refine ⟨d, hd, ?_⟩
          rw [bind_eq_ok]
          refine ⟨(r0, r1), ?_, (pick_eq_ok (hpick hroot)).mpr ⟨sign, eq_signed_pair.mpr hy, ?_⟩⟩
          · simp only [hhint]
            exact hroot
          · rw [twistWord_eq, hhint]
            rfl
  · rw [if_pos (by omega)]
    simp [hreduced]

theorem decompressG2_eq_ok :
    decompressG2 c0 c1 = .ok (x0, x1, y0, y1) ↔ EncodesG2 x0 x1 y0 y1 c0 c1 := by
  unfold decompressG2 EncodesG2
  by_cases hzero : c0 = 0 ∧ c1 = 0
  · rw [if_pos hzero, Except.ok.injEq, Prod.mk.injEq, Prod.mk.injEq, Prod.mk.injEq]
    obtain ⟨rfl, rfl⟩ := hzero
    constructor
    · rintro ⟨rfl, rfl, rfl, rfl⟩
      exact ⟨⟨⟨prime_P.pos, prime_P.pos⟩, prime_P.pos, prime_P.pos⟩,
        Or.inl ⟨⟨rfl, rfl⟩, ⟨rfl, rfl⟩, rfl, rfl⟩⟩
    · rintro ⟨-, ⟨⟨rfl, rfl⟩, ⟨rfl, rfl⟩, -⟩ | ⟨hon, -, rfl, sign, hc, -⟩⟩
      · exact ⟨rfl, rfl, rfl, rfl⟩
      · have hx : x0 = 0 := by omega
        subst hx
        exact absurd hon not_onTwist_zero
  · have hsigned : ∀ {y : ℕ},
        (if c0 &&& 1 = 1 then negate y else y) = signed (decide (c0 &&& 1 = 1)) y := by
      intro y
      simp only [signed, decide_eq_true_eq]
    rw [if_neg hzero]
    constructor
    · intro h
      split at h
      · cases h
      · rename_i hlt
        obtain ⟨⟨r0, r1⟩, hroot, h⟩ := bind_eq_ok.mp h
        rw [hsigned, hsigned] at h
        obtain ⟨rfl, hrest⟩ := Prod.mk.inj (Except.ok.inj h)
        obtain ⟨rfl, hy⟩ := Prod.mk.inj hrest
        obtain ⟨hreduced, hon, hne, hhint, hsign⟩ := signed_twist.mp ⟨(r0, r1), hroot, hy.symm⟩
        refine ⟨⟨⟨by omega, by omega⟩, hreduced⟩, Or.inr ⟨hon, hne, rfl, _, ?_, hsign⟩⟩
        exact twistWord_iff.mpr ⟨rfl, hhint, rfl⟩
    · rintro ⟨⟨⟨h0, h1⟩, hy⟩, ⟨-, -, hc⟩ | ⟨hon, hne, rfl, sign, hc, hsign⟩⟩
      · exact absurd hc hzero
      · obtain ⟨rfl, hhint, rfl⟩ := twistWord_iff.mp hc
        obtain ⟨⟨r0, r1⟩, hroot, hpair⟩ := signed_twist.mpr ⟨hy, hon, hne, hhint, hsign⟩
        rw [if_neg (by omega), bind_eq_ok]
        refine ⟨(r0, r1), hroot, ?_⟩
        rw [hsigned, hsigned, hpair]

/-- Compressing and decompressing undo each other, and accept the points of the twist whose second
coordinate has a real part. -/
theorem compressG2_iff :
    (compressG2 x0 x1 y0 y1 = .ok (c0, c1) ↔ decompressG2 c0 c1 = .ok (x0, x1, y0, y1)) ∧
    ((∃ w, compressG2 x0 x1 y0 y1 = .ok w) ↔ ((x0 < P ∧ x1 < P) ∧ y0 < P ∧ y1 < P) ∧
      ((x0 = 0 ∧ x1 = 0) ∧ y0 = 0 ∧ y1 = 0 ∨
        OnTwist (complex x0 x1) (complex y0 y1) ∧ y0 ≠ 0)) := by
  refine ⟨compressG2_eq_ok.trans decompressG2_eq_ok.symm, ?_⟩
  constructor
  · rintro ⟨⟨w0, w1⟩, hw⟩
    obtain ⟨hreduced, ⟨hx, hy, -⟩ | ⟨hon, hne, -⟩⟩ := compressG2_eq_ok.mp hw
    · exact ⟨hreduced, Or.inl ⟨hx, hy⟩⟩
    · exact ⟨hreduced, Or.inr ⟨hon, fun h => hne (h ▸ Nat.cast_zero)⟩⟩
  · rintro ⟨hreduced, ⟨hx, hy⟩ | ⟨hon, hne⟩⟩
    · exact ⟨(0, 0), compressG2_eq_ok.mpr ⟨hreduced, Or.inl ⟨hx, hy, rfl, rfl⟩⟩⟩
    · have hcast : (y0 : Fp) ≠ 0 := fun h => hne ((eq_zero_iff_cast hreduced.2.1).mpr h)
      classical
      exact ⟨(_, _), compressG2_eq_ok.mpr ⟨hreduced, Or.inr ⟨hon, hcast, rfl,
        decide (¬IsSquare (y0 : Fp)), rfl, decide_eq_true_iff⟩⟩⟩

end TwistPoints

end Doxa.Verifier
