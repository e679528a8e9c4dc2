import Doxa.Lib.Positional
import Doxa.Lib.Primality
import Doxa.Lib.SquareRoots
import Mathlib.Tactic.NormNum.Prime
import Mathlib.Tactic.ReduceModChar

/-!
# The field of the verifier

Numbers of 256 bits stand for elements of the prime field of order `P`; what a function returns
is reduced, and a root is returned only of what is reduced. Every function is the operation of the
field: `sqrtFp` the root that is a square, `sqrtFp2` the complex root whose real part is such a
root. The precompiled contract for powers is square and multiply.
-/

namespace Doxa.Verifier

open Lib Lib.SquareRoots

inductive VerifierError
  | publicInputNotInField
  | proofInvalid
  | commitmentInvalid
  deriving DecidableEq, Repr

/-- The order of the base field. -/
def P : ℕ := 0x30644e72e131a029b85045b68181585d97816a916871ca8d3c208c16d87cfd47

/-- The order of the scalar field. -/
def R : ℕ := 0x30644e72e131a029b85045b68181585d2833e84879b9709143e1f593f0000001

def FRACTION_1_2_FP : ℕ := 0x183227397098d014dc2822db40c0ac2ecbc0b548b438e5469e10460b6c3e7ea4

def FRACTION_27_82_FP : ℕ := 0x2b149d40ceb8aaae81be18991be06ac3b5b4c5e559dbefa33267e6dc24a138e5

def FRACTION_3_82_FP : ℕ := 0x2fcd3ac2a640a154eb23960892a85a68f031ca0c8344b23a577dcf1052b9e775

/-- `P - 2`. -/
def EXP_INVERSE_FP : ℕ := 0x30644E72E131A029B85045B68181585D97816A916871CA8D3C208C16D87CFD45

/-- `(P + 1) / 4`. -/
def EXP_SQRT_FP : ℕ := 0xC19139CB84C680A6E14116DA060561765E05AA45A1C72A34F082305B61F3F52

/-! ## The functions -/

def addmod (a b n : ℕ) : ℕ := (a + b) % n

def mulmod (a b n : ℕ) : ℕ := (a * b) % n

def negate (a : ℕ) : ℕ := (P - a % P) % P

/-- `PRECOMPILE_MODEXP`, from the highest of the 256 bits of the exponent on. -/
def modexp (a e n : ℕ) : ℕ :=
  forLoop (fun i x => x * x * (if e.testBit (255 - i) then a else 1) % n) 256 1

def exp (a e : ℕ) : ℕ := modexp a e P

def invertFp (a : ℕ) : Except VerifierError ℕ :=
  let x := exp a EXP_INVERSE_FP
  if mulmod a x P ≠ 1 then .error .proofInvalid else .ok x

def sqrtFp (a : ℕ) : Except VerifierError ℕ :=
  let x := exp a EXP_SQRT_FP
  if mulmod x x P ≠ a then .error .proofInvalid else .ok x

def isSquareFp (a : ℕ) : Bool :=
  let x := exp a EXP_SQRT_FP
  mulmod x x P == a

def sqrtFp2 (a0 a1 : ℕ) (hint : Bool) : Except VerifierError (ℕ × ℕ) := do
  let d ← sqrtFp (addmod (mulmod a0 a0 P) (mulmod a1 a1 P) P)
  let d := if hint then negate d else d
  let x0 ← sqrtFp (mulmod (addmod a0 d P) FRACTION_1_2_FP P)
  let inv ← invertFp (mulmod x0 2 P)
  let x1 := mulmod a1 inv P
  if a0 ≠ addmod (mulmod x0 x0 P) (negate (mulmod x1 x1 P)) P ∨ a1 ≠ mulmod 2 (mulmod x0 x1 P) P then
    .error .proofInvalid
  else .ok (x0, x1)

/-! ## The order is prime -/

theorem prime_2480874801745591 : Nat.Prime 2480874801745591 := by
  have h₁ : Nat.Prime 3557 := by norm_num
  have h₂ : Nat.Prime 911 := by norm_num
  have hmiddle : Nat.Prime 1263766531 := by
    refine pocklington (F := 3557 * 911) (by norm_num) (by norm_num) (by norm_num)
      fun q hq hdvd => ?_
    rcases (Nat.Prime.dvd_mul hq).mp hdvd with hdvd | hdvd
    · obtain rfl := (Nat.prime_dvd_prime_iff_eq hq h₁).mp hdvd
      refine ⟨2, 1084735757, ?_, ?_⟩
      · norm_num
        reduce_mod_char
      · norm_num
        reduce_mod_char
    · obtain rfl := (Nat.prime_dvd_prime_iff_eq hq h₂).mp hdvd
      refine ⟨2, 979652892, ?_, ?_⟩
      · norm_num
        reduce_mod_char
      · norm_num
        reduce_mod_char
  have hlarge : Nat.Prime 35385462869 := by
    refine pocklington (F := 1263766531) (by norm_num) (by norm_num) (by norm_num)
      fun q hq hdvd => ?_
    obtain rfl := (Nat.prime_dvd_prime_iff_eq hq hmiddle).mp hdvd
    refine ⟨2, 30792025501, ?_, ?_⟩
    · norm_num
      reduce_mod_char
    · norm_num
      reduce_mod_char
  refine pocklington (F := 35385462869) (by norm_num) (by norm_num) (by norm_num) fun q hq hdvd => ?_
  obtain rfl := (Nat.prime_dvd_prime_iff_eq hq hlarge).mp hdvd
  refine ⟨2, 60395260069513, ?_, ?_⟩
  · norm_num
    reduce_mod_char
  · norm_num
    reduce_mod_char

/-- The largest prime factor of `P - 1`. -/
theorem prime_factor_P : Nat.Prime 13427688667394608761327070753331941386769 := by
  have hsmall : Nat.Prime 173171039 := by norm_num
  refine pocklington (F := 2480874801745591 * 173171039) (by norm_num) (by norm_num) (by norm_num)
    fun q hq hdvd => ?_
  rcases (Nat.Prime.dvd_mul hq).mp hdvd with hdvd | hdvd
  · obtain rfl := (Nat.prime_dvd_prime_iff_eq hq prime_2480874801745591).mp hdvd
    refine ⟨2, 6785926852418085198570490017495330175623, ?_, ?_⟩
    · norm_num
      reduce_mod_char
    · norm_num
      reduce_mod_char
  · obtain rfl := (Nat.prime_dvd_prime_iff_eq hq hsmall).mp hdvd
    refine ⟨2, 8400704698881656509131354358865537047819, ?_, ?_⟩
    · norm_num
      reduce_mod_char
    · norm_num
      reduce_mod_char

theorem prime_P : Nat.Prime P := by
  unfold P
  refine pocklington (F := 13427688667394608761327070753331941386769) (by norm_num) (by norm_num)
    (by norm_num) fun q hq hdvd => ?_
  obtain rfl := (Nat.prime_dvd_prime_iff_eq hq prime_factor_P).mp hdvd
  refine ⟨2, 7760040696430108728351579495285625070970037227808537281002514205477518194167, ?_, ?_⟩
  · norm_num
    reduce_mod_char
  · norm_num
    reduce_mod_char

instance instFactPrimeP : Fact P.Prime := ⟨prime_P⟩

/-- The base field. -/
abbrev Fp := ZMod P

theorem P_mod_four : P % 4 = 3 := by
  norm_num [P]

/-! ## The functions are the operations -/

theorem shiftRight_pred {e k : ℕ} (hk : k < 256) :
    e >>> (255 - k) = (e >>> (256 - k)) * 2 + (e.testBit (255 - k)).toNat := by
  have hsplit : 256 - k = (255 - k) + 1 := by omega
  rw [hsplit, Nat.shiftRight_succ, Nat.testBit, Nat.one_and_eq_mod_two]
  have hdiv := Nat.div_add_mod (e >>> (255 - k)) 2
  rcases Nat.mod_two_eq_zero_or_one (e >>> (255 - k)) with h | h
  · simp [h]
    omega
  · simp [h]
    omega

theorem modexp_eq {a e n : ℕ} (he : e < 2 ^ 256) (hn : 1 < n) : modexp a e n = a ^ e % n := by
  -- after `k` bits the power is that of the top `k` bits of the exponent
  have hrun : ∀ k ≤ 256,
      forLoop (fun i x => x * x * (if e.testBit (255 - i) then a else 1) % n) k 1 =
        a ^ (e >>> (256 - k)) % n := by
    intro k
    induction k with
    | zero =>
      intro _
      have hzero : e >>> 256 = 0 := by rw [Nat.shiftRight_eq_div_pow, Nat.div_eq_of_lt he]
      rw [forLoop_zero, hzero, pow_zero, Nat.mod_eq_of_lt hn]
    | succ k ih =>
      intro hk
      have hindex : 256 - (k + 1) = 255 - k := by omega
      have hbit : (if e.testBit (255 - k) then a else 1) = a ^ (e.testBit (255 - k)).toNat := by
        cases e.testBit (255 - k) <;> simp
      rw [forLoop_succ, ih (by omega), hindex, shiftRight_pred (by omega), pow_add, pow_mul, pow_two, hbit]
      exact ((Nat.mod_modEq _ n).mul (Nat.mod_modEq _ n)).mul_right _
  exact hrun 256 le_rfl

section Reduced

variable {a b e x y : ℕ}

theorem modulo_lt : a % P < P := Nat.mod_lt a prime_P.pos

@[simp] theorem addmod_lt : addmod a b P < P := modulo_lt

@[simp] theorem mulmod_lt : mulmod a b P < P := modulo_lt

@[simp] theorem negate_lt : negate a < P := modulo_lt

theorem exp_eq (he : e < 2 ^ 256) : exp a e = a ^ e % P := modexp_eq he prime_P.one_lt

theorem exp_lt (he : e < 2 ^ 256) : exp a e < P := by
  rw [exp_eq he]
  exact modulo_lt

@[simp] theorem addmod_cast : ((addmod a b P : ℕ) : Fp) = a + b := by
  rw [addmod, ZMod.natCast_mod, Nat.cast_add]

@[simp] theorem mulmod_cast : ((mulmod a b P : ℕ) : Fp) = a * b := by
  rw [mulmod, ZMod.natCast_mod, Nat.cast_mul]

@[simp] theorem negate_cast : ((negate a : ℕ) : Fp) = -a := by
  have hle : a % P ≤ P := Nat.le_of_lt modulo_lt
  rw [negate, ZMod.natCast_mod, Nat.cast_sub hle, ZMod.natCast_mod, ZMod.natCast_self, zero_sub]

theorem exp_cast (he : e < 2 ^ 256) : ((exp a e : ℕ) : Fp) = (a : Fp) ^ e := by
  rw [exp_eq he, ZMod.natCast_mod, Nat.cast_pow]

/-- Reduced numbers are elements. -/
theorem eq_iff_cast (hx : x < P) (hy : y < P) : x = y ↔ (x : Fp) = y := by
  rw [ZMod.natCast_eq_natCast_iff', Nat.mod_eq_of_lt hx, Nat.mod_eq_of_lt hy]

theorem eq_zero_iff_cast (hx : x < P) : x = 0 ↔ (x : Fp) = 0 := by
  rw [eq_iff_cast hx prime_P.pos, Nat.cast_zero]

theorem eq_iff_of_lt (hy : y < P) : y = x ↔ x < P ∧ (y : Fp) = x := by
  constructor
  · rintro rfl
    exact ⟨hy, rfl⟩
  · rintro ⟨hx, h⟩
    exact (eq_iff_cast hy hx).mpr h

theorem root_cast : ((exp a EXP_SQRT_FP : ℕ) : Fp) = root (a : Fp) := by
  have hexp : EXP_SQRT_FP = (P + 1) / 4 := by norm_num [P, EXP_SQRT_FP]
  rw [exp_cast (by norm_num [EXP_SQRT_FP]), hexp, root]

theorem sqrtFp_eq_ok : sqrtFp a = .ok x ↔ a < P ∧ x < P ∧ sqrt (a : Fp) = some (x : Fp) := by
  have hlt : exp a EXP_SQRT_FP < P := exp_lt (by norm_num [EXP_SQRT_FP])
  have hsquare : mulmod (exp a EXP_SQRT_FP) (exp a EXP_SQRT_FP) P = a ↔
      a < P ∧ root (a : Fp) * root (a : Fp) = a := by
    rw [eq_iff_of_lt mulmod_lt, mulmod_cast, root_cast]
  unfold sqrtFp sqrt
  constructor
  · intro h
    simp only at h
    split at h
    · cases h
    · rename_i hroot
      obtain rfl := Except.ok.inj h
      obtain ⟨ha, hroot⟩ := hsquare.mp (not_not.mp hroot)
      rw [if_pos hroot, root_cast]
      exact ⟨ha, hlt, rfl⟩
  · rintro ⟨ha, hx, h⟩
    split at h
    · rename_i hroot
      have hexp : exp a EXP_SQRT_FP = x := by
        rw [eq_iff_cast hlt hx, root_cast]
        exact Option.some.inj h
      simp only [hexp] at hsquare ⊢
      rw [if_neg (not_not.mpr (hsquare.mpr ⟨ha, hroot⟩))]
    · cases h

theorem isSquareFp_eq : isSquareFp a = decide (a < P ∧ root (a : Fp) * root (a : Fp) = a) := by
  unfold isSquareFp
  simp only
  rw [Bool.eq_iff_iff, beq_iff_eq, eq_iff_of_lt mulmod_lt, mulmod_cast, root_cast, decide_eq_true_eq]

theorem invertFp_eq_ok : invertFp a = .ok x ↔ x < P ∧ (a : Fp) ≠ 0 ∧ (x : Fp) = (a : Fp)⁻¹ := by
  have hexp : EXP_INVERSE_FP + 1 = P - 1 := by norm_num [P, EXP_INVERSE_FP]
  have hlt : exp a EXP_INVERSE_FP < P := exp_lt (by norm_num [EXP_INVERSE_FP])
  have hcast : ((exp a EXP_INVERSE_FP : ℕ) : Fp) = (a : Fp) ^ EXP_INVERSE_FP :=
    exp_cast (by norm_num [EXP_INVERSE_FP])
  have hone : mulmod a (exp a EXP_INVERSE_FP) P = 1 ↔ (a : Fp) ≠ 0 := by
    rw [eq_iff_cast mulmod_lt prime_P.one_lt, mulmod_cast, hcast, Nat.cast_one, ← pow_succ', hexp]
    constructor
    · intro h hzero
      rw [hzero, zero_pow (Nat.sub_ne_zero_of_lt prime_P.one_lt)] at h
      exact zero_ne_one h
    · exact ZMod.pow_card_sub_one_eq_one
  have hinv : (a : Fp) ≠ 0 → (a : Fp) ^ EXP_INVERSE_FP = (a : Fp)⁻¹ := by
    intro ha
    apply eq_inv_of_mul_eq_one_left
    rw [← pow_succ, hexp, ZMod.pow_card_sub_one_eq_one ha]
  unfold invertFp
  simp only
  constructor
  · intro h
    split at h
    · cases h
    · rename_i hne
      obtain rfl := Except.ok.inj h
      have ha := hone.mp (not_not.mp hne)
      exact ⟨hlt, ha, hcast.trans (hinv ha)⟩
  · rintro ⟨hx, ha, hval⟩
    rw [if_neg (not_not.mpr (hone.mpr ha))]
    congr 1
    rw [eq_iff_cast hlt hx, hcast, hval, hinv ha]

theorem half_cast : ((FRACTION_1_2_FP : ℕ) : Fp) = 1 / 2 := by
  have htwo := two_ne_zero_of_mod P_mod_four
  have hdouble : FRACTION_1_2_FP * 2 = P + 1 := by norm_num [P, FRACTION_1_2_FP]
  rw [eq_div_iff htwo]
  calc ((FRACTION_1_2_FP : ℕ) : Fp) * 2 = ((FRACTION_1_2_FP * 2 : ℕ) : Fp) := by push_cast; rfl
    _ = 1 := by rw [hdouble, Nat.cast_add, ZMod.natCast_self, Nat.cast_one, zero_add]

section ComplexRoots

variable {a b a0 a1 x0 x1 : ℕ} {hint : Bool}

/-- A candidate for the square of the real part, as the verifier computes it. -/
theorem candidate_cast {d : ℕ} (hd : root ((a0 : Fp) * (a0 : Fp) + (a1 : Fp) * (a1 : Fp)) = (d : Fp)) :
    ((mulmod (addmod a0 (if hint then negate d else d) P) FRACTION_1_2_FP P : ℕ) : Fp) =
      candidate hint (a0 : Fp) a1 := by
  have hneg : (((if hint then negate d else d) : ℕ) : Fp) = if hint then -(d : Fp) else d := by
    cases hint with
    | false => rfl
    | true => simp
  rw [mulmod_cast, addmod_cast, hneg, half_cast, candidate, hd, mul_one_div]


theorem sqrtFp2_eq_ok : sqrtFp2 a0 a1 hint = .ok (x0, x1) ↔
    (a0 < P ∧ a1 < P) ∧ (x0 < P ∧ x1 < P) ∧
      complexSqrt hint (a0 : Fp) (a1 : Fp) = some ((x0 : Fp), (x1 : Fp)) := by
  have hcheck : ∀ {y0 y1 : ℕ}, ¬(a0 ≠ addmod (mulmod y0 y0 P) (negate (mulmod y1 y1 P)) P ∨
      a1 ≠ mulmod 2 (mulmod y0 y1 P) P) ↔ (a0 < P ∧ a1 < P) ∧
        (a0 : Fp) = (y0 : Fp) * (y0 : Fp) - (y1 : Fp) * (y1 : Fp) ∧
        (a1 : Fp) = 2 * ((y0 : Fp) * (y1 : Fp)) := by
    intro y0 y1
    rw [not_or, not_not, not_not, eq_comm (a := a0), eq_comm (a := a1), eq_iff_of_lt addmod_lt,
      eq_iff_of_lt mulmod_lt]
    simp only [addmod_cast, mulmod_cast, negate_cast, Nat.cast_ofNat, ← sub_eq_add_neg]
    tauto
  have himag : ∀ {y0 inv : ℕ}, (inv : Fp) = ((mulmod y0 2 P : ℕ) : Fp)⁻¹ →
      ((mulmod a1 inv P : ℕ) : Fp) = (a1 : Fp) / (2 * (y0 : Fp)) := by
    intro y0 inv h
    rw [mulmod_cast, h, mulmod_cast, Nat.cast_ofNat, mul_comm (y0 : Fp), div_eq_mul_inv]
  have hnorm : ((addmod (mulmod a0 a0 P) (mulmod a1 a1 P) P : ℕ) : Fp) =
      (a0 : Fp) * (a0 : Fp) + (a1 : Fp) * (a1 : Fp) := by
    rw [addmod_cast, mulmod_cast, mulmod_cast]
  have hdouble : ∀ {y0 : ℕ}, ((mulmod y0 2 P : ℕ) : Fp) ≠ 0 ↔ (y0 : Fp) ≠ 0 := by
    intro y0
    rw [mulmod_cast, Nat.cast_ofNat, ne_eq, mul_eq_zero, or_iff_left (two_ne_zero_of_mod P_mod_four)]
  rw [complexSqrt_steps]
  unfold sqrtFp2
  constructor
  · intro h
    obtain ⟨d, hd, h⟩ := bind_eq_ok.mp h
    obtain ⟨y0, hy0, h⟩ := bind_eq_ok.mp h
    obtain ⟨inv, hinv, h⟩ := bind_eq_ok.mp h
    simp only at h
    split at h
    · cases h
    · rename_i hroot
      obtain ⟨rfl, rfl⟩ := Prod.mk.inj (Except.ok.inj h)
      obtain ⟨-, -, hd⟩ := sqrtFp_eq_ok.mp hd
      obtain ⟨-, hx0, hy0⟩ := sqrtFp_eq_ok.mp hy0
      obtain ⟨-, hne, hinv⟩ := invertFp_eq_ok.mp hinv
      obtain ⟨hreduced, hreal, himaginary⟩ := hcheck.mp hroot
      rw [hnorm, sqrt_steps] at hd
      rw [candidate_cast hd.2] at hy0
      exact ⟨hreduced, ⟨hx0, mulmod_lt⟩, hd.1, hy0, hdouble.mp hne, himag hinv, hreal, himaginary⟩
  · rintro ⟨hreduced, ⟨hx0, hx1⟩, hroot, hy0, hne, hval, hreal, himaginary⟩
    have hd : sqrtFp (addmod (mulmod a0 a0 P) (mulmod a1 a1 P) P) =
        .ok (root ((a0 : Fp) * (a0 : Fp) + (a1 : Fp) * (a1 : Fp))).val := by
      rw [sqrtFp_eq_ok, hnorm, ZMod.natCast_zmod_val, sqrt_steps]
      exact ⟨addmod_lt, ZMod.val_lt _, hroot, rfl⟩
    have hinv : invertFp (mulmod x0 2 P) = .ok (((mulmod x0 2 P : ℕ) : Fp)⁻¹).val := by
      rw [invertFp_eq_ok, ZMod.natCast_zmod_val]
      exact ⟨ZMod.val_lt _, hdouble.mpr hne, rfl⟩
    rw [bind_eq_ok]
    refine ⟨_, hd, ?_⟩
    rw [bind_eq_ok]
    refine ⟨x0, ?_, ?_⟩
    · rw [sqrtFp_eq_ok, candidate_cast (ZMod.natCast_zmod_val _).symm]
      exact ⟨mulmod_lt, hx0, hy0⟩
    · rw [bind_eq_ok]
      refine ⟨_, hinv, ?_⟩
      have hx1' : mulmod a1 (((mulmod x0 2 P : ℕ) : Fp)⁻¹).val P = x1 := by
        rw [eq_iff_cast mulmod_lt hx1, himag (ZMod.natCast_zmod_val _), hval]
      simp only [hx1']
      rw [if_neg (hcheck.mpr ⟨hreduced, hreal, himaginary⟩)]

end ComplexRoots

end Reduced

end Doxa.Verifier
