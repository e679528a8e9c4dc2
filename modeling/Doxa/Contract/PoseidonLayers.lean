import Doxa.Contract.PoseidonGoldilocks
import Doxa.Hash.Permutation

/-!
# The full rounds of `compress`

Each part of a full round stays in range on the inputs it can get, and computes on residues
what the plain round computes: the S-box the seventh power, the packed layer the product
with the mixing matrix, and round 0 a full round on a state whose last four lanes are zero.
-/

namespace Doxa.PoseidonGoldilocks

open Lib Flagged Contract
open scoped Matrix

/-! ## Residues of words -/

/-- The lanes as field elements. -/
def residues (s : Lanes) : State := fun i => ((s.get i).toNat : F)

def Canonical (s : Lanes) : Prop := ∀ i : Fin 12, (s.get i).toNat < ORDER

theorem word_toNat {n : ℕ} (h : n < 2 ^ 256) : (word n).toNat = n := by
  rw [word, BitVec.toNat_ofNat, Nat.mod_eq_of_lt h]

theorem mulmod_toNat (x y : U256) : (mulmod x y P).toNat = x.toNat * y.toNat % ORDER := by
  have hlt : x.toNat * y.toNat % ORDER < 2 ^ 256 :=
    (Nat.mod_lt _ (by decide)).trans (by decide)
  have hP : P.toNat = ORDER := rfl
  rw [mulmod, if_neg (by decide), hP, word_toNat hlt]

theorem mulmod_lt (x y : U256) : (mulmod x y P).toNat < ORDER := by
  rw [mulmod_toNat]
  exact Nat.mod_lt _ (by decide)

theorem cast_mod_order (n : ℕ) : ((n % ORDER : ℕ) : F) = n := ZMod.natCast_mod n ORDER

theorem mulmod_cast (x y : U256) : ((mulmod x y P).toNat : F) = x.toNat * y.toNat := by
  rw [mulmod_toNat, cast_mod_order, Nat.cast_mul]

theorem reduce_toNat (x : U256) : (mulmod x 1 P).toNat = x.toNat % ORDER := by
  have hone : (1 : U256).toNat = 1 := rfl
  rw [mulmod_toNat, hone, Nat.mul_one]

/-! ## The S-box -/

theorem ensures_sbox7 {x : U256} (hx : x.toNat < 2 * ORDER) :
    (sbox7 x).Ensures fun r => r.toNat < ORDER ∧ (r.toNat : F) = (x.toNat : F) ^ 7 := by
  have hx65 : x.toNat ≤ 2 ^ 65 := by
    have : 2 * ORDER ≤ 2 ^ 65 := by decide
    omega
  have hsq : x.toNat * x.toNat ≤ 2 ^ 65 * 2 ^ 65 := Nat.mul_le_mul hx65 hx65
  refine ensures_require hx ?_
  refine (ensures_mul (by omega)).bind fun x2 h2 => ?_
  have hcube : x2.toNat * x.toNat ≤ 2 ^ 65 * 2 ^ 65 * 2 ^ 65 := h2 ▸ Nat.mul_le_mul hsq hx65
  refine (ensures_mul (by omega)).bind fun x3 h3 => ensures_pure ⟨mulmod_lt _ _, ?_⟩
  rw [mulmod_cast, mulmod_cast, h3, h2]
  push_cast
  ring

/-- A constant and the S-box. -/
theorem ensures_addSbox {x : U256} {c : ℕ} (hc : c < 2 ^ 256) (h : x.toNat + c < 2 * ORDER) :
    (add x (word c) >>= sbox7).Ensures fun r =>
      r.toNat < ORDER ∧ (r.toNat : F) = ((x.toNat : F) + c) ^ 7 := by
  have hfit : 2 * ORDER < 2 ^ 256 := by decide
  have hsum : x.toNat + (word c).toNat < 2 ^ 256 := by
    rw [word_toNat hc]
    omega
  refine (ensures_add hsum).bind fun y hy => ?_
  rw [word_toNat hc] at hy
  refine (ensures_sbox7 (by omega)).mono fun r hr => ⟨hr.1, ?_⟩
  rw [hr.2, hy, Nat.cast_add]

/-! ## The packed matrix -/

theorem unpackRow_toNat (acc : U256) (r : Fin 3) :
    (unpackRow acc r).toNat = lane 86 r acc.toNat % ORDER := by
  have hacc := acc.isLt
  have hmask : mask86.toNat = 2 ^ 86 - 1 := rfl
  fin_cases r
  · show (mulmod (acc &&& mask86) 1 P).toNat = _
    rw [reduce_toNat, BitVec.toNat_and, hmask, Nat.and_two_pow_sub_one_eq_mod]
    simp [lane]
  · show (mulmod ((acc >>> 86) &&& mask86) 1 P).toNat = _
    rw [reduce_toNat, BitVec.toNat_and, hmask, Nat.and_two_pow_sub_one_eq_mod,
      BitVec.toNat_ushiftRight, Nat.shiftRight_eq_div_pow]
    rfl
  · show (mulmod (acc >>> 172) 1 P).toNat = _
    have htop : acc.toNat / 2 ^ 172 < 2 ^ 86 := by omega
    rw [reduce_toNat, BitVec.toNat_ushiftRight, Nat.shiftRight_eq_div_pow]
    show _ = acc.toNat / 2 ^ 172 % 2 ^ 86 % ORDER
    rw [Nat.mod_eq_of_lt htop]

/-- Row `3 g + r` is read from lane `r` of accumulator `g`. -/
theorem unpackRows_toNat (rows : ℕ → ℕ) {accs : Vector U256 4}
    (h : ∀ g : Fin 4, ∀ r < 3, lane 86 r (accs.get g).toNat = rows (3 * g + r)) (i : Fin 12) :
    ((unpackRows accs).get i).toNat = rows i % ORDER := by
  have hget : (unpackRows accs).get i =
      unpackRow (accs.get ⟨i.val / 3, by omega⟩) ⟨i.val % 3, Nat.mod_lt _ (by decide)⟩ := by
    rw [unpackRows, get_ofFn]
    rfl
  have hrow := h ⟨i.val / 3, by omega⟩ (i.val % 3) (Nat.mod_lt _ (by decide))
  rw [hget, unpackRow_toNat]
  exact congrArg (· % ORDER) (hrow.trans (by rw [Nat.div_add_mod]))

/-- A packed coefficient holds three rows of one column. -/
theorem packedCoefficients_check : ∀ g < 4, ∀ j < 12,
    (packedCoefficients.getD g []).getD j 0 < 2 ^ 180 ∧ ∀ r < 3,
      lane 86 r ((packedCoefficients.getD g []).getD j 0) = mdsCoeff (3 * g + r) j := by
  decide +kernel

theorem packedCoefficients_lane (g : ℕ) (hg : g < 4) (r : ℕ) (hr : r < 3) (j : ℕ) (hj : j < 12) :
    lane 86 r ((packedCoefficients.getD g []).getD j 0) = mdsCoeff (3 * g + r) j :=
  (packedCoefficients_check g hg j hj).2 r hr

theorem packedCoefficients_lt (g : ℕ) (hg : g < 4) (j : ℕ) (hj : j < 12) :
    (packedCoefficients.getD g []).getD j 0 < 2 ^ 180 :=
  (packedCoefficients_check g hg j hj).1

theorem mdsCoeff_le : ∀ i < 12, ∀ j < 12, mdsCoeff i j ≤ 41 := by decide

theorem packedCoefficient_toNat {g j : ℕ} (hg : g < 4) (hj : j < 12) :
    (packedCoefficient g j).toNat = (packedCoefficients.getD g []).getD j 0 :=
  word_toNat ((packedCoefficients_lt g hg j hj).trans (by decide))

section Row

variable {k : ℕ} {t : Fin k → U256} {g : ℕ}

theorem products_packed (hk : k ≤ 12) (ht : ∀ j, (t j).toNat < ORDER) (hg : g < 4) :
    products (List.ofFn fun j : Fin k => (packedCoefficient g j, t j)) ≤ k * 2 ^ 244 := by
  rw [products, List.map_ofFn, List.sum_ofFn]
  calc ∑ j : Fin k, (packedCoefficient g j).toNat * (t j).toNat ≤ ∑ _j : Fin k, 2 ^ 244 := by
        refine Finset.sum_le_sum fun j _ => ?_
        have hj : j.val < 12 := j.isLt.trans_le hk
        have hcoeff := packedCoefficients_lt g hg j hj
        rw [← packedCoefficient_toNat hg hj] at hcoeff
        have hlane : (t j).toNat ≤ 2 ^ 64 := (ht j).le.trans (by decide)
        calc (packedCoefficient g j).toNat * (t j).toNat ≤ 2 ^ 180 * 2 ^ 64 :=
              Nat.mul_le_mul hcoeff.le hlane
          _ = 2 ^ 244 := by norm_num
    _ = k * 2 ^ 244 := by rw [Finset.sum_const, Finset.card_univ, Fintype.card_fin, smul_eq_mul]

theorem laneProducts_packed (hk : k ≤ 12) (hg : g < 4) {r : ℕ} (hr : r < 3) :
    laneProducts 86 r (List.ofFn fun j : Fin k => (packedCoefficient g j, t j)) =
      ∑ j : Fin k, mdsCoeff (3 * g + r) j * (t j).toNat := by
  rw [laneProducts, List.map_ofFn, List.sum_ofFn]
  refine Finset.sum_congr rfl fun j _ => ?_
  have hj : j.val < 12 := j.isLt.trans_le hk
  show lane 86 r (packedCoefficient g j).toNat * (t j).toNat = _
  rw [packedCoefficient_toNat hg hj, packedCoefficients_lane g hg r hr j hj]

theorem sum_mdsCoeff_le (hk : k ≤ 12) (ht : ∀ j, (t j).toNat < ORDER) {i : ℕ} (hi : i < 12) :
    ∑ j : Fin k, mdsCoeff i j * (t j).toNat ≤ k * 2 ^ 70 := by
  calc ∑ j : Fin k, mdsCoeff i j * (t j).toNat ≤ ∑ _j : Fin k, 2 ^ 70 := by
        refine Finset.sum_le_sum fun j _ => ?_
        have hlane : (t j).toNat ≤ 2 ^ 64 := (ht j).le.trans (by decide)
        calc mdsCoeff i j * (t j).toNat ≤ 41 * 2 ^ 64 :=
              Nat.mul_le_mul (mdsCoeff_le i hi j (j.isLt.trans_le hk)) hlane
          _ ≤ 2 ^ 70 := by norm_num
    _ = k * 2 ^ 70 := by rw [Finset.sum_const, Finset.card_univ, Fintype.card_fin, smul_eq_mul]

end Row

/-- The packed layer is the product with the mixing matrix. -/
theorem ensures_mds {s : Lanes} (hs : Canonical s) :
    (mds s).Ensures fun t => Canonical t ∧ residues t = mdsMatrix *ᵥ residues s := by
  have hmax : ∀ i : Fin 12, (s.get i).toNat ≤ maxElement := fun i => (hs i).le.trans (by decide)
  refine ensures_require hmax ?_
  refine (ensures_ofFn (Q := fun g acc => ∀ r < 3, lane 86 r acc.toNat =
    ∑ j : Fin 12, mdsCoeff (3 * g.val + r) j * (s.get j).toNat) fun g => ?_).bind fun accs haccs => ?_
  · have hproducts := products_packed (t := fun j : Fin 12 => s.get j) le_rfl hs g.isLt
    refine (ensures_dotLanes (lt_of_le_of_lt hproducts (by norm_num)) fun r hr => ?_).mono
      fun acc hacc r hr => ?_
    · rw [laneProducts_packed le_rfl g.isLt hr]
      exact lt_of_le_of_lt (sum_mdsCoeff_le le_rfl hs (by omega)) (by norm_num)
    · rw [hacc r hr, laneProducts_packed le_rfl g.isLt hr]
  refine ensures_pure ?_
  have hrows := unpackRows_toNat (fun i => ∑ j : Fin 12, mdsCoeff i j * (s.get j).toNat) haccs
  refine ⟨fun i => ?_, funext fun i => ?_⟩
  · rw [hrows]
    exact Nat.mod_lt _ (by decide)
  · show (((unpackRows accs).get i).toNat : F) = ∑ j, mdsMatrix i j * residues s j
    rw [hrows, cast_mod_order, Nat.cast_sum]
    exact Finset.sum_congr rfl fun j _ => Nat.cast_mul _ _

/-! ## Full rounds -/

theorem roundConstant_lt (k : ℕ) : ROUND_CONSTANTS.getD k 0 < ORDER := by
  have hall : ∀ c ∈ ROUND_CONSTANTS, c < ORDER := by decide +kernel
  by_cases hk : k < ROUND_CONSTANTS.length
  · rw [List.getD_eq_getElem _ _ hk]
    exact hall _ (List.getElem_mem hk)
  · rw [List.getD_eq_default _ _ (by omega)]
    decide

/-- The constants of round `r`. -/
def IsRow (rcs : List ℕ) (r : ℕ) : Prop :=
  ∀ i < 12, rcs.getD i 0 = ROUND_CONSTANTS.getD (12 * r + i) 0

theorem ensures_fullRound {rcs : List ℕ} {r : ℕ} (hrcs : IsRow rcs r) {s : Lanes}
    (hs : Canonical s) : (fullRound rcs s).Ensures fun t =>
      Canonical t ∧ residues t = Doxa.fullRound r (residues s) := by
  refine (ensures_ofFn (Q := fun i x => x.toNat < ORDER ∧
    (x.toNat : F) = (residues s i + roundConstants r i) ^ 7) fun i => ?_).bind fun t ht => ?_
  · have hc := roundConstant_lt (12 * r + i)
    rw [← hrcs i i.isLt] at hc
    have hfit : rcs.getD i 0 < 2 ^ 256 := hc.trans (by decide)
    have hlane := hs i
    refine (ensures_addSbox hfit (by omega)).mono fun x hx => ⟨hx.1, hx.2.trans ?_⟩
    rw [hrcs i i.isLt]
    rfl
  · refine (ensures_mds fun i => (ht i).1).mono fun u hu => ⟨hu.1, hu.2.trans ?_⟩
    have hres : residues t = fun i => (residues s i + roundConstants r i) ^ 7 :=
      funext fun i => (ht i).2
    rw [hres, Doxa.fullRound]

/-- A run of full rounds from round `r` on. -/
theorem ensures_fullRounds {rows : List (List ℕ)} {r : ℕ}
    (hrows : ∀ k < rows.length, IsRow (rows.getD k []) (r + k)) {s : Lanes} (hs : Canonical s) :
    (rows.foldlM (fun s rcs => fullRound rcs s) s).Ensures fun t => Canonical t ∧ residues t =
      (List.range' r rows.length).foldl (fun s r => Doxa.fullRound r s) (residues s) := by
  induction rows generalizing r s with
  | nil => exact ensures_pure ⟨hs, rfl⟩
  | cons rcs rows ih =>
    rw [List.foldlM_cons]
    refine (ensures_fullRound (hrows 0 (Nat.zero_lt_succ _)) hs).bind fun t ht => ?_
    refine (ih (r := r + 1) (fun k hk => ?_) ht.1).mono fun u hu => ⟨hu.1, hu.2.trans ?_⟩
    · have hrow := hrows (k + 1) (Nat.succ_lt_succ hk)
      rw [List.getD_cons_succ] at hrow
      rwa [Nat.add_assoc, Nat.add_comm 1 k]
    · rw [ht.2, List.length_cons, List.range'_succ, List.foldl_cons, Nat.add_zero]

/-! ## Round 0 -/

/-- The S-box output of a capacity lane of round 0. -/
def capacityConstant (j : ℕ) : ℕ := ROUND_CONSTANTS.getD j 0 ^ 7 % ORDER

/-- The constant part of an accumulator is what the capacity lanes contribute. -/
theorem round0Accumulators_check : ∀ g < 4, round0Accumulators.getD g 0 < 2 ^ 250 ∧ ∀ r < 3,
    lane 86 r (round0Accumulators.getD g 0) ≤ 2 ^ 72 ∧
      lane 86 r (round0Accumulators.getD g 0) =
        ∑ j : Fin 4, mdsCoeff (3 * g + r) (8 + j) * capacityConstant (8 + j) := by
  decide +kernel

theorem round0Accumulators_lane (g : ℕ) (hg : g < 4) (r : ℕ) (hr : r < 3) :
    lane 86 r (round0Accumulators.getD g 0) =
      ∑ j : Fin 4, mdsCoeff (3 * g + r) (8 + j) * capacityConstant (8 + j) :=
  ((round0Accumulators_check g hg).2 r hr).2

theorem round0Accumulators_lt (g : ℕ) (hg : g < 4) : round0Accumulators.getD g 0 < 2 ^ 250 :=
  (round0Accumulators_check g hg).1

theorem round0Constants_eq : ∀ i < 8, round0Constants.getD i 0 = ROUND_CONSTANTS.getD i 0 := by
  decide

theorem round0Constants_room : ∀ i < 8, 2 ^ 64 + round0Constants.getD i 0 < 2 * ORDER := by
  decide

theorem capacity_le (g r : ℕ) (hg : g < 4) (hr : r < 3) :
    lane 86 r (round0Accumulators.getD g 0) ≤ 2 ^ 72 :=
  ((round0Accumulators_check g hg).2 r hr).1

/-- The first eight lanes have 64 bits, the others are zero. -/
def Absorbed (s : Lanes) : Prop :=
  ∀ i : Fin 12, if i.val < 8 then (s.get i).toNat < 2 ^ 64 else (s.get i).toNat = 0

theorem ensures_round0 {s : Lanes} (hs : Absorbed s) : (round0 s).Ensures fun t =>
    Canonical t ∧ residues t = Doxa.fullRound 0 (residues s) := by
  refine (ensures_ofFn (Q := fun i x => x.toNat < ORDER ∧
    (x.toNat : F) = (residues s (i.castLE (by decide)) +
      roundConstants 0 (i.castLE (by decide))) ^ 7) fun i => ?_).bind fun t ht => ?_
  · have hlane : s[i.val].toNat < 2 ^ 64 := by
      have := hs (i.castLE (by decide))
      rwa [if_pos (show (i.castLE (by decide : 8 ≤ 12)).val < 8 from i.isLt)] at this
    have hroom := round0Constants_room i i.isLt
    have hfit : round0Constants.getD i 0 < 2 ^ 256 := by
      have : 2 * ORDER < 2 ^ 256 := by decide
      omega
    refine (ensures_addSbox hfit (by omega)).mono fun x hx => ⟨hx.1, hx.2.trans ?_⟩
    have hres : residues s (i.castLE (by decide)) = (s[i.val].toNat : F) := rfl
    rw [round0Constants_eq i i.isLt, hres]
    simp [roundConstants]
  have hmax : ∀ i : Fin 8, (t.get i).toNat ≤ maxElement := fun i => (ht i).1.le.trans (by decide)
  refine ensures_require hmax ?_
  refine (ensures_ofFn (Q := fun g acc => ∀ r < 3, lane 86 r acc.toNat =
    ∑ j : Fin 4, mdsCoeff (3 * g.val + r) (8 + j) * capacityConstant (8 + j) +
      ∑ j : Fin 8, mdsCoeff (3 * g.val + r) j * (t.get j).toNat) fun g => ?_).bind fun accs haccs => ?_
  · have hcanonical : ∀ j : Fin 8, (t.get j).toNat < ORDER := fun j => (ht j).1
    have hproducts := products_packed (t := fun j : Fin 8 => t.get j) (by decide) hcanonical g.isLt
    have hconst := round0Accumulators_lt g g.isLt
    have hword := word_toNat (hconst.trans (by decide : 2 ^ 250 < 2 ^ 256))
    refine (ensures_mulAddLanes ?_ fun r hr => ?_).mono fun acc hacc r hr => ?_
    · rw [hword]
      omega
    · rw [hword, laneProducts_packed (by decide) g.isLt hr]
      have hsum := sum_mdsCoeff_le (t := fun j : Fin 8 => t.get j) (by decide) hcanonical
        (show 3 * g.val + r < 12 by omega)
      have hcap := capacity_le g r g.isLt hr
      omega
    · rw [hacc r hr, hword, laneProducts_packed (by decide) g.isLt hr,
        round0Accumulators_lane g g.isLt r hr]
  refine ensures_pure ?_
  have hrows := unpackRows_toNat (fun i =>
    ∑ j : Fin 4, mdsCoeff i (8 + j) * capacityConstant (8 + j) +
      ∑ j : Fin 8, mdsCoeff i j * (t.get j).toNat) haccs
  refine ⟨fun i => ?_, funext fun i => ?_⟩
  · rw [hrows]
    exact Nat.mod_lt _ (by decide)
  · show (((unpackRows accs).get i).toNat : F) =
      ∑ j : Fin (8 + 4), mdsMatrix i j * (residues s j + roundConstants 0 j) ^ 7
    rw [hrows, cast_mod_order, Fin.sum_univ_add, Nat.cast_add, Nat.cast_sum, Nat.cast_sum, add_comm]
    refine congrArg₂ (· + ·) (Finset.sum_congr rfl fun j _ => ?_)
      (Finset.sum_congr rfl fun j _ => ?_)
    · rw [Nat.cast_mul, (ht j).2]
      rfl
    · -- a capacity lane is zero, so its S-box output is a constant
      have hzero : residues s (Fin.natAdd 8 j) = 0 := by
        have hlane := hs (Fin.natAdd 8 j)
        rw [if_neg (by simp)] at hlane
        rw [residues, hlane, Nat.cast_zero]
      rw [hzero, zero_add, Nat.cast_mul, capacityConstant, cast_mod_order, Nat.cast_pow]
      simp [mdsMatrix, roundConstants]

end Doxa.PoseidonGoldilocks
