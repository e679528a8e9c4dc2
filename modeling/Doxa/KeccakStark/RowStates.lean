import Doxa.KeccakStark.Rounds

/-!
# Rows that hold a round of the permutation

`RoundRow l r a` says what every column of a row is when round `r` is applied to the state `a`.
Such a row satisfies the constraints of a round, and a row of bits that satisfies them is such a
row: the limbs of the input fix the bits of `A'` together with those of the parities, and the
parities are those of the input because each column of `A'` has the parity `C'`.
-/

namespace Doxa.KeccakStark

open Lib Lib.Keccak Circuit

/-- A round on lanes. -/
def keccakRound (r : ℕ) (a : Lanes) : Lanes := toLanes (applyRound (bitsOf a) r)

theorem keccakF_eq (a : Lanes) : keccakF a = forLoop keccakRound 24 a := rfl

/-- The bits of `C'`. -/
def parityPrime (b : Bits) (x : Fin 5) (z : Fin 64) : Bool :=
  parity b x z ^^ (parity b (x + 4) z ^^ parity b (x + 1) (z + 63))

/-- The state behind the fourth step. -/
def afterChi (b : Bits) : Bits := chi (pi (rho (theta b)))

structure RoundRow (l : Row F) (r : ℕ) (a : Lanes) : Prop where
  step : OneHot NUM_ROUNDS (flags l) r
  input : InputIs l a
  c : ∀ x z, l (regC x z) = fromBool (parity (bitsOf a) x z)
  cPrime : ∀ x z, l (regCPrime x z) = fromBool (parityPrime (bitsOf a) x z)
  aPrime : ∀ x y z, l (regAPrime x y z) = fromBool (theta (bitsOf a) x y z)
  aPrimePrime : ∀ x y,
    LimbsAre l (regAPrimePrime x y) (laneAt (toLanes (afterChi (bitsOf a))) x y)
  bits : ∀ z, l (regAPrimePrime00Bit z) = fromBool (afterChi (bitsOf a) 0 0 z)
  output : OutputIs l (keccakRound r a)

/-- The columns for single bits hold zero or one. -/
structure BitColumns (l : Row F) : Prop where
  c : ∀ x z, IsBool (l (regC x z))
  aPrime : ∀ x y z, IsBool (l (regAPrime x y z))
  bits : ∀ z, IsBool (l (regAPrimePrime00Bit z))

variable {l : Row F} {r : ℕ} {a : Lanes}

theorem RoundRow.bitColumns (h : RoundRow l r a) : BitColumns l where
  c x z := h.c x z ▸ isBool_fromBool _
  aPrime x y z := h.aPrime x y z ▸ isBool_fromBool _
  bits z := h.bits z ▸ isBool_fromBool _

/-! ## The bits of the equations -/

/-- Where the columns are those of a state, `B` is the state behind the third step. -/
theorem chiBit_eq {b : Bits} (h : ∀ x y z, l (regAPrime x y z) = fromBool (theta b x y z))
    (x y : Fin 5) (z : Fin 64) : chiBit l x y z = fromBool (afterChi b x y z) := by
  have hB : ∀ x y z, l (regB x y z) = fromBool (pi (rho (theta b)) x y z) := by
    intro x y z
    rw [regB_eq, h]
    rfl
  rw [chiBit, hB, hB, hB, andnGen_fromBool, xorGen_fromBool]
  rfl

theorem foldl_add_range {f : ℕ → F} (n : ℕ) :
    (List.range n).foldl (fun acc r => acc + f r) 0 = ∑ r ∈ Finset.range n, f r := by
  induction n with
  | zero => rfl
  | succ n ih =>
    rw [List.range_succ, List.foldl_append, ih, Finset.sum_range_succ]
    rfl

theorem rcValueBit_eq (hr : r < 24) (i : Fin 64) :
    (rcValueBit r i.val : F) = fromBool ((roundConstant r).getLsbD i.val) := by
  have hbit : rcValueBit r i.val = (roundConstant r).toNat / 2 ^ i.val % 2 := by
    rw [rcValueBit, rcBits_eq, rc_eq_standard, List.map_map]
    simp only [List.getD_eq_getElem?_getD, List.getElem?_map, List.getElem?_range hr,
      Option.map_some, Option.getD_some, Function.comp_apply, List.getElem?_range i.isLt]
  rw [hbit, fromBool, BitVec.getLsbD, Nat.testBit_eq_decide_div_mod_eq]
  rcases Nat.mod_two_eq_zero_or_one ((roundConstant r).toNat / 2 ^ i.val) with h | h
  · simp [h]
  · simp [h]

/-- Only the constant of the round counts. -/
theorem rcBit_eq (hr : r < 24) (h : OneHot NUM_ROUNDS (flags l) r) (i : Fin 64) :
    rcBit l i = fromBool ((roundConstant r).getLsbD i.val) := by
  have hterm : ∀ k ∈ Finset.range NUM_ROUNDS,
      l (regStep k) * (rcValueBit k i.val : F) = if k = r then (rcValueBit k i.val : F) else 0 := by
    intro k hk
    have hflag : l (regStep k) = if k = r then 1 else 0 := h k (Finset.mem_range.mp hk)
    rw [hflag, ite_mul, one_mul, zero_mul]
  rw [rcBit, foldl_add_range, Finset.sum_congr rfl hterm, Finset.sum_ite_eq',
    if_pos (Finset.mem_range.mpr (show r < NUM_ROUNDS from hr)), rcValueBit_eq hr]

theorem xoredBit_eq {b : Bits} (hr : r < 24) (h : OneHot NUM_ROUNDS (flags l) r)
    (hbits : ∀ z, l (regAPrimePrime00Bit z) = fromBool (afterChi b 0 0 z)) (z : Fin 64) :
    xoredBit l z = fromBool (applyRound b r 0 0 z) := by
  rw [xoredBit, hbits, rcBit_eq hr h, xorGen_fromBool]
  rfl

/-- Outside of lane `(0, 0)` a round ends with the fourth step. -/
theorem round_of_ne {b : Bits} {x y : Fin 5} (hxy : ¬(x = 0 ∧ y = 0)) (z : Fin 64) :
    applyRound b r x y z = afterChi b x y z := by
  have hlane : (x == 0 && y == 0) = false := by
    rw [Bool.eq_false_iff]
    intro h
    rw [Bool.and_eq_true, beq_iff_eq, beq_iff_eq] at h
    exact hxy h
  rw [applyRound, iota, hlane, Bool.false_and, Bool.xor_false]
  rfl

theorem laneAt_keccakRound {x y : Fin 5} (hxy : ¬(x = 0 ∧ y = 0)) :
    laneAt (keccakRound r a) x y = laneAt (toLanes (afterChi (bitsOf a))) x y := by
  apply BitVec.eq_of_getLsbD_eq
  intro z hz
  have hbit := round_of_ne (b := bitsOf a) (r := r) hxy ⟨z, hz⟩
  have hleft := laneAt_getLsbD (keccakRound r a) x y ⟨z, hz⟩
  have hright := laneAt_getLsbD (toLanes (afterChi (bitsOf a))) x y ⟨z, hz⟩
  rw [keccakRound, bitsOf_toLanes] at hleft
  rw [bitsOf_toLanes] at hright
  rw [hright, ← hbit]
  exact hleft

/-- The last step of a round on lane `(0, 0)`. -/
theorem laneAt_keccakRound_zero : laneAt (keccakRound r a) 0 0 =
    laneAt (toLanes (afterChi (bitsOf a))) 0 0 ^^^ roundConstant r := by
  apply BitVec.eq_of_getLsbD_eq
  intro z hz
  have hleft := laneAt_getLsbD (keccakRound r a) 0 0 ⟨z, hz⟩
  have hright := laneAt_getLsbD (toLanes (afterChi (bitsOf a))) 0 0 ⟨z, hz⟩
  rw [keccakRound, bitsOf_toLanes] at hleft
  rw [bitsOf_toLanes] at hright
  rw [BitVec.getLsbD_xor, hright]
  exact hleft

/-! ## From a state to the constraints -/

theorem parityDiff_eq {b : Fin 5 → Bool} {p : Bool} {x : Fin 5} {z : Fin 64}
    (hcolumn : ∀ i, l (regAPrime x i z) = fromBool (b i)) (hp : l (regCPrime x z) = fromBool p) :
    parityDiff l x z = (((b 0).toNat + (b 1).toNat + (b 2).toNat + (b 3).toNat + (b 4).toNat : ℕ) : F) -
      (p.toNat : F) := by
  have hnat : ∀ c, fromBool c = (c.toNat : F) := fun c => by cases c <;> simp [fromBool]
  have hlist : List.finRange 5 = [0, 1, 2, 3, 4] := by decide
  rw [parityDiff, hp, hlist]
  simp only [List.map_cons, List.map_nil, hcolumn, hnat, List.sum_cons, List.sum_nil, add_zero,
    Nat.cast_add, add_assoc]

/-- Five bits and their parity differ by an even number. -/
theorem even_diff (b₀ b₁ b₂ b₃ b₄ : Bool) :
    ∃ k : ℕ, (k = 0 ∨ k = 2 ∨ k = 4) ∧
      b₀.toNat + b₁.toNat + b₂.toNat + b₃.toNat + b₄.toNat =
        (b₀ ^^ b₁ ^^ b₂ ^^ b₃ ^^ b₄).toNat + k := by
  refine ⟨b₀.toNat + b₁.toNat + b₂.toNat + b₃.toNat + b₄.toNat -
    (b₀ ^^ b₁ ^^ b₂ ^^ b₃ ^^ b₄).toNat, ?_⟩
  revert b₀ b₁ b₂ b₃ b₄
  decide

/-- A bit that differs from five bits by an even number is their parity. -/
theorem parity_of_diff (b₀ b₁ b₂ b₃ b₄ p : Bool) {k : ℕ} (hk : k = 0 ∨ k = 2 ∨ k = 4)
    (h : b₀.toNat + b₁.toNat + b₂.toNat + b₃.toNat + b₄.toNat = p.toNat + k) :
    (b₀ ^^ b₁ ^^ b₂ ^^ b₃ ^^ b₄) = p := by
  have hmod : (b₀.toNat + b₁.toNat + b₂.toNat + b₃.toNat + b₄.toNat) % 2 = p.toNat % 2 := by omega
  clear h hk
  revert b₀ b₁ b₂ b₃ b₄ p
  decide

/-- Each column of `A'` has the parity `C'`. -/
theorem parity_theta (b : Bits) (x : Fin 5) (z : Fin 64) :
    (theta b x 0 z ^^ theta b x 1 z ^^ theta b x 2 z ^^ theta b x 3 z ^^ theta b x 4 z) =
      parityPrime b x z := by
  have hxor : ∀ b₀ b₁ b₂ b₃ b₄ p q : Bool,
      ((b₀ ^^ p ^^ q) ^^ (b₁ ^^ p ^^ q) ^^ (b₂ ^^ p ^^ q) ^^ (b₃ ^^ p ^^ q) ^^ (b₄ ^^ p ^^ q)) =
        ((b₀ ^^ b₁ ^^ b₂ ^^ b₃ ^^ b₄) ^^ (p ^^ q)) := by decide
  exact hxor _ _ _ _ _ _ _

/-- A row of a round satisfies the constraints. -/
theorem RoundRow.holds (hr : r < 24) (h : RoundRow l r a) : RoundHolds l := by
  have hlane : laneAt a = laneAt (toLanes (bitsOf a)) := by
    funext x y
    apply BitVec.eq_of_getLsbD_eq
    intro z hz
    have hbit := laneAt_getLsbD (toLanes (bitsOf a)) x y ⟨z, hz⟩
    rw [bitsOf_toLanes] at hbit
    exact hbit.symm
  have hinput : ∀ x y z, inputBit l x y z = fromBool (bitsOf a x y z) := by
    intro x y z
    have hxor : ∀ b p q s : Bool, ((b ^^ q ^^ s) ^^ (p ^^ (p ^^ (q ^^ s)))) = b := by decide
    rw [inputBit, h.aPrime, h.c, h.cPrime, xor3Gen_fromBool]
    exact congrArg fromBool (hxor _ _ _ _)
  have hlimbs := inputIs_iff.mp h.input
  rw [hlane] at hlimbs
  have houtput := outputIs_iff.mp h.output 0 0
  have hchi := chiBit_eq h.aPrime
  have hiota := xoredBit_eq hr h.step h.bits
  refine ⟨fun x z => ?_, fun x y => (bits_of_limbsAre (hinput x y) (hlimbs x y)).1,
    fun x y => (bits_of_limbsAre (hinput x y) (hlimbs x y)).2, fun x z => ?_,
    fun x y => (bits_of_limbsAre (hchi x y) (h.aPrimePrime x y)).1,
    fun x y => (bits_of_limbsAre (hchi x y) (h.aPrimePrime x y)).2,
    (bits_of_limbsAre h.bits (h.aPrimePrime 0 0)).1,
    (bits_of_limbsAre h.bits (h.aPrimePrime 0 0)).2,
    (bits_of_limbsAre hiota houtput).1, (bits_of_limbsAre hiota houtput).2⟩
  · rw [h.cPrime, h.c, h.c, h.c, xor3Gen_fromBool]
    rfl
  · obtain ⟨k, hk, hdiff⟩ := even_diff (theta (bitsOf a) x 0 z) (theta (bitsOf a) x 1 z)
      (theta (bitsOf a) x 2 z) (theta (bitsOf a) x 3 z) (theta (bitsOf a) x 4 z)
    rw [parityDiff_eq (h.aPrime x · z) (h.cPrime x z), hdiff, parity_theta, Nat.cast_add,
      add_sub_cancel_left]
    rcases hk with rfl | rfl | rfl
    · simp
    · simp
    · simp

/-! ## From the constraints to a state -/

/-- Numbers below the order are equal when the field elements are. -/
theorem natCast_inj_of_lt {m n : ℕ} (hm : m < ORDER) (hn : n < ORDER) (h : (m : F) = n) : m = n := by
  have hval := congrArg ZMod.val h
  rwa [ZMod.val_natCast_of_lt (show m < 18446744069414584321 from hm),
    ZMod.val_natCast_of_lt (show n < 18446744069414584321 from hn)] at hval

/-- The parity constraint on bits. -/
theorem parity_of_holds {b : Fin 5 → Bool} {p : Bool} {x : Fin 5} {z : Fin 64}
    (hcolumn : ∀ i, l (regAPrime x i z) = fromBool (b i)) (hp : l (regCPrime x z) = fromBool p)
    (h : parityDiff l x z * (parityDiff l x z - 2) * (parityDiff l x z - 4) = 0) :
    (b 0 ^^ b 1 ^^ b 2 ^^ b 3 ^^ b 4) = p := by
  have hdiff : ∃ k : ℕ, (k = 0 ∨ k = 2 ∨ k = 4) ∧ parityDiff l x z = (k : F) := by
    rcases mul_eq_zero.mp h with h | h
    · rcases mul_eq_zero.mp h with h | h
      · exact ⟨0, .inl rfl, h.trans Nat.cast_zero.symm⟩
      · exact ⟨2, .inr (.inl rfl), sub_eq_zero.mp h⟩
    · exact ⟨4, .inr (.inr rfl), sub_eq_zero.mp h⟩
  obtain ⟨k, hk, hdiff⟩ := hdiff
  rw [parityDiff_eq hcolumn hp, sub_eq_iff_eq_add', ← Nat.cast_add] at hdiff
  have hle : ∀ c : Bool, c.toNat ≤ 1 := Bool.toNat_le
  have h0 := hle (b 0)
  have h1 := hle (b 1)
  have h2 := hle (b 2)
  have h3 := hle (b 3)
  have h4 := hle (b 4)
  have hple := hle p
  refine parity_of_diff _ _ _ _ _ _ hk (natCast_inj_of_lt ?_ ?_ hdiff)
  · unfold ORDER
    omega
  · unfold ORDER
    omega

/-- A row of bits that satisfies the constraints is a row of its round. -/
theorem RoundHolds.exists_state (h : RoundHolds l) (hbool : BitColumns l) (hr : r < 24)
    (hstep : OneHot NUM_ROUNDS (flags l) r) : ∃ a, RoundRow l r a := by
  let c : Fin 5 → Fin 64 → Bool := fun x z => decide (l (regC x z) = 1)
  let p : Bits := fun x y z => decide (l (regAPrime x y z) = 1)
  let cp : Fin 5 → Fin 64 → Bool := fun x z => c x z ^^ (c (x + 4) z ^^ c (x + 1) (z + 63))
  have hc : ∀ x z, l (regC x z) = fromBool (c x z) := fun x z => fromBool_of_isBool (hbool.c x z)
  have hp : ∀ x y z, l (regAPrime x y z) = fromBool (p x y z) :=
    fun x y z => fromBool_of_isBool (hbool.aPrime x y z)
  have hcp : ∀ x z, l (regCPrime x z) = fromBool (cp x z) := by
    intro x z
    rw [h.cPrime, hc, hc, hc, xor3Gen_fromBool]
  -- the state before the round
  let b : Bits := fun x y z => p x y z ^^ (c x z ^^ cp x z)
  have hinput : ∀ x y z, inputBit l x y z = fromBool (b x y z) := by
    intro x y z
    rw [inputBit, hp, hc, hcp, xor3Gen_fromBool]
  have hparity : ∀ x z, parity b x z = c x z := by
    intro x z
    have hcolumn := parity_of_holds (hp x · z) (hcp x z) (h.column x z)
    have hxor : ∀ b₀ b₁ b₂ b₃ b₄ s t : Bool, (b₀ ^^ b₁ ^^ b₂ ^^ b₃ ^^ b₄) = t →
        ((b₀ ^^ (s ^^ t)) ^^ (b₁ ^^ (s ^^ t)) ^^ (b₂ ^^ (s ^^ t)) ^^ (b₃ ^^ (s ^^ t)) ^^
          (b₄ ^^ (s ^^ t))) = s := by decide
    exact hxor _ _ _ _ _ _ _ hcolumn
  have htheta : ∀ x y z, theta b x y z = p x y z := by
    intro x y z
    have hxor : ∀ q s t u : Bool, ((q ^^ (s ^^ (s ^^ (t ^^ u)))) ^^ t ^^ u) = q := by decide
    rw [theta, hparity, hparity]
    exact hxor _ _ _ _
  have haPrime : ∀ x y z, l (regAPrime x y z) = fromBool (theta b x y z) := by
    intro x y z
    rw [hp, htheta]
  have hchi := chiBit_eq haPrime
  have haPrimePrime : ∀ x y, LimbsAre l (regAPrimePrime x y) (laneAt (toLanes (afterChi b)) x y) :=
    fun x y => limbsAre_of_bits (hchi x y) (h.chiLo x y) (h.chiHi x y)
  have hbits : ∀ z, l (regAPrimePrime00Bit z) = fromBool (afterChi b 0 0 z) := by
    intro z
    obtain ⟨hlow, hhigh⟩ := haPrimePrime 0 0
    have hbit := bits_of_limbs hbool.bits (h.bitsLo.trans hlow) (h.bitsHi.trans hhigh) z
    rw [hbit, laneAt_getLsbD, bitsOf_toLanes]
  refine ⟨toLanes b, ?_⟩
  constructor
  · exact hstep
  · exact inputIs_iff.mpr fun x y => limbsAre_of_bits (hinput x y) (h.inputLo x y) (h.inputHi x y)
  · intro x z
    rw [bitsOf_toLanes, hparity, hc]
  · intro x z
    rw [bitsOf_toLanes, hcp, parityPrime, hparity, hparity, hparity]
  · rw [bitsOf_toLanes]
    exact haPrime
  · rw [bitsOf_toLanes]
    exact haPrimePrime
  · rw [bitsOf_toLanes]
    exact hbits
  · rw [outputIs_iff]
    intro x y
    by_cases hxy : x = 0 ∧ y = 0
    · obtain ⟨rfl, rfl⟩ := hxy
      rw [keccakRound, bitsOf_toLanes]
      exact limbsAre_of_bits (xoredBit_eq hr hstep hbits) h.iotaLo h.iotaHi
    · rw [laneAt_keccakRound hxy, bitsOf_toLanes, regAPrimePrimePrime, if_neg hxy]
      exact haPrimePrime x y

end Doxa.KeccakStark
