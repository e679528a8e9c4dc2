import Doxa.Circuit.U256

/-!
# Gadgets on words

A word is range checked by four byte lookups, so every value below `2^32` passes and no
other. `rotr_u32` and `shr_u32` multiply a word by `2^(32 - n)` and split the product into
two words that recompose to it in the field. An integer below `2^32 - 1` recomposes from a
second pair, the one of the integer plus the field order, and nothing excludes it here.
-/

namespace Doxa.Circuit

open U256AdditionChain

/-! ## Range checks -/

/-- What `ByteDecompositionGenerator` fills in. -/
def byteDecomposition (value : F) : Fin 4 → F :=
  fun i => ((value.val >>> (8 * i.val) &&& 0xFF : ℕ) : F)

theorem byteDecomposition_val (value : F) (i : Fin 4) :
    (byteDecomposition value i).val = value.val / 2 ^ (8 * i.val) % 256 := by
  have hbyte : value.val >>> (8 * i.val) &&& 0xFF = value.val / 2 ^ (8 * i.val) % 256 := by
    rw [Nat.shiftRight_eq_div_pow]
    exact Nat.and_two_pow_sub_one_eq_mod _ 8
  rw [byteDecomposition, hbyte]
  exact ZMod.val_natCast_of_lt (lt_of_lt_of_le (Nat.mod_lt _ (by decide)) (by decide))

/-- The generator satisfies the range check of every word. -/
theorem byteDecomposition_satisfied {value : F} (h : value.val < 2 ^ 32) :
    DecomposeU32ToBytes value (byteDecomposition value) := by
  have hval := byteDecomposition_val value
  refine ⟨fun j => ?_, ?_⟩
  · rw [hval]
    exact Nat.mod_lt _ (by decide)
  · have h0 := hval 0
    have h1 := hval 1
    have h2 := hval 2
    have h3 := hval 3
    have h3val : (3 : Fin 4).val = 3 := rfl
    simp only [Fin.val_zero, Fin.val_one, Fin.val_two, h3val] at h0 h1 h2 h3
    have hsum : 256 * (256 * (256 * (byteDecomposition value 3).val +
        (byteDecomposition value 2).val) + (byteDecomposition value 1).val) +
        (byteDecomposition value 0).val = value.val := by omega
    have hcast := congrArg (Nat.cast : ℕ → F) hsum
    push_cast at hcast
    simpa only [ZMod.natCast_zmod_val] using hcast

/-- The range check accepts exactly the words. -/
theorem decomposeU32ToBytes_iff {value : F} :
    (∃ bytes, DecomposeU32ToBytes value bytes) ↔ value.val < 2 ^ 32 :=
  ⟨fun ⟨_, h⟩ => h.val_lt, fun h => ⟨_, byteDecomposition_satisfied h⟩⟩

/-! ## Two halves of a field element -/

/-- Two words recompose to a field element exactly when they are the halves of its
representative or of the representative plus the field order. -/
theorem recomposed_iff {hi lo x : F} (hhi : hi.val < 2 ^ 32) (hlo : lo.val < 2 ^ 32) :
    2 ^ 32 * hi + lo = x ↔
      2 ^ 32 * hi.val + lo.val = x.val ∨ 2 ^ 32 * hi.val + lo.val = x.val + ORDER := by
  have hcast : 2 ^ 32 * hi + lo = ((2 ^ 32 * hi.val + lo.val : ℕ) : F) := by
    rw [Nat.cast_add, Nat.cast_mul, Nat.cast_pow, ZMod.natCast_zmod_val, ZMod.natCast_zmod_val]
    rfl
  have hx := ZMod.val_lt x
  rw [hcast]
  constructor
  · intro h
    have hval := congrArg ZMod.val h
    rw [ZMod.val_natCast] at hval
    unfold ORDER
    omega
  · rintro (h | h)
    · rw [h, ZMod.natCast_zmod_val]
    · rw [h, Nat.cast_add, ZMod.natCast_zmod_val, ORDER, ZMod.natCast_self, add_zero]

/-! ## Rotation and shift -/

/-- The targets `rotr_u32` and `shr_u32` allocate. -/
structure SplitTargets where
  lo : F
  hi : F
  loBytes : Fin 4 → F
  hiBytes : Fin 4 → F

namespace SplitTargets

/-- The product both gadgets split. -/
def product (a : F) (n : ℕ) : F := 2 ^ (32 - n) * a + 0

variable (t : SplitTargets)

/-- The constraints of `rotr_u32`, which are those of `shr_u32`. -/
structure Satisfied (a : F) (n : ℕ) : Prop where
  lo_range : DecomposeU32ToBytes t.lo t.loBytes
  hi_range : DecomposeU32ToBytes t.hi t.hiBytes
  recomposed : product a n = 2 ^ 32 * t.hi + t.lo

/-- The output of `rotr_u32`. -/
def rotrU32 : F := t.lo + t.hi

/-- The output of `shr_u32`. -/
def shrU32 : F := t.hi

/-- The targets with the bytes the generators fill in. -/
def ofHalves (hi lo : F) : SplitTargets where
  lo := lo
  hi := hi
  loBytes := byteDecomposition lo
  hiBytes := byteDecomposition hi

theorem ofHalves_rotrU32 (hi lo : F) : (ofHalves hi lo).rotrU32 = lo + hi := rfl

theorem ofHalves_shrU32 (hi lo : F) : (ofHalves hi lo).shrU32 = hi := rfl

variable {t} {a : BitVec 32} {n : ℕ}

/-- The high and the low half of the product. -/
theorem product_split (a : ℕ) (hn : n ≤ 32) :
    2 ^ (32 - n) * a = 2 ^ 32 * (a / 2 ^ n) + a % 2 ^ n * 2 ^ (32 - n) := by
  calc 2 ^ (32 - n) * a = 2 ^ (32 - n) * (2 ^ n * (a / 2 ^ n) + a % 2 ^ n) := by
        rw [Nat.div_add_mod]
    _ = 2 ^ (32 - n + n) * (a / 2 ^ n) + a % 2 ^ n * 2 ^ (32 - n) := by ring
    _ = 2 ^ 32 * (a / 2 ^ n) + a % 2 ^ n * 2 ^ (32 - n) := by rw [Nat.sub_add_cancel hn]

/-- The low half leaves room for one more. -/
theorem low_half_lt (a : ℕ) (hn : n < 32) : a % 2 ^ n * 2 ^ (32 - n) + 1 < 2 ^ 32 := by
  have hmod : a % 2 ^ n + 1 ≤ 2 ^ n := Nat.mod_lt _ (Nat.two_pow_pos n)
  have hmul : (a % 2 ^ n + 1) * 2 ^ (32 - n) ≤ 2 ^ n * 2 ^ (32 - n) :=
    Nat.mul_le_mul_right _ hmod
  have htwo : 2 ^ 1 ≤ 2 ^ (32 - n) := Nat.pow_le_pow_right (by decide) (by omega)
  rw [← pow_add, Nat.add_sub_cancel' hn.le, Nat.succ_mul] at hmul
  omega

theorem product_val (hn : 0 < n) (hn' : n < 32) :
    (product (a.toNat : F) n).val =
      2 ^ 32 * (a.toNat / 2 ^ n) + a.toNat % 2 ^ n * 2 ^ (32 - n) := by
  have hlow := low_half_lt a.toNat hn'
  have hhigh : a.toNat / 2 ^ n ≤ a.toNat / 2 ^ 1 :=
    Nat.div_le_div_left (Nat.pow_le_pow_right (by decide) hn) (by decide)
  have ha := a.isLt
  have hcast : product (a.toNat : F) n = ((2 ^ (32 - n) * a.toNat : ℕ) : F) := by
    rw [product, add_zero]
    push_cast
    rfl
  rw [hcast, product_split a.toNat hn'.le, ZMod.val_natCast_of_lt (by omega)]

theorem rotateRight_toNat (hn' : n < 32) :
    (a.rotateRight n).toNat = a.toNat % 2 ^ n * 2 ^ (32 - n) + a.toNat / 2 ^ n := by
  have hhigh : a.toNat / 2 ^ n < 2 ^ (32 - n) := by
    rw [Nat.div_lt_iff_lt_mul (Nat.two_pow_pos n), ← pow_add, Nat.sub_add_cancel hn'.le]
    exact a.isLt
  have hlow : a.toNat <<< (32 - n) % 2 ^ 32 = (a.toNat % 2 ^ n) <<< (32 - n) := by
    have hpow : 2 ^ 32 = 2 ^ n * 2 ^ (32 - n) := by rw [← pow_add, Nat.add_sub_cancel' hn'.le]
    rw [Nat.shiftLeft_eq, Nat.shiftLeft_eq, hpow, Nat.mul_mod_mul_right]
  rw [BitVec.toNat_rotateRight, Nat.mod_eq_of_lt hn', hlow, Nat.or_comm,
    Nat.shiftRight_eq_div_pow, ← Nat.shiftLeft_add_eq_or_of_lt hhigh, Nat.shiftLeft_eq]

/-- A satisfying assignment has the two halves of the product, or those of the product plus
the field order where the high half is zero. -/
theorem Satisfied.halves (h : t.Satisfied (a.toNat : F) n) (hn : 0 < n) (hn' : n < 32) :
    (t.hi.val = a.toNat / 2 ^ n ∧ t.lo.val = a.toNat % 2 ^ n * 2 ^ (32 - n)) ∨
      (a.toNat / 2 ^ n = 0 ∧ t.hi.val = 2 ^ 32 - 1 ∧
        t.lo.val = a.toNat % 2 ^ n * 2 ^ (32 - n) + 1) := by
  have hhi := h.hi_range.val_lt
  have hlo := h.lo_range.val_lt
  have hlow := low_half_lt a.toNat hn'
  have hcases := (recomposed_iff hhi hlo).mp h.recomposed.symm
  rw [product_val hn hn', ORDER] at hcases
  omega

/-- Two words that recompose to the product, or to the product plus the field order, satisfy
the constraints. -/
theorem ofHalves_satisfied (hn : 0 < n) (hn' : n < 32) {hi lo : ℕ} (hhi : hi < 2 ^ 32)
    (hlo : lo < 2 ^ 32)
    (h : 2 ^ 32 * hi + lo = 2 ^ 32 * (a.toNat / 2 ^ n) + a.toNat % 2 ^ n * 2 ^ (32 - n) ∨
      2 ^ 32 * hi + lo =
        2 ^ 32 * (a.toNat / 2 ^ n) + a.toNat % 2 ^ n * 2 ^ (32 - n) + ORDER) :
    (ofHalves (hi : F) (lo : F)).Satisfied (a.toNat : F) n := by
  have hhival : (hi : F).val = hi := ZMod.val_natCast_of_lt (by omega)
  have hloval : (lo : F).val = lo := ZMod.val_natCast_of_lt (by omega)
  rw [← hhival] at hhi
  rw [← hloval] at hlo
  rw [← product_val hn hn'] at h
  refine ⟨byteDecomposition_satisfied hlo, byteDecomposition_satisfied hhi, ?_⟩
  refine ((recomposed_iff hhi hlo).mpr ?_).symm
  rwa [hhival, hloval]

/-- The generator's assignment satisfies the constraints, with the rotated and the shifted
word for outputs. -/
theorem exists_honest (hn : 0 < n) (hn' : n < 32) : ∃ t : SplitTargets,
    t.Satisfied (a.toNat : F) n ∧ t.rotrU32 = ((a.rotateRight n).toNat : F) ∧
      t.shrU32 = ((a >>> n).toNat : F) := by
  have hlow := low_half_lt a.toNat hn'
  have hhigh := Nat.div_le_self a.toNat (2 ^ n)
  have ha := a.isLt
  refine ⟨_, ofHalves_satisfied hn hn' (by omega) (by omega) (.inl rfl), ?_, ?_⟩
  · rw [ofHalves_rotrU32, rotateRight_toNat hn', Nat.cast_add]
  · rw [ofHalves_shrU32, BitVec.toNat_ushiftRight, Nat.shiftRight_eq_div_pow]

/-- Where the high half is zero, another assignment satisfies the constraints: its shifted
word is the largest word, and its rotated word exceeds the right one by `2^32`. -/
theorem exists_second (hn : 0 < n) (hn' : n < 32) (hzero : a.toNat < 2 ^ n) :
    ∃ t : SplitTargets, t.Satisfied (a.toNat : F) n ∧
      t.rotrU32 = ((a.rotateRight n).toNat + 2 ^ 32 : ℕ) ∧ t.shrU32 = (2 ^ 32 - 1 : ℕ) := by
  have hlow := low_half_lt a.toNat hn'
  have hdiv := Nat.div_eq_of_lt hzero
  have hsum : 2 ^ 32 * (2 ^ 32 - 1) + (a.toNat % 2 ^ n * 2 ^ (32 - n) + 1) =
      2 ^ 32 * (a.toNat / 2 ^ n) + a.toNat % 2 ^ n * 2 ^ (32 - n) + ORDER := by
    rw [hdiv, ORDER]
    omega
  refine ⟨_, ofHalves_satisfied hn hn' (by decide) hlow (.inr hsum), ?_, ofHalves_shrU32 _ _⟩
  have hrotr : (a.rotateRight n).toNat + 2 ^ 32 =
      a.toNat % 2 ^ n * 2 ^ (32 - n) + 1 + (2 ^ 32 - 1) := by
    rw [rotateRight_toNat hn', hdiv]
    omega
  rw [ofHalves_rotrU32, hrotr, Nat.cast_add (_ + 1)]

/-- The rotation and the shift of a word by `n` bits have one output, the rotated and the
shifted word, exactly when the shifted word is not zero. -/
theorem rotation_sound_iff (a : BitVec 32) {n : ℕ} (hn : 0 < n) (hn' : n < 32) :
    ((∀ t : SplitTargets, t.Satisfied (a.toNat : F) n →
        t.rotrU32 = ((a.rotateRight n).toNat : F)) ↔ 2 ^ n ≤ a.toNat) ∧
      ((∀ t : SplitTargets, t.Satisfied (a.toNat : F) n →
        t.shrU32 = ((a >>> n).toNat : F)) ↔ 2 ^ n ≤ a.toNat) := by
  have hunique : 2 ^ n ≤ a.toNat → ∀ t : SplitTargets, t.Satisfied (a.toNat : F) n →
      t.hi = (a.toNat / 2 ^ n : ℕ) ∧ t.lo = (a.toNat % 2 ^ n * 2 ^ (32 - n) : ℕ) := by
    intro hle t ht
    rcases ht.halves hn hn' with ⟨hhi, hlo⟩ | ⟨hzero, -⟩
    · rw [← hhi, ← hlo, ZMod.natCast_zmod_val, ZMod.natCast_zmod_val]
      exact ⟨rfl, rfl⟩
    · exact absurd hzero (Nat.div_pos hle (Nat.two_pow_pos n)).ne'
  constructor
  · constructor
    · intro hall
      by_contra hlt
      obtain ⟨t, ht, hrotr, -⟩ := exists_second hn hn' (not_le.mp hlt)
      rw [hall t ht, Nat.cast_add, left_eq_add] at hrotr
      exact absurd hrotr (by decide)
    · intro hle t ht
      obtain ⟨hhi, hlo⟩ := hunique hle t ht
      rw [rotrU32, hhi, hlo, rotateRight_toNat hn', Nat.cast_add]
  · constructor
    · intro hall
      by_contra hlt
      obtain ⟨t, ht, -, hshr⟩ := exists_second hn hn' (not_le.mp hlt)
      rw [hall t ht, BitVec.toNat_ushiftRight, Nat.shiftRight_eq_div_pow,
        Nat.div_eq_of_lt (not_le.mp hlt)] at hshr
      exact absurd hshr (by decide)
    · intro hle t ht
      rw [shrU32, (hunique hle t ht).1, BitVec.toNat_ushiftRight, Nat.shiftRight_eq_div_pow]

/-- The shift of a word with high bits is sound. -/
theorem rotation_sound_seven :
    (∀ t : SplitTargets, t.Satisfied ((0xDEADBEEF#32).toNat : F) 7 →
        t.rotrU32 = (((0xDEADBEEF#32).rotateRight 7).toNat : F)) ∧
      ∀ t : SplitTargets, t.Satisfied ((0xDEADBEEF#32).toNat : F) 7 →
        t.shrU32 = ((0xDEADBEEF#32 >>> 7).toNat : F) :=
  have hiff := rotation_sound_iff 0xDEADBEEF#32 (n := 7) (by decide) (by decide)
  ⟨hiff.1.mpr (by decide), hiff.2.mpr (by decide)⟩

/-- The word `5` shifted by seven bits: the largest word satisfies the constraints. -/
theorem second_output : ∃ t : SplitTargets, t.Satisfied ((5#32).toNat : F) 7 ∧
    t.rotrU32 ≠ (((5#32).rotateRight 7).toNat : F) ∧ t.shrU32 = 0xFFFFFFFF ∧
    t.shrU32 ≠ ((5#32 >>> 7).toNat : F) := by
  refine ⟨ofHalves 0xFFFFFFFF 0xA000001, ⟨?_, ?_, ?_⟩, ?_, rfl, ?_⟩
  all_goals decide

end SplitTargets
end Doxa.Circuit
