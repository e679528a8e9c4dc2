import Doxa.Circuit.U32
import Doxa.Lib.Limbs

/-!
# Bitwise operations and additions of words

`xor_u32` and `and_u32` split both words into chunks, look every pair of chunks up in a table
and put the results together again. The chunks are looked up too, which makes them the digits
of the word, and the tables have one row for every pair of digits.

The additions have no table. `wrapping_add_u32` checks the bytes of its result and takes the
overflow from the prover; `assert_add_u32_limbs` compares sums of checked limbs. No side of
their equations reaches the field order, so they hold of the integers.
-/

namespace Doxa.Circuit

open Lib U256AdditionChain

/-! ## Lookup tables -/

/-- The rows of a table, which stand here for the index under which it is registered. -/
abbrev LookupTable := List (BitVec 16 × BitVec 16)

/-- The widths that pass the assertions of the constructors. -/
def chunkWidths : List ℕ := [1, 2, 4, 8]

/-- The values `0..=max` of a chunk. -/
def chunkValues (chunkBits : ℕ) : List (BitVec 16) :=
  let max := 1#16 <<< chunkBits - 1#16
  (List.range (max.toNat + 1)).map (BitVec.ofNat 16)

def addChunkRangeCheckLookupTable (chunkBits : ℕ) : Option LookupTable :=
  if chunkBits ∈ chunkWidths then some ((chunkValues chunkBits).map fun i => (i, i)) else none

/-- The table of an operation on chunks: the packed pair and the result. -/
def chunkPairLookupTable (op : BitVec 16 → BitVec 16 → BitVec 16) (chunkBits : ℕ) :
    Option LookupTable :=
  if chunkBits ∈ chunkWidths then
    some ((chunkValues chunkBits).flatMap fun (a : BitVec 16) =>
      (chunkValues chunkBits).map fun b => ((a <<< chunkBits) ||| b, op a b))
  else none

def addChunkXorLookupTable : ℕ → Option LookupTable := chunkPairLookupTable (· ^^^ ·)

def addChunkAndLookupTable : ℕ → Option LookupTable := chunkPairLookupTable (· &&& ·)

def addU8RangeCheckLookupTable : Option LookupTable := addChunkRangeCheckLookupTable 8

structure BitwiseLuts where
  chunkBits : ℕ
  chunkRangeLut : LookupTable
  xorLut : LookupTable
  andLut : LookupTable
  byteRangeLut : LookupTable

/-- `BitwiseLuts::new`, `none` where a constructor panics. Tables of eight-bit chunks check the
bytes as well. -/
def BitwiseLuts.new (chunkBits : ℕ) : Option BitwiseLuts := do
  let byteRangeLut ← addU8RangeCheckLookupTable
  let chunkRangeLut ←
    if chunkBits = 8 then some byteRangeLut else addChunkRangeCheckLookupTable chunkBits
  let xorLut ← addChunkXorLookupTable chunkBits
  let andLut ← addChunkAndLookupTable chunkBits
  return { chunkBits, chunkRangeLut, xorLut, andLut, byteRangeLut }

/-- `add_lookup_from_index`: the wire and the output it allocates are a row of the table. -/
def Lookup (table : LookupTable) (looking output : F) : Prop :=
  ∃ row ∈ table, looking = (row.1.toNat : F) ∧ output = (row.2.toNat : F)

section Tables

variable {w : ℕ}

theorem chunkWidths_le (hw : w ∈ chunkWidths) : w ≤ 8 := by
  have hall : ∀ w ∈ chunkWidths, w ≤ 8 := by decide
  exact hall w hw

/-- Chunks of a supported width fill the word. -/
theorem width_mul_chunks (hw : w ∈ chunkWidths) : w * (32 / w) = 32 := by
  have hall : ∀ w ∈ chunkWidths, w * (32 / w) = 32 := by decide
  exact hall w hw

theorem chunkValues_eq (hw : w ∈ chunkWidths) :
    chunkValues w = (List.range (2 ^ w)).map (BitVec.ofNat 16) := by
  have hall : ∀ w ∈ chunkWidths, (1#16 <<< w - 1#16).toNat + 1 = 2 ^ w := by decide
  rw [chunkValues, hall w hw]

/-- The tables of a supported width. -/
theorem new_eq (hw : w ∈ chunkWidths) :
    ∃ luts, BitwiseLuts.new w = some luts ∧ luts.chunkBits = w ∧
      addChunkRangeCheckLookupTable w = some luts.chunkRangeLut ∧
      addChunkXorLookupTable w = some luts.xorLut ∧
      addChunkAndLookupTable w = some luts.andLut ∧
      addU8RangeCheckLookupTable = some luts.byteRangeLut := by
  obtain ⟨rangeLut, hrange⟩ : ∃ t, addChunkRangeCheckLookupTable w = some t := ⟨_, if_pos hw⟩
  obtain ⟨xorLut, hxor⟩ : ∃ t, addChunkXorLookupTable w = some t := ⟨_, if_pos hw⟩
  obtain ⟨andLut, hand⟩ : ∃ t, addChunkAndLookupTable w = some t := ⟨_, if_pos hw⟩
  obtain ⟨byteLut, hbyte⟩ : ∃ t, addChunkRangeCheckLookupTable 8 = some t :=
    ⟨_, if_pos (by decide)⟩
  refine ⟨⟨w, rangeLut, xorLut, andLut, byteLut⟩, ?_, rfl, hrange, hxor, hand, hbyte⟩
  rw [BitwiseLuts.new, addU8RangeCheckLookupTable, hbyte, hxor, hand, hrange]
  by_cases h8 : w = 8
  · have hsame : byteLut = rangeLut := by rw [← Option.some_inj, ← hbyte, ← hrange, h8]
    simp [h8, hsame]
  · simp [h8]

/-- A lookup in the range table accepts exactly the chunks. -/
theorem lookup_range_iff {table : LookupTable} (h : addChunkRangeCheckLookupTable w = some table)
    {x : F} : (∃ output, Lookup table x output) ↔ x.val < 2 ^ w := by
  have hw : w ∈ chunkWidths := by
    by_contra hw
    rw [addChunkRangeCheckLookupTable, if_neg hw] at h
    cases h
  have hpow : 2 ^ w ≤ 2 ^ 8 := Nat.pow_le_pow_right (by decide) (chunkWidths_le hw)
  rw [addChunkRangeCheckLookupTable, if_pos hw, Option.some_inj, chunkValues_eq hw] at h
  subst h
  constructor
  · rintro ⟨_, row, hrow, hx, -⟩
    simp only [List.map_map, List.mem_map, List.mem_range, Function.comp_apply] at hrow
    obtain ⟨i, hi, rfl⟩ := hrow
    rw [hx, BitVec.toNat_ofNat, Nat.mod_eq_of_lt (by omega), ZMod.val_natCast_of_lt (by omega)]
    exact hi
  · intro hx
    refine ⟨x, _, List.mem_map.mpr
      ⟨_, List.mem_map.mpr ⟨x.val, List.mem_range.mpr hx, rfl⟩, rfl⟩, ?_⟩
    rw [BitVec.toNat_ofNat, Nat.mod_eq_of_lt (by omega), ZMod.natCast_zmod_val]
    exact ⟨rfl, rfl⟩

/-- The row of a pair of chunks. -/
theorem toNat_pack (hw : w ≤ 8) {a b : ℕ} (ha : a < 2 ^ w) (hb : b < 2 ^ w) :
    (((BitVec.ofNat 16 a) <<< w) ||| BitVec.ofNat 16 b).toNat = 2 ^ w * a + b := by
  have hpow : 2 ^ w ≤ 2 ^ 8 := Nat.pow_le_pow_right (by decide) hw
  have hfit : a <<< w < 2 ^ 16 := by
    calc a <<< w = a * 2 ^ w := Nat.shiftLeft_eq a w
      _ < 2 ^ w * 2 ^ w := Nat.mul_lt_mul_of_pos_right ha (Nat.two_pow_pos w)
      _ ≤ 2 ^ 8 * 2 ^ 8 := Nat.mul_le_mul hpow hpow
  rw [BitVec.toNat_or, BitVec.toNat_shiftLeft, BitVec.toNat_ofNat, BitVec.toNat_ofNat,
    Nat.mod_eq_of_lt (by omega : a < 2 ^ 16), Nat.mod_eq_of_lt (by omega : b < 2 ^ 16),
    Nat.mod_eq_of_lt hfit, ← Nat.shiftLeft_add_eq_or_of_lt hb, Nat.shiftLeft_eq, Nat.mul_comm]

/-- The packed pair determines both chunks. -/
theorem pack_injective {a b x y : ℕ} (hb : b < 2 ^ w) (hy : y < 2 ^ w)
    (h : 2 ^ w * a + b = 2 ^ w * x + y) : a = x ∧ b = y := by
  have hdiv := congrArg (· / 2 ^ w) h
  have hmod := congrArg (· % 2 ^ w) h
  simp only [Nat.mul_add_div (Nat.two_pow_pos w), Nat.div_eq_of_lt hb, Nat.div_eq_of_lt hy,
    Nat.add_zero] at hdiv
  simp only [Nat.mul_add_mod, Nat.mod_eq_of_lt hb, Nat.mod_eq_of_lt hy] at hmod
  exact ⟨hdiv, hmod⟩

variable {op : BitVec 16 → BitVec 16 → BitVec 16} {f : ℕ → ℕ → ℕ}

/-- A lookup of a packed pair of chunks has one output, the result of the operation. -/
theorem lookup_pair_iff (hop : ∀ x y, (op x y).toNat = f x.toNat y.toNat)
    {table : LookupTable} (h : chunkPairLookupTable op w = some table) {x y : ℕ}
    (hx : x < 2 ^ w) (hy : y < 2 ^ w) {z : F} :
    Lookup table (2 ^ w * (x : F) + y) z ↔ z = (f x y : F) := by
  have hw : w ∈ chunkWidths := by
    by_contra hw
    rw [chunkPairLookupTable, if_neg hw] at h
    cases h
  have hle := chunkWidths_le hw
  have hpow : 2 ^ w ≤ 2 ^ 8 := Nat.pow_le_pow_right (by decide) hle
  have hsmall : ∀ a b, a < 2 ^ w → b < 2 ^ w → 2 ^ w * a + b < 2 ^ 16 := fun a b ha hb => by
    rw [← toNat_pack hle ha hb]
    exact BitVec.isLt _
  have hlooking : 2 ^ w * (x : F) + y = ((2 ^ w * x + y : ℕ) : F) := by push_cast; rfl
  rw [chunkPairLookupTable, if_pos hw, Option.some_inj, chunkValues_eq hw] at h
  subst h
  rw [hlooking]
  constructor
  · rintro ⟨row, hrow, hpacked, hz⟩
    simp only [List.mem_flatMap, List.mem_map, List.mem_range] at hrow
    obtain ⟨_, ⟨a, ha, rfl⟩, _, ⟨b, hb, rfl⟩, rfl⟩ := hrow
    have hab := hsmall a b ha hb
    have hxy := hsmall x y hx hy
    have hval := congrArg ZMod.val hpacked
    rw [toNat_pack hle ha hb, ZMod.val_natCast_of_lt (by omega),
      ZMod.val_natCast_of_lt (by omega)] at hval
    obtain ⟨rfl, rfl⟩ := pack_injective hy hb hval
    rw [hz, hop, BitVec.toNat_ofNat, BitVec.toNat_ofNat, Nat.mod_eq_of_lt (by omega),
      Nat.mod_eq_of_lt (by omega)]
  · intro hz
    refine ⟨_, List.mem_flatMap.mpr ⟨_, List.mem_map.mpr ⟨x, List.mem_range.mpr hx, rfl⟩,
      List.mem_map.mpr ⟨_, List.mem_map.mpr ⟨y, List.mem_range.mpr hy, rfl⟩, rfl⟩⟩, ?_, ?_⟩
    · rw [toNat_pack hle hx hy]
    · rw [hz, hop, BitVec.toNat_ofNat, BitVec.toNat_ofNat, Nat.mod_eq_of_lt (by omega),
        Nat.mod_eq_of_lt (by omega)]

end Tables

/-! ## Chunks of a word -/

/-- The Horner loop over the chunks, from the last one down. -/
def recompose (chunkBits : ℕ) (chunks : ℕ → F) : F :=
  horner (2 ^ chunkBits) chunks (32 / chunkBits - 1) (chunks (32 / chunkBits - 1))

/-- The constraints of `decompose_u32_to_chunks`. -/
structure DecomposeU32ToChunks (value : F) (chunkRangeLut : LookupTable) (chunkBits : ℕ)
    (chunks : ℕ → F) : Prop where
  range : ∀ i < 32 / chunkBits, ∃ output, Lookup chunkRangeLut (chunks i) output
  recomposed : recompose chunkBits chunks = value

section Chunks

variable {w : ℕ}

theorem recompose_eq (hw : w ∈ chunkWidths) {chunks : ℕ → F} {d : ℕ → ℕ}
    (h : ∀ i < 32 / w, chunks i = (d i : F)) :
    recompose w chunks = (littleEndian w d (32 / w) : F) := by
  have hpos : 0 < 32 / w := Nat.pos_of_ne_zero fun h0 => by
    have hmul := width_mul_chunks hw
    rw [h0, Nat.mul_zero] at hmul
    exact absurd hmul (by decide)
  obtain ⟨n, hn⟩ : ∃ n, 32 / w = n + 1 := ⟨32 / w - 1, by omega⟩
  rw [hn] at h
  rw [recompose, hn, Nat.add_sub_cancel, h n (Nat.lt_succ_self n),
    horner_natCast fun i hi => h i (Nat.lt_succ_of_lt hi), littleEndian]

/-- The chunks of a word are its digits. -/
theorem decomposeU32ToChunks_iff {lut : LookupTable}
    (hlut : addChunkRangeCheckLookupTable w = some lut) (hw : w ∈ chunkWidths)
    (a : BitVec 32) {chunks : ℕ → F} :
    DecomposeU32ToChunks (a.toNat : F) lut w chunks ↔
      ∀ i < 32 / w, chunks i = (a.toNat / 2 ^ (w * i) % 2 ^ w : ℕ) := by
  have ha := a.isLt
  have hpow : 2 ^ w ≤ 2 ^ 8 := Nat.pow_le_pow_right (by decide) (chunkWidths_le hw)
  have hdigits : littleEndian w (fun i => a.toNat / 2 ^ (w * i) % 2 ^ w) (32 / w) = a.toNat := by
    rw [littleEndian_digits, width_mul_chunks hw, Nat.mod_eq_of_lt ha]
  constructor
  · intro h
    have hrange : ∀ i < 32 / w, (chunks i).val < 2 ^ w := fun i hi =>
      (lookup_range_iff hlut).mp (h.range i hi)
    have hlt := littleEndian_lt hrange
    have hsum := h.recomposed
    rw [recompose_eq hw (d := fun i => (chunks i).val) fun i _ => (ZMod.natCast_zmod_val _).symm]
      at hsum
    rw [width_mul_chunks hw] at hlt
    have hval := congrArg ZMod.val hsum
    rw [ZMod.val_natCast_of_lt (by omega), ZMod.val_natCast_of_lt (by omega), ← hdigits] at hval
    intro i hi
    rw [← littleEndian_injective hrange (fun i _ => Nat.mod_lt _ (Nat.two_pow_pos w)) hval i hi,
      ZMod.natCast_zmod_val]
  · intro h
    refine ⟨fun i hi => (lookup_range_iff hlut).mpr ?_, ?_⟩
    · have hmod := Nat.mod_lt (a.toNat / 2 ^ (w * i)) (Nat.two_pow_pos w)
      rw [h i hi, ZMod.val_natCast_of_lt (by omega)]
      exact hmod
    · rw [recompose_eq hw h, hdigits]

end Chunks

/-! ## Operations on chunks -/

/-- The wires `xor_u32` and `and_u32` allocate. -/
structure ChunkTargets where
  aChunks : ℕ → F
  bChunks : ℕ → F
  resultChunks : ℕ → F

/-- The constraints of an operation with its table. -/
structure ChunkwiseU32 (lut : LookupTable) (a b : F) (luts : BitwiseLuts) (t : ChunkTargets)
    (result : F) : Prop where
  a_chunks : DecomposeU32ToChunks a luts.chunkRangeLut luts.chunkBits t.aChunks
  b_chunks : DecomposeU32ToChunks b luts.chunkRangeLut luts.chunkBits t.bChunks
  lookups : ∀ i < 32 / luts.chunkBits,
    Lookup lut (2 ^ luts.chunkBits * t.aChunks i + t.bChunks i) (t.resultChunks i)
  recomposed : recompose luts.chunkBits t.resultChunks = result

def XorU32 (a b : F) (luts : BitwiseLuts) : ChunkTargets → F → Prop :=
  ChunkwiseU32 luts.xorLut a b luts

def AndU32 (a b : F) (luts : BitwiseLuts) : ChunkTargets → F → Prop :=
  ChunkwiseU32 luts.andLut a b luts

/-- An operation that acts on the digits has one output. -/
theorem chunkwiseU32_iff {op : BitVec 16 → BitVec 16 → BitVec 16} {f : ℕ → ℕ → ℕ}
    (hop : ∀ x y, (op x y).toNat = f x.toNat y.toNat)
    (hf : ∀ w a b k, f a b / 2 ^ k % 2 ^ w = f (a / 2 ^ k % 2 ^ w) (b / 2 ^ k % 2 ^ w))
    {luts : BitwiseLuts} (hw : luts.chunkBits ∈ chunkWidths)
    (hrange : addChunkRangeCheckLookupTable luts.chunkBits = some luts.chunkRangeLut)
    {lut : LookupTable} (hlut : chunkPairLookupTable op luts.chunkBits = some lut)
    (a b : BitVec 32) (c : F) :
    (∃ t, ChunkwiseU32 lut (a.toNat : F) (b.toNat : F) luts t c) ↔
      c = (f a.toNat b.toNat % 2 ^ 32 : ℕ) := by
  obtain ⟨w, chunkRangeLut, xorLut, andLut, byteRangeLut⟩ := luts
  have hdigit : ∀ x i, x / 2 ^ (w * i) % 2 ^ w < 2 ^ w := fun x i =>
    Nat.mod_lt _ (Nat.two_pow_pos w)
  have hword : littleEndian w
      (fun i => f (a.toNat / 2 ^ (w * i) % 2 ^ w) (b.toNat / 2 ^ (w * i) % 2 ^ w)) (32 / w) =
      f a.toNat b.toNat % 2 ^ 32 := by
    rw [littleEndian_digitwise (hf w), width_mul_chunks hw]
  constructor
  · rintro ⟨t, ht⟩
    have ha := (decomposeU32ToChunks_iff hrange hw a).mp ht.a_chunks
    have hb := (decomposeU32ToChunks_iff hrange hw b).mp ht.b_chunks
    rw [← ht.recomposed, ← hword]
    refine recompose_eq hw fun i hi => ?_
    have hlookup := ht.lookups i hi
    rw [ha i hi, hb i hi] at hlookup
    exact (lookup_pair_iff hop hlut (hdigit _ i) (hdigit _ i)).mp hlookup
  · rintro rfl
    refine ⟨⟨fun i => (a.toNat / 2 ^ (w * i) % 2 ^ w : ℕ),
      fun i => (b.toNat / 2 ^ (w * i) % 2 ^ w : ℕ),
      fun i => (f (a.toNat / 2 ^ (w * i) % 2 ^ w) (b.toNat / 2 ^ (w * i) % 2 ^ w) : ℕ)⟩,
      ?_, ?_, ?_, ?_⟩
    · exact (decomposeU32ToChunks_iff hrange hw a).mpr fun _ _ => rfl
    · exact (decomposeU32ToChunks_iff hrange hw b).mpr fun _ _ => rfl
    · intro i _
      exact (lookup_pair_iff hop hlut (hdigit _ i) (hdigit _ i)).mpr rfl
    · rw [recompose_eq hw fun _ _ => rfl, hword]

/-! ## Additions -/

/-- The range check of `decompose_u32_to_bytes` with its lookups. -/
def ByteLookups (rangeLut : LookupTable) (value : F) (bytes : Fin 4 → F) : Prop :=
  (∀ j, ∃ output, Lookup rangeLut (bytes j) output) ∧
    256 * (256 * (256 * bytes 3 + bytes 2) + bytes 1) + bytes 0 = value

theorem byteLookups_iff {rangeLut : LookupTable}
    (hlut : addU8RangeCheckLookupTable = some rangeLut) {value : F} {bytes : Fin 4 → F} :
    ByteLookups rangeLut value bytes ↔ DecomposeU32ToBytes value bytes :=
  and_congr_left fun _ => forall_congr' fun _ => lookup_range_iff hlut

/-- The constraints of `wrapping_add_u32`. -/
structure WrappingAddU32 (a b : F) (rangeLut : LookupTable) (bytes : Fin 4 → F) (overflow : F)
    (result : F) : Prop where
  range : ByteLookups rangeLut result bytes
  bool_check : overflow * overflow - overflow = 0
  sum : a + b = result + overflow * 2 ^ 32

/-- The addition has one output. -/
theorem wrappingAddU32_iff {rangeLut : LookupTable}
    (hlut : addU8RangeCheckLookupTable = some rangeLut) (a b : BitVec 32) (c : F) :
    (∃ bytes overflow, WrappingAddU32 (a.toNat : F) (b.toNat : F) rangeLut bytes overflow c) ↔
      c = ((a + b).toNat : F) := by
  have ha := a.isLt
  have hb := b.isLt
  have hsum := BitVec.toNat_add a b
  constructor
  · rintro ⟨bytes, overflow, h⟩
    have hc := ((byteLookups_iff hlut).mp h.range).val_lt
    have hoverflow : overflow = ((0 : ℕ) : F) ∨ overflow = ((1 : ℕ) : F) := by
      have hprod : overflow * (overflow - 1) = 0 := by linear_combination h.bool_check
      rcases mul_eq_zero.mp hprod with h0 | h1
      · exact .inl (by rw [h0, Nat.cast_zero])
      · exact .inr (by rw [sub_eq_zero.mp h1, Nat.cast_one])
    obtain ⟨k, hk, hcarry⟩ : ∃ k ≤ 1, overflow = ((k : ℕ) : F) := by
      rcases hoverflow with h0 | h1
      · exact ⟨0, by decide, h0⟩
      · exact ⟨1, le_refl 1, h1⟩
    have hcast : ((a.toNat + b.toNat : ℕ) : F) = ((c.val + k * 2 ^ 32 : ℕ) : F) := by
      rw [Nat.cast_add, h.sum, hcarry, Nat.cast_add, ZMod.natCast_zmod_val, Nat.cast_mul]
      rfl
    have hval := congrArg ZMod.val hcast
    rw [ZMod.val_natCast_of_lt (by omega), ZMod.val_natCast_of_lt (by omega)] at hval
    have hresult : c.val = (a + b).toNat := by omega
    rw [← hresult, ZMod.natCast_zmod_val]
  · rintro rfl
    have hlt := (a + b).isLt
    have hval : (((a + b).toNat : ℕ) : F).val = (a + b).toNat :=
      ZMod.val_natCast_of_lt (by omega)
    refine ⟨byteDecomposition ((a + b).toNat : F), ((a.toNat + b.toNat) / 2 ^ 32 : ℕ), ?_, ?_, ?_⟩
    · refine (byteLookups_iff hlut).mpr (byteDecomposition_satisfied ?_)
      rw [hval]
      exact hlt
    · have hcarry : (a.toNat + b.toNat) / 2 ^ 32 = 0 ∨ (a.toNat + b.toNat) / 2 ^ 32 = 1 := by omega
      rcases hcarry with h | h
      · rw [h, Nat.cast_zero, mul_zero, sub_zero]
      · rw [h, Nat.cast_one, one_mul, sub_self]
    · have hsplit : a.toNat + b.toNat =
          (a + b).toNat + (a.toNat + b.toNat) / 2 ^ 32 * 2 ^ 32 := by omega
      have hcast := congrArg (Nat.cast : ℕ → F) hsplit
      rw [Nat.cast_add, Nat.cast_add, Nat.cast_mul] at hcast
      exact hcast

/-! ## Additions of limbs -/

/-- The wires `decompose_u32_to_u16_limbs` allocates. -/
structure U16LimbTargets where
  limbs : Fin 2 → F
  bytes : Fin 2 → Fin 2 → F

/-- The constraints of `decompose_u32_to_u16_limbs`. -/
structure DecomposeU32ToU16Limbs (value : F) (rangeLut : LookupTable) (t : U16LimbTargets) :
    Prop where
  range : ∀ k j, ∃ output, Lookup rangeLut (t.bytes k j) output
  limb : ∀ k, 256 * t.bytes k 1 + t.bytes k 0 = t.limbs k
  recomposed : 2 ^ 16 * t.limbs 1 + t.limbs 0 = value

/-- The constraints of `assert_add_u32_limbs`. -/
def AssertAddU32Limbs (result lhs rhs : Fin 2 → F) : Prop :=
  let acc := (2 ^ 16 * result 1 + result 0) - (2 ^ 16 * lhs 1 + lhs 0) - (2 ^ 16 * rhs 1 + rhs 0)
  let acc16 := result 0 - lhs 0 - rhs 0
  acc * (acc + 2 ^ 32) = 0 ∧ acc16 * (acc16 + 2 ^ 16) = 0

/-- What `U16LimbDecompositionGenerator` and `LimbByteDecompositionGenerator` fill in. -/
def u16LimbDecomposition (value : ℕ) : U16LimbTargets where
  limbs := fun k => (value / 2 ^ (16 * k.val) % 2 ^ 16 : ℕ)
  bytes := fun k j => (value / 2 ^ (16 * k.val + 8 * j.val) % 2 ^ 8 : ℕ)

/-- The integer on a pair of limbs. -/
def limbsValue (x : Fin 2 → F) : ℕ := 2 ^ 16 * (x 1).val + (x 0).val

theorem limbsValue_cast (x : Fin 2 → F) : (limbsValue x : F) = 2 ^ 16 * x 1 + x 0 := by
  rw [limbsValue, Nat.cast_add, Nat.cast_mul, ZMod.natCast_zmod_val, ZMod.natCast_zmod_val]
  rfl

/-- Checked limbs are below `2^16`, and the value is a word. -/
theorem DecomposeU32ToU16Limbs.bounds {rangeLut : LookupTable}
    (hlut : addU8RangeCheckLookupTable = some rangeLut) {value : F} {t : U16LimbTargets}
    (h : DecomposeU32ToU16Limbs value rangeLut t) :
    (∀ k, (t.limbs k).val < 2 ^ 16) ∧ value = (limbsValue t.limbs : F) := by
  refine ⟨fun k => ?_, ?_⟩
  · have h0 := (lookup_range_iff hlut).mp (h.range k 0)
    have h1 := (lookup_range_iff hlut).mp (h.range k 1)
    have hcast : t.limbs k = ((256 * (t.bytes k 1).val + (t.bytes k 0).val : ℕ) : F) := by
      rw [← h.limb k]
      push_cast
      simp only [ZMod.natCast_zmod_val]
    rw [hcast, ZMod.val_natCast_of_lt (by omega)]
    omega
  · rw [limbsValue_cast, h.recomposed]

/-- The generators satisfy the decomposition of every word. -/
theorem u16LimbDecomposition_satisfied {rangeLut : LookupTable}
    (hlut : addU8RangeCheckLookupTable = some rangeLut) (a : BitVec 32) :
    DecomposeU32ToU16Limbs (a.toNat : F) rangeLut (u16LimbDecomposition a.toNat) := by
  have ha := a.isLt
  refine ⟨fun k j => (lookup_range_iff hlut).mpr ?_, fun k => ?_, ?_⟩
  · have hmod := Nat.mod_lt (a.toNat / 2 ^ (16 * k.val + 8 * j.val)) (Nat.two_pow_pos 8)
    rw [u16LimbDecomposition, ZMod.val_natCast_of_lt (by omega)]
    exact hmod
  · have hsplit : 256 * (a.toNat / 2 ^ (16 * k.val + 8 * 1) % 2 ^ 8) +
        a.toNat / 2 ^ (16 * k.val + 8 * 0) % 2 ^ 8 = a.toNat / 2 ^ (16 * k.val) % 2 ^ 16 := by
      rw [pow_add, ← Nat.div_div_eq_div_mul, Nat.mul_zero, Nat.add_zero]
      omega
    have hcast := congrArg (Nat.cast : ℕ → F) hsplit
    rw [Nat.cast_add, Nat.cast_mul] at hcast
    exact hcast
  · have hsplit : 2 ^ 16 * (a.toNat / 2 ^ (16 * 1) % 2 ^ 16) +
        a.toNat / 2 ^ (16 * 0) % 2 ^ 16 = a.toNat := by omega
    have hcast := congrArg (Nat.cast : ℕ → F) hsplit
    rw [Nat.cast_add, Nat.cast_mul, Nat.cast_pow] at hcast
    exact hcast

theorem natCast_eq_iff {x y : ℕ} (hx : x < ORDER) (hy : y < ORDER) :
    (x : F) = (y : F) ↔ x = y := by
  rw [ZMod.natCast_eq_natCast_iff', ← ORDER, Nat.mod_eq_of_lt hx, Nat.mod_eq_of_lt hy]

/-- One constraint on integers that stay below the field order. -/
theorem mul_shifted_eq_zero_iff {r l h k : ℕ} (hr : r + 2 ^ k < ORDER) (hlh : l + h < ORDER) :
    ((r : F) - l - h) * ((r : F) - l - h + 2 ^ k) = 0 ↔ r = l + h ∨ r + 2 ^ k = l + h := by
  have hfirst : (r : F) - l - h = 0 ↔ (r : F) = ((l + h : ℕ) : F) := by
    rw [Nat.cast_add, sub_sub, sub_eq_zero]
  have hsecond : (r : F) - l - h + 2 ^ k = 0 ↔ ((r + 2 ^ k : ℕ) : F) = ((l + h : ℕ) : F) := by
    have hring : (r : F) - l - h + 2 ^ k = ((r + 2 ^ k : ℕ) : F) - ((l + h : ℕ) : F) := by
      push_cast
      ring
    rw [hring, sub_eq_zero]
  rw [mul_eq_zero, hfirst, hsecond, natCast_eq_iff (Nat.lt_of_le_of_lt (Nat.le_add_right _ _) hr) hlh,
    natCast_eq_iff hr hlh]

/-- The two constraints hold of checked limbs exactly when the result is the sum modulo
`2^32`. -/
theorem assertAddU32Limbs_iff {result lhs rhs : Fin 2 → F} (hr : ∀ k, (result k).val < 2 ^ 16)
    (hl : ∀ k, (lhs k).val < 2 ^ 16) (hh : ∀ k, (rhs k).val < 2 ^ 16) :
    AssertAddU32Limbs result lhs rhs ↔
      limbsValue result = (limbsValue lhs + limbsValue rhs) % 2 ^ 32 := by
  have hr0 := hr 0
  have hr1 := hr 1
  have hl0 := hl 0
  have hl1 := hl 1
  have hh0 := hh 0
  have hh1 := hh 1
  have hword : ∀ x : Fin 2 → F, limbsValue x = 2 ^ 16 * (x 1).val + (x 0).val := fun _ => rfl
  have hr := hword result
  have hl := hword lhs
  have hh := hword rhs
  have hlow : ∀ x : Fin 2 → F, x 0 = ((x 0).val : F) := fun x => (ZMod.natCast_zmod_val _).symm
  have hacc := mul_shifted_eq_zero_iff (r := limbsValue result) (l := limbsValue lhs)
    (h := limbsValue rhs) (k := 32) (by rw [ORDER]; omega) (by rw [ORDER]; omega)
  have hacc16 := mul_shifted_eq_zero_iff (r := (result 0).val) (l := (lhs 0).val)
    (h := (rhs 0).val) (k := 16) (by rw [ORDER]; omega) (by rw [ORDER]; omega)
  rw [limbsValue_cast, limbsValue_cast, limbsValue_cast] at hacc
  rw [← hlow, ← hlow, ← hlow] at hacc16
  rw [AssertAddU32Limbs, hacc, hacc16]
  omega

/-- The addition of decomposed words has one output. -/
theorem addU32Limbs_iff {rangeLut : LookupTable}
    (hlut : addU8RangeCheckLookupTable = some rangeLut) (a b : BitVec 32) (c : F) :
    (∃ ta tb tc, DecomposeU32ToU16Limbs (a.toNat : F) rangeLut ta ∧
        DecomposeU32ToU16Limbs (b.toNat : F) rangeLut tb ∧
        DecomposeU32ToU16Limbs c rangeLut tc ∧ AssertAddU32Limbs tc.limbs ta.limbs tb.limbs) ↔
      c = ((a + b).toNat : F) := by
  have hvalue : ∀ {x : BitVec 32} {t : U16LimbTargets},
      DecomposeU32ToU16Limbs (x.toNat : F) rangeLut t → limbsValue t.limbs = x.toNat := by
    intro x t h
    obtain ⟨hlimbs, hx⟩ := h.bounds hlut
    have hlt := x.isLt
    have h0 := hlimbs 0
    have h1 := hlimbs 1
    have hword : limbsValue t.limbs < 2 ^ 32 := by
      rw [limbsValue]
      omega
    exact ((natCast_eq_iff (by rw [ORDER]; omega) (by rw [ORDER]; omega)).mp hx).symm
  constructor
  · rintro ⟨ta, tb, tc, ha, hb, hc, hassert⟩
    obtain ⟨hlimbs, hcast⟩ := hc.bounds hlut
    rw [assertAddU32Limbs_iff hlimbs (ha.bounds hlut).1 (hb.bounds hlut).1, hvalue ha,
      hvalue hb] at hassert
    rw [hcast, hassert, BitVec.toNat_add]
  · rintro rfl
    have ha := u16LimbDecomposition_satisfied hlut a
    have hb := u16LimbDecomposition_satisfied hlut b
    have hc := u16LimbDecomposition_satisfied hlut (a + b)
    refine ⟨_, _, _, ha, hb, hc, ?_⟩
    rw [assertAddU32Limbs_iff (hc.bounds hlut).1 (ha.bounds hlut).1 (hb.bounds hlut).1,
      hvalue ha, hvalue hb, hvalue hc, BitVec.toNat_add]

/-! ## Every gadget on words -/

/-- With the tables of a supported width, the constraints of each operation can be satisfied
with an output exactly when it is the result of the operation on words. -/
theorem u32_gadgets_correct {chunkBits : ℕ} (hw : chunkBits ∈ chunkWidths) :
    ∃ luts, BitwiseLuts.new chunkBits = some luts ∧ luts.chunkBits = chunkBits ∧
      ∀ (a b : BitVec 32) (c : F),
        ((∃ t, XorU32 (a.toNat : F) (b.toNat : F) luts t c) ↔ c = ((a ^^^ b).toNat : F)) ∧
        ((∃ t, AndU32 (a.toNat : F) (b.toNat : F) luts t c) ↔ c = ((a &&& b).toNat : F)) ∧
        ((∃ bytes overflow,
            WrappingAddU32 (a.toNat : F) (b.toNat : F) luts.byteRangeLut bytes overflow c) ↔
          c = ((a + b).toNat : F)) ∧
        ((∃ ta tb tc, DecomposeU32ToU16Limbs (a.toNat : F) luts.byteRangeLut ta ∧
            DecomposeU32ToU16Limbs (b.toNat : F) luts.byteRangeLut tb ∧
            DecomposeU32ToU16Limbs c luts.byteRangeLut tc ∧
            AssertAddU32Limbs tc.limbs ta.limbs tb.limbs) ↔ c = ((a + b).toNat : F)) ∧
        ∀ result lhs rhs : Fin 2 → F, (∀ k, (result k).val < 2 ^ 16) →
          (∀ k, (lhs k).val < 2 ^ 16) → (∀ k, (rhs k).val < 2 ^ 16) →
          limbsValue lhs = a.toNat → limbsValue rhs = b.toNat →
          (AssertAddU32Limbs result lhs rhs ↔ limbsValue result = (a + b).toNat) := by
  obtain ⟨luts, hnew, rfl, hrange, hxor, hand, hbyte⟩ := new_eq hw
  refine ⟨luts, hnew, rfl, fun a b c => ⟨?_, ?_, ?_, ?_, ?_⟩⟩
  · have hlt := (a ^^^ b).isLt
    rw [BitVec.toNat_xor] at hlt ⊢
    rw [← Nat.mod_eq_of_lt hlt]
    exact chunkwiseU32_iff BitVec.toNat_xor (fun _ => xor_digit) hw hrange hxor a b c
  · have hlt := (a &&& b).isLt
    rw [BitVec.toNat_and] at hlt ⊢
    rw [← Nat.mod_eq_of_lt hlt]
    exact chunkwiseU32_iff BitVec.toNat_and (fun _ => and_digit) hw hrange hand a b c
  · exact wrappingAddU32_iff hbyte a b c
  · exact addU32Limbs_iff hbyte a b c
  · intro result lhs rhs hresult hlhs hrhs ha hb
    rw [assertAddU32Limbs_iff hresult hlhs hrhs, ha, hb, BitVec.toNat_add]

/-- The sum and the exclusive or of two words, by nibbles. -/
theorem u32_gadgets_correct_nibbles : ∃ luts, BitwiseLuts.new 4 = some luts ∧
    (∃ t, XorU32 ((0xDEADBEEF#32).toNat : F) ((0xCAFEBABE#32).toNat : F) luts t 0x14530451) ∧
    ¬ ∃ bytes overflow, WrappingAddU32 ((0xFFFFFFFF#32).toNat : F) ((1#32).toNat : F)
      luts.byteRangeLut bytes overflow (2 ^ 32) := by
  obtain ⟨luts, hnew, -, hall⟩ := @u32_gadgets_correct 4 (by decide)
  refine ⟨luts, hnew, ?_, ?_⟩
  · exact (hall 0xDEADBEEF#32 0xCAFEBABE#32 0x14530451).1.mpr (by decide)
  · intro h
    exact absurd ((hall 0xFFFFFFFF#32 1#32 (2 ^ 32)).2.2.1.mp h) (by decide)

end Doxa.Circuit
