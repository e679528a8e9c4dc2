import Doxa.Curve.Schnorr
import Doxa.Lib.Limbs

/-!
# Scalar arithmetic

A scalar is an integer modulo the group order `N` in five 64-bit words. Sums, differences and
Montgomery products run over the words with a carry or a borrow and end in one conditional
subtraction. The loops are those of the source, on `u64` words with `u128` intermediate values.
-/

namespace Doxa.Scalar

open Lib

/-! ## Constants -/

/-- The group order. -/
def N : Scalar :=
  ![.ofNat 64 0xE80FD996948BFFE1, .ofNat 64 0xE8885C39D724A09C, .ofNat 64 0x7FFFFFE6CFB80639,
    .ofNat 64 0x7FFFFFF100000016, .ofNat 64 0x7FFFFFFD80000007]

/-- `-1 / N[0]` modulo `2^64`. -/
def N0I : BitVec 64 := .ofNat 64 0xD78BEF72057B7BDF

def ZERO : Scalar := fun _ => .ofNat 64 0

def ONE : Scalar := ![.ofNat 64 1, .ofNat 64 0, .ofNat 64 0, .ofNat 64 0, .ofNat 64 0]

/-- `2^640` modulo `N`. -/
def R2 : Scalar :=
  ![.ofNat 64 0xA01001DCE33DC739, .ofNat 64 0x6C3228D33F62ACCF, .ofNat 64 0xD1D796CC91CF8525,
    .ofNat 64 0xAADFFF5D1574C1D8, .ofNat 64 0x4ACA13B28CA251F5]

/-- `2^632` modulo `N`. -/
def T632 : Scalar :=
  ![.ofNat 64 0x2B0266F317CA91B3, .ofNat 64 0xEC1D26528E984773, .ofNat 64 0x8651D7865E12DB94,
    .ofNat 64 0xDA2ADFF5941574D0, .ofNat 64 0x53CACA12110CA256]

/-! ## Words -/

/-- `x as u128`. -/
def widen (x : BitVec 64) : BitVec 128 := x.setWidth 128

/-- `z as u64`. -/
def low (z : BitVec 128) : BitVec 64 := z.setWidth 64

/-- `(z >> 64) as u64`. -/
def high (z : BitVec 128) : BitVec 64 := (z >>> 64).setWidth 64

/-- Word `i`. -/
def word (s : Scalar) (i : ℕ) : BitVec 64 := s (Fin.ofNat 5 i)

/-- The assignment `r.0[i] = x`. -/
def setWord (s : Scalar) (i : ℕ) (x : BitVec 64) : Scalar := Function.update s (Fin.ofNat 5 i) x

/-! ## Sums and differences -/

/-- One round of `add_inner`: the result so far and the carry. -/
def addStep (s a : Scalar) (i : ℕ) (t : Scalar × BitVec 64) : Scalar × BitVec 64 :=
  let z := widen (s.word i) + widen (a.word i) + widen t.2
  (t.1.setWord i (low z), high z)

def addInner (s a : Scalar) : Scalar := (forLoop (addStep s a) 5 (ZERO, .ofNat 64 0)).1

/-- One round of `sub_inner`: the result so far and the borrow. -/
def subStep (s a : Scalar) (i : ℕ) (t : Scalar × BitVec 64) : Scalar × BitVec 64 :=
  let z := widen (s.word i) - widen (a.word i) - widen t.2
  (t.1.setWord i (low z), high z &&& .ofNat 64 1)

/-- The difference and whether it overflowed. -/
def subInner (s a : Scalar) : Scalar × BitVec 64 := forLoop (subStep s a) 5 (ZERO, .ofNat 64 0)

def addMod (s a : Scalar) : Scalar :=
  let t := s.addInner a
  let (w, cc) := t.subInner N
  if cc = .ofNat 64 0 then w else t

def subMod (s a : Scalar) : Scalar :=
  let (t, cc) := s.subInner a
  if cc = .ofNat 64 0 then t else t.addInner N

def negMod (s : Scalar) : Scalar := ZERO.subMod s

/-! ## Products -/

/-- One column of a round of `montymul`: the words so far, shifted down by one, and the carries
of both sums. -/
def montyColumn (s : Scalar) (m f : BitVec 64) (j : ℕ) (t : Scalar × BitVec 64 × BitVec 64) :
    Scalar × BitVec 64 × BitVec 64 :=
  let (r, cc1, cc2) := t
  let z := widen (s.word j) * widen m + widen (r.word j) + widen cc1
  let z' := widen f * widen (N.word j) + widen (low z) + widen cc2
  (if 0 < j then r.setWord (j - 1) (low z') else r, high z, high z')

/-- One round of `montymul`. -/
def montyRound (s rhs : Scalar) (i : ℕ) (r : Scalar) : Scalar :=
  let m := rhs.word i
  let f := (s.word 0 * m + r.word 0) * N0I
  let (r, cc1, cc2) := forLoop (montyColumn s m f) 5 (r, .ofNat 64 0, .ofNat 64 0)
  r.setWord 4 (cc1 + cc2)

def montymul (s rhs : Scalar) : Scalar :=
  let r := forLoop (montyRound s rhs) 5 ZERO
  let (r2, cc) := r.subInner N
  if cc = .ofNat 64 0 then r2 else r

def mulMod (s rhs : Scalar) : Scalar := (s.montymul R2).montymul rhs

/-! ## Decoding -/

/-- One round of `decode`: the words so far and the bytes from the fortieth on. -/
def decodeStep (buf : List (BitVec 8)) (i : ℕ) (t : Scalar × BitVec 8) : Scalar × BitVec 8 :=
  let b := buf.getD i (.ofNat 8 0)
  if i < 40 then
    (t.1.setWord (i / 8) (t.1.word (i / 8) ||| (b.setWidth 64 <<< (i % 8 * 8))), t.2)
  else (t.1, t.2 ||| b)

def decode (buf : List (BitVec 8)) : Option Scalar :=
  let n := buf.length
  let (r, extra) := forLoop (decodeStep buf) n (ZERO, .ofNat 8 0)
  if n ≤ 39 then some r
  else
    let (_, c) := r.subInner N
    let valid := c &&& (((extra.setWidth 64 + .ofNat 64 0xFF) >>> 8) - .ofNat 64 1)
    if valid = .ofNat 64 0 then none else some r

/-- The loop of `decode_reduce` over the chunks below `k`, the highest first; `none` is the panic
of an `unwrap`. -/
def decodeChunks (buf : List (BitVec 8)) : ℕ → Scalar → Option Scalar
  | 0, acc => some acc
  | k + 1, acc => do
    let b ← decode (slice buf (k * 39) 39)
    decodeChunks buf k ((acc.montymul T632).addMod b)

def decodeReduce (buf : List (BitVec 8)) : Option Scalar :=
  let n := buf.length
  if n ≤ 39 then decode buf
  else do
    let k := (n - 1) / 39
    let acc ← decode (slice buf (k * 39) (n - k * 39))
    decodeChunks buf k acc

/-! ## Values -/

/-- The integer of the words. -/
def toNat (s : Scalar) : ℕ := littleEndian 64 (fun i => (s.word i).toNat) 5

theorem N_toNat : N.toNat = 1067993516717146951041484916571792702745057740581727230159139685185762082554198619328292418486241 := by
  decide

theorem toNat_lt (s : Scalar) : s.toNat < 2 ^ (64 * 5) := littleEndian_lt fun i _ => (s.word i).isLt

theorem toNat_injective : Function.Injective toNat := by
  intro s t h
  funext k
  have hword := littleEndian_injective (fun i _ => (s.word i).isLt) (fun i _ => (t.word i).isLt) h
    k.val k.isLt
  have hk : Fin.ofNat 5 k.val = k := Fin.ofNat_val_eq_self k
  unfold word at hword
  rw [hk] at hword
  exact BitVec.eq_of_toNat_eq hword

theorem word_setWord (s : Scalar) {i j : ℕ} (hi : i < 5) (hj : j < 5) (x : BitVec 64) :
    (s.setWord i x).word j = if j = i then x else s.word j := by
  have hindex : Fin.ofNat 5 j = Fin.ofNat 5 i ↔ j = i := by
    rw [Fin.ext_iff, Fin.val_ofNat, Fin.val_ofNat, Nat.mod_eq_of_lt hi, Nat.mod_eq_of_lt hj]
  unfold word setWord
  rw [Function.update_apply]
  simp only [hindex]

theorem widen_toNat (x : BitVec 64) : (widen x).toNat = x.toNat := by
  rw [widen, BitVec.toNat_setWidth, Nat.mod_eq_of_lt (x.isLt.trans (by norm_num))]

theorem low_toNat (z : BitVec 128) : (low z).toNat = z.toNat % 2 ^ 64 := BitVec.toNat_setWidth 64 z

theorem high_toNat (z : BitVec 128) : (high z).toNat = z.toNat / 2 ^ 64 := by
  have hz := z.isLt
  rw [high, BitVec.toNat_setWidth, BitVec.toNat_ushiftRight, Nat.shiftRight_eq_div_pow]
  exact Nat.mod_eq_of_lt (by omega)

/-! ## Loops -/

/-- The words and the carry after `n` rounds of `add_inner`. -/
def Added (s a : Scalar) (n : ℕ) (t : Scalar × BitVec 64) : Prop :=
  t.2.toNat = carryInto 64 (fun i => (s.word i).toNat + (a.word i).toNat) n ∧
    ∀ j < n, (t.1.word j).toNat =
      columnWord 64 (fun i => (s.word i).toNat + (a.word i).toNat) j

theorem Added.step {s a : Scalar} {n : ℕ} (hn : n < 5) {t : Scalar × BitVec 64}
    (h : Added s a n t) : Added s a (n + 1) (addStep s a n t) := by
  obtain ⟨hcarry, hwords⟩ := h
  have hz : (widen (s.word n) + widen (a.word n) + widen t.2).toNat =
      (s.word n).toNat + (a.word n).toNat +
        carryInto 64 (fun i => (s.word i).toNat + (a.word i).toNat) n := by
    have hs := (s.word n).isLt
    have ha := (a.word n).isLt
    have ht := t.2.isLt
    rw [BitVec.toNat_add, BitVec.toNat_add, widen_toNat, widen_toNat, widen_toNat, ← hcarry]
    omega
  refine ⟨?_, fun j hj => ?_⟩
  · rw [addStep, high_toNat, hz, carryInto]
  · rw [addStep, word_setWord t.1 hn (by omega), apply_ite BitVec.toNat, low_toNat, hz]
    rcases Nat.lt_succ_iff_lt_or_eq.mp hj with hlt | rfl
    · rw [if_neg hlt.ne, hwords j hlt]
    · rw [if_pos rfl, columnWord]

/-- The sum; the last carry is dropped. -/
theorem addInner_toNat (s a : Scalar) :
    (s.addInner a).toNat = (s.toNat + a.toNat) % 2 ^ (64 * 5) := by
  have hloop : Added s a 5 (forLoop (addStep s a) 5 (ZERO, .ofNat 64 0)) :=
    forLoop_inv (Added s a) ⟨rfl, fun j hj => absurd hj (Nat.not_lt_zero j)⟩
      fun n hn t ht => ht.step hn
  have htotal := littleEndian_columnWord 64 (fun i => (s.word i).toNat + (a.word i).toNat) 5
  have hsum : littleEndian 64 (fun i => (s.word i).toNat + (a.word i).toNat) 5 =
      s.toNat + a.toNat := by
    simp only [toNat, littleEndian]
    ring
  have hvalue : (s.addInner a).toNat =
      littleEndian 64 (columnWord 64 fun i => (s.word i).toNat + (a.word i).toNat) 5 :=
    littleEndian_congr hloop.2
  rw [hsum, ← hvalue] at htotal
  rw [← htotal, Nat.add_mul_mod_self_right, Nat.mod_eq_of_lt (toNat_lt _)]

/-- The words and the borrow after `n` rounds of `sub_inner`. -/
def Subtracted (s a : Scalar) (n : ℕ) (t : Scalar × BitVec 64) : Prop :=
  t.2.toNat = borrowFrom (fun i => (s.word i).toNat) (fun i => (a.word i).toNat) n ∧
    ∀ j < n, (t.1.word j).toNat =
      differenceWord 64 (fun i => (s.word i).toNat) (fun i => (a.word i).toNat) j

theorem Subtracted.step {s a : Scalar} {n : ℕ} (hn : n < 5) {t : Scalar × BitVec 64}
    (h : Subtracted s a n t) : Subtracted s a (n + 1) (subStep s a n t) := by
  obtain ⟨hborrow, hwords⟩ := h
  have hs := (s.word n).isLt
  have ha := (a.word n).isLt
  have hle := borrowFrom_le (fun i => (s.word i).toNat) (fun i => (a.word i).toNat) n
  have hcolumn := differenceWord_add (s := fun i => (s.word i).toNat)
    (a := fun i => (a.word i).toNat) (i := n) ha
  have hz : (widen (s.word n) - widen (a.word n) - widen t.2).toNat =
      differenceWord 64 (fun i => (s.word i).toNat) (fun i => (a.word i).toNat) n +
        borrowFrom (fun i => (s.word i).toNat) (fun i => (a.word i).toNat) (n + 1) *
          (2 ^ 128 - 2 ^ 64) := by
    rw [BitVec.toNat_sub, BitVec.toNat_sub, widen_toNat, widen_toNat, widen_toNat, hborrow]
    rw [borrowFrom] at hcolumn ⊢
    split at hcolumn
    · case isTrue hlt =>
        rw [if_pos hlt]
        omega
    · case isFalse hnot =>
        rw [if_neg hnot]
        omega
  have hword : differenceWord 64 (fun i => (s.word i).toNat) (fun i => (a.word i).toNat) n <
      2 ^ 64 := by
    rw [borrowFrom] at hcolumn
    split at hcolumn <;> omega
  have hlast := borrowFrom_le (fun i => (s.word i).toNat) (fun i => (a.word i).toNat) (n + 1)
  refine ⟨?_, fun j hj => ?_⟩
  · rw [subStep, BitVec.toNat_and, BitVec.toNat_ofNat, high_toNat, hz, Nat.one_mod_eq_one.mpr
      (by norm_num), Nat.and_one_is_mod]
    omega
  · rw [subStep, word_setWord t.1 hn (by omega), apply_ite BitVec.toNat, low_toNat, hz]
    rcases Nat.lt_succ_iff_lt_or_eq.mp hj with hlt | rfl
    · rw [if_neg hlt.ne, hwords j hlt]
    · rw [if_pos rfl]
      omega

theorem subInner_spec (s a : Scalar) :
    (s.subInner a).1.toNat + a.toNat = s.toNat + (s.subInner a).2.toNat * 2 ^ (64 * 5) ∧
      (s.subInner a).2.toNat ≤ 1 := by
  have hloop : Subtracted s a 5 (s.subInner a) :=
    forLoop_inv (Subtracted s a) ⟨rfl, fun j hj => absurd hj (Nat.not_lt_zero j)⟩
      fun n hn t ht => ht.step hn
  obtain ⟨hborrow, hwords⟩ := hloop
  have htotal := littleEndian_differenceWord (s := fun i => (s.word i).toNat) (n := 5)
    fun i _ => (a.word i).isLt
  have hvalue : (s.subInner a).1.toNat =
      littleEndian 64 (differenceWord 64 (fun i => (s.word i).toNat) fun i => (a.word i).toNat) 5 :=
    littleEndian_congr hwords
  rw [← hvalue, ← hborrow] at htotal
  refine ⟨htotal, ?_⟩
  rw [hborrow]
  exact borrowFrom_le _ _ 5

/-! ## Reduction -/

theorem two_mul_N_lt : 2 * N.toNat < 2 ^ (64 * 5) := by
  have hhalf : 2 * N.toNat < 2 ^ 160 * 2 ^ 160 := by
    rw [N_toNat]
    norm_num
  have hexp : 160 + 160 = 64 * 5 := rfl
  rwa [← pow_add, hexp] at hhalf

/-- A conditional subtraction of `N`. -/
def reduceOnce (t : Scalar) : Scalar :=
  if (t.subInner N).2 = .ofNat 64 0 then (t.subInner N).1 else t

theorem eq_zero_iff {c : BitVec 64} : c = .ofNat 64 0 ↔ c.toNat = 0 := by
  rw [← BitVec.toNat_inj]
  rfl

theorem reduceOnce_toNat {t : Scalar} (h : t.toNat < 2 * N.toNat) :
    t.reduceOnce.toNat = t.toNat % N.toNat := by
  obtain ⟨hvalue, hborrow⟩ := subInner_spec t N
  have hlt := toNat_lt (t.subInner N).1
  unfold reduceOnce
  split
  · case isTrue h0 =>
      rw [eq_zero_iff.mp h0, Nat.zero_mul, Nat.add_zero] at hvalue
      rw [← hvalue, Nat.add_mod_right, Nat.mod_eq_of_lt (by omega)]
  · case isFalse h0 =>
      have hone : (t.subInner N).2.toNat = 1 := by
        have hne := eq_zero_iff.not.mp h0
        omega
      rw [hone, Nat.one_mul] at hvalue
      exact (Nat.mod_eq_of_lt (by omega)).symm

theorem addMod_toNat {s a : Scalar} (h : s.toNat + a.toNat < 2 * N.toNat) :
    (s.addMod a).toNat = (s.toNat + a.toNat) % N.toNat := by
  have hsum := addInner_toNat s a
  rw [Nat.mod_eq_of_lt (h.trans two_mul_N_lt)] at hsum
  rw [← hsum] at h ⊢
  exact reduceOnce_toNat h

theorem subMod_toNat {s a : Scalar} (hs : s.toNat < N.toNat) (ha : a.toNat < N.toNat) :
    (s.subMod a).toNat = (s.toNat + (N.toNat - a.toNat)) % N.toNat := by
  obtain ⟨hvalue, hborrow⟩ := subInner_spec s a
  have hlt := toNat_lt (s.subInner a).1
  unfold subMod
  dsimp only
  split
  · case isTrue h0 =>
      rw [eq_zero_iff.mp h0, Nat.zero_mul, Nat.add_zero] at hvalue
      have hsplit : s.toNat + (N.toNat - a.toNat) = (s.subInner a).1.toNat + N.toNat := by omega
      rw [hsplit, Nat.add_mod_right, Nat.mod_eq_of_lt (by omega)]
  · case isFalse h0 =>
      have hone : (s.subInner a).2.toNat = 1 := by
        have hne := eq_zero_iff.not.mp h0
        omega
      rw [hone, Nat.one_mul] at hvalue
      have hsplit : (s.subInner a).1.toNat + N.toNat =
          s.toNat + (N.toNat - a.toNat) + 2 ^ (64 * 5) := by omega
      have hN := two_mul_N_lt
      rw [addInner_toNat, hsplit, Nat.add_mod_right, Nat.mod_eq_of_lt (by omega),
        Nat.mod_eq_of_lt (by omega)]

theorem negMod_toNat {s : Scalar} (hs : s.toNat < N.toNat) :
    s.negMod.toNat = (N.toNat - s.toNat) % N.toNat := by
  have hzero : ZERO.toNat = 0 := rfl
  rw [negMod, subMod_toNat (by omega) hs, hzero, Nat.zero_add]

/-! ## Montgomery products -/

section Monty

variable (s r₀ : Scalar) (m f : BitVec 64)

/-- The columns of the product with one word, added to the words so far. -/
def productColumn (j : ℕ) : ℕ := (s.word j).toNat * m.toNat + (r₀.word j).toNat

/-- The columns of the multiple of `N` that clears the lowest word. -/
def reducedColumn (j : ℕ) : ℕ :=
  f.toNat * (N.word j).toNat + columnWord 64 (productColumn s r₀ m) j

/-- The words and the two carries after `n` columns of a round. -/
def Reduced (n : ℕ) (t : Scalar × BitVec 64 × BitVec 64) : Prop :=
  t.2.1.toNat = carryInto 64 (productColumn s r₀ m) n ∧
    t.2.2.toNat = carryInto 64 (reducedColumn s r₀ m f) n ∧
    ∀ j < 5, (t.1.word j).toNat =
      if j + 1 < n then columnWord 64 (reducedColumn s r₀ m f) (j + 1) else (r₀.word j).toNat

variable {s r₀ m f}

/-- A column fits in a double word. -/
theorem column_toNat (x y z c : BitVec 64) :
    (widen x * widen y + widen z + widen c).toNat = x.toNat * y.toNat + z.toNat + c.toNat := by
  have hmul : x.toNat * y.toNat ≤ (2 ^ 64 - 1) * (2 ^ 64 - 1) :=
    Nat.mul_le_mul (Nat.le_pred_of_lt x.isLt) (Nat.le_pred_of_lt y.isLt)
  have hz := z.isLt
  have hc := c.isLt
  rw [BitVec.toNat_add, BitVec.toNat_add, BitVec.toNat_mul, widen_toNat, widen_toNat, widen_toNat,
    widen_toNat]
  omega

theorem Reduced.step {n : ℕ} (hn : n < 5) {t : Scalar × BitVec 64 × BitVec 64}
    (h : Reduced s r₀ m f n t) : Reduced s r₀ m f (n + 1) (montyColumn s m f n t) := by
  obtain ⟨r, cc1, cc2⟩ := t
  obtain ⟨hcarry, hcarry', hwords⟩ := h
  dsimp only at hcarry hcarry' hwords
  have hword := hwords n hn
  rw [if_neg (by omega)] at hword
  have hz := column_toNat (s.word n) m (r.word n) cc1
  rw [hword, hcarry] at hz
  have hlow : (low (widen (s.word n) * widen m + widen (r.word n) + widen cc1)).toNat =
      columnWord 64 (productColumn s r₀ m) n := by rw [low_toNat, hz, columnWord, productColumn]
  have hz' := column_toNat f (N.word n)
    (low (widen (s.word n) * widen m + widen (r.word n) + widen cc1)) cc2
  rw [hlow, hcarry'] at hz'
  refine ⟨?_, ?_, fun j hj => ?_⟩
  · rw [montyColumn, high_toNat, hz, carryInto, productColumn]
  · rw [montyColumn, high_toNat, hz', carryInto, reducedColumn]
  · have hold := hwords j hj
    rw [montyColumn]
    split
    · case isTrue hpos =>
        rw [word_setWord r (by omega) hj, apply_ite BitVec.toNat, low_toNat, hz', hold]
        rcases Nat.lt_trichotomy j (n - 1) with hlt | rfl | hgt
        · rw [if_neg hlt.ne, if_pos (by omega), if_pos (by omega)]
        · rw [if_pos rfl, if_pos (by omega), Nat.sub_add_cancel hpos]
          rfl
        · rw [if_neg hgt.ne', if_neg (by omega), if_neg (by omega)]
    · case isFalse hzero =>
        rw [hold, if_neg (by omega), if_neg (by omega)]

/-- The word that clears the lowest column. -/
theorem cleared_column (hf : f = (s.word 0 * m + r₀.word 0) * N0I) :
    columnWord 64 (reducedColumn s r₀ m f) 0 = 0 := by
  have hinv : (N0I.toNat * (N.word 0).toNat + 1) % 2 ^ 64 = 0 := by decide
  have hvalue : f.toNat = (productColumn s r₀ m 0 * N0I.toNat) % 2 ^ 64 := by
    rw [hf, BitVec.toNat_mul, BitVec.toNat_add, BitVec.toNat_mul, Nat.mod_add_mod, Nat.mod_mul_mod]
    rfl
  rw [columnWord_zero, reducedColumn, columnWord_zero, hvalue, Nat.add_mod_mod, Nat.add_mod, Nat.mod_mul_mod, ← Nat.add_mod]
  have hfactor : productColumn s r₀ m 0 * N0I.toNat * (N.word 0).toNat + productColumn s r₀ m 0 =
      productColumn s r₀ m 0 * (N0I.toNat * (N.word 0).toNat + 1) := by ring
  rw [hfactor, Nat.mul_mod, hinv, Nat.mul_zero, Nat.zero_mod]

/-- A round adds a multiple of one factor and of `N` and divides by `2^64`. -/
theorem montyRound_toNat {s rhs r : Scalar} {i : ℕ} (hs : s.toNat + N.toNat ≤ 2 ^ (64 * 5))
    (hr : r.toNat < s.toNat + N.toNat) : ∃ f < 2 ^ 64,
      2 ^ 64 * (montyRound s rhs i r).toNat =
        r.toNat + s.toNat * (rhs.word i).toNat + f * N.toNat := by
  obtain ⟨f, hf⟩ : ∃ f, f = (s.word 0 * rhs.word i + r.word 0) * N0I := ⟨_, rfl⟩
  have hloop : Reduced s r (rhs.word i) f 5
      (forLoop (montyColumn s (rhs.word i) f) 5 (r, .ofNat 64 0, .ofNat 64 0)) :=
    forLoop_inv (Reduced s r (rhs.word i) f) ⟨rfl, rfl, fun j _ => (if_neg (by omega)).symm⟩
      fun n hn t ht => ht.step hn
  have hround : montyRound s rhs i r = setWord
      (forLoop (montyColumn s (rhs.word i) f) 5 (r, .ofNat 64 0, .ofNat 64 0)).1 4
      ((forLoop (montyColumn s (rhs.word i) f) 5 (r, .ofNat 64 0, .ofNat 64 0)).2.1 +
        (forLoop (montyColumn s (rhs.word i) f) 5 (r, .ofNat 64 0, .ofNat 64 0)).2.2) := by
    rw [hf]
    rfl
  rw [hround]
  generalize forLoop (montyColumn s (rhs.word i) f) 5 (r, .ofNat 64 0, .ofNat 64 0) = t at hloop
  obtain ⟨hcarry, hcarry', hwords⟩ := hloop
  refine ⟨f.toNat, f.isLt, ?_⟩
  have hproduct := littleEndian_columnWord 64 (productColumn s r (rhs.word i)) 5
  have hreduced := littleEndian_columnWord 64 (reducedColumn s r (rhs.word i) f) 5
  rw [← hcarry] at hproduct
  rw [← hcarry', littleEndian_succ', cleared_column hf, Nat.zero_add] at hreduced
  have hproduct' : littleEndian 64 (productColumn s r (rhs.word i)) 5 =
      s.toNat * (rhs.word i).toNat + r.toNat := by
    simp only [toNat, littleEndian, productColumn]
    ring
  have hreduced' : littleEndian 64 (reducedColumn s r (rhs.word i) f) 5 =
      f.toNat * N.toNat + littleEndian 64 (columnWord 64 (productColumn s r (rhs.word i))) 5 := by
    simp only [toNat, littleEndian, reducedColumn]
    ring
  have hwords' : littleEndian 64 (fun j => (t.1.word j).toNat) 4 =
      littleEndian 64 (fun j => columnWord 64 (reducedColumn s r (rhs.word i) f) (j + 1)) 4 := by
    refine littleEndian_congr fun j hj => ?_
    rw [hwords j (by omega), if_pos (by omega)]
  rw [hproduct'] at hproduct
  rw [hreduced', ← hwords'] at hreduced
  have hvalue : (t.1.setWord 4 (t.2.1 + t.2.2)).toNat =
      littleEndian 64 (fun j => (t.1.word j).toNat) 4 + (t.2.1 + t.2.2).toNat * 2 ^ (64 * 4) := by
    rw [toNat, littleEndian, word_setWord t.1 (by decide) (by decide), if_pos rfl]
    refine congrArg (· + _) (littleEndian_congr fun j hj => ?_)
    rw [word_setWord t.1 (by decide) (by omega), if_neg (by omega)]
  have hpow : 2 ^ (64 * 5) = 2 ^ 64 * 2 ^ (64 * 4) := by rw [← pow_add]
  have htotal : 2 ^ 64 * (littleEndian 64 (fun j => (t.1.word j).toNat) 4 +
      (t.2.1.toNat + t.2.2.toNat) * 2 ^ (64 * 4)) =
        r.toNat + s.toNat * (rhs.word i).toNat + f.toNat * N.toNat := by
    rw [hpow] at hproduct hreduced
    linear_combination hproduct + hreduced
  have hcarries : t.2.1.toNat + t.2.2.toNat < 2 ^ 64 := by
    have hm : s.toNat * (rhs.word i).toNat ≤ s.toNat * (2 ^ 64 - 1) :=
      Nat.mul_le_mul_left _ (Nat.le_pred_of_lt (rhs.word i).isLt)
    have hfN : f.toNat * N.toNat ≤ (2 ^ 64 - 1) * N.toNat :=
      Nat.mul_le_mul_right _ (Nat.le_pred_of_lt f.isLt)
    have hlt : (t.2.1.toNat + t.2.2.toNat) * 2 ^ (64 * 4) < 2 ^ 64 * 2 ^ (64 * 4) := by omega
    exact Nat.lt_of_mul_lt_mul_right hlt
  rw [hvalue, BitVec.toNat_add, Nat.mod_eq_of_lt hcarries, htotal]

/-- The words after `i` rounds. -/
def Divided (s rhs : Scalar) (i : ℕ) (r : Scalar) : Prop :=
  ∃ F < 2 ^ (64 * i),
    2 ^ (64 * i) * r.toNat = s.toNat * littleEndian 64 (fun k => (rhs.word k).toNat) i + F * N.toNat

theorem Divided.lt {s rhs r : Scalar} {i : ℕ} (h : Divided s rhs i r) :
    r.toNat < s.toNat + N.toNat := by
  obtain ⟨F, hF, hdiv⟩ := h
  have hN : 0 < N.toNat := by
    rw [N_toNat]
    norm_num
  exact montgomery_lt hN (littleEndian_lt fun k _ => (rhs.word k).isLt).le hF hdiv

theorem Divided.step {s rhs r : Scalar} {i : ℕ} (hs : s.toNat + N.toNat ≤ 2 ^ (64 * 5))
    (h : Divided s rhs i r) : Divided s rhs (i + 1) (montyRound s rhs i r) := by
  obtain ⟨f, hf, hround⟩ := @montyRound_toNat s rhs r i hs h.lt
  obtain ⟨F, hF, hdiv⟩ := h
  refine ⟨F + f * 2 ^ (64 * i), ?_, montgomery_step hdiv hround⟩
  rw [Nat.mul_succ, pow_add]
  have hmul : f * 2 ^ (64 * i) ≤ (2 ^ 64 - 1) * 2 ^ (64 * i) :=
    Nat.mul_le_mul_right _ (Nat.le_pred_of_lt hf)
  omega

/-- The product of two factors of which the second is below `N`. -/
theorem montymul_spec {s rhs : Scalar} (hs : s.toNat + N.toNat ≤ 2 ^ (64 * 5))
    (hrhs : rhs.toNat < N.toNat) : (s.montymul rhs).toNat < N.toNat ∧
      2 ^ (64 * 5) * (s.montymul rhs).toNat ≡ s.toNat * rhs.toNat [MOD N.toNat] := by
  have hloop : Divided s rhs 5 (forLoop (montyRound s rhs) 5 ZERO) := by
    refine forLoop_inv (Divided s rhs) ⟨0, by norm_num, ?_⟩ fun i _ r hr => hr.step hs
    have hzero : ZERO.toNat = 0 := rfl
    rw [hzero, littleEndian, Nat.mul_zero, Nat.mul_zero, Nat.zero_mul]
  have hreduce : s.montymul rhs = (forLoop (montyRound s rhs) 5 ZERO).reduceOnce := rfl
  rw [hreduce]
  generalize forLoop (montyRound s rhs) 5 ZERO = r at hloop
  obtain ⟨F, hF, hdiv⟩ := hloop
  have hdiv' : 2 ^ (64 * 5) * r.toNat = s.toNat * rhs.toNat + F * N.toNat := hdiv
  have hlt : r.toNat < 2 * N.toNat := by
    have hsum := montgomery_lt (Nat.zero_lt_of_lt hrhs) (toNat_lt s).le hF
      (hdiv'.trans (by rw [Nat.mul_comm]))
    omega
  rw [reduceOnce_toNat hlt]
  refine ⟨Nat.mod_lt _ (by omega), ?_⟩
  calc 2 ^ (64 * 5) * (r.toNat % N.toNat)
      ≡ 2 ^ (64 * 5) * r.toNat [MOD N.toNat] := (Nat.mod_modEq _ _).mul_left _
    _ = s.toNat * rhs.toNat + F * N.toNat := hdiv'
    _ ≡ s.toNat * rhs.toNat [MOD N.toNat] := by simp [Nat.ModEq]

end Monty

theorem N_coprime_two_pow (k : ℕ) : N.toNat.Coprime (2 ^ k) := by
  refine Nat.Coprime.pow_right k ?_
  rw [N_toNat]
  norm_num

theorem two_pow_320 : 2 ^ (64 * 5) = 2 ^ 160 * 2 ^ 160 := by rw [← pow_add]

theorem two_pow_312 : 2 ^ (8 * 39) = 2 ^ 156 * 2 ^ 156 := by rw [← pow_add]

theorem R2_toNat : R2.toNat =
    624019960623364527448457231688836422125560607095429164912527378834797040967609741804725967111993 := by
  decide

theorem R2_modEq : R2.toNat ≡ 2 ^ (64 * 5) * 2 ^ (64 * 5) [MOD N.toNat] := by
  rw [two_pow_320, R2_toNat, N_toNat]
  norm_num [Nat.ModEq]

theorem T632_toNat : T632.toNat =
    699136473642136349028814212106164913205274231579077642974565839081472909482495231131365468180915 := by
  decide

theorem T632_modEq : T632.toNat ≡ 2 ^ (64 * 5) * 2 ^ (8 * 39) [MOD N.toNat] := by
  rw [two_pow_320, two_pow_312, T632_toNat, N_toNat]
  norm_num [Nat.ModEq]

theorem mulMod_spec {s rhs : Scalar} (hs : s.toNat + N.toNat ≤ 2 ^ (64 * 5))
    (hrhs : rhs.toNat < N.toNat) : (s.mulMod rhs).toNat < N.toNat ∧
      (s.mulMod rhs).toNat ≡ s.toNat * rhs.toNat [MOD N.toNat] := by
  have hR2 : R2.toNat < N.toNat := by
    rw [R2_toNat, N_toNat]
    norm_num
  obtain ⟨hlt, hfirst⟩ := montymul_spec hs hR2
  have hsum : (s.montymul R2).toNat + N.toNat ≤ 2 ^ (64 * 5) := by
    have hN := two_mul_N_lt
    omega
  obtain ⟨hlt', hsecond⟩ := montymul_spec hsum hrhs
  refine ⟨hlt', ?_⟩
  have hcoprime := N_coprime_two_pow (64 * 5)
  have hradix := R2_modEq
  unfold mulMod
  generalize 2 ^ (64 * 5) = M at *
  refine Nat.ModEq.cancel_left_of_coprime hcoprime (Nat.ModEq.cancel_left_of_coprime hcoprime ?_)
  calc M * (M * ((s.montymul R2).montymul rhs).toNat)
      ≡ M * ((s.montymul R2).toNat * rhs.toNat) [MOD N.toNat] := hsecond.mul_left M
    _ = M * (s.montymul R2).toNat * rhs.toNat := by ring
    _ ≡ s.toNat * R2.toNat * rhs.toNat [MOD N.toNat] := hfirst.mul_right _
    _ ≡ s.toNat * (M * M) * rhs.toNat [MOD N.toNat] := (hradix.mul_left _).mul_right _
    _ = M * (M * (s.toNat * rhs.toNat)) := by ring

/-! ## Decoding -/

theorem setWord_toNat (s : Scalar) {i : ℕ} (hi : i < 5) (x : BitVec 64) :
    (s.setWord i x).toNat + (s.word i).toNat * 2 ^ (64 * i) =
      s.toNat + x.toNat * 2 ^ (64 * i) := by
  have hword : ∀ j < 5, ((s.setWord i x).word j).toNat =
      if j = i then x.toNat else (s.word j).toNat := by
    intro j hj
    rw [word_setWord s hi hj, apply_ite BitVec.toNat]
  simp only [toNat, littleEndian, hword 0 (by decide), hword 1 (by decide), hword 2 (by decide),
    hword 3 (by decide), hword 4 (by decide)]
  interval_cases i <;> simp <;> ring

theorem word_mul_le (s : Scalar) {i : ℕ} (hi : i < 5) :
    (s.word i).toNat * 2 ^ (64 * i) ≤ s.toNat := by
  have hzero := setWord_toNat s hi (.ofNat 64 0)
  have hx : (BitVec.ofNat 64 0).toNat = 0 := rfl
  rw [hx, Nat.zero_mul, Nat.add_zero] at hzero
  omega

section Decode

variable (buf : List (BitVec 8))

/-- Byte `i`, zero after the last one. -/
def byte (i : ℕ) : ℕ := (buf.getD i (.ofNat 8 0)).toNat

theorem byte_lt (i : ℕ) : byte buf i < 2 ^ 8 := (buf.getD i (.ofNat 8 0)).isLt

/-- The words and the upper bytes after `i` bytes. -/
def Decoded (i : ℕ) (t : Scalar × BitVec 8) : Prop :=
  t.1.toNat = littleEndian 8 (byte buf) (min i 40) ∧
    (t.2 = .ofNat 8 0 ↔ ∀ j < i, 40 ≤ j → byte buf j = 0)

variable {buf}

theorem Decoded.step {i : ℕ} {t : Scalar × BitVec 8} (h : Decoded buf i t) :
    Decoded buf (i + 1) (decodeStep buf i t) := by
  obtain ⟨hvalue, hextra⟩ := h
  unfold decodeStep
  dsimp only
  split
  · case isTrue hi =>
      rw [Nat.min_eq_left hi.le] at hvalue
      have hlt := littleEndian_lt (n := i) fun j _ => byte_lt buf j
      rw [← hvalue] at hlt
      have hexp : 8 * i = 64 * (i / 8) + 8 * (i % 8) := by omega
      have hword : (t.1.word (i / 8)).toNat < 2 ^ (i % 8 * 8) := by
        have hle := (word_mul_le t.1 (i := i / 8) (by omega)).trans_lt hlt
        rw [hexp, pow_add, Nat.mul_comm, Nat.mul_comm 8] at hle
        exact Nat.lt_of_mul_lt_mul_left hle
      have hbyte := byte_lt buf i
      have hshift : ((buf.getD i (.ofNat 8 0)).setWidth 64 <<< (i % 8 * 8)).toNat =
          byte buf i * 2 ^ (i % 8 * 8) := by
        have hsmall : byte buf i * 2 ^ (i % 8 * 8) < 2 ^ 64 := by
          calc byte buf i * 2 ^ (i % 8 * 8) < 2 ^ 8 * 2 ^ (i % 8 * 8) :=
                Nat.mul_lt_mul_of_pos_right hbyte (Nat.two_pow_pos _)
            _ = 2 ^ (8 + i % 8 * 8) := (pow_add 2 8 _).symm
            _ ≤ 2 ^ 64 := Nat.pow_le_pow_right (by decide) (by omega)
        have hmod : (buf.getD i (.ofNat 8 0)).toNat % 2 ^ 64 = byte buf i :=
          Nat.mod_eq_of_lt (hbyte.trans (by norm_num))
        rw [BitVec.toNat_shiftLeft, BitVec.toNat_setWidth, hmod, Nat.shiftLeft_eq]
        exact Nat.mod_eq_of_lt hsmall
      have hor : (t.1.word (i / 8) ||| ((buf.getD i (.ofNat 8 0)).setWidth 64 <<<
          (i % 8 * 8))).toNat = (t.1.word (i / 8)).toNat + byte buf i * 2 ^ (i % 8 * 8) := by
        rw [BitVec.toNat_or, hshift, Nat.or_comm, Nat.mul_comm,
          ← Nat.two_pow_add_eq_or_of_lt hword, Nat.add_comm]
      have hset := setWord_toNat t.1 (i := i / 8) (by omega) (t.1.word (i / 8) |||
        ((buf.getD i (.ofNat 8 0)).setWidth 64 <<< (i % 8 * 8)))
      rw [hor, hvalue] at hset
      refine ⟨?_, hextra.trans ⟨fun hall j hj h40 => absurd h40 (by omega), fun hall j hj =>
        hall j (hj.trans (Nat.lt_succ_self i))⟩⟩
      rw [Nat.min_eq_left hi, littleEndian, hexp, pow_add, Nat.mul_comm 8]
      linear_combination hset
  · case isFalse hi =>
      rw [Nat.min_eq_right (by omega)] at hvalue
      refine ⟨?_, ?_⟩
      · rw [Nat.min_eq_right (by omega)]
        exact hvalue
      · have hbyte : byte buf i = 0 ↔ buf.getD i (.ofNat 8 0) = .ofNat 8 0 := by
          rw [← BitVec.toNat_inj]
          rfl
        have hor : (t.2 ||| buf.getD i (.ofNat 8 0)) = .ofNat 8 0 ↔
            t.2 = .ofNat 8 0 ∧ buf.getD i (.ofNat 8 0) = .ofNat 8 0 := BitVec.or_eq_zero_iff
        rw [hor, hextra, ← hbyte, Nat.forall_lt_succ_right]
        exact and_congr_right fun _ => ⟨fun h _ => h, fun h => h (by omega)⟩

/-- The little-endian integer of the bytes. -/
def leValue (buf : List (BitVec 8)) : ℕ := Nat.ofDigits 256 (buf.map BitVec.toNat)

theorem leValue_eq (buf : List (BitVec 8)) :
    leValue buf = littleEndian 8 (byte buf) buf.length := by
  have hlist := littleEndian_getD (w := 8) (buf.map BitVec.toNat)
  rw [List.length_map] at hlist
  refine hlist.symm.trans (littleEndian_congr fun i _ => ?_)
  have hzero : (0 : ℕ) = (BitVec.ofNat 8 0).toNat := rfl
  rw [hzero, List.getD_map]
  rfl

theorem decodeLoop_spec (buf : List (BitVec 8)) (n : ℕ) :
    Decoded buf n (forLoop (decodeStep buf) n (ZERO, .ofNat 8 0)) := by
  refine forLoop_inv (Decoded buf) ⟨rfl, ?_⟩ fun i _ t ht => ht.step
  exact ⟨fun _ j hj => absurd hj (Nat.not_lt_zero j), fun _ => rfl⟩

/-- Short inputs are decoded as they are. -/
theorem decode_short {buf : List (BitVec 8)} (h : buf.length ≤ 39) :
    ∃ s, decode buf = some s ∧ s.toNat = leValue buf := by
  obtain ⟨hvalue, -⟩ := decodeLoop_spec buf buf.length
  rw [Nat.min_eq_left (by omega), ← leValue_eq] at hvalue
  exact ⟨_, if_pos h, hvalue⟩

/-- The test of the source: the words are below `N` and no later byte is set. -/
theorem valid_iff {c : BitVec 64} {extra : BitVec 8} (hc : c.toNat ≤ 1) :
    c &&& (((extra.setWidth 64 + .ofNat 64 0xFF) >>> 8) - .ofNat 64 1) = .ofNat 64 0 ↔
      ¬ (c.toNat = 1 ∧ extra = .ofNat 8 0) := by
  have hextra : extra = .ofNat 8 0 ↔ extra.toNat = 0 := by
    rw [← BitVec.toNat_inj]
    rfl
  have he := extra.isLt
  have hshift : ((extra.setWidth 64 + .ofNat 64 0xFF) >>> 8).toNat =
      if extra.toNat = 0 then 0 else 1 := by
    rw [BitVec.toNat_ushiftRight, BitVec.toNat_add, BitVec.toNat_setWidth, BitVec.toNat_ofNat,
      Nat.shiftRight_eq_div_pow]
    split <;> omega
  have hmask : (((extra.setWidth 64 + .ofNat 64 0xFF) >>> 8) - .ofNat 64 1).toNat =
      if extra.toNat = 0 then 2 ^ 64 - 1 else 0 := by
    rw [BitVec.toNat_sub, hshift, BitVec.toNat_ofNat]
    split <;> rfl
  rw [eq_zero_iff, BitVec.toNat_and, hmask, hextra]
  split
  · case isTrue h0 =>
      rw [Nat.and_two_pow_sub_one_eq_mod, Nat.mod_eq_of_lt c.isLt]
      omega
  · case isFalse h0 =>
      rw [Nat.and_zero]
      exact ⟨fun _ h => h0 h.2, fun _ => rfl⟩

theorem leValue_lt (buf : List (BitVec 8)) : leValue buf < 2 ^ (8 * buf.length) := by
  rw [leValue_eq]
  exact littleEndian_lt fun i _ => byte_lt buf i

theorem two_pow_312_lt : 2 ^ (8 * 39) < N.toNat := by
  rw [two_pow_312, N_toNat]
  norm_num

theorem leValue_lt_N {buf : List (BitVec 8)} (h : buf.length ≤ 39) : leValue buf < N.toNat :=
  calc leValue buf < 2 ^ (8 * buf.length) := leValue_lt buf
    _ ≤ 2 ^ (8 * 39) := Nat.pow_le_pow_right (by decide) (Nat.mul_le_mul_left 8 h)
    _ < N.toNat := two_pow_312_lt

/-- A long input is below `N` when its first forty bytes are and no later byte is set. -/
theorem leValue_lt_N_iff {buf : List (BitVec 8)} (h : 40 ≤ buf.length) :
    leValue buf < N.toNat ↔ littleEndian 8 (byte buf) 40 < N.toNat ∧
      ∀ j < buf.length, 40 ≤ j → byte buf j = 0 := by
  obtain ⟨m, hm⟩ : ∃ m, buf.length = 40 + m := ⟨buf.length - 40, by omega⟩
  have hsplit := littleEndian_add (w := 8) (byte buf) 40 m
  have hupper : littleEndian 8 (fun i => byte buf (40 + i)) m = 0 ↔
      ∀ j < buf.length, 40 ≤ j → byte buf j = 0 := by
    rw [littleEndian_eq_zero]
    constructor
    · intro hall j hj h40
      have hj' := hall (j - 40) (by omega)
      rwa [Nat.add_sub_cancel' h40] at hj'
    · intro hall i hi
      exact hall (40 + i) (by omega) (by omega)
  have hN := two_mul_N_lt
  have hexp : 8 * 40 = 64 * 5 := rfl
  rw [leValue_eq, hm, hsplit, ← hm, ← hupper, hexp]
  constructor
  · intro hlt
    refine ⟨by omega, ?_⟩
    by_contra hne
    have hle := Nat.le_mul_of_pos_right (2 ^ (64 * 5)) (Nat.pos_of_ne_zero hne)
    omega
  · rintro ⟨hlt, hzero⟩
    rwa [hzero, Nat.mul_zero, Nat.add_zero]

/-- `decode` returns the integer exactly when it is below `N`. -/
theorem decode_iff (buf : List (BitVec 8)) (s : Scalar) :
    decode buf = some s ↔ s.toNat = leValue buf ∧ leValue buf < N.toNat := by
  by_cases hshort : buf.length ≤ 39
  · obtain ⟨t, ht, hvalue⟩ := decode_short hshort
    rw [ht, Option.some.injEq]
    constructor
    · rintro rfl
      exact ⟨hvalue, leValue_lt_N hshort⟩
    · rintro ⟨hs, -⟩
      exact toNat_injective (hvalue.trans hs.symm)
  · have hlong : 40 ≤ buf.length := by omega
    obtain ⟨hvalue, hextra⟩ := decodeLoop_spec buf buf.length
    unfold decode
    dsimp only
    rw [if_neg hshort]
    generalize forLoop (decodeStep buf) buf.length (ZERO, .ofNat 8 0) = t at hvalue hextra
    rw [Nat.min_eq_right hlong] at hvalue
    obtain ⟨hdiff, hborrow⟩ := subInner_spec t.1 N
    have hlt := toNat_lt (t.1.subInner N).1
    have hbelow : (t.1.subInner N).2.toNat = 1 ↔ t.1.toNat < N.toNat := by
      rcases Nat.le_one_iff_eq_zero_or_eq_one.mp hborrow with h0 | h1
      · rw [h0, Nat.zero_mul, Nat.add_zero] at hdiff
        omega
      · rw [h1, Nat.one_mul] at hdiff
        omega
    have hvalid : leValue buf < N.toNat ↔ (t.1.subInner N).2.toNat = 1 ∧ t.2 = .ofNat 8 0 := by
      rw [leValue_lt_N_iff hlong, hbelow, hextra, hvalue]
    have hsame : leValue buf < N.toNat → t.1.toNat = leValue buf := by
      intro h
      obtain ⟨m, hm⟩ : ∃ m, buf.length = 40 + m := ⟨buf.length - 40, by omega⟩
      have hzero := ((leValue_lt_N_iff hlong).mp h).2
      rw [leValue_eq, hvalue, hm, littleEndian_add, littleEndian_eq_zero.mpr fun i hi =>
        hzero (40 + i) (by omega) (by omega), Nat.mul_zero, Nat.add_zero]
    rw [ite_eq_iff, valid_iff hborrow, ← hvalid]
    constructor
    · rintro (⟨-, hnone⟩ | ⟨hnot, hsome⟩)
      · cases hnone
      · have h := not_not.mp hnot
        cases hsome
        exact ⟨hsame h, h⟩
    · rintro ⟨hs, h⟩
      refine .inr ⟨not_not.mpr h, ?_⟩
      rw [toNat_injective ((hsame h).trans hs.symm)]

theorem leValue_append (xs ys : List (BitVec 8)) :
    leValue (xs ++ ys) = leValue xs + 2 ^ (8 * xs.length) * leValue ys := by
  have hbase : 2 ^ 8 = 256 := by norm_num
  unfold leValue
  rw [List.map_append, Nat.ofDigits_append, List.length_map, pow_mul, hbase]

/-- A product with `2^632` in Montgomery form multiplies by `2^312`. -/
theorem montymul_T632 {acc : Scalar} (h : acc.toNat < N.toNat) :
    (acc.montymul T632).toNat < N.toNat ∧
      (acc.montymul T632).toNat ≡ acc.toNat * 2 ^ (8 * 39) [MOD N.toNat] := by
  have hT : T632.toNat < N.toNat := by
    rw [T632_toNat, N_toNat]
    norm_num
  have hsum : acc.toNat + N.toNat ≤ 2 ^ (64 * 5) := by
    have hN := two_mul_N_lt
    omega
  obtain ⟨hlt, hmul⟩ := montymul_spec hsum hT
  refine ⟨hlt, Nat.ModEq.cancel_left_of_coprime (N_coprime_two_pow (64 * 5)) ?_⟩
  have hradix := T632_modEq
  generalize 2 ^ (64 * 5) = M at *
  calc M * (acc.montymul T632).toNat ≡ acc.toNat * T632.toNat [MOD N.toNat] := hmul
    _ ≡ acc.toNat * (M * 2 ^ (8 * 39)) [MOD N.toNat] := hradix.mul_left _
    _ = M * (acc.toNat * 2 ^ (8 * 39)) := by ring

theorem decodeChunks_spec {buf : List (BitVec 8)} {k : ℕ} (hk : k * 39 ≤ buf.length) {acc : Scalar}
    (hacc : acc.toNat < N.toNat) : ∃ s, decodeChunks buf k acc = some s ∧ s.toNat < N.toNat ∧
      s.toNat ≡ acc.toNat * 2 ^ (8 * (k * 39)) + leValue (buf.take (k * 39)) [MOD N.toNat] := by
  induction k generalizing acc with
  | zero =>
    have hnil : leValue [] = 0 := rfl
    refine ⟨acc, rfl, hacc, ?_⟩
    rw [Nat.zero_mul, Nat.mul_zero, pow_zero, Nat.mul_one, List.take_zero, hnil, Nat.add_zero]
  | succ k ih =>
    have hlen : (slice buf (k * 39) 39).length = 39 := slice_length (by omega)
    obtain ⟨b, hb, hvalue⟩ := decode_short hlen.le
    have hblt := leValue_lt_N hlen.le
    rw [← hvalue] at hblt
    obtain ⟨hmul, hmod⟩ := montymul_T632 hacc
    have hsum := addMod_toNat (s := acc.montymul T632) (a := b) (by omega)
    have hnext : ((acc.montymul T632).addMod b).toNat < N.toNat := by
      rw [hsum]
      exact Nat.mod_lt _ (by omega)
    obtain ⟨s, hs, hlt, heq⟩ := ih (by omega) hnext
    refine ⟨s, ?_, hlt, ?_⟩
    · rw [decodeChunks, hb]
      exact hs
    · have htake : buf.take ((k + 1) * 39) = buf.take (k * 39) ++ slice buf (k * 39) 39 := by
        rw [Nat.succ_mul, List.take_add, slice]
      have hlength : (buf.take (k * 39)).length = k * 39 := by
        rw [List.length_take]
        omega
      have hexp : 8 * ((k + 1) * 39) = 8 * 39 + 8 * (k * 39) := by ring
      rw [htake, leValue_append, hlength, ← hvalue, hexp, pow_add]
      calc s.toNat ≡ ((acc.montymul T632).addMod b).toNat * 2 ^ (8 * (k * 39)) +
            leValue (buf.take (k * 39)) [MOD N.toNat] := heq
        _ = ((acc.montymul T632).toNat + b.toNat) % N.toNat * 2 ^ (8 * (k * 39)) +
            leValue (buf.take (k * 39)) := by rw [hsum]
        _ ≡ (acc.toNat * 2 ^ (8 * 39) + b.toNat) * 2 ^ (8 * (k * 39)) +
            leValue (buf.take (k * 39)) [MOD N.toNat] :=
          (((Nat.mod_modEq _ _).trans (hmod.add_right _)).mul_right _).add_right _
        _ = acc.toNat * (2 ^ (8 * 39) * 2 ^ (8 * (k * 39))) +
            (leValue (buf.take (k * 39)) + 2 ^ (8 * (k * 39)) * b.toNat) := by ring

/-- `decode_reduce` returns the integer modulo `N`. -/
theorem decodeReduce_spec (buf : List (BitVec 8)) :
    ∃ s, decodeReduce buf = some s ∧ s.toNat = leValue buf % N.toNat := by
  unfold decodeReduce
  dsimp only
  split
  · case isTrue hshort =>
      obtain ⟨s, hs, hvalue⟩ := decode_short hshort
      refine ⟨s, hs, ?_⟩
      rw [hvalue, Nat.mod_eq_of_lt (leValue_lt_N hshort)]
  · case isFalse hlong =>
      obtain ⟨k, hk⟩ : ∃ k, (buf.length - 1) / 39 = k := ⟨_, rfl⟩
      rw [hk]
      have hlen : (slice buf (k * 39) (buf.length - k * 39)).length = buf.length - k * 39 :=
        slice_length (by omega)
      have hshort : (slice buf (k * 39) (buf.length - k * 39)).length ≤ 39 := by omega
      obtain ⟨acc, hacc, hvalue⟩ := decode_short hshort
      have hlt := leValue_lt_N hshort
      rw [← hvalue] at hlt
      obtain ⟨s, hs, hslt, heq⟩ := @decodeChunks_spec buf k (by omega) _ hlt
      refine ⟨s, ?_, ?_⟩
      · rw [hacc]
        exact hs
      · have hbuf : leValue buf = leValue (buf.take (k * 39)) + 2 ^ (8 * (k * 39)) * acc.toNat := by
          have hlength : (buf.take (k * 39)).length = k * 39 := by
            rw [List.length_take]
            omega
          have happend := leValue_append (buf.take (k * 39)) (buf.drop (k * 39))
          rw [List.take_append_drop, hlength] at happend
          rw [happend, hvalue, slice_rest (by omega)]
        rw [hbuf, ← Nat.mod_eq_of_lt hslt, Nat.add_comm, Nat.mul_comm]
        exact heq

end Decode

/-- For scalars below `N`: sums, negations, Montgomery and plain products are those of the
integers modulo `N`, and the bytes of every slice are decoded to their integer. -/
theorem scalar_arithmetic {s a : Scalar} (hs : s.toNat < N.toNat) (ha : a.toNat < N.toNat)
    (buf : List (BitVec 8)) :
    ((s.addMod a).toNat < N.toNat ∧ (s.addMod a).toNat ≡ s.toNat + a.toNat [MOD N.toNat]) ∧
    (s.negMod.toNat < N.toNat ∧ s.negMod.toNat + s.toNat ≡ 0 [MOD N.toNat]) ∧
    ((s.montymul a).toNat < N.toNat ∧
      2 ^ 320 * (s.montymul a).toNat ≡ s.toNat * a.toNat [MOD N.toNat]) ∧
    ((s.mulMod a).toNat < N.toNat ∧ (s.mulMod a).toNat ≡ s.toNat * a.toNat [MOD N.toNat]) ∧
    (∃ r, decodeReduce buf = some r ∧ r.toNat = leValue buf % N.toNat) ∧
    ∀ r, decode buf = some r ↔ leValue buf < N.toNat ∧ r.toNat = leValue buf := by
  have hN : 0 < N.toNat := Nat.zero_lt_of_lt hs
  have hsum : s.toNat + N.toNat ≤ 2 ^ (64 * 5) := by
    have hlt := two_mul_N_lt
    omega
  refine ⟨⟨?_, ?_⟩, ⟨?_, ?_⟩, montymul_spec hsum ha, mulMod_spec hsum ha, decodeReduce_spec buf,
    fun r => (decode_iff buf r).trans and_comm⟩
  · rw [addMod_toNat (by omega)]
    exact Nat.mod_lt _ hN
  · rw [addMod_toNat (by omega)]
    exact Nat.mod_modEq _ _
  · rw [negMod_toNat hs]
    exact Nat.mod_lt _ hN
  · rw [negMod_toNat hs]
    calc (N.toNat - s.toNat) % N.toNat + s.toNat ≡ N.toNat - s.toNat + s.toNat [MOD N.toNat] :=
          (Nat.mod_modEq _ _).add_right _
      _ = N.toNat := Nat.sub_add_cancel hs.le
      _ ≡ 0 [MOD N.toNat] := by simp [Nat.ModEq]

/-- A hundred bytes, reduced. -/
theorem scalar_arithmetic_hundred : ONE.toNat < N.toNat ∧ R2.toNat < N.toNat ∧
    ∃ r, decodeReduce (List.replicate 100 (.ofNat 8 255)) = some r ∧
      r.toNat = leValue (List.replicate 100 (.ofNat 8 255)) % N.toNat :=
  have hone : ONE.toNat < N.toNat := by
    have hvalue : ONE.toNat = 1 := rfl
    rw [hvalue, N_toNat]
    norm_num
  have hR2 : R2.toNat < N.toNat := by
    rw [R2_toNat, N_toNat]
    norm_num
  ⟨hone, hR2, (scalar_arithmetic hone hR2 (List.replicate 100 (.ofNat 8 255))).2.2.2.2.1⟩

end Doxa.Scalar
