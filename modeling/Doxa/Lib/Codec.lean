import Doxa.Lib.Positional
import Mathlib.Data.Char
import Mathlib.Tactic.IntervalCases

/-!
# Text and byte encodings

The encodings a stored record is made of: a number as little-endian bytes, bytes as
hexadecimal text, a number as decimal text. Each reader returns what its writer wrote.
-/

namespace Lib

abbrev Byte := BitVec 8

/-! ## Little-endian bytes -/

/-- `to_le_bytes` of an `n`-byte word. -/
def leBytes (n x : ℕ) : List Byte := List.ofFn fun k : Fin n => BitVec.ofNat 8 (x / 2 ^ (8 * k.val))

/-- `from_le_bytes`. -/
def ofLeBytes (bs : List Byte) : ℕ := littleEndian 8 (fun k => (bs.getD k 0).toNat) bs.length

@[simp] theorem leBytes_length (n x : ℕ) : (leBytes n x).length = n := List.length_ofFn

theorem ofLeBytes_leBytes (n x : ℕ) : ofLeBytes (leBytes n x) = x % 2 ^ (8 * n) := by
  have hdigit : ∀ k < n, ((leBytes n x).getD k 0).toNat = x / 2 ^ (8 * k) % 2 ^ 8 := by
    intro k hk
    have hget : (leBytes n x)[k]? = some (BitVec.ofNat 8 (x / 2 ^ (8 * k))) := by
      rw [leBytes, List.getElem?_ofFn, dif_pos hk]
    rw [List.getD_eq_getElem?_getD, hget, Option.getD_some, BitVec.toNat_ofNat]
  rw [ofLeBytes, leBytes_length, littleEndian_congr hdigit, littleEndian_digits]

theorem ofLeBytes_leBytes_of_lt {n x : ℕ} (hx : x < 2 ^ (8 * n)) : ofLeBytes (leBytes n x) = x := by
  rw [ofLeBytes_leBytes, Nat.mod_eq_of_lt hx]

theorem ofLeBytes_lt (bs : List Byte) : ofLeBytes bs < 2 ^ (8 * bs.length) :=
  littleEndian_lt fun k _ => (bs.getD k 0).isLt

/-- A word gives back the bytes it was read from. -/
theorem leBytes_ofLeBytes (bs : List Byte) : leBytes bs.length (ofLeBytes bs) = bs := by
  have hdigits : littleEndian 8 (fun k => ofLeBytes bs / 2 ^ (8 * k) % 2 ^ 8) bs.length =
      ofLeBytes bs := by
    rw [littleEndian_digits, Nat.mod_eq_of_lt (ofLeBytes_lt bs)]
  have hdigit := littleEndian_injective (fun k _ => Nat.mod_lt _ (by decide))
    (fun k _ => (bs.getD k 0).isLt) hdigits
  apply List.ext_getElem (leBytes_length _ _)
  intro k hk hk'
  apply BitVec.eq_of_toNat_eq
  simp only [leBytes, List.getElem_ofFn, BitVec.toNat_ofNat]
  rw [hdigit k hk', List.getD_eq_getElem _ _ hk']

/-- Sequences of records of one width are equal if their records are. -/
theorem eq_of_slices {α : Type*} {xs ys : List α} {n w : ℕ} (hxs : xs.length = n * w)
    (hys : ys.length = n * w) (h : ∀ i < n, slice xs (i * w) w = slice ys (i * w) w) : xs = ys := by
  apply List.ext_getElem?
  intro j
  by_cases hj : j < n * w
  · have hw : 0 < w := Nat.pos_of_ne_zero fun hzero => by simp [hzero] at hj
    have hk : j % w < w := Nat.mod_lt j hw
    have hget : ∀ zs : List α, (slice zs (j / w * w) w)[j % w]? = zs[j]? := by
      intro zs
      rw [slice, List.getElem?_take_of_lt hk, List.getElem?_drop, Nat.div_add_mod']
    rw [← hget xs, ← hget ys, h (j / w) (Nat.div_lt_of_lt_mul (by rwa [Nat.mul_comm] at hj))]
  · rw [List.getElem?_eq_none (by omega), List.getElem?_eq_none (by omega)]

/-- The record `s` of a sequence of records of width `w`. -/
theorem slice_flatMap_record {α β : Type*} {f : α → List β} {xs : List α} {w s : ℕ} {x : α}
    (hw : ∀ x ∈ xs, (f x).length = w) (hx : xs[s]? = some x) :
    slice (xs.flatMap f) (s * w) w = f x := by
  have hmem : x ∈ xs := List.mem_of_getElem? hx
  have hlt : s < xs.length := (List.getElem?_eq_some_iff.mp hx).1
  have hlen : (xs.flatMap f).length = xs.length * w := length_flatMap_record hw
  have hroom : s * w + w ≤ (xs.flatMap f).length := by
    rw [hlen, ← Nat.succ_mul]
    exact Nat.mul_le_mul_right w hlt
  apply List.ext_getElem?
  intro j
  by_cases hj : j < w
  · rw [slice, List.getElem?_take_of_lt hj, List.getElem?_drop, getElem?_flatMap_record hw hj, hx,
      Option.bind_some]
  · rw [List.getElem?_eq_none (by rw [slice_length hroom]; omega),
      List.getElem?_eq_none (by rw [hw x hmem]; omega)]

/-! ## Hexadecimal text -/

/-- A digit in lower case. -/
def hexDigit (n : ℕ) : Char := if n < 10 then Char.ofNat (48 + n) else Char.ofNat (87 + n)

/-- The value of a digit in either case. -/
def hexValue (c : Char) : Option ℕ :=
  if 48 ≤ c.toNat ∧ c.toNat ≤ 57 then some (c.toNat - 48)
  else if 97 ≤ c.toNat ∧ c.toNat ≤ 102 then some (c.toNat - 87)
  else if 65 ≤ c.toNat ∧ c.toNat ≤ 70 then some (c.toNat - 55)
  else none

def hexChars (bs : List Byte) : List Char :=
  bs.flatMap fun b => [hexDigit (b.toNat / 16), hexDigit (b.toNat % 16)]

/-- A text of odd length and a character that is no digit are refused. -/
def unhexChars : List Char → Option (List Byte)
  | [] => some []
  | [_] => none
  | c :: d :: rest => do
    let hi ← hexValue c
    let lo ← hexValue d
    let bs ← unhexChars rest
    return BitVec.ofNat 8 (16 * hi + lo) :: bs

/-- `hex::encode`. -/
def hexEncode (bs : List Byte) : String := String.ofList (hexChars bs)

/-- `hex::decode`. -/
def hexDecode (s : String) : Option (List Byte) := unhexChars s.toList

theorem hexValue_hexDigit {n : ℕ} (hn : n < 16) : hexValue (hexDigit n) = some n := by
  interval_cases n <;> rfl

theorem unhexChars_hexChars (bs : List Byte) : unhexChars (hexChars bs) = some bs := by
  induction bs with
  | nil => rfl
  | cons b bs ih =>
      have hb : b.toNat < 256 := b.isLt
      have hhi := hexValue_hexDigit (n := b.toNat / 16) (by omega)
      have hlo := hexValue_hexDigit (n := b.toNat % 16) (by omega)
      have hjoin : 16 * (b.toNat / 16) + b.toNat % 16 = b.toNat := Nat.div_add_mod _ _
      have hcons : hexChars (b :: bs) =
          hexDigit (b.toNat / 16) :: hexDigit (b.toNat % 16) :: hexChars bs := rfl
      rw [hcons, unhexChars, hhi, hlo, ih]
      simp only [Option.bind_eq_bind, Option.bind_some, hjoin, BitVec.ofNat_toNat,
        BitVec.setWidth_eq, Option.pure_def]

theorem hexDecode_hexEncode (bs : List Byte) : hexDecode (hexEncode bs) = some bs := by
  rw [hexDecode, hexEncode, String.toList_ofList, unhexChars_hexChars]

theorem hexEncode_injective {bs bs' : List Byte} (h : hexEncode bs = hexEncode bs') : bs = bs' := by
  have hdecode := congrArg hexDecode h
  rw [hexDecode_hexEncode, hexDecode_hexEncode] at hdecode
  exact Option.some.inj hdecode

/-- A digit that `hexDigit` does not write. -/
def IsUpper (c : Char) : Prop := 65 ≤ c.toNat ∧ c.toNat ≤ 70

theorem hexDigit_letter : ∀ v < 16, 10 ≤ v → (hexDigit v).toNat = 87 + v := by decide

/-- A digit is written back unless it is in upper case. -/
theorem hexDigit_of_hexValue {c : Char} {v : ℕ} (h : hexValue c = some v) :
    v < 16 ∧ (hexDigit v = c ↔ ¬ IsUpper c) := by
  unfold hexValue at h
  split at h
  · rename_i hc
    obtain rfl := Option.some.inj h
    have hdigit : hexDigit (c.toNat - 48) = c := by
      rw [hexDigit, if_pos (by omega), Nat.add_sub_cancel' hc.1, Char.ofNat_toNat]
    exact ⟨by omega, iff_of_true hdigit fun hup => by have := hup.1; omega⟩
  split at h
  · rename_i hc
    obtain rfl := Option.some.inj h
    have hdigit : hexDigit (c.toNat - 87) = c := by
      rw [hexDigit, if_neg (by omega), Nat.add_sub_cancel' (by omega), Char.ofNat_toNat]
    exact ⟨by omega, iff_of_true hdigit fun hup => by have := hup.2; omega⟩
  split at h
  · rename_i hc
    obtain rfl := Option.some.inj h
    refine ⟨by omega, iff_of_false (fun hdigit => ?_) (not_not.mpr hc)⟩
    have htoNat := hexDigit_letter (c.toNat - 55) (by omega) (by omega)
    rw [hdigit] at htoNat
    omega
  · cases h

theorem hexChars_of_unhexChars (cs : List Char) {bs : List Byte} (h : unhexChars cs = some bs) :
    hexChars bs = cs ↔ ∀ c ∈ cs, ¬ IsUpper c := by
  induction cs using unhexChars.induct generalizing bs with
  | case1 =>
    obtain rfl := Option.some.inj h
    exact iff_of_true rfl fun c hc => absurd hc List.not_mem_nil
  | case2 => cases h
  | case3 c d rest ih =>
    simp only [unhexChars, Option.bind_eq_bind, Option.bind_eq_some_iff, Option.pure_def,
      Option.some.injEq] at h
    obtain ⟨hi, hhi, lo, hlo, bs', hbs', rfl⟩ := h
    obtain ⟨hhilt, hhidigit⟩ := hexDigit_of_hexValue hhi
    obtain ⟨hlolt, hlodigit⟩ := hexDigit_of_hexValue hlo
    have hbyte : (BitVec.ofNat 8 (16 * hi + lo)).toNat = 16 * hi + lo := by
      rw [BitVec.toNat_ofNat]
      omega
    have hcons : hexChars (BitVec.ofNat 8 (16 * hi + lo) :: bs') =
        hexDigit hi :: hexDigit lo :: hexChars bs' := by
      rw [hexChars, List.flatMap_cons, hbyte, show (16 * hi + lo) / 16 = hi by omega,
        show (16 * hi + lo) % 16 = lo by omega]
      rfl
    rw [hcons, List.cons.injEq, List.cons.injEq, ih hbs', hhidigit, hlodigit,
      List.forall_mem_cons, List.forall_mem_cons]

/-- A text is what its bytes are written as exactly if it has no digit in upper case. -/
theorem hexEncode_of_hexDecode {s : String} {bs : List Byte} (h : hexDecode s = some bs) :
    hexEncode bs = s ↔ ∀ c ∈ s.toList, ¬ IsUpper c := by
  rw [← hexChars_of_unhexChars _ h, hexEncode]
  constructor
  · intro heq
    rw [← heq, String.toList_ofList]
  · intro heq
    rw [heq, String.ofList_toList]

theorem utf8ByteSize_ofList (cs : List Char) :
    (String.ofList cs).utf8ByteSize = (cs.map Char.utf8Size).sum := by
  induction cs with
  | nil => rw [String.ofList_nil, List.map_nil, List.sum_nil, String.utf8ByteSize_empty]
  | cons c cs ih =>
      rw [String.ofList_cons, String.utf8ByteSize_append, String.utf8ByteSize_singleton, ih,
        List.map_cons, List.sum_cons]

theorem hexDigit_utf8Size : ∀ n < 16, (hexDigit n).utf8Size = 1 := by decide

theorem hexEncode_utf8ByteSize (bs : List Byte) : (hexEncode bs).utf8ByteSize = 2 * bs.length := by
  rw [hexEncode, utf8ByteSize_ofList]
  induction bs with
  | nil => rfl
  | cons b bs ih =>
      have hb : b.toNat < 256 := b.isLt
      have hcons : hexChars (b :: bs) =
          hexDigit (b.toNat / 16) :: hexDigit (b.toNat % 16) :: hexChars bs := rfl
      rw [hcons, List.map_cons, List.map_cons, List.sum_cons, List.sum_cons, ih,
        hexDigit_utf8Size _ (by omega), hexDigit_utf8Size _ (by omega), List.length_cons]
      omega

/-! ## Decimal text -/

theorem toString_nat_injective {m n : ℕ} (h : toString m = toString n) : m = n := by
  rw [Nat.toString_eq_repr, Nat.toString_eq_repr] at h
  have hdigits := congrArg (fun s : String => Nat.ofDigitChars 10 s.toList 0) h
  simpa only [Nat.toList_repr, Nat.ofDigitChars_ten_toDigits] using hdigits

/-- The digits of a `u64`. -/
def digitsU64 (ds : List Char) : Option ℕ :=
  if ds ≠ [] ∧ ds.all Char.isDigit ∧ Nat.ofDigitChars 10 ds 0 < 2 ^ 64 then
    some (Nat.ofDigitChars 10 ds 0)
  else none

/-- `str::parse::<u64>`: a leading plus sign is allowed. -/
def parseU64 (s : String) : Option ℕ :=
  match s.toList with
  | '+' :: ds => digitsU64 ds
  | ds => digitsU64 ds

theorem digitsU64_toDigits {n : ℕ} (hn : n < 2 ^ 64) : digitsU64 (Nat.toDigits 10 n) = some n := by
  have hall : (Nat.toDigits 10 n).all Char.isDigit = true := by
    rw [List.all_eq_true]
    intro c hc
    exact Nat.isDigit_of_mem_toDigits (by decide) (by decide) hc
  rw [digitsU64, Nat.ofDigitChars_ten_toDigits, if_pos ⟨Nat.toDigits_ne_nil, hall, hn⟩]

theorem parseU64_toString {n : ℕ} (hn : n < 2 ^ 64) : parseU64 (toString n) = some n := by
  have hplus : ∀ ds, Nat.toDigits 10 n ≠ '+' :: ds := by
    intro ds h
    have hdigit : ('+').isDigit = true := by
      refine Nat.isDigit_of_mem_toDigits (b := 10) (n := n) (by decide) (by decide) ?_
      rw [h]
      exact List.mem_cons_self
    exact absurd hdigit (by decide)
  unfold parseU64
  rw [Nat.toString_eq_repr, Nat.toList_repr]
  split
  · rename_i ds h
    exact absurd h (hplus ds)
  · exact digitsU64_toDigits hn

end Lib
