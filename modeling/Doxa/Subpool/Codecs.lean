import Doxa.Subpool.Convert

/-!
# Texts of addresses and digests

An address and a digest are written limb by limb, in little-endian bytes and hexadecimal digits
of lower case. Every address is read back from what it is written as. The readers accept more:
`AccountAddress::from_bytes` takes any limb and `hex_to_hash_checked` takes the field order
itself, both reduced, and digits may be in upper case. So what is read is written back as it was
exactly if the limbs are below the field order and, in a text, no digit is in upper case
(`textual_codecs_canonical`).
-/

namespace Doxa.Subpool

open Lib Client Circuit

/-! ## Sequences of limbs -/

/-- Limb `i` as it stands in the bytes. -/
def limb (bytes : List Byte) (i : ℕ) : ℕ := ofLeBytes (slice bytes (i * 8) 8)

/-- The first `n` limbs are below the order. -/
def CanonicalLimbs (n : ℕ) (bytes : List Byte) : Prop := ∀ i < n, limb bytes i < ORDER

section Limbs

variable {n : ℕ} {bytes : List Byte}

def encodeFields (f : Fin n → F) : List Byte := (List.ofFn f).flatMap fToBytes

def decodeFields (n : ℕ) (bytes : List Byte) : Fin n → F := fun i => (limb bytes i.val : F)

theorem encodeFields_length (f : Fin n → F) : (encodeFields f).length = n * 8 := by
  rw [encodeFields, length_flatMap_record (w := 8) fun x _ => fToBytes_length x, List.length_ofFn]

theorem slice_encodeFields (f : Fin n → F) (i : Fin n) :
    slice (encodeFields f) (i.val * 8) 8 = fToBytes (f i) := by
  have hget : (List.ofFn f)[i.val]? = some (f i) := by
    rw [List.getElem?_ofFn, dif_pos i.isLt]
  exact slice_flatMap_record (fun x _ => fToBytes_length x) hget

theorem limb_encodeFields (f : Fin n → F) (i : Fin n) : limb (encodeFields f) i.val = (f i).val := by
  rw [limb, slice_encodeFields, fToBytes, ofLeBytes_leBytes_of_lt (val_lt_word (f i))]

theorem decodeFields_encodeFields (f : Fin n → F) : decodeFields n (encodeFields f) = f := by
  funext i
  rw [decodeFields, limb_encodeFields, ZMod.natCast_zmod_val]

/-- The bytes are those of the elements they are read as exactly if the limbs are canonical. -/
theorem encodeFields_decodeFields (hlen : bytes.length = n * 8) :
    encodeFields (decodeFields n bytes) = bytes ↔ CanonicalLimbs n bytes := by
  constructor
  · intro h i hi
    have hlimb := limb_encodeFields (decodeFields n bytes) ⟨i, hi⟩
    rw [h] at hlimb
    rw [show limb bytes i = _ from hlimb]
    exact ZMod.val_lt _
  · intro h
    refine eq_of_slices (encodeFields_length _) hlen fun i hi => ?_
    have hwidth : (slice bytes (i * 8) 8).length = 8 := slice_length (by omega)
    have hval : (decodeFields n bytes ⟨i, hi⟩).val = limb bytes i := ZMod.val_cast_of_lt (h i hi)
    have hwritten := leBytes_ofLeBytes (slice bytes (i * 8) 8)
    rw [hwidth] at hwritten
    exact (slice_encodeFields _ ⟨i, hi⟩).trans (by rw [fToBytes, hval]; exact hwritten)

end Limbs

/-! ## Addresses -/

section Addresses

variable {a : AccountAddress} {bytes : List Byte} {s : String}

/-- The limbs of an address, the subpool first. -/
def addressFields (a : AccountAddress) : Fin 5 → F := Fin.cons a.subpoolId a.publicId

theorem addressFields_injective : Function.Injective addressFields := by
  rintro ⟨subpoolId, publicId⟩ ⟨subpoolId', publicId'⟩ h
  obtain ⟨hsubpool, hpublic⟩ := Fin.cons_injective2 h
  rw [show subpoolId = subpoolId' from hsubpool, show publicId = publicId' from hpublic]

theorem toBytes_eq (a : AccountAddress) : a.toBytes = encodeFields (addressFields a) := by
  rw [encodeFields, addressFields, List.ofFn_succ, List.flatMap_cons]
  rfl

theorem fromBytes_eq_ok :
    AccountAddress.fromBytes bytes = .ok a ↔
      bytes.length = 5 * 8 ∧ decodeFields 5 bytes = addressFields a := by
  have hread : decodeFields 5 bytes = addressFields
      ⟨bytesToF (slice bytes 0 8), fun i => bytesToF (slice bytes (8 + i.val * 8) 8)⟩ := by
    funext i
    refine Fin.cases rfl (fun j => ?_) i
    show bytesToF (slice bytes ((j.val + 1) * 8) 8) = bytesToF (slice bytes (8 + j.val * 8) 8)
    rw [show (j.val + 1) * 8 = 8 + j.val * 8 by omega]
  rw [hread, addressFields_injective.eq_iff]
  unfold AccountAddress.fromBytes
  split
  · rename_i hlen
    rw [Except.ok.injEq]
    exact (and_iff_right hlen).symm
  · rename_i hlen
    refine iff_of_false (fun h => ?_) fun h => hlen h.1
    cases h

theorem fromHex_eq_ok : AccountAddress.fromHex s = .ok a ↔ s.utf8ByteSize = 80 ∧
    ∃ bytes, hexDecode s = some bytes ∧ AccountAddress.fromBytes bytes = .ok a := by
  unfold AccountAddress.fromHex
  split
  · rename_i hsize
    cases hdecode : hexDecode s with
    | none => simp
    | some bytes => simp [hsize]
  · rename_i hsize
    simp [hsize]

variable (a)

theorem fromBytes_toBytes : AccountAddress.fromBytes a.toBytes = .ok a := by
  rw [fromBytes_eq_ok, toBytes_eq]
  exact ⟨encodeFields_length _, decodeFields_encodeFields _⟩

theorem fromHex_toHex : AccountAddress.fromHex a.toHex = .ok a := by
  refine fromHex_eq_ok.mpr ⟨?_, a.toBytes, hexDecode_hexEncode _, fromBytes_toBytes a⟩
  rw [AccountAddress.toHex, hexEncode_utf8ByteSize, toBytes_eq, encodeFields_length]

variable {a}

/-- An address is written back as the bytes it was read from exactly if they are canonical. -/
theorem toBytes_of_fromBytes (h : AccountAddress.fromBytes bytes = .ok a) :
    a.toBytes = bytes ↔ CanonicalLimbs 5 bytes := by
  obtain ⟨hlen, hfields⟩ := fromBytes_eq_ok.mp h
  rw [toBytes_eq, ← hfields, encodeFields_decodeFields hlen]

theorem hexEncode_eq_iff {bytes bytes' : List Byte} (h : hexDecode s = some bytes) :
    hexEncode bytes' = s ↔ bytes' = bytes ∧ ∀ c ∈ s.toList, ¬ IsUpper c := by
  rw [← hexEncode_of_hexDecode h]
  constructor
  · intro heq
    rw [← heq, hexDecode_hexEncode] at h
    obtain rfl := Option.some.inj h
    exact ⟨rfl, heq⟩
  · rintro ⟨rfl, heq⟩
    exact heq

theorem toHex_of_fromHex (hdecode : hexDecode s = some bytes)
    (h : AccountAddress.fromBytes bytes = .ok a) :
    a.toHex = s ↔ CanonicalLimbs 5 bytes ∧ ∀ c ∈ s.toList, ¬ IsUpper c := by
  rw [AccountAddress.toHex, hexEncode_eq_iff hdecode, toBytes_of_fromBytes h]

end Addresses

/-! ## Digests -/

section Digests

variable {h : HashOut} {s : String}

theorem hexToHashChecked_eq_ok : hexToHashChecked s = .ok h ↔ ∃ bytes, hexDecode s = some bytes ∧
    bytes.length = 4 * 8 ∧ (∀ i < 4, limb bytes i ≤ ORDER) ∧ decodeFields 4 bytes = h := by
  unfold hexToHashChecked
  cases hdecode : hexDecode s with
  | none =>
    rw [orError]
    constructor
    · intro hread
      cases hread
    · rintro ⟨_, hnone, _⟩
      cases hnone
  | some bytes =>
    rw [orError, ok_bind]
    constructor
    · intro hread
      obtain ⟨arr, harr, hcollect⟩ := bind_eq_ok.mp hread
      unfold tryInto at harr
      split at harr
      swap
      · cases harr
      rename_i hlen
      obtain rfl := Except.ok.inj harr
      have hlimb : ∀ i : Fin 4, limb bytes i.val ≤ ORDER ∧ decodeFields 4 bytes i = h i := by
        intro i
        have hval := collect_apply hcollect i
        by_cases hle : limb bytes i.val ≤ ORDER
        · exact ⟨hle, Except.ok.inj ((if_pos hle).symm.trans hval)⟩
        · have herror := (if_neg hle).symm.trans hval
          cases herror
      exact ⟨bytes, rfl, hlen, fun i hi => (hlimb ⟨i, hi⟩).1, funext fun i => (hlimb i).2⟩
    · rintro ⟨bytes', hbytes, hlen, hle, rfl⟩
      obtain rfl := Option.some.inj hbytes
      rw [tryInto_eq_ok hlen, ok_bind]
      exact collect_eq_ok fun i => if_pos (hle i.val i.isLt)

theorem hashToHex_eq (h : HashOut) : hashToHex h = hexEncode (encodeFields h) := rfl

theorem hexToHashChecked_hashToHex (h : HashOut) : hexToHashChecked (hashToHex h) = .ok h := by
  refine hexToHashChecked_eq_ok.mpr ⟨encodeFields h, hexDecode_hexEncode _, encodeFields_length _,
    fun i hi => ?_, decodeFields_encodeFields h⟩
  rw [limb_encodeFields h ⟨i, hi⟩]
  exact (ZMod.val_lt _).le

end Digests

/-- An address is read back from its bytes and from its text. What is read from bytes or from a
text is written back as it was exactly if each limb is below the field order and no digit is in
upper case. -/
theorem textual_codecs_canonical (a : AccountAddress) (bytes : List Byte) (s : String) :
    (AccountAddress.fromBytes a.toBytes = .ok a ∧ AccountAddress.fromHex a.toHex = .ok a) ∧
    ((∀ b, AccountAddress.fromBytes bytes = .ok b → b.toBytes = bytes) ↔
      (bytes.length = 40 → CanonicalLimbs 5 bytes)) ∧
    ((∀ b, AccountAddress.fromHex s = .ok b → b.toHex = s) ↔
      ∀ bs, s.utf8ByteSize = 80 → hexDecode s = some bs → bs.length = 40 →
        CanonicalLimbs 5 bs ∧ ∀ c ∈ s.toList, ¬ IsUpper c) ∧
    ((∀ h, hexToHashChecked s = .ok h → hashToHex h = s) ↔
      ∀ bs, hexDecode s = some bs → bs.length = 32 → (∀ i < 4, limb bs i ≤ ORDER) →
        CanonicalLimbs 4 bs ∧ ∀ c ∈ s.toList, ¬ IsUpper c) := by
  have hread : ∀ bs : List Byte, bs.length = 40 → ∃ b, AccountAddress.fromBytes bs = .ok b :=
    fun bs hlen => ⟨_, if_pos hlen⟩
  refine ⟨⟨fromBytes_toBytes a, fromHex_toHex a⟩, ⟨fun hback hlen => ?_, fun hcanon b hb => ?_⟩,
    ⟨fun hback bs hsize hdecode hlen => ?_, fun hcanon b hb => ?_⟩,
    ⟨fun hback bs hdecode hlen hle => ?_, fun hcanon h hh => ?_⟩⟩
  · obtain ⟨b, hb⟩ := hread bytes hlen
    exact (toBytes_of_fromBytes hb).mp (hback b hb)
  · exact (toBytes_of_fromBytes hb).mpr (hcanon (fromBytes_eq_ok.mp hb).1)
  · obtain ⟨b, hb⟩ := hread bs hlen
    exact (toHex_of_fromHex hdecode hb).mp (hback b (fromHex_eq_ok.mpr ⟨hsize, bs, hdecode, hb⟩))
  · obtain ⟨hsize, bs, hdecode, hb⟩ := fromHex_eq_ok.mp hb
    exact (toHex_of_fromHex hdecode hb).mpr (hcanon bs hsize hdecode (fromBytes_eq_ok.mp hb).1)
  · have hwritten := hback _ (hexToHashChecked_eq_ok.mpr ⟨bs, hdecode, hlen, hle, rfl⟩)
    rw [hashToHex_eq, hexEncode_eq_iff hdecode, encodeFields_decodeFields hlen] at hwritten
    exact hwritten
  · obtain ⟨bs, hdecode, hlen, hle, rfl⟩ := hexToHashChecked_eq_ok.mp hh
    rw [hashToHex_eq, hexEncode_eq_iff hdecode, encodeFields_decodeFields hlen]
    exact hcanon bs hdecode hlen hle

/-- The order in limb 0 and nothing else. -/
def orderBytes (n : ℕ) : List Byte := leBytes 8 ORDER ++ List.replicate (n * 8) 0

theorem limb_orderBytes (n : ℕ) : limb (orderBytes n) 0 = ORDER := by
  rw [limb, orderBytes, Nat.zero_mul, slice_append_left (leBytes_length 8 ORDER)]
  exact ofLeBytes_leBytes_of_lt (by decide)

theorem not_canonical_orderBytes (n : ℕ) : ¬ CanonicalLimbs (n + 1) (orderBytes n) := by
  intro h
  have hlt := h 0 (Nat.succ_pos n)
  rw [limb_orderBytes] at hlt
  exact Nat.lt_irrefl _ hlt

theorem orderBytes_length (n : ℕ) : (orderBytes n).length = (n + 1) * 8 := by
  rw [orderBytes, List.length_append, leBytes_length, List.length_replicate]
  ring

/-- The default address and the zero digest have further texts, with the order in a limb. -/
theorem order_accepted : ∃ a h, AccountAddress.fromBytes (orderBytes 4) = .ok a ∧
    AccountAddress.fromHex (hexEncode (orderBytes 4)) = .ok a ∧
    hexToHashChecked (hexEncode (orderBytes 3)) = .ok h ∧
    a.toBytes ≠ orderBytes 4 ∧ a.toHex ≠ hexEncode (orderBytes 4) ∧
    hashToHex h ≠ hexEncode (orderBytes 3) := by
  have hbytes : AccountAddress.fromBytes (orderBytes 4) = .ok _ := if_pos (orderBytes_length 4)
  have hhex := (@fromHex_eq_ok _ (hexEncode (orderBytes 4))).mpr
    ⟨by rw [hexEncode_utf8ByteSize, orderBytes_length], _, hexDecode_hexEncode _, hbytes⟩
  have hlimb : ∀ i < 4, limb (orderBytes 3) i ≤ ORDER := by decide
  have hdigest := hexToHashChecked_eq_ok.mpr
    ⟨_, hexDecode_hexEncode (orderBytes 3), orderBytes_length 3, hlimb, rfl⟩
  refine ⟨_, _, hbytes, hhex, hdigest, fun h => ?_, fun h => ?_, fun h => ?_⟩
  · exact not_canonical_orderBytes 4 ((toBytes_of_fromBytes hbytes).mp h)
  · exact not_canonical_orderBytes 4 ((toHex_of_fromHex (hexDecode_hexEncode _) hbytes).mp h).1
  · exact not_canonical_orderBytes 3
      ((encodeFields_decodeFields (orderBytes_length 3)).mp (hexEncode_injective h))

end Doxa.Subpool
