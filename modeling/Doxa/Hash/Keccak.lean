import Doxa.Lib.Keccak
import Doxa.Server.Encoding

/-!
# The native Keccak hash

`solidity_keccak256` hashes 32-bit words instead of bytes. The bytes of every word are
reversed first, the sponge works on 50 little-endian words that pair up to the 25 lanes, and
the words of the digest are reversed again. Written out, the digest is Keccak-256 of the
words written out, in big-endian order on both sides.
-/

namespace Doxa

open Lib Lib.Keccak Server

/-! ## Words and their bytes -/

/-- `u32::to_le_bytes`. -/
def toLeBytes (w : BitVec 32) : List (BitVec 8) :=
  [w.setWidth 8, (w >>> 8).setWidth 8, (w >>> 16).setWidth 8, (w >>> 24).setWidth 8]

/-- `u32::from_le_bytes`. -/
def fromLeBytes (bytes : List (BitVec 8)) : BitVec 32 :=
  BitVec.ofNat 32 (littleEndian 8 (fun k => (bytes.getD k 0).toNat) 4)

/-- `u32::from_be_bytes`. -/
def fromBeBytes (bytes : List (BitVec 8)) : BitVec 32 :=
  BitVec.ofNat 32 (bigEndian 8 (fun k => (bytes.getD k 0).toNat) 4)

theorem toLeBytes_length (w : BitVec 32) : (toLeBytes w).length = 4 := rfl

theorem toBeBytes_length (w : BitVec 32) : (toBeBytes w).length = 4 := rfl

theorem toLeBytes_getElem? (w : BitVec 32) {k : ℕ} (hk : k < 4) :
    (toLeBytes w)[k]? = some ((w >>> (8 * k)).setWidth 8) := by
  interval_cases k
  · rw [Nat.mul_zero, BitVec.ushiftRight_zero]
    rfl
  all_goals rfl

theorem toLeBytes_value (w : BitVec 32) :
    littleEndian 8 (fun k => ((toLeBytes w).getD k 0).toNat) 4 = w.toNat := by
  have hlt := w.isLt
  simp only [littleEndian, toLeBytes, List.getD_cons_zero, List.getD_cons_succ,
    BitVec.toNat_setWidth, BitVec.toNat_ushiftRight, Nat.shiftRight_eq_div_pow]
  omega

/-- What is read from four bytes is written as these bytes. -/
theorem toLeBytes_fromLeBytes (b₀ b₁ b₂ b₃ : BitVec 8) :
    toLeBytes (fromLeBytes [b₀, b₁, b₂, b₃]) = [b₀, b₁, b₂, b₃] := by
  have h₀ := b₀.isLt
  have h₁ := b₁.isLt
  have h₂ := b₂.isLt
  have h₃ := b₃.isLt
  simp only [toLeBytes, fromLeBytes, littleEndian, List.getD_cons_zero, List.getD_cons_succ,
    List.cons.injEq, and_true]
  refine ⟨?_, ?_, ?_, ?_⟩
  all_goals
    apply BitVec.eq_of_toNat_eq
    simp only [BitVec.toNat_setWidth, BitVec.toNat_ushiftRight, Nat.shiftRight_eq_div_pow,
      BitVec.toNat_ofNat]
    omega

theorem toBeBytes_fromBeBytes (b₀ b₁ b₂ b₃ : BitVec 8) :
    toBeBytes (fromBeBytes [b₀, b₁, b₂, b₃]) = [b₀, b₁, b₂, b₃] := by
  have h₀ := b₀.isLt
  have h₁ := b₁.isLt
  have h₂ := b₂.isLt
  have h₃ := b₃.isLt
  simp only [toBeBytes, fromBeBytes, bigEndian, List.getD_cons_zero, List.getD_cons_succ,
    List.cons.injEq, and_true]
  refine ⟨?_, ?_, ?_, ?_⟩
  all_goals
    apply BitVec.eq_of_toNat_eq
    simp only [BitVec.toNat_setWidth, BitVec.toNat_ushiftRight, Nat.shiftRight_eq_div_pow,
      BitVec.toNat_ofNat]
    omega

/-- An input word with its bytes reversed. -/
def inputWord (v : BitVec 32) : BitVec 32 := fromLeBytes (toBeBytes v)

/-- An output word with its bytes reversed. -/
def outputWord (v : BitVec 32) : BitVec 32 := fromBeBytes (toLeBytes v)

theorem toLeBytes_inputWord (v : BitVec 32) : toLeBytes (inputWord v) = toBeBytes v :=
  toLeBytes_fromLeBytes _ _ _ _

theorem toBeBytes_outputWord (v : BitVec 32) : toBeBytes (outputWord v) = toLeBytes v :=
  toBeBytes_fromBeBytes _ _ _ _

/-! ## The sponge on words -/

/-- The words of a block. -/
def BLOCK_SIZE : ℕ := 136 / 4

abbrev Words := Fin 50 → BitVec 32

variable (keccakf : Lanes → Lanes)

/-- The lanes of a state, two words each. -/
def lanesOf (input : Words) : Lanes := fun i =>
  (input ⟨2 * i.val, by omega⟩).setWidth 64 + ((input ⟨2 * i.val + 1, by omega⟩).setWidth 64 <<< 32)

def wordsOf (lanes : Lanes) : Words := fun j =>
  if j.val % 2 = 0 then (lanes ⟨j.val / 2, by omega⟩).setWidth 32
  else (lanes ⟨j.val / 2, by omega⟩ >>> 32).setWidth 32

/-- `keccakf_u32`. -/
def keccakfU32 (input : Words) : Words := wordsOf (keccakf (lanesOf input))

/-- The input with zeros behind it and a one in the first of them. -/
def unmarkedWords (input : List (BitVec 32)) : List (BitVec 32) :=
  let numBlocks := input.length / BLOCK_SIZE + 1
  let padded := input ++ List.replicate (BLOCK_SIZE * numBlocks - input.length) 0
  padded.set input.length 0x01

/-- The padded input, with the top bit set in the last word. -/
def paddedWords (input : List (BitVec 32)) : List (BitVec 32) :=
  (unmarkedWords input).modify ((unmarkedWords input).length - 1) (· ^^^ 0x80 <<< 24)

/-- `state[j] ^= padded[i * BLOCK_SIZE + j]` for the words of a block. -/
def xorBlock (padded : List (BitVec 32)) (i : ℕ) (state : Words) : Words := fun j =>
  if j.val < BLOCK_SIZE then state j ^^^ padded.getD (i * BLOCK_SIZE + j.val) 0 else state j

/-- The state of `keccak256` after `n` blocks. -/
def stateAfter (padded : List (BitVec 32)) (n : ℕ) : Words :=
  forLoop (fun i state => keccakfU32 keccakf (xorBlock padded i state)) n
    fun _ => 0#32

theorem stateAfter_zero (padded : List (BitVec 32)) :
    stateAfter keccakf padded 0 = fun _ => 0#32 := rfl

theorem stateAfter_succ (padded : List (BitVec 32)) (n : ℕ) :
    stateAfter keccakf padded (n + 1) =
      keccakfU32 keccakf (xorBlock padded n (stateAfter keccakf padded n)) := rfl

/-- `keccak256`. -/
def keccak256Words (input : List (BitVec 32)) : Fin 8 → BitVec 32 := fun k =>
  stateAfter keccakf (paddedWords input) (input.length / BLOCK_SIZE + 1) ⟨k.val, by omega⟩

def solidityKeccak256 (input : List (BitVec 32)) : Fin 8 → BitVec 32 := fun k =>
  outputWord (keccak256Words keccakf (input.map inputWord) k)

/-! ## Padding -/

/-- The `n + 1` words that end an input. -/
def paddingWords : ℕ → List (BitVec 32)
  | 0 => [0x80000001]
  | n + 1 => 0x01 :: (List.replicate n 0 ++ [0x80000000])

theorem modify_last {α : Type*} (f : α → α) (xs : List α) (x : α) :
    (xs ++ [x]).modify ((xs ++ [x]).length - 1) f = xs ++ [f x] := by
  induction xs with
  | nil => rfl
  | cons y ys ih =>
    have hlength : (y :: ys ++ [x]).length - 1 = (ys ++ [x]).length - 1 + 1 := by
      simp only [List.cons_append, List.length_cons, List.length_append]
      omega
    rw [hlength, List.cons_append, List.modify_succ_cons, ih]
    rfl

theorem paddedWords_eq (input : List (BitVec 32)) :
    paddedWords input = input ++ paddingWords (BLOCK_SIZE - 1 - input.length % BLOCK_SIZE) := by
  have hmod : input.length % BLOCK_SIZE < BLOCK_SIZE := Nat.mod_lt _ (by decide)
  have hdiv := Nat.div_add_mod input.length BLOCK_SIZE
  have hcount : BLOCK_SIZE * (input.length / BLOCK_SIZE + 1) - input.length =
      BLOCK_SIZE - 1 - input.length % BLOCK_SIZE + 1 := by
    rw [Nat.mul_succ]
    omega
  have hset : ∀ n, (input ++ List.replicate (n + 1) 0).set input.length (0x01 : BitVec 32) =
      input ++ 0x01 :: List.replicate n 0 := by
    intro n
    rw [List.set_append_right _ _ (le_refl _), Nat.sub_self]
    rfl
  simp only [paddedWords, unmarkedWords, hcount, hset]
  cases BLOCK_SIZE - 1 - input.length % BLOCK_SIZE with
  | zero => exact modify_last _ input 0x01
  | succ n =>
    have hsplit : input ++ 0x01 :: List.replicate (n + 1) (0 : BitVec 32) =
        (input ++ 0x01 :: List.replicate n 0) ++ [0] := by
      rw [List.replicate_succ', List.append_assoc, List.cons_append]
    rw [hsplit, modify_last, List.append_assoc, List.cons_append]
    rfl

/-- Written out, the padded words are the padded bytes. -/
theorem paddedWords_bytes (input : List (BitVec 32)) :
    (paddedWords input).flatMap toLeBytes = pad (input.flatMap toLeBytes) := by
  have hlength : (input.flatMap toLeBytes).length = input.length * 4 :=
    length_flatMap_record fun w _ => toLeBytes_length w
  have hmod : input.length % BLOCK_SIZE < BLOCK_SIZE := Nat.mod_lt _ (by decide)
  have hrate : RATE - input.length * 4 % RATE =
      4 * (BLOCK_SIZE - 1 - input.length % BLOCK_SIZE + 1) := by
    have hscale : input.length * 4 % RATE = input.length % BLOCK_SIZE * 4 :=
      Nat.mul_mod_mul_right 4 input.length BLOCK_SIZE
    rw [hscale]
    have hsize : RATE = 4 * BLOCK_SIZE := rfl
    omega
  have hpadding : ∀ n, (paddingWords n).flatMap toLeBytes = padding (4 * (n + 1)) := by
    intro n
    unfold padding
    rw [if_neg (by omega)]
    cases n with
    | zero => decide
    | succ n =>
      have hzeros : ∀ m, (List.replicate m (0 : BitVec 32)).flatMap toLeBytes =
          List.replicate (m * 4) 0 := by
        intro m
        induction m with
        | zero => rfl
        | succ m ih =>
          rw [List.replicate_succ, List.flatMap_cons, ih, Nat.succ_mul, Nat.add_comm,
            List.replicate_add]
          rfl
      have hcount : 4 * (n + 1 + 1) - 2 = 3 + (n * 4 + 3) := by omega
      rw [paddingWords, List.flatMap_cons, List.flatMap_append, hzeros, hcount,
        List.replicate_add, List.replicate_add, List.append_assoc, List.append_assoc]
      rfl
  rw [paddedWords_eq, List.flatMap_append, pad, hlength, hrate, hpadding]

/-! ## The two sponges -/

theorem append_toNat (a b : BitVec 32) :
    (b ++ a : BitVec 64).toNat = b.toNat * 2 ^ 32 + a.toNat := by
  rw [BitVec.toNat_append, ← Nat.shiftLeft_add_eq_or_of_lt a.isLt, Nat.shiftLeft_eq]

/-- Two words side by side. -/
theorem join_eq_append (a b : BitVec 32) :
    a.setWidth 64 + (b.setWidth 64 <<< 32) = (b ++ a : BitVec 64) := by
  have ha := a.isLt
  have hb := b.isLt
  apply BitVec.eq_of_toNat_eq
  rw [append_toNat, BitVec.toNat_add, BitVec.toNat_shiftLeft, BitVec.toNat_setWidth,
    BitVec.toNat_setWidth, Nat.shiftLeft_eq]
  omega

theorem lanesOf_apply (input : Words) (l : Fin 25) : lanesOf input l =
    (input ⟨2 * l.val + 1, by omega⟩ ++ input ⟨2 * l.val, by omega⟩ : BitVec 64) :=
  join_eq_append _ _

/-- The lane with the bytes of two words. -/
theorem lane_eq_append {byte : ℕ → BitVec 8} {a b : BitVec 32}
    (ha : ∀ k < 4, byte k = (toLeBytes a).getD k 0)
    (hb : ∀ k < 4, byte (4 + k) = (toLeBytes b).getD k 0) : lane byte = (b ++ a : BitVec 64) := by
  have hvalue : littleEndian 8 (fun k => (byte k).toNat) 8 = b.toNat * 2 ^ 32 + a.toNat := by
    have hsplit : littleEndian 8 (fun k => (byte k).toNat) 8 =
        littleEndian 8 (fun k => (byte k).toNat) 4 +
          littleEndian 8 (fun k => (byte (4 + k)).toNat) 4 * 2 ^ 32 := by
      simp only [littleEndian]
      ring
    rw [hsplit, littleEndian_congr fun k hk => congrArg BitVec.toNat (ha k hk),
      littleEndian_congr fun k hk => congrArg BitVec.toNat (hb k hk), toLeBytes_value,
      toLeBytes_value, Nat.add_comm]
  have halt := a.isLt
  have hblt := b.isLt
  apply BitVec.eq_of_toNat_eq
  rw [lane, BitVec.toNat_ofNat, hvalue, append_toNat, Nat.mod_eq_of_lt (by omega)]

/-- Byte `k` of word `q`; words behind the end are zero. -/
theorem getD_flatMap_toLeBytes (words : List (BitVec 32)) (q : ℕ) {k : ℕ} (hk : k < 4) :
    (words.flatMap toLeBytes).getD (4 * q + k) 0 = (toLeBytes (words.getD q 0)).getD k 0 := by
  have hword : words.getD q 0 = words[q]?.getD 0 := List.getD_eq_getElem?_getD
  rw [List.getD_eq_getElem?_getD, Nat.mul_comm,
    getElem?_flatMap_record (fun w _ => toLeBytes_length w) hk, hword]
  cases words[q]? with
  | some w => rw [Option.bind_some, Option.getD_some, List.getD_eq_getElem?_getD]
  | none =>
    have hzero : ∀ k < 4, (toLeBytes 0).getD k 0 = 0 := by decide
    exact (hzero k hk).symm

/-- A block of words enters the lanes as its bytes do. -/
theorem lanesOf_xorBlock (words : List (BitVec 32)) (i : ℕ) (state : Words) :
    lanesOf (xorBlock words i state) =
      absorbBlock (fun k => (words.flatMap toLeBytes).getD (RATE * i + k) 0) (lanesOf state) := by
  funext l
  have hword : ∀ j (hj : j < 50), xorBlock words i state ⟨j, hj⟩ =
      if j < 34 then state ⟨j, hj⟩ ^^^ words.getD (i * 34 + j) 0 else state ⟨j, hj⟩ :=
    fun _ _ => rfl
  have hbyte : ∀ j, ∀ k < 4, (words.flatMap toLeBytes).getD (RATE * i + (4 * j + k)) 0 =
      (toLeBytes (words.getD (i * 34 + j) 0)).getD k 0 := by
    intro j k hk
    have hpos : RATE * i + (4 * j + k) = 4 * (i * 34 + j) + k := by
      unfold RATE
      omega
    rw [hpos, getD_flatMap_toLeBytes words _ hk]
  rw [lanesOf_apply, hword, hword, absorbBlock, lanesOf_apply]
  by_cases hl : l.val < 17
  · have hlane := @lane_eq_append
      (fun k => (words.flatMap toLeBytes).getD (RATE * i + (8 * l.val + k)) 0) _ _
      (fun k hk => by rw [show 8 * l.val + k = 4 * (2 * l.val) + k by omega, hbyte _ k hk])
      (fun k hk => by
        rw [show 8 * l.val + (4 + k) = 4 * (2 * l.val + 1) + k by omega, hbyte _ k hk])
    rw [if_pos (by omega), if_pos (by omega), if_pos hl, hlane, BitVec.xor_append]
  · rw [if_neg (by omega), if_neg (by omega), if_neg hl]

theorem lanesOf_wordsOf (lanes : Lanes) : lanesOf (wordsOf lanes) = lanes := by
  funext l
  have hlow : wordsOf lanes ⟨2 * l.val, by omega⟩ = (lanes l).setWidth 32 := by
    have hindex : (⟨2 * l.val / 2, by omega⟩ : Fin 25) = l := Fin.ext (by simp)
    rw [wordsOf, if_pos (Nat.mul_mod_right 2 l.val)]
    exact congrArg (fun i => (lanes i).setWidth 32) hindex
  have hhigh : wordsOf lanes ⟨2 * l.val + 1, by omega⟩ = (lanes l >>> 32).setWidth 32 := by
    have hindex : (⟨(2 * l.val + 1) / 2, by omega⟩ : Fin 25) = l := Fin.ext (by simp; omega)
    rw [wordsOf, if_neg (by simp only; omega)]
    exact congrArg (fun i => (lanes i >>> 32).setWidth 32) hindex
  have hlt := (lanes l).isLt
  apply BitVec.eq_of_toNat_eq
  simp only [lanesOf, hlow, hhigh, BitVec.toNat_add, BitVec.toNat_shiftLeft, BitVec.toNat_setWidth,
    BitVec.toNat_ushiftRight, Nat.shiftLeft_eq, Nat.shiftRight_eq_div_pow]
  omega

/-- After every block, the words of the one sponge are the lanes of the other. -/
theorem lanesOf_stateAfter (words : List (BitVec 32)) (n : ℕ) :
    lanesOf (stateAfter keccakf words n) = absorbed keccakf (words.flatMap toLeBytes) n := by
  induction n with
  | zero =>
    rw [stateAfter_zero, absorbed_zero]
    funext l
    rw [lanesOf_apply]
    rfl
  | succ n ih =>
    rw [stateAfter_succ, absorbed_succ, keccakfU32, lanesOf_wordsOf, lanesOf_xorBlock, ih]

/-- The bytes of two words side by side. -/
theorem append_byte (a b : BitVec 32) {k : ℕ} (hk : k < 8) :
    ((b ++ a : BitVec 64) >>> (8 * k)).setWidth 8 =
      ((if k < 4 then a else b) >>> (8 * (k % 4))).setWidth 8 := by
  have ha := a.isLt
  have hb := b.isLt
  apply BitVec.eq_of_toNat_eq
  rw [BitVec.toNat_setWidth, BitVec.toNat_ushiftRight, append_toNat, BitVec.toNat_setWidth,
    BitVec.toNat_ushiftRight, Nat.shiftRight_eq_div_pow, Nat.shiftRight_eq_div_pow]
  interval_cases k
  all_goals
    simp only [Nat.reduceLT, Nat.reduceMul, Nat.reduceMod, Nat.reducePow, if_true, if_false]
    omega

theorem outputByte_eq (state : Words) (k : Fin 32) :
    outputByte (lanesOf state) k =
      (state ⟨k.val / 4, by omega⟩ >>> (8 * (k.val % 4))).setWidth 8 := by
  have hmod : k.val % 8 % 4 = k.val % 4 := by omega
  rw [outputByte, lanesOf_apply, append_byte _ _ (Nat.mod_lt _ (by decide)), hmod]
  by_cases hlow : k.val % 8 < 4
  · have hindex : 2 * (k.val / 8) = k.val / 4 := by omega
    simp only [if_pos hlow, hindex]
  · have hindex : 2 * (k.val / 8) + 1 = k.val / 4 := by omega
    simp only [if_neg hlow, hindex]

/-- The words of the digest, written out. -/
theorem toBeBytes_output (state : Words) :
    (List.ofFn fun k : Fin 8 => outputWord (state ⟨k.val, by omega⟩)).flatMap toBeBytes =
      List.ofFn (outputByte (lanesOf state)) := by
  apply List.ext_getElem?
  intro n
  by_cases hn : n < 32
  · have hsplit : n = n / 4 * 4 + n % 4 := by omega
    have hword : n / 4 < 8 := by omega
    have hentry : ((List.ofFn fun k : Fin 8 =>
        outputWord (state ⟨k.val, by omega⟩)).flatMap toBeBytes)[n / 4 * 4 + n % 4]? = _ :=
      getElem?_flatMap_record (fun w _ => toBeBytes_length w) (Nat.mod_lt n (by decide))
    rw [← hsplit, List.getElem?_ofFn, dif_pos hword, Option.bind_some, toBeBytes_outputWord,
      toLeBytes_getElem? _ (Nat.mod_lt n (by decide))] at hentry
    rw [hentry, List.getElem?_ofFn, dif_pos hn, outputByte_eq]
  · rw [List.getElem?_eq_none, List.getElem?_eq_none]
    · rw [List.length_ofFn]
      omega
    · rw [length_flatMap_record fun w _ => toBeBytes_length w, List.length_ofFn]
      omega

/-- The native hash is Keccak-256 of the words in big-endian order. -/
theorem solidityKeccak256_eq (input : List (BitVec 32)) :
    (List.ofFn (solidityKeccak256 keccakf input)).flatMap toBeBytes =
      keccak256 keccakf (input.flatMap toBeBytes) := by
  have hinput : (input.map inputWord).flatMap toLeBytes = input.flatMap toBeBytes := by
    rw [List.flatMap_map]
    simp only [toLeBytes_inputWord]
  have hlength : (input.flatMap toBeBytes).length = input.length * 4 :=
    length_flatMap_record fun w _ => toBeBytes_length w
  have hblocks : input.length * 4 / RATE + 1 = input.length / BLOCK_SIZE + 1 :=
    congrArg (· + 1) (Nat.mul_div_mul_right input.length BLOCK_SIZE (by decide))
  have hdigest := toBeBytes_output
    (stateAfter keccakf (paddedWords (input.map inputWord)) (input.length / BLOCK_SIZE + 1))
  rw [lanesOf_stateAfter, paddedWords_bytes, hinput] at hdigest
  rw [keccak256, pad_length, Nat.mul_div_cancel_left _ (by decide), hlength, hblocks, ← hdigest]
  unfold solidityKeccak256 keccak256Words
  rw [List.length_map]

end Doxa
