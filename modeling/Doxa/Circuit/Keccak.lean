import Doxa.Circuit.Builder
import Doxa.Hash.Keccak
import Mathlib.Algebra.BigOperators.Fin

/-!
# The Keccak sponge in circuits

The circuit version of `solidity_keccak256`: words are split into bits, `split_le` being the
range check, bytes are reversed by reordering the bits, and two words are added bit by bit.
Inputs and outputs of the permutation are tied together by the proof of another circuit,
which counts here as the statement that outputs of words are those of `keccakf_u32`.
-/

namespace Doxa.Circuit

open Lib.Keccak Server

/-! ## Words as bits -/

/-- The wire of a word. -/
def wordTarget (w : BitVec 32) : F := (w.toNat : F)

/-- `le_sum`. -/
def leSum (bits : Fin 32 → F) : F := ∑ i, bits i * 2 ^ i.val

/-- The constraints of `split_le(x, 32)`. -/
def SplitLe (x : F) (bits : Fin 32 → F) : Prop := (∀ i, IsBool (bits i)) ∧ leSum bits = x

def wordBits (w : BitVec 32) : Fin 32 → F := fun i => if w.getLsbD i.val then 1 else 0

/-- `bits.chunks(8).rev().flatten()`. -/
def reverseBytes (bits : Fin 32 → F) : Fin 32 → F :=
  fun i => bits ⟨(3 - i.val / 8) * 8 + i.val % 8, by omega⟩

theorem wordTarget_zero : wordTarget 0 = 0 := Nat.cast_zero

theorem wordTarget_inj {v w : BitVec 32} (h : wordTarget v = wordTarget w) : v = w := by
  have hv := v.isLt
  have hw := w.isLt
  have hval := congrArg ZMod.val h
  rw [wordTarget, wordTarget, ZMod.val_natCast_of_lt (by omega), ZMod.val_natCast_of_lt (by omega)]
    at hval
  exact BitVec.eq_of_toNat_eq hval

theorem cast_ofBits {n : ℕ} (f : Fin n → Bool) :
    ((Nat.ofBits f : ℕ) : F) = ∑ i, (if f i then 1 else 0) * 2 ^ i.val := by
  induction n with
  | zero => simp
  | succ n ih =>
    rw [Nat.ofBits_succ, Nat.cast_add, Nat.cast_mul, ih, Fin.sum_univ_succ, Finset.mul_sum,
      add_comm]
    congr 1
    · cases f 0 <;> simp
    · refine Finset.sum_congr rfl fun i _ => ?_
      rw [Fin.val_succ, pow_succ, Function.comp_apply, Nat.cast_ofNat]
      ring

theorem leSum_wordBits (w : BitVec 32) : leSum (wordBits w) = wordTarget w := by
  have hbits : Nat.ofBits (fun i : Fin 32 => w.getLsbD i.val) = w.toNat := by
    apply Nat.eq_of_testBit_eq
    intro i
    by_cases hi : i < 32
    · exact Nat.testBit_ofBits_lt _ i hi
    · rw [Nat.testBit_ofBits_ge _ i (not_lt.mp hi), BitVec.testBit_toNat,
        BitVec.getLsbD_of_ge _ i (not_lt.mp hi)]
  rw [wordTarget, ← hbits, cast_ofBits]
  rfl

theorem isBool_wordBits (w : BitVec 32) (i : Fin 32) : IsBool (wordBits w i) := by
  unfold wordBits
  split
  · exact isBool_iff.mpr (.inr rfl)
  · exact isBool_iff.mpr (.inl rfl)

theorem splitLe_wordBits (w : BitVec 32) : SplitLe (wordTarget w) (wordBits w) :=
  ⟨isBool_wordBits w, leSum_wordBits w⟩

/-- The bits of a word are no others. -/
theorem SplitLe.eq_wordBits {w : BitVec 32} {bits : Fin 32 → F} (h : SplitLe (wordTarget w) bits) :
    bits = wordBits w := by
  obtain ⟨hbool, hsum⟩ := h
  have hbits : bits = wordBits (BitVec.ofNat 32 (Nat.ofBits fun i => decide (bits i = 1))) := by
    funext i
    have hbit := Nat.testBit_ofBits_lt (fun i => decide (bits i = 1)) i.val i.isLt
    rw [wordBits, BitVec.getLsbD_ofNat, hbit, decide_eq_true i.isLt, Bool.true_and]
    rcases isBool_iff.mp (hbool i) with hi | hi
    · simp [hi]
    · simp [hi]
  rw [hbits, leSum_wordBits] at hsum
  rw [hbits, wordTarget_inj hsum]

/-- Words whose bytes stand in opposite orders. -/
theorem getLsbD_of_reversed {u v : BitVec 32} (h : toLeBytes u = (toLeBytes v).reverse) {i : ℕ}
    (hi : i < 32) : u.getLsbD i = v.getLsbD ((3 - i / 8) * 8 + i % 8) := by
  have hk : i / 8 < 4 := by omega
  have hr : i % 8 < 8 := Nat.mod_lt _ (by decide)
  have hbyte := congrArg (fun bytes => bytes[i / 8]?) h
  simp only [List.getElem?_reverse (show i / 8 < (toLeBytes v).length from hk), toLeBytes_length,
    toLeBytes_getElem? u hk, toLeBytes_getElem? v (show 4 - 1 - i / 8 < 4 by omega),
    Option.some.injEq] at hbyte
  have hbit := congrArg (fun b => b.getLsbD (i % 8)) hbyte
  simp only [BitVec.getLsbD_setWidth, BitVec.getLsbD_ushiftRight, hr, decide_true,
    Bool.true_and] at hbit
  rw [Nat.div_add_mod] at hbit
  rw [hbit, Nat.mul_comm 8]

theorem reverseBytes_of_reversed {u v : BitVec 32} (h : toLeBytes u = (toLeBytes v).reverse) :
    reverseBytes (wordBits v) = wordBits u := by
  funext i
  rw [wordBits, getLsbD_of_reversed h i.isLt]
  rfl

theorem reverseBytes_input (w : BitVec 32) : reverseBytes (wordBits w) = wordBits (inputWord w) :=
  reverseBytes_of_reversed (toLeBytes_inputWord w)

theorem reverseBytes_output (w : BitVec 32) :
    reverseBytes (wordBits w) = wordBits (outputWord w) :=
  reverseBytes_of_reversed (congrArg List.reverse (toBeBytes_outputWord w))

/-! ## Adding two words -/

/-- The targets of `xor_circuit`. -/
structure XorTargets where
  xBit : Fin 32 → F
  yBit : Fin 32 → F

namespace XorTargets

variable (t : XorTargets)

structure Satisfied (x y : F) : Prop where
  x_bit : SplitLe x t.xBit
  y_bit : SplitLe y t.yBit

/-- `x + y - 2 x y` on every pair of bits. -/
def output : F := leSum fun i => -2 * t.xBit i * t.yBit i + (t.xBit i + t.yBit i)

variable {t} {v w : BitVec 32}

theorem Satisfied.output_eq (h : t.Satisfied (wordTarget v) (wordTarget w)) :
    t.output = wordTarget (v ^^^ w) := by
  rw [output, h.x_bit.eq_wordBits, h.y_bit.eq_wordBits, ← leSum_wordBits]
  congr 1
  funext i
  simp only [wordBits, BitVec.getLsbD_xor]
  cases v.getLsbD i.val
  · cases w.getLsbD i.val <;> simp
  · cases w.getLsbD i.val
    · simp
    · norm_num

/-- What the generators fill in. -/
theorem satisfied_wordBits (v w : BitVec 32) :
    (XorTargets.mk (wordBits v) (wordBits w)).Satisfied (wordTarget v) (wordTarget w) :=
  ⟨splitLe_wordBits v, splitLe_wordBits w⟩

end XorTargets

/-! ## The sponge -/

/-- The targets of `solidity_keccak256_with_perm_io_circuit`. -/
structure KeccakTargets where
  inputBits : ℕ → Fin 32 → F
  padBits : XorTargets
  blockBits : ℕ → ℕ → XorTargets
  permOutput : ℕ → Fin 50 → F
  outputBits : Fin 8 → Fin 32 → F

namespace KeccakTargets

variable (keccakf : Lanes → Lanes) (t : KeccakTargets) (input : List F)

/-- The input words with their bytes reversed. -/
def reversed : List F :=
  List.ofFn fun k : Fin input.length => leSum (reverseBytes (t.inputBits k.val))

def numBlocks : ℕ := input.length / BLOCK_SIZE + 1

/-- The padded input before its last word is changed. -/
def unmarked : List F :=
  let padded := t.reversed input ++ List.replicate (BLOCK_SIZE * numBlocks input - input.length) 0
  padded.set input.length 1

def padded : List F := (t.unmarked input).set ((t.unmarked input).length - 1) t.padBits.output

/-- The state before block `i`. -/
def state : ℕ → Fin 50 → F
  | 0 => fun _ => 0
  | i + 1 => t.permOutput i

/-- The input of permutation `i`. -/
def permInput (i : ℕ) : Fin 50 → F :=
  fun j => if j.val < BLOCK_SIZE then (t.blockBits i j.val).output else t.state i j

/-- The constraints on the padded input. -/
structure Padded : Prop where
  input_bits : ∀ (k : ℕ) (hk : k < input.length), SplitLe (input.get ⟨k, hk⟩) (t.inputBits k)
  pad_bits : t.padBits.Satisfied ((t.unmarked input).getD ((t.unmarked input).length - 1) 0)
    (wordTarget (0x80 <<< 24))

theorem outputIndex_lt (k : Fin 8) : k.val < 50 := k.isLt.trans (by decide)

/-- All constraints, with those on the permutations. -/
structure Satisfied : Prop extends t.Padded input where
  block_bits : ∀ i < numBlocks input, ∀ j : Fin 50, j.val < BLOCK_SIZE →
    (t.blockBits i j.val).Satisfied (t.state i j)
      ((t.padded input).getD (i * BLOCK_SIZE + j.val) 0)
  perm : ∀ i < numBlocks input, ∀ words : Words, (t.permInput i = fun j => wordTarget (words j)) →
    t.permOutput i = fun j => wordTarget (keccakfU32 keccakf words j)
  output_bits : ∀ k : Fin 8, SplitLe (t.state (numBlocks input) ⟨k.val, outputIndex_lt k⟩) (t.outputBits k)

/-- The words of the digest. -/
def output : Fin 8 → F := fun k => leSum (reverseBytes (t.outputBits k))

variable {keccakf t} {words : List (BitVec 32)}

theorem reversed_eq (h : ∀ (k : ℕ) (hk : k < (words.map wordTarget).length),
    SplitLe ((words.map wordTarget).get ⟨k, hk⟩) (t.inputBits k)) :
    t.reversed (words.map wordTarget) = (words.map inputWord).map wordTarget := by
  apply List.ext_getElem
  · rw [reversed, List.length_ofFn, List.length_map, List.length_map, List.length_map]
  · intro k hk hk'
    rw [reversed, List.length_ofFn] at hk
    have hbits := h k hk
    rw [List.get_eq_getElem, List.getElem_map] at hbits
    simp only [reversed, List.getElem_ofFn, List.getElem_map]
    rw [hbits.eq_wordBits, reverseBytes_input, leSum_wordBits]

theorem unmarked_eq (h : ∀ (k : ℕ) (hk : k < (words.map wordTarget).length),
    SplitLe ((words.map wordTarget).get ⟨k, hk⟩) (t.inputBits k)) :
    t.unmarked (words.map wordTarget) =
      (unmarkedWords (words.map inputWord)).map wordTarget := by
  have hone : wordTarget 0x01 = 1 := Nat.cast_one
  simp only [unmarked, unmarkedWords, reversed_eq h, numBlocks, List.length_map, List.map_set,
    List.map_append, List.map_replicate, wordTarget_zero, hone]

/-- The padded input of the circuit is the native one. -/
theorem Padded.padded_eq (h : t.Padded (words.map wordTarget)) :
    t.padded (words.map wordTarget) = (paddedWords (words.map inputWord)).map wordTarget := by
  have hpad := h.pad_bits
  rw [unmarked_eq h.input_bits, List.length_map, ← wordTarget_zero, List.getD_map] at hpad
  rw [padded, unmarked_eq h.input_bits, List.length_map, hpad.output_eq, paddedWords,
    List.modify_eq_set, List.map_set, List.getD_eq_getElem?_getD]
  rfl

/-- A block enters the wires of the state as it enters the native one. -/
theorem permInput_eq {i : ℕ} {before : Words} (hbefore : t.state i = fun j => wordTarget (before j))
    (hblock : ∀ j : Fin 50, j.val < BLOCK_SIZE → (t.blockBits i j.val).Satisfied (t.state i j)
      (wordTarget (words.getD (i * BLOCK_SIZE + j.val) 0))) :
    t.permInput i = fun j => wordTarget (xorBlock words i before j) := by
  funext j
  unfold permInput xorBlock
  split
  · rename_i hj
    have hj' := hblock j hj
    rw [hbefore] at hj'
    exact hj'.output_eq
  · rw [hbefore]

/-- Before every block, the wires of the state are those of the native state. -/
theorem Satisfied.state_eq (h : t.Satisfied keccakf (words.map wordTarget)) {i : ℕ}
    (hi : i ≤ numBlocks (words.map wordTarget)) :
    t.state i = fun j =>
      wordTarget (stateAfter keccakf (paddedWords (words.map inputWord)) i j) := by
  induction i with
  | zero =>
    funext j
    exact wordTarget_zero.symm
  | succ i ih =>
    have hprev := ih (Nat.le_of_succ_le hi)
    refine h.perm i hi _ (permInput_eq hprev fun j hj => ?_)
    have hblock := h.block_bits i hi j hj
    rwa [h.padded_eq, ← wordTarget_zero, List.getD_map] at hblock

/-- Every satisfying assignment has the words of the native digest for its output. -/
theorem Satisfied.output_eq (h : t.Satisfied keccakf (words.map wordTarget)) (k : Fin 8) :
    t.output k = wordTarget (solidityKeccak256 keccakf words k) := by
  have hbits := h.output_bits k
  rw [h.state_eq le_rfl] at hbits
  rw [output, hbits.eq_wordBits, reverseBytes_output, leSum_wordBits, solidityKeccak256,
    keccak256Words, numBlocks, List.length_map, List.length_map]

/-! ## The honest assignment -/

variable (keccakf) (words)

/-- The targets the generators fill in for the words `words`. -/
def honest : KeccakTargets :=
  let input := words.map inputWord
  let unmarked := unmarkedWords input
  let before := stateAfter keccakf (paddedWords input)
  { inputBits := fun k => wordBits (words.getD k 0)
    padBits := ⟨wordBits (unmarked.getD (unmarked.length - 1) 0), wordBits (0x80 <<< 24)⟩
    blockBits := fun i j => ⟨wordBits (if h : j < 50 then before i ⟨j, h⟩ else 0),
      wordBits ((paddedWords input).getD (i * BLOCK_SIZE + j) 0)⟩
    permOutput := fun i j => wordTarget (before (i + 1) j)
    outputBits := fun k => wordBits (keccak256Words keccakf input k) }

theorem honest_padded : (honest keccakf words).Padded (words.map wordTarget) := by
  have hinput : ∀ (k : ℕ) (hk : k < (words.map wordTarget).length),
      SplitLe ((words.map wordTarget).get ⟨k, hk⟩) ((honest keccakf words).inputBits k) := by
    intro k hk
    rw [List.get_eq_getElem, List.getElem_map]
    rw [List.length_map] at hk
    have hword : words.getD k 0 = words[k] := List.getD_eq_getElem _ _ hk
    rw [← hword]
    exact splitLe_wordBits _
  refine ⟨hinput, ?_⟩
  rw [unmarked_eq hinput, List.length_map, ← wordTarget_zero, List.getD_map]
  exact XorTargets.satisfied_wordBits _ _

theorem honest_state (i : ℕ) : (honest keccakf words).state i =
    fun j => wordTarget (stateAfter keccakf (paddedWords (words.map inputWord)) i j) := by
  cases i with
  | zero =>
    funext j
    exact wordTarget_zero.symm
  | succ i => rfl

theorem honest_block (i : ℕ) (j : Fin 50) :
    ((honest keccakf words).blockBits i j.val).Satisfied ((honest keccakf words).state i j)
      (wordTarget ((paddedWords (words.map inputWord)).getD (i * BLOCK_SIZE + j.val) 0)) := by
  have hblock : (honest keccakf words).blockBits i j.val =
      ⟨wordBits (stateAfter keccakf (paddedWords (words.map inputWord)) i j),
        wordBits ((paddedWords (words.map inputWord)).getD (i * BLOCK_SIZE + j.val) 0)⟩ := by
    simp only [honest, dif_pos j.isLt]
  rw [honest_state, hblock]
  exact XorTargets.satisfied_wordBits _ _

/-- The generators' assignment satisfies the constraints. -/
theorem honest_satisfied : (honest keccakf words).Satisfied keccakf (words.map wordTarget) where
  toPadded := honest_padded keccakf words
  block_bits := by
    intro i _ j _
    rw [(honest_padded keccakf words).padded_eq, ← wordTarget_zero, List.getD_map]
    exact honest_block keccakf words i j
  perm := by
    intro i _ inputs hinputs
    rw [permInput_eq (honest_state keccakf words i) fun j _ => honest_block keccakf words i j]
      at hinputs
    obtain rfl : inputs = _ := funext fun j => (wordTarget_inj (congrFun hinputs j)).symm
    rfl
  output_bits := by
    intro k
    have hdigest := splitLe_wordBits (keccak256Words keccakf (words.map inputWord) k)
    rw [keccak256Words, List.length_map] at hdigest
    rw [honest_state, numBlocks, List.length_map]
    simpa only [honest, keccak256Words, List.length_map] using hdigest

end KeccakTargets

end Doxa.Circuit
