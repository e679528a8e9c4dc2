import Doxa.KeccakStark.Forgery

/-!
# The gadget around the table

The circuit of the sponge leaves the outputs of the permutations free. The generator proves a
table for them, whose rows are looked up with the inputs and outputs of the permutations; what
the recursive verifier makes sure of is taken to be the constraints of the table and both
lookups. The generated witness is accepted. Where the columns for single bits hold bits, the
output is the digest. The constraints themselves do not say so, and with other rows the circuit
accepts every digest of every message.
-/

namespace Doxa.KeccakStark

open Lib Lib.Keccak Server Circuit Circuit.KeccakTargets

/-! ## The permutations of a message -/

theorem lowLimb_lt (i : Fin 25) : 2 * i.val < 50 := by omega

theorem highLimb_lt (i : Fin 25) : 2 * i.val + 1 < 50 := by omega

/-- `unflatten_and_transpose`. -/
def unflattenAndTranspose (input : Words) : Lanes := fun i =>
  (input ⟨2 * i.val + 1, highLimb_lt i⟩).setWidth 64 <<< 32 |||
    (input ⟨2 * i.val, lowLimb_lt i⟩).setWidth 64

/-- What `keccak256` goes through a message with. -/
structure Keccak256Result where
  state : Words
  permInputs : List Words
  permOutputs : List Words

def absorbWords (padded : List (BitVec 32)) (i : ℕ) (result : Keccak256Result) : Keccak256Result :=
  let input := xorBlock padded i result.state
  let output := keccakfU32 keccakF input
  { state := output
    permInputs := result.permInputs ++ [input]
    permOutputs := result.permOutputs ++ [output] }

/-- `solidity_keccak256_with_perm_io`, before the words of the digest are reversed. -/
def keccak256WithPermIo (words : List (BitVec 32)) : Keccak256Result :=
  let input := words.map inputWord
  forLoop (absorbWords (paddedWords input)) (input.length / BLOCK_SIZE + 1) ⟨fun _ => 0, [], []⟩

/-- The inputs of the table with their timestamps. -/
def keccakStarkInput (words : List (BitVec 32)) : List (Lanes × ℕ) :=
  (keccak256WithPermIo words).permInputs.zipIdx.map fun p => (unflattenAndTranspose p.1, p.2)

/-- The rows behind the generated proof. -/
def generatedRows (words : List (BitVec 32)) : List (Row F) :=
  generateTraceRows (keccakStarkInput words) 8

theorem unflattenAndTranspose_eq (input : Words) : unflattenAndTranspose input = lanesOf input := by
  funext i
  apply BitVec.eq_of_toNat_eq
  rw [lanesOf_apply, BitVec.toNat_append, unflattenAndTranspose, BitVec.toNat_or,
    BitVec.toNat_shiftLeft, BitVec.toNat_setWidth, BitVec.toNat_setWidth]
  have hhigh := (input ⟨2 * i.val + 1, by omega⟩).isLt
  have hlow := (input ⟨2 * i.val, by omega⟩).isLt
  rw [Nat.mod_eq_of_lt (hhigh.trans (by decide)), Nat.mod_eq_of_lt (hlow.trans (by decide)),
    Nat.shiftLeft_eq, Nat.mod_eq_of_lt (by omega)]

theorem append_low (a b : BitVec 32) : (b ++ a : BitVec 64).setWidth 32 = a := by
  have ha := a.isLt
  apply BitVec.eq_of_toNat_eq
  rw [BitVec.toNat_setWidth, append_toNat]
  omega

theorem append_high (a b : BitVec 32) : ((b ++ a : BitVec 64) >>> 32).setWidth 32 = b := by
  have ha := a.isLt
  have hb := b.isLt
  apply BitVec.eq_of_toNat_eq
  rw [BitVec.toNat_setWidth, BitVec.toNat_ushiftRight, append_toNat, Nat.shiftRight_eq_div_pow]
  omega

theorem wordsOf_lanesOf (words : Words) : wordsOf (lanesOf words) = words := by
  funext j
  rcases Nat.mod_two_eq_zero_or_one j.val with heven | hodd
  · rw [wordsOf, if_pos heven, lanesOf_apply, append_low]
    exact congrArg words (Fin.ext (by simp only; omega))
  · rw [wordsOf, if_neg (by omega), lanesOf_apply, append_high]
    exact congrArg words (Fin.ext (by simp only; omega))

section Message

variable (words : List (BitVec 32))

/-- The input of permutation `i`. -/
def blockInput (i : ℕ) : Words :=
  xorBlock (paddedWords (words.map inputWord)) i
    (stateAfter keccakF (paddedWords (words.map inputWord)) i)

/-- The loop after `n` blocks. -/
theorem forLoop_absorbWords (n : ℕ) :
    forLoop (absorbWords (paddedWords (words.map inputWord))) n ⟨fun _ => 0, [], []⟩ =
      { state := stateAfter keccakF (paddedWords (words.map inputWord)) n
        permInputs := (List.range n).map (blockInput words)
        permOutputs := (List.range n).map fun i =>
          stateAfter keccakF (paddedWords (words.map inputWord)) (i + 1) } := by
  induction n with
  | zero => rfl
  | succ n ih =>
    rw [forLoop_succ, ih, List.range_succ, List.map_append, List.map_append]
    rfl

theorem keccakStarkInput_eq : keccakStarkInput words =
    (List.range (numBlocks (words.map wordTarget))).map fun i => (lanesOf (blockInput words i), i) := by
  have hblocks : numBlocks (words.map wordTarget) = (words.map inputWord).length / BLOCK_SIZE + 1 := by
    rw [numBlocks, List.length_map, List.length_map]
  rw [keccakStarkInput, keccak256WithPermIo, forLoop_absorbWords, ← hblocks]
  apply List.ext_getElem
  · simp only [List.length_map, List.length_zipIdx]
  · intro i hi _
    simp only [List.getElem_map, List.getElem_zipIdx, List.getElem_range, Nat.zero_add,
      unflattenAndTranspose_eq]

theorem keccakStarkInput_length :
    (keccakStarkInput words).length = numBlocks (words.map wordTarget) := by
  rw [keccakStarkInput_eq, List.length_map, List.length_range]

theorem generatedRows_filled :
    Filled (generatedRows words) (numBlocks (words.map wordTarget)) :=
  keccakStarkInput_length words ▸ generateTraceRows_filled (keccakStarkInput words) 8

/-- The table has as many rows as the recursive verifier expects. -/
theorem generatedRows_length : (generatedRows words).length =
    nextPowerOfTwo (NUM_ROUNDS * numBlocks (words.map wordTarget)) := by
  have hblocks : 1 ≤ numBlocks (words.map wordTarget) := Nat.succ_pos _
  have hrows : 8 ≤ numBlocks (words.map wordTarget) * NUM_ROUNDS := by
    unfold NUM_ROUNDS
    omega
  rw [generatedRows, generateTraceRows_length, keccakStarkInput_length, Nat.max_eq_left hrows,
    Nat.mul_comm]

/-- Row `j` of permutation `k`. -/
theorem generatedRows_roundRow {k j : ℕ} (hk : k < numBlocks (words.map wordTarget)) (hj : j < 24) :
    RoundRow (rowAt (generatedRows words) (24 * k + j)) j
        (forLoop keccakRound j (lanesOf (blockInput words k))) ∧
      rowAt (generatedRows words) (24 * k + j) TIMESTAMP = (k : F) := by
  have hlt : k < (keccakStarkInput words).length := by rwa [keccakStarkInput_length]
  have hget : (keccakStarkInput words).get ⟨k, hlt⟩ = (lanesOf (blockInput words k), k) := by
    simp only [keccakStarkInput_eq, List.get_eq_getElem, List.getElem_map, List.getElem_range]
  have hrow := roundTraceRow_roundRow (lanesOf (blockInput words k)) k hj
  rw [generatedRows, rowAt_generateTraceRows _ 8 hlt hj, hget]
  exact hrow

end Message

/-! ## Witnesses the circuit accepts -/

/-- The constraints of the circuit but for those on the permutations. -/
structure SpongeHolds (t : KeccakTargets) (input : List F) : Prop extends t.Padded input where
  block_bits : ∀ i < numBlocks input, ∀ j : Fin 50, j.val < BLOCK_SIZE →
    (t.blockBits i j.val).Satisfied (t.state i j)
      ((t.padded input).getD (i * BLOCK_SIZE + j.val) 0)
  output_bits : ∀ k : Fin 8,
    SplitLe (t.state (numBlocks input) ⟨k.val, outputIndex_lt k⟩) (t.outputBits k)

/-- The constraints of the circuit, with those on the rows behind the proof. -/
structure Accepted (t : KeccakTargets) (input : List F) (rows : List (Row F)) : Prop
    extends SpongeHolds t input where
  rows_length : rows.length = nextPowerOfTwo (NUM_ROUNDS * numBlocks input)
  constraints : Satisfied rows
  inputs : (extraLookingValues (numBlocks input) t.permInput).Perm (lookedInputs rows)
  outputs : (extraLookingValues (numBlocks input) t.permOutput).Perm (lookedOutputs rows)

theorem ctlData_of_limbs {reg : Fin 50 → ℕ} {l : Row F} {limbs : Fin 50 → F} {t : F}
    (hlimbs : ∀ i, l (reg i) = limbs i) (htime : l TIMESTAMP = t) :
    ctlData reg l = List.ofFn limbs ++ [t] := by
  rw [ctlData, htime, show (fun i => l (reg i)) = limbs from funext hlimbs]

/-- A lookup goes through where the rows of the permutations have the limbs asked for. -/
theorem Filled.extraLookingValues_perm {rows : List (Row F)} {m r : ℕ} (h : Filled rows m)
    (hr : r < 24) {reg : Fin 50 → ℕ} {perm : ℕ → Fin 50 → F}
    (hlimbs : ∀ k < m, ∀ i, rowAt rows (24 * k + r) (reg i) = perm k i)
    (htime : ∀ k < m, rowAt rows (24 * k + r) TIMESTAMP = (k : F)) :
    (extraLookingValues m perm).Perm
      ((rows.filter fun l => l (regStep r) ≠ 0).map (ctlData reg)) := by
  have hvalues : extraLookingValues m perm =
      (List.range m).map fun k => ctlData reg (rowAt rows (24 * k + r)) := by
    refine List.map_congr_left fun k hk => ?_
    have hk' := List.mem_range.mp hk
    exact (ctlData_of_limbs (hlimbs k hk') (htime k hk')).symm
  rw [hvalues]
  exact (h.looked hr reg).symm

/-- The generators' assignment for the message. -/
theorem honest_permInput (words : List (BitVec 32)) (i : ℕ) :
    (honest keccakF words).permInput i = fun j => wordTarget (blockInput words i j) :=
  permInput_eq (honest_state keccakF words i) fun j _ => honest_block keccakF words i j

/-- The circuit accepts what its generators fill in. -/
theorem honest_accepted (words : List (BitVec 32)) :
    Accepted (honest keccakF words) (words.map wordTarget) (generatedRows words) := by
  have hhonest := honest_satisfied keccakF words
  have hfilled := generatedRows_filled words
  have hrow := fun (k : ℕ) (hk : k < numBlocks (words.map wordTarget)) (j : ℕ) (hj : j < 24) =>
    generatedRows_roundRow words hk hj
  refine ⟨⟨hhonest.toPadded, hhonest.block_bits, hhonest.output_bits⟩, generatedRows_length words,
    hfilled.satisfied (Nat.succ_pos _), ?_, ?_⟩
  · refine hfilled.extraLookingValues_perm (by decide) (fun k hk i => ?_) fun k hk =>
      (hrow k hk 0 (by decide)).2
    rw [(hrow k hk 0 (by decide)).1.input i, honest_permInput]
    exact congrArg wordTarget (congrFun (wordsOf_lanesOf (blockInput words k)) i)
  · exact hfilled.extraLookingValues_perm (by decide)
      (fun k hk i => (hrow k hk 23 (by decide)).1.output i) fun k hk => (hrow k hk 23 (by decide)).2

/-- What the generators fill in is accepted, consists of bits where it should, and has the digest
of the message for its output. -/
theorem gadget_complete (words : List (BitVec 32)) :
    Accepted (honest keccakF words) (words.map wordTarget) (generatedRows words) ∧
      (∀ l ∈ generatedRows words, BitColumns l) ∧
      ∀ k, (honest keccakF words).output k = wordTarget (solidityKeccak256 keccakF words k) :=
  ⟨honest_accepted words, generateTraceRows_bitColumns _ 8,
    (honest_satisfied keccakF words).output_eq⟩

/-! ## Columns of bits -/

theorem numBlocks_le {input : List F} (h : input.length < 2 ^ 64) : numBlocks input ≤ ORDER := by
  unfold numBlocks BLOCK_SIZE ORDER
  omega

/-- Where the columns for bits hold bits, the rows tie the permutations of the circuit to
Keccak-f. -/
theorem Accepted.satisfied {t : KeccakTargets} {input : List F} {rows : List (Row F)}
    (h : Accepted t input rows) (hbits : ∀ l ∈ rows, BitColumns l) (hlen : input.length < 2 ^ 64) :
    t.Satisfied keccakF input where
  toPadded := h.toPadded
  block_bits := h.block_bits
  perm := by
    intro i hi words hwords
    funext j
    refine h.constraints.linked hbits (numBlocks_le hlen) h.inputs h.outputs hi (fun k => ?_) j
    rw [hwords, wordsOf_lanesOf]
  output_bits := h.output_bits

/-- The circuit is sound where the columns for bits hold bits. -/
theorem gadget_sound {t : KeccakTargets} {words : List (BitVec 32)} {rows : List (Row F)}
    (h : Accepted t (words.map wordTarget) rows) (hbits : ∀ l ∈ rows, BitColumns l)
    (hlen : words.length < 2 ^ 64) (k : Fin 8) :
    t.output k = wordTarget (solidityKeccak256 keccakF words k) :=
  (h.satisfied hbits (by rwa [List.length_map])).output_eq k

theorem gadget_sound_empty : (honest keccakF []).output 0 =
    wordTarget (solidityKeccak256 keccakF [] 0) :=
  gadget_sound (honest_accepted []) (generateTraceRows_bitColumns _ 8) (by decide) 0

/-! ## Other digests -/

section LastRow

variable {rows : List (Row F)} {m : ℕ} {l : Row F}

theorem rowAt_set (h : Filled rows (m + 1)) (i : ℕ) :
    rowAt (rows.set (24 * m + 23) l) i = if 24 * m + 23 = i then l else rowAt rows i := by
  have hlt : 24 * m + 23 < rows.length := by
    have := h.le
    omega
  rw [rowAt, rowAt, List.getD_eq_getElem?_getD, List.getElem?_set, if_pos hlt]
  split
  · rfl
  · rw [List.getD_eq_getElem?_getD]

/-- The last row of the last permutation may be any row with the same input that satisfies the
constraints of its round. -/
theorem Filled.set_last (h : Filled rows (m + 1)) (hround : RoundHolds l)
    (hbase : ∀ k < START_C, l k = rowAt rows (24 * m + 23) k) :
    Filled (rows.set (24 * m + 23) l) (m + 1) := by
  have hsame : ∀ i, ∀ k < START_C, rowAt (rows.set (24 * m + 23) l) i k = rowAt rows i k := by
    intro i k hk
    rw [rowAt_set h]
    split
    · rename_i hi
      rw [← hi]
      exact hbase k hk
    · rfl
  have hlow : ∀ k ≤ TIMESTAMP, k < START_C := fun k hk => by
    have := starts
    omega
  refine ⟨?_, fun k hk j hj i hi => ?_, fun k hk j hj => ?_, fun k hk j hj => ?_,
    fun k hk j hj => ?_, fun i hi => ?_⟩
  · rw [List.length_set]
    exact h.le
  · exact (hsame _ _ (hlow i (Nat.le_of_lt hi))).trans (h.step k hk j hj i hi)
  · rw [rowAt_set h]
    split
    · exact hround
    · exact h.round k hk j hj
  · rw [hsame _ _ (hlow _ le_rfl), hsame _ _ (hlow _ le_rfl)]
    exact h.timestamp k hk j hj
  · obtain ⟨a, hout, hin⟩ := h.output k hk j hj
    refine ⟨a, ?_, fun i => (hsame _ _ ?_).trans (hin i)⟩
    · rw [rowAt_set h, if_neg (by omega)]
      exact hout
    · have hlimb := regA_mem ⟨i.val / 2 % 5, limb_x i⟩ ⟨i.val / 2 / 5, limb_y i⟩
      unfold regInputLimb
      omega
  · rw [rowAt_set h, if_neg (by omega)]
    exact h.padding i hi

end LastRow

section Digest

variable (digest : Fin 8 → BitVec 32)

/-- The lanes `(x, 0)` of an output with the digest. -/
def digestLane (x : Fin 5) : BitVec 64 :=
  if h : x.val < 4 then
    inputWord (digest ⟨2 * x.val + 1, by omega⟩) ++ inputWord (digest ⟨2 * x.val, by omega⟩)
  else 0

theorem outputWord_inputWord (v : BitVec 32) : outputWord (inputWord v) = v := by
  have hbytes : toBeBytes (outputWord (inputWord v)) = toBeBytes v :=
    (toBeBytes_outputWord _).trans (toLeBytes_inputWord v)
  apply BitVec.eq_of_toNat_eq
  rw [← toBeBytes_value, hbytes, toBeBytes_value]

/-- The limbs of the digest in such an output. -/
theorem digest_limb {l : Row F} (h : ∀ x, LimbsAre l (regAPrimePrimePrime x 0) (digestLane digest x))
    (k : Fin 8) : l (regOutputLimb ⟨k.val, outputIndex_lt k⟩) = wordTarget (inputWord (digest k)) := by
  have hx : k.val / 2 % 5 = k.val / 2 := by omega
  have hreg : regOutputLimb ⟨k.val, outputIndex_lt k⟩ =
      regAPrimePrimePrime ⟨k.val / 2, by omega⟩ 0 + k.val % 2 := by
    have hy : k.val / 2 / 5 = 0 := by omega
    simp only [regOutputLimb, hx, hy]
    rfl
  have hlane : digestLane digest ⟨k.val / 2, by omega⟩ =
      inputWord (digest ⟨2 * (k.val / 2) + 1, by omega⟩) ++
        inputWord (digest ⟨2 * (k.val / 2), by omega⟩) := dif_pos (show k.val / 2 < 4 by omega)
  obtain ⟨hlow, hhigh⟩ := h ⟨k.val / 2, by omega⟩
  rw [hlane] at hlow hhigh
  rw [append_low] at hlow
  rw [append_high] at hhigh
  rcases Nat.mod_two_eq_zero_or_one k.val with heven | hodd
  · rw [hreg, heven, Nat.add_zero, hlow]
    exact congrArg (fun i => wordTarget (inputWord (digest i))) (Fin.ext (by simp only; omega))
  · rw [hreg, hodd, hhigh]
    exact congrArg (fun i => wordTarget (inputWord (digest i))) (Fin.ext (by simp only; omega))

variable (words : List (BitVec 32)) (last : Fin 50 → F)

/-- The generated targets with another output of the last permutation. -/
def forgedTargets : KeccakTargets :=
  { honest keccakF words with
    permOutput := fun i =>
      if i + 1 = numBlocks (words.map wordTarget) then last else (honest keccakF words).permOutput i
    outputBits := fun k => wordBits (inputWord (digest k)) }

theorem forgedTargets_permOutput (i : ℕ) : (forgedTargets digest words last).permOutput i =
    if i + 1 = numBlocks (words.map wordTarget) then last
    else (honest keccakF words).permOutput i := rfl

/-- The states before the end are the generated ones. -/
theorem forgedTargets_state {i : ℕ} (hi : i < numBlocks (words.map wordTarget)) :
    (forgedTargets digest words last).state i = (honest keccakF words).state i := by
  cases i with
  | zero => rfl
  | succ i => exact if_neg (Nat.ne_of_lt hi)

theorem forgedTargets_permInput {i : ℕ} (hi : i < numBlocks (words.map wordTarget)) :
    (forgedTargets digest words last).permInput i = fun j => wordTarget (blockInput words i j) := by
  rw [← honest_permInput]
  funext j
  simp only [permInput, forgedTargets_state digest words last hi]
  rfl

theorem forgedTargets_output (k : Fin 8) :
    (forgedTargets digest words last).output k = wordTarget (digest k) := by
  have hbits : (forgedTargets digest words last).outputBits k = wordBits (inputWord (digest k)) := rfl
  rw [output, hbits, reverseBytes_output, leSum_wordBits, outputWord_inputWord]

/-- The sponge asks nothing of the last output but the words of the digest. -/
theorem forgedTargets_sponge
    (hlast : ∀ k : Fin 8, last ⟨k.val, outputIndex_lt k⟩ = wordTarget (inputWord (digest k))) :
    SpongeHolds (forgedTargets digest words last) (words.map wordTarget) := by
  have hhonest := honest_satisfied keccakF words
  obtain ⟨m, hm⟩ : ∃ m, numBlocks (words.map wordTarget) = m + 1 := ⟨_, rfl⟩
  refine ⟨⟨hhonest.input_bits, hhonest.pad_bits⟩, fun i hi j hj => ?_, fun k => ?_⟩
  · rw [forgedTargets_state digest words last hi]
    exact hhonest.block_bits i hi j hj
  · have hstate : (forgedTargets digest words last).state (numBlocks (words.map wordTarget)) =
        last := by
      rw [hm]
      exact (forgedTargets_permOutput digest words last m).trans (if_pos hm.symm)
    rw [hstate, hlast]
    exact splitLe_wordBits _

/-- For every message, some witness the circuit accepts has the digest. -/
theorem exists_accepted_digest : ∃ (t : KeccakTargets) (rows : List (Row F)),
    Accepted t (words.map wordTarget) rows ∧ ∀ k, t.output k = wordTarget (digest k) := by
  obtain ⟨m, hm⟩ : ∃ m, numBlocks (words.map wordTarget) = m + 1 := ⟨_, rfl⟩
  have hfilled : Filled (generatedRows words) (m + 1) := hm ▸ generatedRows_filled words
  obtain ⟨l, hround, hbase, hlanes⟩ := exists_forged (by decide)
    (hfilled.step m (Nat.lt_succ_self m) 23 (by decide)) (digestLane digest)
  have hforged := hfilled.set_last hround hbase
  have hrow := fun (k : ℕ) (hk : k < m + 1) (j : ℕ) (hj : j < 24) =>
    generatedRows_roundRow words (hm.symm ▸ hk) hj
  have htime : ∀ k < m + 1, ∀ j < 24,
      rowAt ((generatedRows words).set (24 * m + 23) l) (24 * k + j) TIMESTAMP = (k : F) := by
    intro k hk j hj
    rw [rowAt_set hfilled]
    split
    · rename_i hlast
      obtain rfl : k = m := by omega
      obtain rfl : j = 23 := by omega
      exact (hbase TIMESTAMP (by have := starts; omega)).trans (hrow k hk 23 hj).2
    · exact (hrow k hk j hj).2
  refine ⟨forgedTargets digest words fun j => l (regOutputLimb j),
    (generatedRows words).set (24 * m + 23) l,
    ⟨forgedTargets_sponge digest words _ (digest_limb digest hlanes), ?_,
      hforged.satisfied (Nat.succ_pos m), ?_, ?_⟩, forgedTargets_output digest words _⟩
  · rw [List.length_set]
    exact generatedRows_length words
  · rw [hm]
    refine hforged.extraLookingValues_perm (by decide) (fun k hk i => ?_) fun k hk =>
      htime k hk 0 (by decide)
    rw [rowAt_set hfilled, if_neg (by omega), (hrow k hk 0 (by decide)).1.input i,
      forgedTargets_permInput digest words _ (hm.symm ▸ hk)]
    exact congrArg wordTarget (congrFun (wordsOf_lanesOf (blockInput words k)) i)
  · rw [hm]
    refine hforged.extraLookingValues_perm (by decide) (fun k hk i => ?_) fun k hk =>
      htime k hk 23 (by decide)
    have hround : NUM_ROUNDS - 1 = 23 := rfl
    rw [hround, rowAt_set hfilled, forgedTargets_permOutput]
    by_cases hlast : k = m
    · rw [if_pos (by omega), if_pos (by omega)]
    · rw [if_neg (by omega), if_neg (by omega), (hrow k hk 23 (by decide)).1.output i]
      rfl

end Digest

end Doxa.KeccakStark
