import Doxa.KeccakStark.Generate

/-!
# The generated table

`generate_trace_rows` fills 24 rows for every input and adds zero rows up to a power of two. The
table satisfies all constraints, the columns for bits hold bits, and the last row of every
permutation has Keccak-f of its input under its timestamp.

`Filled` is what of this the constraints need: it says nothing about the columns between input
and output but that each row satisfies the constraints of a round.
-/

namespace Doxa.KeccakStark

open Lib Lib.Keccak Circuit

/-! ## Tables of full permutations -/

structure Filled (rows : List (Row F)) (m : ℕ) : Prop where
  le : 24 * m ≤ rows.length
  step : ∀ k < m, ∀ j < 24, OneHot NUM_ROUNDS (flags (rowAt rows (24 * k + j))) j
  round : ∀ k < m, ∀ j < 24, RoundHolds (rowAt rows (24 * k + j))
  timestamp : ∀ k < m, ∀ j, j + 1 < 24 →
    rowAt rows (24 * k + (j + 1)) TIMESTAMP = rowAt rows (24 * k + j) TIMESTAMP
  output : ∀ k < m, ∀ j, j + 1 < 24 → ∃ a, OutputIs (rowAt rows (24 * k + j)) a ∧
    InputIs (rowAt rows (24 * k + (j + 1))) a
  padding : ∀ i, 24 * m ≤ i → rowAt rows i = zeroRow

theorem noFlag_zeroRow : NoFlag NUM_ROUNDS (flags zeroRow) := fun _ _ => rfl

theorem computed_zero {bit : Fin 64 → F} (h : ∀ z, bit z = 0) :
    computedLo bit = 0 ∧ computedHi bit = 0 := by
  rw [computedLo_eq, computedHi_eq]
  simp only [h, zero_mul, Finset.sum_const_zero, and_self]

/-- A row of padding satisfies the constraints of a round. -/
theorem roundHolds_zeroRow : RoundHolds zeroRow := by
  have hzero : ∀ k, zeroRow k = 0 := fun _ => rfl
  have hxor3 : xor3Gen (0 : F) 0 0 = 0 := by simp [xor3Gen, xorGen]
  have hin : ∀ x y z, inputBit zeroRow x y z = 0 := fun x y z => hxor3
  have hchi : ∀ x y z, chiBit zeroRow x y z = 0 := fun x y z => by
    simp [chiBit, hzero, andnGen, xorGen]
  have hrc : ∀ z, rcBit zeroRow z = 0 := fun z => by
    rw [rcBit, foldl_add_range]
    exact Finset.sum_eq_zero fun r _ => by rw [hzero, zero_mul]
  have hxored : ∀ z, xoredBit zeroRow z = 0 := fun z => by
    simp [xoredBit, hrc, hzero, xorGen]
  have hparity : ∀ x z, parityDiff zeroRow x z = 0 := fun x z => by
    simp [parityDiff, hzero]
  refine ⟨fun x z => hxor3.symm, fun x y => (computed_zero (hin x y)).1,
    fun x y => (computed_zero (hin x y)).2, fun x z => ?_, fun x y => (computed_zero (hchi x y)).1,
    fun x y => (computed_zero (hchi x y)).2, (computed_zero fun z => hzero _).1,
    (computed_zero fun z => hzero _).2, (computed_zero hxored).1, (computed_zero hxored).2⟩
  rw [hparity, zero_mul, zero_mul]

theorem notFinalStep_eq {l : Row F} {j : ℕ} (h : OneHot NUM_ROUNDS (flags l) j) :
    notFinalStep l = if j = 23 then 0 else 1 := by
  have hlast : l (regStep (NUM_ROUNDS - 1)) = if 23 = j then 1 else 0 :=
    h (NUM_ROUNDS - 1) (by decide)
  by_cases hj : j = 23
  · subst hj
    rw [notFinalStep, hlast, if_pos rfl, if_pos rfl, sub_self]
  · rw [notFinalStep, hlast, if_neg (Ne.symm hj), if_neg hj, sub_zero]

/-- The constraints of the flags follow from those on both rows. -/
theorem FlagsHold.of_step {isFirst isLast : Prop} {l n : Row F}
    (hboolean : ∀ j < NUM_ROUNDS, flags l j * (flags l j - 1) = 0)
    (hfirst : isFirst → OneHot NUM_ROUNDS (flags l) 0)
    (hstep : ¬isLast → FlagStep NUM_ROUNDS (flags l) (flags n)) : FlagsHold isFirst isLast l n :=
  ⟨hboolean, hfirst, fun h => (hstep h).move, fun h => (hstep h).padding⟩

namespace Filled

variable {rows : List (Row F)} {m : ℕ} (h : Filled rows m)
include h

/-- A row of a permutation and the row behind it. -/
theorem holds_active {k j : ℕ} (hk : k < m) (hj : j < 24) :
    FlagsHold (24 * k + j = 0) (24 * k + j + 1 = rows.length) (rowAt rows (24 * k + j))
        (rowAt rows ((24 * k + j + 1) % rows.length)) ∧
      TimestampHolds (rowAt rows (24 * k + j)) (rowAt rows ((24 * k + j + 1) % rows.length)) ∧
      RoundHolds (rowAt rows (24 * k + j)) ∧ (¬24 * k + j + 1 = rows.length →
        OutputHolds (rowAt rows (24 * k + j)) (rowAt rows ((24 * k + j + 1) % rows.length))) := by
  have hle := h.le
  have hone := h.step k hk j hj
  have hfinal := notFinalStep_eq hone
  have hnext : 24 * k + j + 1 ≠ rows.length → (24 * k + j + 1) % rows.length = 24 * k + (j + 1) :=
    fun hne => Nat.mod_eq_of_lt (by omega)
  refine ⟨FlagsHold.of_step hone.boolean (fun hzero => ?_) fun hlast => ?_, ?_, h.round k hk j hj,
    fun hlast => ?_⟩
  · obtain rfl : j = 0 := by omega
    exact hone
  · rw [hnext hlast]
    by_cases hj' : j + 1 < 24
    · apply hone.flagStep hj
      rw [Nat.mod_eq_of_lt (show j + 1 < NUM_ROUNDS from hj')]
      exact h.step k hk (j + 1) hj'
    · obtain rfl : j = 23 := by omega
      have hstart : 24 * k + (23 + 1) = 24 * (k + 1) + 0 := by ring
      rw [hstart]
      by_cases hk' : k + 1 < m
      · exact hone.flagStep hj (h.step (k + 1) hk' 0 (by omega))
      · rw [h.padding (24 * (k + 1) + 0) (by omega)]
        exact OneHot.flagStep_noFlag hone (by decide) noFlag_zeroRow
  · rw [TimestampHolds, hfinal]
    split
    · rw [mul_zero, zero_mul]
    · rename_i hj'
      rw [hnext (by omega), h.timestamp k hk j (by omega), sub_self, mul_zero]
  · rw [hnext hlast]
    by_cases hj' : j = 23
    · rw [if_pos hj'] at hfinal
      exact ⟨fun x y => by rw [hfinal, zero_mul], fun x y => by rw [hfinal, zero_mul]⟩
    · obtain ⟨a, hout, hin⟩ := h.output k hk j (by omega)
      rw [outputIs_iff] at hout
      rw [inputIs_iff] at hin
      refine ⟨fun x y => ?_, fun x y => ?_⟩
      · rw [(hout x y).1, (hin x y).1, sub_self, mul_zero]
      · rw [(hout x y).2, (hin x y).2, sub_self, mul_zero]

/-- A table of full permutations satisfies the constraints. -/
theorem satisfied (hm : 0 < m) : Satisfied rows := by
  intro i hi
  rw [forall_mem_evalPackedGeneric]
  by_cases him : i < 24 * m
  · have hsplit : 24 * (i / 24) + i % 24 = i := Nat.div_add_mod i 24
    have hrow := h.holds_active (k := i / 24) (j := i % 24) (by omega) (Nat.mod_lt _ (by decide))
    rwa [hsplit] at hrow
  · have hzero := h.padding i (not_lt.mp him)
    have hnext : ¬i + 1 = rows.length → rowAt rows ((i + 1) % rows.length) = zeroRow := fun hlast => by
      rw [Nat.mod_eq_of_lt (by omega)]
      exact h.padding (i + 1) (by omega)
    rw [hzero]
    refine ⟨FlagsHold.of_step noFlag_zeroRow.boolean (fun h0 => by omega) fun hlast => ?_, ?_,
      roundHolds_zeroRow, fun hlast => ?_⟩
    · rw [hnext hlast]
      exact noFlag_zeroRow.flagStep noFlag_zeroRow
    · rw [TimestampHolds, sumFlags_eq, noFlag_zeroRow.sum_eq, zero_mul, zero_mul]
    · rw [hnext hlast]
      exact ⟨fun x y => by simp [zeroRow], fun x y => by simp [zeroRow]⟩

/-- The rows with the flag of round `r`. -/
theorem filter_flag {r : ℕ} (hr : r < 24) : ((List.range rows.length).filter fun i =>
    rowAt rows i (regStep r) ≠ 0).Perm ((List.range m).map fun k => 24 * k + r) := by
  have hle := h.le
  refine (List.perm_ext_iff_of_nodup (List.nodup_range.filter _) ?_).mpr fun i => ?_
  · refine List.nodup_range.map fun a b hab => ?_
    have hab' : 24 * a + r = 24 * b + r := hab
    omega
  · simp only [List.mem_filter, List.mem_range, List.mem_map, decide_eq_true_eq]
    constructor
    · rintro ⟨hi, hflag⟩
      by_cases him : i < 24 * m
      · have hsplit : 24 * (i / 24) + i % 24 = i := Nat.div_add_mod i 24
        refine ⟨i / 24, by omega, ?_⟩
        by_contra hne
        have hone := h.step (i / 24) (by omega) (i % 24) (Nat.mod_lt _ (by decide)) r hr
        rw [hsplit, if_neg (by omega)] at hone
        exact hflag hone
      · rw [h.padding i (not_lt.mp him)] at hflag
        exact absurd rfl hflag
    · rintro ⟨k, hk, rfl⟩
      refine ⟨by omega, ?_⟩
      have hone := h.step k hk r hr r hr
      rw [if_pos rfl] at hone
      exact fun hzero => one_ne_zero (hone.symm.trans hzero)

/-- The tuples of these rows, in the order of the permutations. -/
theorem looked {r : ℕ} (hr : r < 24) (reg : Fin 50 → ℕ) :
    ((rows.filter fun l => l (regStep r) ≠ 0).map (ctlData reg)).Perm
      ((List.range m).map fun k => ctlData reg (rowAt rows (24 * k + r))) := by
  have hrows : rows = (List.range rows.length).map (rowAt rows) := by
    apply List.ext_getElem
    · rw [List.length_map, List.length_range]
    · intro i hi _
      rw [List.getElem_map, List.getElem_range, rowAt, List.getD_eq_getElem _ _ hi]
  have hperm := (h.filter_flag hr).map fun i => ctlData reg (rowAt rows i)
  rw [List.map_map] at hperm
  rw [hrows, List.filter_map, List.map_map]
  rw [← hrows]
  exact hperm

end Filled

/-! ## Filling in -/

/-- A row of zeros with its timestamp. -/
def blankRow (timestamp : ℕ) : Row F := Function.update zeroRow TIMESTAMP (timestamp : F)

/-- `input_xy & 0xFFFFFFFF` and `input_xy >> 32`. -/
def limbValue (inputXY : BitVec 64) (limb : Fin 2) : F :=
  if limb = 0 then ((inputXY.toNat % 2 ^ 32 : ℕ) : F) else ((inputXY.toNat >>> 32 : ℕ) : F)

/-- The round input of the first round. -/
def writeInput (input : Lanes) : Row F → Row F :=
  writeCells (fun p => regA p.1 p.2.1 + p.2.2.val)
    (fun _ p => limbValue (input ⟨p.2.1.val * 5 + p.1.val, by omega⟩) p.2.2) cellsLimbs

def copyOutputToInput (prevRow : Row F) : Row F → Row F :=
  writeCells (fun p => regA p.1 p.2.1 + p.2.2.val)
    (fun _ p => prevRow (regAPrimePrimePrime p.1 p.2.1 + p.2.2.val)) cellsLimbs

/-- `rows[round]`. -/
def roundTraceRow (input : Lanes) (timestamp : ℕ) : ℕ → Row F
  | 0 => generateTraceRowForRound (writeInput input (blankRow timestamp)) 0
  | round + 1 => generateTraceRowForRound
      (copyOutputToInput (roundTraceRow input timestamp round) (blankRow timestamp)) (round + 1)

def generateTraceRowsForPerm (input : Lanes) (timestamp : ℕ) : List (Row F) :=
  (List.range NUM_ROUNDS).map (roundTraceRow input timestamp)

/-- `next_power_of_two`. -/
def nextPowerOfTwo (n : ℕ) : ℕ := 2 ^ Nat.clog 2 n

def generateTraceRows (inputsAndTimestamps : List (Lanes × ℕ)) (minRows : ℕ) : List (Row F) :=
  let numRows := nextPowerOfTwo (max (inputsAndTimestamps.length * NUM_ROUNDS) minRows)
  let rows := inputsAndTimestamps.flatMap fun p => generateTraceRowsForPerm p.1 p.2
  rows ++ List.replicate (numRows - rows.length) zeroRow

theorem regA_injective : Function.Injective fun p : Fin 5 × Fin 5 × Fin 2 => regA p.1 p.2.1 + p.2.2.val := by
  rintro ⟨x, y, b⟩ ⟨x', y', b'⟩ h
  simp only [regA] at h
  exact Prod.ext (Fin.ext (by simp only; omega))
    (Prod.ext (Fin.ext (by simp only; omega)) (Fin.ext (by simp only; omega)))

theorem limbValue_zero (w : BitVec 64) : limbValue w 0 = wordTarget (w.setWidth 32) := by
  rw [limbValue, if_pos rfl, wordTarget, BitVec.toNat_setWidth]

theorem limbValue_one (w : BitVec 64) : limbValue w 1 = wordTarget ((w >>> 32).setWidth 32) := by
  have hlt := w.isLt
  have hhigh : w.toNat / 2 ^ 32 % 2 ^ 32 = w.toNat / 2 ^ 32 := by omega
  rw [limbValue, if_neg one_ne_zero, wordTarget, BitVec.toNat_setWidth, BitVec.toNat_ushiftRight,
    Nat.shiftRight_eq_div_pow, hhigh]

theorem writeInput_inputIs (input : Lanes) (row : Row F) : InputIs (writeInput input row) input := by
  have hlane : ∀ x y : Fin 5, input ⟨y.val * 5 + x.val, by omega⟩ = laneAt input x y :=
    fun x y => congrArg input (Fin.ext (by simp only; omega))
  rw [inputIs_iff]
  intro x y
  rw [← hlane]
  exact ⟨(writeCells_apply (i := (x, y, 0)) regA_injective (fun _ _ _ => rfl)
      (mem_cellsLimbs x y 0)).trans (limbValue_zero _),
    (writeCells_apply (i := (x, y, 1)) regA_injective (fun _ _ _ => rfl)
      (mem_cellsLimbs x y 1)).trans (limbValue_one _)⟩

theorem copyOutputToInput_inputIs {prevRow : Row F} {a : Lanes} (h : OutputIs prevRow a)
    (row : Row F) : InputIs (copyOutputToInput prevRow row) a := by
  rw [inputIs_iff]
  intro x y
  obtain ⟨hlow, hhigh⟩ := outputIs_iff.mp h x y
  exact ⟨(writeCells_apply (i := (x, y, 0)) regA_injective (fun _ _ _ => rfl)
      (mem_cellsLimbs x y 0)).trans hlow,
    (writeCells_apply (i := (x, y, 1)) regA_injective (fun _ _ _ => rfl)
      (mem_cellsLimbs x y 1)).trans hhigh⟩

/-- Writing to the input columns leaves the flags and the timestamp. -/
theorem writeInput_of_le (input : Lanes) (row : Row F) {k : ℕ} (hk : k ≤ TIMESTAMP) :
    writeInput input row k = row k :=
  writeCells_of_forall_ne fun p _ => by
    have := (regA_mem p.1 p.2.1).1
    have := starts.1
    omega

theorem copyOutputToInput_of_le (prevRow row : Row F) {k : ℕ} (hk : k ≤ TIMESTAMP) :
    copyOutputToInput prevRow row k = row k :=
  writeCells_of_forall_ne fun p _ => by
    have := (regA_mem p.1 p.2.1).1
    have := starts.1
    omega

theorem blankRow_flag (timestamp : ℕ) {j : ℕ} (hj : j < 24) : blankRow timestamp (regStep j) = 0 :=
  Function.update_of_ne (Nat.ne_of_lt hj) _ _

theorem blankRow_timestamp (timestamp : ℕ) : blankRow timestamp TIMESTAMP = (timestamp : F) :=
  Function.update_self _ _ _

/-- Row `j` has the state after `j` rounds. -/
theorem roundTraceRow_roundRow (input : Lanes) (timestamp : ℕ) {j : ℕ} (hj : j < 24) :
    RoundRow (roundTraceRow input timestamp j) j (forLoop keccakRound j input) ∧
      roundTraceRow input timestamp j TIMESTAMP = (timestamp : F) := by
  induction j with
  | zero =>
    obtain ⟨hrow, htime⟩ := generateTraceRowForRound_roundRow hj
      (fun i hi => (writeInput_of_le input (blankRow timestamp) (Nat.le_of_lt hi)).trans
        (blankRow_flag timestamp hi))
      (writeInput_inputIs input (blankRow timestamp))
    exact ⟨hrow, htime.trans ((writeInput_of_le input _ le_rfl).trans (blankRow_timestamp timestamp))⟩
  | succ j ih =>
    obtain ⟨hprev, -⟩ := ih (Nat.lt_of_succ_lt hj)
    obtain ⟨hrow, htime⟩ := generateTraceRowForRound_roundRow hj
      (fun i hi => (copyOutputToInput_of_le (roundTraceRow input timestamp j) (blankRow timestamp)
        (Nat.le_of_lt hi)).trans (blankRow_flag timestamp hi))
      (copyOutputToInput_inputIs hprev.output (blankRow timestamp))
    exact ⟨hrow, htime.trans
      ((copyOutputToInput_of_le _ _ le_rfl).trans (blankRow_timestamp timestamp))⟩

section Generated

variable (inputs : List (Lanes × ℕ)) (minRows : ℕ)

theorem permRows_length :
    (inputs.flatMap fun p => generateTraceRowsForPerm p.1 p.2).length = inputs.length * 24 :=
  length_flatMap_record fun p _ => by
    rw [generateTraceRowsForPerm, List.length_map, List.length_range]
    rfl

theorem le_nextPowerOfTwo (n : ℕ) : n ≤ nextPowerOfTwo n := Nat.le_pow_clog Nat.one_lt_two n

theorem generateTraceRows_length : (generateTraceRows inputs minRows).length =
    nextPowerOfTwo (max (inputs.length * NUM_ROUNDS) minRows) := by
  have hle := (le_max_left (inputs.length * NUM_ROUNDS) minRows).trans (le_nextPowerOfTwo _)
  have hsize : inputs.length * NUM_ROUNDS = inputs.length * 24 := rfl
  rw [generateTraceRows, List.length_append, permRows_length, List.length_replicate]
  omega

theorem rowAt_generateTraceRows {k j : ℕ} (hk : k < inputs.length) (hj : j < 24) :
    rowAt (generateTraceRows inputs minRows) (24 * k + j) =
      roundTraceRow (inputs.get ⟨k, hk⟩).1 (inputs.get ⟨k, hk⟩).2 j := by
  have hlt : 24 * k + j < (inputs.flatMap fun p => generateTraceRowsForPerm p.1 p.2).length := by
    rw [permRows_length]
    omega
  have hrow : (inputs.flatMap fun p => generateTraceRowsForPerm p.1 p.2)[k * 24 + j]? = _ :=
    getElem?_flatMap_record
      (fun p _ => by rw [generateTraceRowsForPerm, List.length_map, List.length_range]; rfl) hj
  rw [rowAt, generateTraceRows, List.getD_append _ _ _ _ hlt, List.getD_eq_getElem?_getD,
    Nat.mul_comm, hrow, List.getElem?_eq_getElem hk, Option.bind_some, generateTraceRowsForPerm,
    List.getElem?_map, List.getElem?_range (show j < NUM_ROUNDS from hj)]
  rfl

theorem generateTraceRows_padding {i : ℕ} (hi : 24 * inputs.length ≤ i) :
    rowAt (generateTraceRows inputs minRows) i = zeroRow := by
  have hlen := permRows_length inputs
  rw [rowAt, generateTraceRows, List.getD_append_right _ _ _ _ (by omega), List.getD_eq_getElem?_getD,
    List.getElem?_replicate]
  split
  · rfl
  · rfl

/-- The generated table consists of full permutations. -/
theorem generateTraceRows_filled : Filled (generateTraceRows inputs minRows) inputs.length := by
  have hrow := fun (k : ℕ) (hk : k < inputs.length) (j : ℕ) (hj : j < 24) =>
    roundTraceRow_roundRow (inputs.get ⟨k, hk⟩).1 (inputs.get ⟨k, hk⟩).2 hj
  refine ⟨?_, fun k hk j hj => ?_, fun k hk j hj => ?_, fun k hk j hj => ?_, fun k hk j hj => ?_,
    fun i hi => generateTraceRows_padding inputs minRows hi⟩
  · have hle := (le_max_left (inputs.length * NUM_ROUNDS) minRows).trans (le_nextPowerOfTwo _)
    rw [generateTraceRows_length, Nat.mul_comm]
    exact hle
  · rw [rowAt_generateTraceRows inputs minRows hk hj]
    exact (hrow k hk j hj).1.step
  · rw [rowAt_generateTraceRows inputs minRows hk hj]
    exact (hrow k hk j hj).1.holds hj
  · rw [rowAt_generateTraceRows inputs minRows hk hj,
      rowAt_generateTraceRows inputs minRows hk (Nat.lt_of_succ_lt hj), (hrow k hk _ hj).2,
      (hrow k hk j (Nat.lt_of_succ_lt hj)).2]
  · rw [rowAt_generateTraceRows inputs minRows hk hj,
      rowAt_generateTraceRows inputs minRows hk (Nat.lt_of_succ_lt hj)]
    exact ⟨_, (hrow k hk j (Nat.lt_of_succ_lt hj)).1.output, (hrow k hk _ hj).1.input⟩

/-- The columns for bits hold bits. -/
theorem generateTraceRows_bitColumns : ∀ l ∈ generateTraceRows inputs minRows, BitColumns l := by
  intro l hl
  obtain ⟨i, hi, rfl⟩ := exists_rowAt hl
  by_cases hi' : i < 24 * inputs.length
  · have hsplit : 24 * (i / 24) + i % 24 = i := Nat.div_add_mod i 24
    have hmod : i % 24 < 24 := Nat.mod_lt _ (by decide)
    rw [← hsplit, rowAt_generateTraceRows inputs minRows (by omega) hmod]
    exact (roundTraceRow_roundRow _ _ hmod).1.bitColumns
  · rw [generateTraceRows_padding inputs minRows (not_lt.mp hi')]
    exact ⟨fun _ _ => isBool_iff.mpr (.inl rfl), fun _ _ _ => isBool_iff.mpr (.inl rfl),
      fun _ => isBool_iff.mpr (.inl rfl)⟩

/-- The prover's table satisfies all constraints, holds bits where it should, and ends every
permutation with Keccak-f of its input. -/
theorem generateTraceRows_correct (hinputs : inputs ≠ []) :
    Satisfied (generateTraceRows inputs minRows) ∧
      (∀ l ∈ generateTraceRows inputs minRows, BitColumns l) ∧
      ∀ (k : ℕ) (hk : k < inputs.length),
        InputIs (rowAt (generateTraceRows inputs minRows) (24 * k)) (inputs.get ⟨k, hk⟩).1 ∧
        OutputIs (rowAt (generateTraceRows inputs minRows) (24 * k + 23))
          (keccakF (inputs.get ⟨k, hk⟩).1) ∧
        ∀ j < 24, rowAt (generateTraceRows inputs minRows) (24 * k + j) TIMESTAMP =
          ((inputs.get ⟨k, hk⟩).2 : F) := by
  refine ⟨(generateTraceRows_filled inputs minRows).satisfied (List.length_pos_of_ne_nil hinputs),
    generateTraceRows_bitColumns inputs minRows, fun k hk => ?_⟩
  have hrow := fun (j : ℕ) (hj : j < 24) =>
    roundTraceRow_roundRow (inputs.get ⟨k, hk⟩).1 (inputs.get ⟨k, hk⟩).2 hj
  refine ⟨?_, ?_, fun j hj => ?_⟩
  · have hfirst := rowAt_generateTraceRows inputs minRows hk (show 0 < 24 by decide)
    rw [Nat.add_zero] at hfirst
    rw [hfirst]
    exact (hrow 0 (by decide)).1.input
  · rw [rowAt_generateTraceRows inputs minRows hk (by decide)]
    exact (hrow 23 (by decide)).1.output
  · rw [rowAt_generateTraceRows inputs minRows hk hj]
    exact (hrow j hj).2

theorem generateTraceRows_correct_zero : Satisfied (generateTraceRows [(fun _ => 0, 0)] 8) :=
  (generateTraceRows_correct [(fun _ => 0, 0)] 8 (List.cons_ne_nil _ _)).1

end Generated

/-! ## All tables -/

/-- A satisfied table whose columns for bits hold bits consists of permutations under their
timestamps and of padding; only the last permutation may be cut off. -/
theorem table_sound {rows : List (Row F)} (h : Satisfied rows) (hpos : 0 < rows.length)
    (hbits : ∀ l ∈ rows, BitColumns l) :
    ∃ m, 0 < m ∧ Rounds NUM_ROUNDS rows.length (fun i => flags (rowAt rows i)) m ∧
      ∀ k, 24 * k + 23 < m → ∃ a : Lanes, InputIs (rowAt rows (24 * k)) a ∧
        OutputIs (rowAt rows (24 * k + 23)) (keccakF a) ∧
          rowAt rows (24 * k + 23) TIMESTAMP = rowAt rows (24 * k) TIMESTAMP := by
  obtain ⟨m, hm, hrounds⟩ := h.exists_rounds hpos
  exact ⟨m, hm, hrounds, fun k hk => h.keccakF hbits hrounds hk⟩

theorem table_sound_generated : ∃ m, 0 < m ∧
    Rounds NUM_ROUNDS (generateTraceRows [(fun _ => 0, 0)] 8).length
      (fun i => flags (rowAt (generateTraceRows [(fun _ => 0, 0)] 8) i)) m := by
  have hfilled := generateTraceRows_filled [(fun _ => 0, 0)] 8
  have hpos : 0 < (generateTraceRows [(fun _ => 0, 0)] 8).length :=
    (by decide : 0 < 24 * 1).trans_le hfilled.le
  obtain ⟨m, hm, hrounds, -⟩ := table_sound (hfilled.satisfied (by decide)) hpos
    (generateTraceRows_bitColumns _ 8)
  exact ⟨m, hm, hrounds⟩

end Doxa.KeccakStark
