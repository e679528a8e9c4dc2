import Doxa.KeccakStark.RowStates

/-!
# Tables

A table satisfies the constraints when every row does together with the next one, the first row
being next to the last. The flags then divide the table into permutations of 24 rows each,
perhaps with a part of one at the end, and padding. If all columns for single bits hold bits,
the rows of a permutation go through the 24 rounds of Keccak-f, under one timestamp.

The circuit around the table names inputs and outputs of permutations by a lookup in each
direction: the tuples it asks for are those of the first rows, and those of the last rows, in
some order. A tuple ends with the timestamp, so an output belongs to the input of the same
number.
-/

namespace Doxa.KeccakStark

open Lib Lib.Keccak Circuit

/-- `[F::ZERO; NUM_COLUMNS]`. -/
def zeroRow : Row F := fun _ => 0

def rowAt (rows : List (Row F)) (i : ℕ) : Row F := rows.getD i zeroRow

/-- What the verifier of the proof checks, but for the lookups. -/
def Satisfied (rows : List (Row F)) : Prop :=
  ∀ i < rows.length, ∀ c ∈ evalPackedGeneric (rowAt rows i) (rowAt rows ((i + 1) % rows.length)),
    c.Holds (i = 0) (i + 1 = rows.length)

theorem rowAt_mem {rows : List (Row F)} {i : ℕ} (hi : i < rows.length) : rowAt rows i ∈ rows := by
  rw [rowAt, List.getD_eq_getElem _ _ hi]
  exact List.getElem_mem hi

theorem exists_rowAt {rows : List (Row F)} {l : Row F} (h : l ∈ rows) :
    ∃ i < rows.length, rowAt rows i = l := by
  obtain ⟨i, hi, rfl⟩ := List.mem_iff_getElem.mp h
  exact ⟨i, hi, List.getD_eq_getElem _ _ hi⟩

/-! ## Flags -/

theorem cast_ne_zero {c : ℕ} (hpos : 0 < c) (hc : c ≤ 2 * NUM_ROUNDS) : (c : F) ≠ 0 := by
  intro h
  rw [← Nat.cast_zero] at h
  have hlt : c < ORDER := by
    unfold ORDER
    unfold NUM_ROUNDS at hc
    omega
  exact Nat.pos_iff_ne_zero.mp hpos (natCast_inj_of_lt hlt (by decide) h)

variable {rows : List (Row F)}

namespace Satisfied

variable (h : Satisfied rows)
include h

theorem row {i : ℕ} (hi : i < rows.length) :
    FlagsHold (i = 0) (i + 1 = rows.length) (rowAt rows i) (rowAt rows ((i + 1) % rows.length)) ∧
      TimestampHolds (rowAt rows i) (rowAt rows ((i + 1) % rows.length)) ∧
      RoundHolds (rowAt rows i) ∧ (¬i + 1 = rows.length →
        OutputHolds (rowAt rows i) (rowAt rows ((i + 1) % rows.length))) :=
  forall_mem_evalPackedGeneric.mp (h i hi)

/-- The rows of the permutations, and the padding. -/
theorem exists_rounds (hpos : 0 < rows.length) :
    ∃ m, 0 < m ∧ Rounds NUM_ROUNDS rows.length (fun i => flags (rowAt rows i)) m := by
  obtain ⟨len, hlen⟩ : ∃ len, rows.length = len + 1 := ⟨rows.length - 1, by omega⟩
  rw [hlen]
  refine Lib.exists_rounds (by decide) (fun c => cast_ne_zero) ((h.row hpos).1.first rfl) ?_
  intro i hi
  have hnext : (i + 1) % rows.length = i + 1 := Nat.mod_eq_of_lt (by omega)
  have hrow := (h.row (i := i) (by omega)).1
  rw [hnext] at hrow
  exact ⟨(h.row (i := i + 1) (by omega)).1.boolean, hrow.move (by omega), hrow.padding (by omega)⟩

end Satisfied

/-! ## Permutations -/

theorem InputIs.inj {l : Row F} {a b : Lanes} (ha : InputIs l a) (hb : InputIs l b) : a = b := by
  have hwords : wordsOf a = wordsOf b := funext fun i => wordTarget_inj ((ha i).symm.trans (hb i))
  rw [← lanesOf_wordsOf a, hwords, lanesOf_wordsOf]

/-- Before the last round, the next row starts with the output of this one. -/
theorem OutputHolds.inputIs {l n : Row F} {r : ℕ} {a : Lanes} (h : OutputHolds l n)
    (hstep : OneHot NUM_ROUNDS (flags l) r) (hr : r + 1 < 24) (hout : OutputIs l a) :
    InputIs n a := by
  have hnot : notFinalStep l = 1 := by
    have hflag : l (regStep (NUM_ROUNDS - 1)) = 0 :=
      (hstep (NUM_ROUNDS - 1) (by decide)).trans (if_neg (by unfold NUM_ROUNDS; omega))
    rw [notFinalStep, hflag, sub_zero]
  have hlo : ∀ x y, l (regAPrimePrimePrime x y) = n (regA x y) := fun x y => by
    have := h.outputLo x y
    rwa [hnot, one_mul, sub_eq_zero] at this
  have hhi : ∀ x y, l (regAPrimePrimePrime x y + 1) = n (regA x y + 1) := fun x y => by
    have := h.outputHi x y
    rwa [hnot, one_mul, sub_eq_zero] at this
  rw [inputIs_iff]
  intro x y
  obtain ⟨hlow, hhigh⟩ := outputIs_iff.mp hout x y
  exact ⟨(hlo x y).symm.trans hlow, (hhi x y).symm.trans hhigh⟩

/-- Row `j` of the permutation that starts in row `s` has the state after `j` rounds. -/
theorem Satisfied.permutation {m k : ℕ} (h : Satisfied rows) (hbits : ∀ l ∈ rows, BitColumns l)
    (hrounds : Rounds NUM_ROUNDS rows.length (fun i => flags (rowAt rows i)) m)
    (hk : 24 * k + 23 < m) : ∃ a : Lanes, ∀ j < 24,
      RoundRow (rowAt rows (24 * k + j)) j (forLoop keccakRound j a) ∧
        rowAt rows (24 * k + j) TIMESTAMP = rowAt rows (24 * k) TIMESTAMP := by
  have hm := hrounds.le
  have hstep : ∀ j < 24, OneHot NUM_ROUNDS (flags (rowAt rows (24 * k + j))) j := by
    intro j hj
    have hmod : (24 * k + j) % NUM_ROUNDS = j := by
      unfold NUM_ROUNDS
      omega
    have hactive := hrounds.active (24 * k + j) (by omega)
    rwa [hmod] at hactive
  have hstate : ∀ j < 24, ∃ a, RoundRow (rowAt rows (24 * k + j)) j a := fun j hj =>
    (h.row (i := 24 * k + j) (by omega)).2.2.1.exists_state
      (hbits _ (rowAt_mem (by omega))) hj (hstep j hj)
  obtain ⟨a, ha⟩ := hstate 0 (by omega)
  refine ⟨a, fun j => ?_⟩
  induction j with
  | zero => exact fun _ => ⟨ha, rfl⟩
  | succ j ih =>
    intro hj
    obtain ⟨hrow, htime⟩ := ih (by omega)
    obtain ⟨b, hb⟩ := hstate (j + 1) hj
    have hnext : (24 * k + j + 1) % rows.length = 24 * k + (j + 1) := Nat.mod_eq_of_lt (by omega)
    obtain ⟨-, hstamp, -, houtput⟩ := h.row (i := 24 * k + j) (by omega)
    rw [hnext] at hstamp houtput
    have hinput := (houtput (by omega)).inputIs hrow.step hj hrow.output
    obtain rfl := hb.input.inj hinput
    refine ⟨hb, ?_⟩
    have hsum : sumFlags (rowAt rows (24 * k + j)) = 1 :=
      (sumFlags_eq _).trans ((hstep j (by omega)).sum_eq (by unfold NUM_ROUNDS; omega))
    have hlast : rowAt rows (24 * k + j) (regStep (NUM_ROUNDS - 1)) = 0 :=
      (hstep j (by omega) (NUM_ROUNDS - 1) (by decide)).trans
        (if_neg (by unfold NUM_ROUNDS; omega))
    rw [TimestampHolds, notFinalStep, hsum, hlast, sub_zero, one_mul, one_mul, sub_eq_zero] at hstamp
    exact hstamp.trans htime

/-- The last row of a permutation has Keccak-f of the input of the first one. -/
theorem Satisfied.keccakF {m k : ℕ} (h : Satisfied rows) (hbits : ∀ l ∈ rows, BitColumns l)
    (hrounds : Rounds NUM_ROUNDS rows.length (fun i => flags (rowAt rows i)) m)
    (hk : 24 * k + 23 < m) : ∃ a : Lanes, InputIs (rowAt rows (24 * k)) a ∧
      OutputIs (rowAt rows (24 * k + 23)) (Lib.Keccak.keccakF a) ∧
        rowAt rows (24 * k + 23) TIMESTAMP = rowAt rows (24 * k) TIMESTAMP := by
  obtain ⟨a, ha⟩ := h.permutation hbits hrounds hk
  exact ⟨a, (ha 0 (by omega)).1.input, (ha 23 (by omega)).1.output, (ha 23 (by omega)).2⟩

/-! ## Lookups -/

/-- `ctl_data_inputs` and `ctl_data_outputs`. -/
def ctlData (reg : Fin 50 → ℕ) (l : Row F) : List F :=
  List.ofFn (fun i => l (reg i)) ++ [l TIMESTAMP]

/-- The tuples of the rows whose filter is on; the filters are flags. -/
def lookedInputs (rows : List (Row F)) : List (List F) :=
  (rows.filter fun l => l (regStep 0) ≠ 0).map (ctlData regInputLimb)

def lookedOutputs (rows : List (Row F)) : List (List F) :=
  (rows.filter fun l => l (regStep (NUM_ROUNDS - 1)) ≠ 0).map (ctlData regOutputLimb)

/-- `extra_looking_values`: the limbs of permutation `t` with the timestamp `t`. -/
def extraLookingValues (n : ℕ) (perm : ℕ → Fin 50 → F) : List (List F) :=
  (List.range n).map fun t => List.ofFn (perm t) ++ [(t : F)]

theorem ctlData_eq {reg : Fin 50 → ℕ} {l : Row F} {limbs : Fin 50 → F} {t : F}
    (h : ctlData reg l = List.ofFn limbs ++ [t]) : (∀ i, l (reg i) = limbs i) ∧ l TIMESTAMP = t := by
  obtain ⟨hlimbs, htime⟩ := List.append_inj h (by rw [List.length_ofFn, List.length_ofFn])
  exact ⟨congrFun (List.ofFn_injective hlimbs), List.head_eq_of_cons_eq htime⟩

/-- A flag that is not zero shows the round of its row. -/
theorem round_of_flag {m i r : ℕ}
    (hrounds : Rounds NUM_ROUNDS rows.length (fun i => flags (rowAt rows i)) m)
    (hi : i < rows.length) (hr : r < NUM_ROUNDS) (hflag : rowAt rows i (regStep r) ≠ 0) :
    i < m ∧ i % 24 = r := by
  by_cases him : i < m
  · refine ⟨him, ?_⟩
    by_contra hne
    exact hflag ((hrounds.active i him r hr).trans (if_neg (Ne.symm hne)))
  · exact absurd (hrounds.padding i hi (not_lt.mp him) r hr) hflag

/-- With bits for bits, the lookups tie the output of every permutation to its input. -/
theorem Satisfied.linked {n : ℕ} {permInput permOutput : ℕ → Fin 50 → F} (h : Satisfied rows)
    (hbits : ∀ l ∈ rows, BitColumns l) (hn : n ≤ ORDER)
    (hinputs : (extraLookingValues n permInput).Perm (lookedInputs rows))
    (houtputs : (extraLookingValues n permOutput).Perm (lookedOutputs rows)) {t : ℕ} (ht : t < n)
    {a : Lanes} (ha : ∀ i, permInput t i = wordTarget (wordsOf a i)) (i : Fin 50) :
    permOutput t i = wordTarget (wordsOf (Lib.Keccak.keccakF a) i) := by
  have htuple : List.ofFn (permOutput t) ++ [(t : F)] ∈ lookedOutputs rows :=
    houtputs.subset (List.mem_map.mpr ⟨t, List.mem_range.mpr ht, rfl⟩)
  obtain ⟨l, hl, hout⟩ := List.mem_map.mp htuple
  obtain ⟨hrow, hflag⟩ := List.mem_filter.mp hl
  obtain ⟨j, hj, rfl⟩ := exists_rowAt hrow
  obtain ⟨houtLimbs, houtTime⟩ := ctlData_eq hout
  obtain ⟨m, hm, hrounds⟩ := h.exists_rounds (Nat.zero_lt_of_lt hj)
  obtain ⟨hjm, hlast⟩ := round_of_flag hrounds hj (by decide) (of_decide_eq_true hflag)
  -- the first row of the same permutation
  have hsplit : j = 24 * (j / 24) + 23 := by
    unfold NUM_ROUNDS at hlast
    omega
  obtain ⟨b, hb, hbOut, htime⟩ := h.keccakF hbits hrounds (hsplit ▸ hjm)
  rw [← hsplit] at hbOut htime
  have hstart : 24 * (j / 24) < rows.length := by omega
  have hfirst : rowAt rows (24 * (j / 24)) (regStep 0) = 1 := by
    have hmod : 24 * (j / 24) % NUM_ROUNDS = 0 := Nat.mul_mod_right 24 _
    have hactive := hrounds.active (24 * (j / 24)) (by omega) 0 (by decide)
    rwa [hmod, if_pos rfl] at hactive
  have hasked : ctlData regInputLimb (rowAt rows (24 * (j / 24))) ∈ extraLookingValues n permInput := by
    refine hinputs.symm.subset (List.mem_map.mpr ⟨_, List.mem_filter.mpr ⟨rowAt_mem hstart, ?_⟩, rfl⟩)
    rw [hfirst]
    exact decide_eq_true one_ne_zero
  obtain ⟨t', ht', hasked⟩ := List.mem_map.mp hasked
  rw [List.mem_range] at ht'
  obtain ⟨hinLimbs, hinTime⟩ := ctlData_eq hasked.symm
  have htt : t = t' := natCast_inj_of_lt (ht.trans_le hn) (ht'.trans_le hn)
    (houtTime.symm.trans (htime.trans hinTime))
  subst htt
  obtain rfl : b = a := hb.inj fun i => (hinLimbs i).trans (ha i)
  exact (houtLimbs i).symm.trans (hbOut i)

end Doxa.KeccakStark
