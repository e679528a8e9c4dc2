import Doxa.KeccakStark.Gadget
import Mathlib.LinearAlgebra.Lagrange

/-!
# The lookups at their challenges

The verifier does not see the tuples of the lookups as such. It adds up the inverses of their
combinations with powers of `beta` and an offset `gamma`, for a few challenges, and compares the
sums with those of the table. The challenges are drawn from the commitment to the table; the
limbs the circuit asks for are no part of what they are drawn from. So they may still be chosen
when the challenges are known, and an output has 42 limbs the sponge asks nothing of: whatever
is proved of the table, there is a witness with the same rows for every digest.
-/

namespace Doxa.KeccakStark

open Lib Lib.Keccak Server Circuit Circuit.KeccakTargets

section Combine

-- the challenges of the lookup argument and their `combine`, which are not part of the source
variable {C : Type*} (beta gamma : C → F) (combine : C → List F → F)

/-- `combine` adds the terms with powers of `beta` and the offset `gamma`. -/
def CombinesPowers : Prop :=
  ∀ c terms, combine c terms = terms.foldr (fun term sum => sum * beta c + term) 0 + gamma c

/-- `sum_ctl_values`, for one of the lookups. -/
def sumCtlValues (challenges : List C) (values : List (List F)) : List F :=
  challenges.map fun c => values.foldl (fun sum value => sum + (combine c value)⁻¹) 0

/-- What is checked of a lookup; an inverse in the circuit is one of an element not zero. -/
structure SumsAgree (challenges : List C) (looking looked : List (List F)) : Prop where
  invertible : ∀ c ∈ challenges, ∀ value ∈ looking, combine c value ≠ 0
  sums : sumCtlValues combine challenges looking = sumCtlValues combine challenges looked

/-- The constraints of the circuit, the lookups being compared at the challenges. -/
structure AcceptedAt (challenges : List C) (t : KeccakTargets) (input : List F)
    (rows : List (Row F)) : Prop extends SpongeHolds t input where
  rows_length : rows.length = nextPowerOfTwo (NUM_ROUNDS * numBlocks input)
  constraints : Satisfied rows
  inputs : SumsAgree combine challenges (extraLookingValues (numBlocks input) t.permInput)
    (lookedInputs rows)
  outputs : SumsAgree combine challenges (extraLookingValues (numBlocks input) t.permOutput)
    (lookedOutputs rows)

variable {combine} {challenges : List C}

theorem foldl_add_inv (c : C) (values : List (List F)) (s : F) :
    values.foldl (fun sum value => sum + (combine c value)⁻¹) s =
      s + (values.map fun value => (combine c value)⁻¹).sum := by
  induction values generalizing s with
  | nil => simp
  | cons value values ih => rw [List.foldl_cons, ih, List.map_cons, List.sum_cons, add_assoc]

/-- Equal combinations give equal sums. -/
theorem sumCtlValues_congr {values values' : List (List F)}
    (h : ∀ c ∈ challenges, (values.map (combine c)).Perm (values'.map (combine c))) :
    sumCtlValues combine challenges values = sumCtlValues combine challenges values' := by
  refine List.map_congr_left fun c hc => ?_
  have hinv := ((h c hc).map fun v => v⁻¹).sum_eq
  rw [List.map_map, List.map_map] at hinv
  rw [foldl_add_inv, foldl_add_inv]
  exact congrArg (0 + ·) hinv

/-- Tuples that stand in the table pass at all challenges that make none of them vanish. -/
theorem Accepted.acceptedAt {t : KeccakTargets} {input : List F} {rows : List (Row F)}
    (h : Accepted t input rows)
    (hinputs : ∀ c ∈ challenges, ∀ l ∈ lookedInputs rows, combine c l ≠ 0)
    (houtputs : ∀ c ∈ challenges, ∀ l ∈ lookedOutputs rows, combine c l ≠ 0) :
    AcceptedAt combine challenges t input rows where
  toSpongeHolds := h.toSpongeHolds
  rows_length := h.rows_length
  constraints := h.constraints
  inputs := ⟨fun c hc value hvalue => hinputs c hc value (h.inputs.subset hvalue),
    sumCtlValues_congr fun c _ => h.inputs.map (combine c)⟩
  outputs := ⟨fun c hc value hvalue => houtputs c hc value (h.outputs.subset hvalue),
    sumCtlValues_congr fun c _ => h.outputs.map (combine c)⟩

/-! ## Limbs with given combinations -/

theorem foldr_ofFn {n : ℕ} (limbs : Fin n → F) (b s : F) :
    (List.ofFn limbs).foldr (fun term sum => sum * b + term) s =
      ∑ i, limbs i * b ^ i.val + s * b ^ n := by
  induction n with
  | zero => simp
  | succ n ih =>
    rw [List.ofFn_succ, List.foldr_cons, ih, Fin.sum_univ_succ, add_mul, Finset.sum_mul]
    have hterm : ∀ i : Fin n, limbs i.succ * b ^ i.val * b = limbs i.succ * b ^ i.succ.val :=
      fun i => by rw [Fin.val_succ, pow_succ, mul_assoc]
    simp only [hterm, Fin.val_zero, pow_zero]
    ring

/-- The timestamp and the value of the limbs fix the combination. -/
theorem CombinesPowers.congr {beta gamma : C → F} (h : CombinesPowers beta gamma combine) {c : C}
    {limbs limbs' : Fin 50 → F}
    (hvalue : ∑ i, limbs i * beta c ^ i.val = ∑ i, limbs' i * beta c ^ i.val) (t : F) :
    combine c (List.ofFn limbs ++ [t]) = combine c (List.ofFn limbs' ++ [t]) := by
  rw [h, h, List.foldr_append, List.foldr_append, foldr_ofFn, foldr_ofFn, hvalue]

/-- A polynomial of degree below 42 with given values at up to 42 points. -/
theorem exists_coeffs {nodes : Finset F} (hcard : nodes.card ≤ 42) (value : F → F) :
    ∃ coeffs : Fin 42 → F, ∀ b ∈ nodes, ∑ i, coeffs i * b ^ i.val = value b := by
  have hinj : Set.InjOn id (nodes : Set F) := Set.injOn_id _
  let p := Lagrange.interpolate nodes id value
  have hdegree : p ∈ Polynomial.degreeLT F 42 := by
    rw [Polynomial.mem_degreeLT]
    exact (Lagrange.degree_interpolate_lt value hinj).trans_le (by exact_mod_cast hcard)
  refine ⟨fun i => p.coeff i.val, fun b hb => ?_⟩
  have heval : p.eval b = value b := Lagrange.eval_interpolate_at_node value hinj hb
  rw [← heval, Polynomial.eval_eq_sum_degreeLTEquiv hdegree]
  rfl

/-- Eight limbs leave the value at up to 42 points open. -/
theorem exists_limbs (heads : Fin 8 → F) {nodes : Finset F} (hcard : nodes.card ≤ 42)
    (hzero : ∀ b ∈ nodes, b ≠ 0) (value : F → F) :
    ∃ limbs : Fin 50 → F, (∀ k : Fin 8, limbs ⟨k.val, outputIndex_lt k⟩ = heads k) ∧
      ∀ b ∈ nodes, ∑ i, limbs i * b ^ i.val = value b := by
  obtain ⟨coeffs, hcoeffs⟩ := exists_coeffs hcard
    fun b => (value b - ∑ k : Fin 8, heads k * b ^ k.val) / b ^ 8
  refine ⟨Fin.append heads coeffs, fun k => Fin.append_left heads coeffs k, fun b hb => ?_⟩
  have hpow : b ^ 8 ≠ 0 := pow_ne_zero 8 (hzero b hb)
  have htail : ∑ i : Fin 42, coeffs i * b ^ (Fin.natAdd 8 i).val =
      (∑ i : Fin 42, coeffs i * b ^ i.val) * b ^ 8 := by
    rw [Finset.sum_mul]
    exact Finset.sum_congr rfl fun i _ => by rw [Fin.val_natAdd, pow_add]; ring
  calc ∑ i : Fin (8 + 42), Fin.append heads coeffs i * b ^ i.val
      = ∑ k : Fin 8, heads k * b ^ k.val + ∑ i : Fin 42, coeffs i * b ^ (Fin.natAdd 8 i).val := by
        rw [Fin.sum_univ_add]
        simp only [Fin.append_left, Fin.append_right, Fin.val_castAdd]
    _ = value b := by rw [htail, hcoeffs b hb, div_mul_cancel₀ _ hpow, add_sub_cancel]

/-! ## Other digests -/

/-- Of the outputs of a message, only their combinations enter the sums. -/
theorem SumsAgree.of_combine {n : ℕ} {perm perm' : ℕ → Fin 50 → F} {looked : List (List F)}
    (h : SumsAgree combine challenges (extraLookingValues n perm) looked)
    (hsame : ∀ c ∈ challenges, ∀ i < n, combine c (List.ofFn (perm' i) ++ [(i : F)]) =
      combine c (List.ofFn (perm i) ++ [(i : F)])) :
    SumsAgree combine challenges (extraLookingValues n perm') looked := by
  refine ⟨fun c hc value hvalue => ?_, ?_⟩
  · obtain ⟨i, hi, rfl⟩ := List.mem_map.mp hvalue
    rw [hsame c hc i (List.mem_range.mp hi)]
    exact h.invertible c hc _ (List.mem_map.mpr ⟨i, hi, rfl⟩)
  · rw [← h.sums]
    refine sumCtlValues_congr fun c hc => List.Perm.of_eq ?_
    rw [extraLookingValues, extraLookingValues, List.map_map, List.map_map]
    exact List.map_congr_left fun i hi => hsame c hc i (List.mem_range.mp hi)

/-- At every choice of challenges that the generated witness passes, another one passes with the
same rows and any digest. -/
theorem exists_acceptedAt_digest {beta gamma : C → F} (hcombine : CombinesPowers beta gamma combine)
    (hcount : challenges.length ≤ 42) (hbeta : ∀ c ∈ challenges, beta c ≠ 0)
    (words : List (BitVec 32)) {rows : List (Row F)}
    (h : AcceptedAt combine challenges (honest keccakF words) (words.map wordTarget) rows)
    (digest : Fin 8 → BitVec 32) :
    ∃ t, AcceptedAt combine challenges t (words.map wordTarget) rows ∧
      ∀ k, t.output k = wordTarget (digest k) := by
  obtain ⟨m, hm⟩ : ∃ m, numBlocks (words.map wordTarget) = m + 1 := ⟨_, rfl⟩
  have hcard : (challenges.map beta).toFinset.card ≤ 42 :=
    (List.toFinset_card_le _).trans ((List.length_map _).trans_le hcount)
  obtain ⟨last, hlast, hvalue⟩ := exists_limbs (fun k => wordTarget (inputWord (digest k))) hcard
    (fun b hb => by
      obtain ⟨c, hc, rfl⟩ := List.mem_map.mp (List.mem_toFinset.mp hb)
      exact hbeta c hc)
    fun b => ∑ i, (honest keccakF words).permOutput m i * b ^ i.val
  refine ⟨forgedTargets digest words last, ⟨forgedTargets_sponge digest words last hlast,
    h.rows_length, h.constraints, h.inputs.of_combine fun c _ i hi => ?_,
    h.outputs.of_combine fun c hc i hi => ?_⟩, forgedTargets_output digest words last⟩
  · rw [forgedTargets_permInput digest words last hi, honest_permInput]
  · rw [forgedTargets_permOutput]
    split
    · obtain rfl : i = m := by omega
      exact hcombine.congr (hvalue _ (List.mem_toFinset.mpr (List.mem_map_of_mem hc))) _
    · rfl

end Combine

/-! ## Two challenges -/

theorem combinesPowers_pairs : CombinesPowers Prod.fst Prod.snd fun (c : F × F) terms =>
    terms.foldr (fun term sum => sum * c.1 + term) 0 + c.2 := fun _ _ => rfl

/-- Some offset makes no combination of the tuples vanish. -/
theorem exists_gamma (betas : List F) (values : List (List F))
    (h : betas.length * values.length < ORDER) : ∃ gamma : F, ∀ b ∈ betas, ∀ value ∈ values,
      value.foldr (fun term sum => sum * b + term) 0 + gamma ≠ 0 := by
  let roots : List F := (betas ×ˢ values).map fun p =>
    -p.2.foldr (fun term sum => sum * p.1 + term) 0
  have hcard : roots.toFinset.card < (Finset.univ : Finset F).card := by
    rw [Finset.card_univ, ZMod.card]
    refine (List.toFinset_card_le _).trans_lt ?_
    rwa [List.length_map, List.length_product]
  obtain ⟨gamma, -, hgamma⟩ := Finset.exists_mem_notMem_of_card_lt_card hcard
  refine ⟨gamma, fun b hb value hvalue hzero => hgamma (List.mem_toFinset.mpr ?_)⟩
  exact List.mem_map.mpr ⟨(b, value), List.mem_product.mpr ⟨hb, hvalue⟩,
    (eq_neg_of_add_eq_zero_right hzero).symm⟩

/-- The empty message at two challenges. -/
theorem exists_acceptedAt_digest_empty : ∃ (gamma : F) (t : KeccakTargets),
    AcceptedAt (fun (c : F × F) terms => terms.foldr (fun term sum => sum * c.1 + term) 0 + c.2)
      [(1, gamma), (2, gamma)] t [] (generatedRows []) ∧ ∀ k, t.output k = wordTarget 0 := by
  have hhonest := honest_accepted []
  have hinputs : (lookedInputs (generatedRows [])).length = 1 := hhonest.inputs.length_eq.symm
  have houtputs : (lookedOutputs (generatedRows [])).length = 1 := hhonest.outputs.length_eq.symm
  obtain ⟨gamma, hgamma⟩ := exists_gamma [1, 2]
    (lookedInputs (generatedRows []) ++ lookedOutputs (generatedRows []))
    (by rw [List.length_append, hinputs, houtputs]; decide)
  have hbeta : ∀ c ∈ [((1 : F), gamma), (2, gamma)], c.1 ∈ [(1 : F), 2] ∧ c.2 = gamma := by
    simp
  have hnonzero : ∀ c ∈ [((1 : F), gamma), (2, gamma)], ∀ l : List F,
      l ∈ lookedInputs (generatedRows []) ++ lookedOutputs (generatedRows []) →
        l.foldr (fun term sum => sum * c.1 + term) 0 + c.2 ≠ 0 := by
    intro c hc l hl
    obtain ⟨hmem, hsnd⟩ := hbeta c hc
    rw [hsnd]
    exact hgamma c.1 hmem l hl
  have htwo : (2 : F) ≠ 0 := by decide
  obtain ⟨t, ht, hdigest⟩ := exists_acceptedAt_digest combinesPowers_pairs (by simp)
    (by simp [htwo]) [] (hhonest.acceptedAt (fun c hc l hl => hnonzero c hc l (List.mem_append_left _ hl))
      fun c hc l hl => hnonzero c hc l (List.mem_append_right _ hl)) fun _ => 0
  exact ⟨gamma, t, ht, hdigest⟩

end Doxa.KeccakStark
