import Doxa.Verifier.Proof
import Mathlib.AlgebraicGeometry.EllipticCurve.Affine.Point

/-!
# The point of the public inputs

Over the group of the curve `y^2 = x^3 + 3` the loop over the public inputs computes one linear
combination: the constant point, the commitment, and each input times its point. The precompiled
contracts for the curve add and multiply points of that group and fail on anything else
(`CurvePrecompiles`). A proof is accepted exactly when its commitment is a point, both pairings
say so and every public input is reduced (`verifyProof_eq_ok`); an input plus the order of the
group, which would give the same point, is refused.
-/

namespace Doxa.Verifier

open Lib WeierstrassCurve.Affine

/-! ## The group -/

/-- The curve of the first group. -/
def g1 : WeierstrassCurve.Affine Fp := ⟨0, 0, 0, 0, 3⟩

abbrev G1 := g1.Point

/-- The words of a point. -/
def pointWords : G1 → ℕ × ℕ
  | 0 => (0, 0)
  | .some x y _ => (x.val, y.val)

theorem OnCurve.nonsingular {x y : Fp} (h : OnCurve x y) : g1.Nonsingular x y := by
  have htwo := Lib.SquareRoots.two_ne_zero_of_mod P_mod_four
  rw [nonsingular_iff, equation_iff]
  simp only [g1]
  refine ⟨?_, .inr fun hzero => ?_⟩
  · have hcurve : y * y = x * x * x + 3 := h
    linear_combination hcurve
  · have hdouble : 2 * y = 0 := by linear_combination hzero
    exact h.ne_zero.2 ((mul_eq_zero.mp hdouble).resolve_left htwo)

/-- The point of two words on the curve. -/
def ofWords (w : ℕ × ℕ) (h : OnCurve (w.1 : Fp) (w.2 : Fp)) : G1 := .some _ _ h.nonsingular

theorem pointWords_ofWords {w : ℕ × ℕ} (h : OnCurve (w.1 : Fp) (w.2 : Fp)) (hx : w.1 < P) (hy : w.2 < P) :
    pointWords (ofWords w h) = w := by
  show (((w.1 : ℕ) : Fp).val, ((w.2 : ℕ) : Fp).val) = w
  rw [ZMod.val_cast_of_lt hx, ZMod.val_cast_of_lt hy]

/-! ## The points of the key -/

theorem constant_onCurve : OnCurve (CONSTANT.1 : Fp) (CONSTANT.2 : Fp) := by
  unfold OnCurve Fp P CONSTANT CONSTANT_X CONSTANT_Y
  decide

theorem pub_onCurve (i : Fin 9) : OnCurve ((PUB i).1 : Fp) ((PUB i).2 : Fp) := by
  unfold OnCurve Fp P
  fin_cases i <;> decide

theorem constant_lt : CONSTANT.1 < P ∧ CONSTANT.2 < P := by
  decide

theorem pub_lt (i : Fin 9) : (PUB i).1 < P ∧ (PUB i).2 < P := by
  fin_cases i <;> decide

def constantPoint : G1 := ofWords CONSTANT constant_onCurve

def pubPoint (i : Fin 9) : G1 := ofWords (PUB i) (pub_onCurve i)

/-! ## The precompiled contracts on the curve -/

/-- The contracts for the curve compute in its group and fail on words of no point. -/
structure CurvePrecompiles (pre : Precompiles) : Prop where
  add : ∀ a b : G1, pre.ecAdd (pointWords a) (pointWords b) = some (pointWords (a + b))
  mul : ∀ (a : G1) (s : ℕ), pre.ecMul (pointWords a) s = some (pointWords (s • a))
  add_point : ∀ u v w, pre.ecAdd u v = some w → ∃ b : G1, pointWords b = v

theorem onCurve_of_nonsingular {x y : Fp} (h : g1.Nonsingular x y) : OnCurve x y := by
  have hcurve := (equation_iff x y).mp h.1
  simp only [g1] at hcurve
  unfold OnCurve
  linear_combination hcurve

theorem pointWords_injective : Function.Injective pointWords := by
  -- infinity is the pair of zeros, which is on no finite point
  have hfinite : ∀ {x y : Fp} (h : g1.Nonsingular x y), (0, 0) ≠ pointWords (.some x y h) := by
    intro x y h hzero
    exact (onCurve_of_nonsingular h).ne_zero.1 ((ZMod.val_eq_zero x).mp (Prod.mk.inj hzero).1.symm)
  intro a b h
  cases a with
  | zero =>
    cases b with
    | zero => rfl
    | some x y hb => exact absurd h (hfinite hb)
  | some x y ha =>
    cases b with
    | zero => exact absurd h.symm (hfinite ha)
    | some x' y' hb =>
      obtain ⟨hx, hy⟩ := Prod.mk.inj h
      obtain rfl := ZMod.val_injective P hx
      obtain rfl := ZMod.val_injective P hy
      rfl

/-- The contracts that compute in the group. -/
noncomputable def onCurvePrecompiles (pairing : List ℕ → Option Bool) : Precompiles where
  ecAdd u v := (Function.partialInv pointWords u).bind fun a =>
    (Function.partialInv pointWords v).map fun b => pointWords (a + b)
  ecMul u s := (Function.partialInv pointWords u).map fun a => pointWords (s • a)
  pairing := pairing

theorem onCurvePrecompiles_spec (pairing : List ℕ → Option Bool) :
    CurvePrecompiles (onCurvePrecompiles pairing) := by
  have hinv : ∀ a, Function.partialInv pointWords (pointWords a) = some a :=
    Function.partialInv_left pointWords_injective
  refine ⟨fun a b => ?_, fun a s => ?_, fun u v w h => ?_⟩
  · simp only [onCurvePrecompiles, hinv, Option.bind_some, Option.map_some]
  · simp only [onCurvePrecompiles, hinv, Option.map_some]
  · obtain ⟨a, -, h⟩ := Option.bind_eq_some_iff.mp h
    obtain ⟨b, hb, -⟩ := Option.map_eq_some_iff.mp h
    exact ⟨b, (pointWords_injective.isPartialInv b v).mp hb⟩

/-! ## The loop -/

/-- The points of the key beside the scalars. -/
def pointTerms (input : Fin 8 → ℕ) (publicCommitment : ℕ) : List (G1 × ℕ) :=
  List.ofFn (fun i : Fin 8 => (pubPoint i.castSucc, input i)) ++ [(pubPoint (Fin.last 8), publicCommitment)]

/-- The constant point, the commitment, and every input times its point. -/
def linearCombination (input : Fin 8 → ℕ) (publicCommitment : ℕ) (commitment : G1) : G1 :=
  constantPoint + commitment +
    (∑ i : Fin 8, input i • pubPoint i.castSucc + publicCommitment • pubPoint (Fin.last 8))

theorem terms_eq (input : Fin 8 → ℕ) (publicCommitment : ℕ) :
    terms input publicCommitment = (pointTerms input publicCommitment).map fun t => (pointWords t.1, t.2) := by
  have hwords : ∀ i, pointWords (pubPoint i) = PUB i := fun i => pointWords_ofWords _ (pub_lt i).1 (pub_lt i).2
  simp only [terms, pointTerms, List.map_append, List.map_ofFn, Function.comp_def, hwords, List.map_cons,
    List.map_nil]

theorem pointTerms_reduced {input : Fin 8 → ℕ} {publicCommitment : ℕ} :
    (pointTerms input publicCommitment).all (fun t => decide (t.2 < R)) = true ↔
      (∀ i, input i < R) ∧ publicCommitment < R := by
  simp only [pointTerms, List.all_append, List.all_cons, List.all_nil, Bool.and_true, Bool.and_eq_true,
    List.all_eq_true, List.forall_mem_ofFn_iff, decide_eq_true_eq]

theorem pointTerms_sum (input : Fin 8 → ℕ) (publicCommitment : ℕ) :
    ((pointTerms input publicCommitment).map fun t => t.2 • t.1).sum =
      ∑ i : Fin 8, input i • pubPoint i.castSucc + publicCommitment • pubPoint (Fin.last 8) := by
  simp only [pointTerms, List.map_append, List.map_ofFn, Function.comp_def, List.map_cons, List.map_nil,
    List.sum_append, List.sum_ofFn, List.sum_singleton]

/-- What has failed stays failed. -/
theorem foldl_success {pre : Precompiles} (l : List ((ℕ × ℕ) × ℕ)) {acc : Accumulator}
    (h : (l.foldl (addInput pre) acc).success = true) : acc.success = true := by
  induction l generalizing acc with
  | nil => exact h
  | cons t l ih =>
    have hnext := ih h
    simp only [addInput, Bool.and_eq_true] at hnext
    exact hnext.1.1.1

section Loop

variable {pre : Precompiles} (hpre : CurvePrecompiles pre)
include hpre

theorem addInput_point (ok : Bool) (q u : G1) (s : ℕ) :
    addInput pre ⟨ok, pointWords q⟩ (pointWords u, s) =
      ⟨ok && decide (s < R), pointWords (q + s • u)⟩ := by
  simp only [addInput, hpre.mul, Option.getD_some, hpre.add, Option.isSome_some, Bool.and_true]

/-- The loop adds a linear combination and notices a scalar that is not reduced. -/
theorem foldl_addInput (l : List (G1 × ℕ)) (ok : Bool) (q : G1) :
    (l.map fun t => (pointWords t.1, t.2)).foldl (addInput pre) ⟨ok, pointWords q⟩ =
      ⟨ok && l.all fun t => decide (t.2 < R), pointWords (q + (l.map fun t => t.2 • t.1).sum)⟩ := by
  induction l generalizing ok q with
  | nil => simp
  | cons t l ih =>
    rw [List.map_cons, List.foldl_cons, addInput_point hpre, ih, List.all_cons, List.map_cons, List.sum_cons,
      Bool.and_assoc, add_assoc]

theorem publicInputMSM_point (input : Fin 8 → ℕ) (publicCommitment : ℕ) (commitment : G1) :
    publicInputMSM pre input publicCommitment (pointWords commitment) =
      if (∀ i, input i < R) ∧ publicCommitment < R then
        .ok (pointWords (linearCombination input publicCommitment commitment))
      else .error .publicInputNotInField := by
  have hconstant : CONSTANT = pointWords constantPoint :=
    (pointWords_ofWords _ constant_lt.1 constant_lt.2).symm
  simp only [publicInputMSM, hconstant, hpre.add, terms_eq, Option.isSome_some, Option.getD_some,
    foldl_addInput hpre, Bool.true_and, pointTerms_reduced, pointTerms_sum, linearCombination]

/-- The sum is computed exactly when every scalar is reduced and the commitment is a point. -/
theorem publicInputMSM_eq_ok {input : Fin 8 → ℕ} {publicCommitment : ℕ} {commitments l : ℕ × ℕ} :
    publicInputMSM pre input publicCommitment commitments = .ok l ↔
      ((∀ i, input i < R) ∧ publicCommitment < R) ∧ ∃ commitment, pointWords commitment = commitments ∧
        l = pointWords (linearCombination input publicCommitment commitment) := by
  constructor
  · intro h
    -- a commitment that is no point makes the first addition fail
    obtain ⟨commitment, rfl⟩ : ∃ commitment, pointWords commitment = commitments := by
      have hsuccess : ((terms input publicCommitment).foldl (addInput pre)
          ⟨(pre.ecAdd CONSTANT commitments).isSome, (pre.ecAdd CONSTANT commitments).getD CONSTANT⟩).success =
            true := by
        by_contra hfail
        simp only [publicInputMSM, hfail] at h
        cases h
      obtain ⟨w, hw⟩ := Option.isSome_iff_exists.mp (foldl_success _ hsuccess)
      exact hpre.add_point _ _ _ hw
    rw [publicInputMSM_point hpre] at h
    split at h
    · rename_i hreduced
      exact ⟨hreduced, commitment, rfl, (Except.ok.inj h).symm⟩
    · cases h
  · rintro ⟨hreduced, commitment, rfl, rfl⟩
    rw [publicInputMSM_point hpre, if_pos hreduced]

end Loop

end Doxa.Verifier
