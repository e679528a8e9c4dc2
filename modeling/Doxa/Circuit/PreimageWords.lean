import Doxa.Circuit.PublicInputs
import Doxa.Circuit.U32
import Doxa.Server.Encoding

/-!
# The words a super circuit hashes

The Keccak preimage of a super circuit is made of targets: the root of the subtree, the
common public inputs of the first slot and the unique ones of every slot. Each of them is
split into a low and a high half, range checked, with the high half constrained so that the
halves are those of the canonical representative.
-/

namespace Doxa.Circuit

open Lib Server U256AdditionChain

/-! ## Splitting a field element -/

/-- The targets of `decompose_field_to_u32_pair`. -/
structure U32PairTargets where
  lo : F
  hi : F
  loBytes : Fin 4 → F
  hiBytes : Fin 4 → F
  hiIsMax : F
  diffInv : F

namespace U32PairTargets

/-- `0xFFFFFFFF`. -/
def MAX_HI : F := 4294967295

variable (t : U32PairTargets)

def diff : F := MAX_HI - t.hi

/-- The constraints of `decompose_field_to_u32_pair`. -/
structure Satisfied (value : F) : Prop where
  lo_range : DecomposeU32ToBytes t.lo t.loBytes
  hi_range : DecomposeU32ToBytes t.hi t.hiBytes
  recomposed : 2 ^ 32 * t.hi + t.lo = value
  is_max : t.hiIsMax * t.diff = 0
  inverse : t.diff * t.diffInv + t.hiIsMax = 1
  canonical : t.hiIsMax * t.lo = 0

variable {t} {value : F}

/-- The low half of the largest high half is zero. -/
theorem Satisfied.lo_of_max (h : t.Satisfied value) (hmax : t.hi.val = 2 ^ 32 - 1) :
    t.lo.val = 0 := by
  have hhi : t.hi = MAX_HI := by
    rw [← ZMod.natCast_zmod_val t.hi, hmax]
    rfl
  have hdiff : t.diff = 0 := by rw [diff, hhi, sub_self]
  have hone : t.hiIsMax = 1 := by simpa [hdiff] using h.inverse
  have hlo : t.lo = 0 := by simpa [hone] using h.canonical
  rw [hlo, ZMod.val_zero]

/-- The constraints accept exactly the halves of the canonical representative. -/
theorem Satisfied.halves (h : t.Satisfied value) :
    t.lo.val = value.val % 2 ^ 32 ∧ t.hi.val = value.val / 2 ^ 32 := by
  have hlo := h.lo_range.val_lt
  have hhi := h.hi_range.val_lt
  have hmax := h.lo_of_max
  have hcases := (recomposed_iff hhi hlo).mp h.recomposed
  have hvalue := ZMod.val_lt value
  unfold ORDER at hcases
  -- the second pair has the largest high half, and a low half other than zero
  omega

/-- What the generators fill in for two given halves. -/
def ofHalves (hi lo : F) : U32PairTargets where
  lo := lo
  hi := hi
  loBytes := byteDecomposition lo
  hiBytes := byteDecomposition hi
  hiIsMax := if MAX_HI - hi = 0 then 1 else 0
  diffInv := (MAX_HI - hi)⁻¹

theorem ofHalves_satisfied {hi lo : F} (hhi : hi.val < 2 ^ 32) (hlo : lo.val < 2 ^ 32)
    (h : hi.val * 2 ^ 32 + lo.val = value.val) : (ofHalves hi lo).Satisfied value := by
  have hrecomposed : 2 ^ 32 * hi + lo = value :=
    (recomposed_iff hhi hlo).mpr (.inl (by rw [Nat.mul_comm, h]))
  have hdiff : (ofHalves hi lo).diff = MAX_HI - hi := rfl
  have hrange := byteDecomposition_satisfied hlo
  have hrange' := byteDecomposition_satisfied hhi
  by_cases hmax : MAX_HI - hi = 0
  · -- `hi` is the largest word, so the representative is the order minus one
    have hone : (ofHalves hi lo).hiIsMax = 1 := by simp only [ofHalves, if_pos hmax]
    have hhival : hi.val = 2 ^ 32 - 1 := by
      rw [← sub_eq_zero.mp hmax]
      rfl
    have hzero : lo = 0 := by
      have hvalue := ZMod.val_lt value
      exact (ZMod.val_eq_zero lo).mp (by omega)
    refine ⟨hrange, hrange', hrecomposed, ?_, ?_, ?_⟩
    · rw [hdiff, hmax, mul_zero]
    · rw [hdiff, hone, hmax, zero_mul, zero_add]
    · exact mul_eq_zero_of_right _ hzero
  · have hnone : (ofHalves hi lo).hiIsMax = 0 := by simp only [ofHalves, if_neg hmax]
    refine ⟨hrange, hrange', hrecomposed, ?_, ?_, ?_⟩
    · rw [hnone, zero_mul]
    · rw [hdiff, hnone, add_zero]
      exact mul_inv_cancel₀ hmax
    · rw [hnone, zero_mul]

/-- The constraints are satisfiable with the outputs `hi` and `lo` exactly when these are the
halves of the canonical representative. -/
theorem exists_satisfied_iff (value hi lo : F) :
    (∃ t : U32PairTargets, t.Satisfied value ∧ t.hi = hi ∧ t.lo = lo) ↔
      hi.val < 2 ^ 32 ∧ lo.val < 2 ^ 32 ∧ hi.val * 2 ^ 32 + lo.val = value.val := by
  constructor
  · rintro ⟨t, ht, rfl, rfl⟩
    obtain ⟨hlo, hhi⟩ := ht.halves
    refine ⟨ht.hi_range.val_lt, ht.lo_range.val_lt, ?_⟩
    rw [hlo, hhi]
    exact Nat.div_add_mod' value.val (2 ^ 32)
  · rintro ⟨hhi, hlo, h⟩
    exact ⟨ofHalves hi lo, ofHalves_satisfied hhi hlo h, rfl, rfl⟩

end U32PairTargets

/-- The pairs split the elements of a list, one by one. -/
def FieldsToU32Words (fields : List F) (pairs : List U32PairTargets) : Prop :=
  List.Forall₂ (fun f t => t.Satisfied f) fields pairs

/-- The words `[lo, hi, lo, hi, …]`. -/
def u32Words (pairs : List U32PairTargets) : List F := pairs.flatMap fun t => [t.lo, t.hi]

/-- The words of a splitting are the ones `push_fields` pushes. -/
theorem u32Words_eq {fields : List F} {pairs : List U32PairTargets}
    (h : FieldsToU32Words fields pairs) :
    u32Words pairs = (pushFields fields).map fun w => (w.toNat : F) := by
  induction h with
  | nil => rfl
  | @cons f t fields pairs ht _ ih =>
    obtain ⟨hlo, hhi⟩ := ht.halves
    have hlt := val_lt_word f
    have hlo' : t.lo = ((BitVec.ofNat 32 f.val).toNat : F) := by
      rw [BitVec.toNat_ofNat, ← hlo, ZMod.natCast_zmod_val]
    have hhi' : t.hi = ((BitVec.ofNat 32 (f.val >>> 32)).toNat : F) := by
      rw [BitVec.toNat_ofNat, Nat.shiftRight_eq_div_pow, Nat.mod_eq_of_lt (by omega), ← hhi,
        ZMod.natCast_zmod_val]
    have hcons : pushFields (f :: fields) = pushFields [f] ++ pushFields fields :=
      pushFields_append [f] fields
    rw [u32Words] at ih ⊢
    rw [List.flatMap_cons, ih, hcons, List.map_append, hlo', hhi']
    rfl

/-! ## The preimages of the two super circuits -/

variable (perm : State → State)

/-- The targets `setup_super_builder` splits for private transactions. -/
def PrivTxSuperTargets.preimageTargets (t : PrivTxSuperTargets) : List F :=
  List.ofFn t.sr.root ++
    (List.ofFn (t.pis perm 0).stateRoot ++ List.ofFn (t.pis perm 0).mainpoolConfigRoot) ++
    (List.ofFn (t.pis perm)).flatMap TxCircuitPublicTargets.uniquePiTargets

/-- The targets `setup_super_builder` splits for bridge transactions: all withdrawals come
before all deposits. -/
def BridgeTxSuperTargets.preimageTargets (t : BridgeTxSuperTargets) : List F :=
  List.ofFn t.sr.root ++
    (List.ofFn ((t.pairs 0).w.publicTargets perm).root ++
      List.ofFn ((t.pairs 0).w.publicTargets perm).mainpoolConfigRoot) ++
    ((List.ofFn fun s => (t.pairs s).w.publicTargets perm).flatMap
        WithdrawTxPublicTargets.uniquePiTargets ++
      (List.ofFn fun s => (t.pairs s).d.publicTargets perm).flatMap
        DepositTxPublicTargets.uniquePiTargets)

end Doxa.Circuit
