import Doxa.Contract.PoseidonPartial
import Doxa.Trees.Agreement

/-!
# `compress` is the plain permutation

The parts of `permute` run one after the other on a state whose lanes are the 64-bit lanes
of the two arguments, so no step of a run leaves its range, and the four lanes of the result
are the reduced first lanes of the permutation.
-/

namespace Doxa.PoseidonGoldilocks

open Lib Flagged Contract Trees

/-- The eight lanes of the arguments, reduced, and four zeros. -/
def inputState (left right : U256) : State := fun i =>
  if i.val < 4 then (lane 64 i left.toNat : ℕ)
  else if i.val < 8 then (lane 64 (i.val - 4) right.toNat : ℕ)
  else 0

/-! ## The permutation -/

theorem firstRoundConstants_rows :
    ∀ k < firstRoundConstants.length, IsRow (firstRoundConstants.getD k []) (1 + k) := by
  unfold IsRow
  decide

theorem lastRoundConstants_rows :
    ∀ k < lastRoundConstants.length, IsRow (lastRoundConstants.getD k []) (26 + k) := by
  unfold IsRow
  decide

theorem residues_reduceLanes (s : Lanes) : residues (reduceLanes s) = residues s := by
  funext i
  have hget : (reduceLanes s).get i = if i.val = 0 then s.get i else mulmod (s.get i) 1 P := by
    simp [reduceLanes]
  rw [residues, hget]
  split
  · rfl
  · rw [reduce_toNat, cast_mod_order]
    rfl

theorem canonical_reduceLanes {s : Lanes} (hs : (s.get 0).toNat < ORDER) :
    Canonical (reduceLanes s) := by
  intro i
  have hget : (reduceLanes s).get i = if i.val = 0 then s.get i else mulmod (s.get i) 1 P := by
    simp [reduceLanes]
  rw [hget]
  split
  · rename_i hi
    obtain rfl : i = 0 := Fin.ext hi
    exact hs
  · exact mulmod_lt _ _

theorem poseidon_rounds (x : State) : poseidon x =
    (List.range' 26 4).foldl (fun s r => Doxa.fullRound r s)
      ((List.range' 4 22).foldl (fun s r => Doxa.partialRound r s)
        ((List.range' 1 3).foldl (fun s r => Doxa.fullRound r s) (Doxa.fullRound 0 x))) := by
  have hfull : List.range 4 = 0 :: List.range' 1 3 := rfl
  rw [poseidon, hfull, List.foldl_cons]

theorem ensures_permute {s : Lanes} (hs : Absorbed s) :
    (permute s).Ensures fun t => Canonical t ∧ residues t = poseidon (residues s) := by
  have hfirst : firstRoundConstants.length = 3 := rfl
  have hlast : lastRoundConstants.length = 4 := rfl
  refine (ensures_round0 hs).bind fun t ht => ?_
  refine (ensures_fullRounds firstRoundConstants_rows ht.1).bind fun u hu => ?_
  have hrest := (ensures_partialRounds hu.1).bind fun w hw =>
    (ensures_fullRounds lastRoundConstants_rows (canonical_reduceLanes (s := w) hw.1)).mono
      (R := fun x => Canonical x ∧ residues x = poseidon (residues s)) fun x hx =>
        ⟨hx.1, by rw [hx.2, hlast, residues_reduceLanes, hw.2, hu.2, hfirst, ht.2, poseidon_rounds]⟩
  rw [Flagged.bind_assoc, Flagged.bind_assoc] at hrest
  exact hrest

/-! ## The words -/

theorem lane_three (x : U256) : (x >>> 192).toNat = lane 64 3 x.toNat := by
  have hx := x.isLt
  rw [BitVec.toNat_ushiftRight, Nat.shiftRight_eq_div_pow]
  show _ = x.toNat / 2 ^ 192 % 2 ^ 64
  omega

theorem lane_masked (x : U256) (i : ℕ) :
    ((x >>> (64 * i)) &&& mask64).toNat = lane 64 i x.toNat := by
  have hmask : mask64.toNat = 2 ^ 64 - 1 := rfl
  rw [BitVec.toNat_and, hmask, Nat.and_two_pow_sub_one_eq_mod, BitVec.toNat_ushiftRight,
    Nat.shiftRight_eq_div_pow]
  rfl

/-- What `setup` puts in its lanes. -/
theorem setup_toNat (left right : U256) (i : Fin 12) : ((setup left right).get i).toNat =
    if i.val < 4 then lane 64 i left.toNat
    else if i.val < 8 then lane 64 (i.val - 4) right.toNat
    else 0 := by
  have hzero : ∀ x : U256, (x &&& mask64).toNat = lane 64 0 x.toNat := by
    intro x
    have h := lane_masked x 0
    rwa [Nat.mul_zero, BitVec.ushiftRight_zero] at h
  match i with
  | 0 => exact hzero left
  | 1 => exact lane_masked left 1
  | 2 => exact lane_masked left 2
  | 3 => exact lane_three left
  | 4 => exact hzero right
  | 5 => exact lane_masked right 1
  | 6 => exact lane_masked right 2
  | 7 => exact lane_three right
  | 8 | 9 | 10 | 11 => rfl

theorem absorbed_setup (left right : U256) : Absorbed (setup left right) := by
  intro i
  rw [setup_toNat]
  by_cases h8 : i.val < 8
  · rw [if_pos h8]
    split
    · exact lane_lt _ _ _
    · exact lane_lt _ _ _
  · rw [if_neg h8, if_neg (by omega), if_neg h8]

theorem residues_setup (left right : U256) :
    residues (setup left right) = inputState left right := by
  funext i
  rw [residues, setup_toNat, inputState]
  split
  · rfl
  · split
    · rfl
    · exact Nat.cast_zero

/-- A word shifted into its lane above lower lanes. -/
theorem or_shift_toNat {x y : U256} {k : ℕ} (hx : x.toNat < 2 ^ k) (hy : y.toNat < 2 ^ 64)
    (hk : k + 64 ≤ 256) : (x ||| (y <<< k)).toNat = x.toNat + 2 ^ k * y.toNat := by
  have hfit : y.toNat * 2 ^ k < 2 ^ 256 := by
    calc y.toNat * 2 ^ k < 2 ^ 64 * 2 ^ k := Nat.mul_lt_mul_of_pos_right hy (by positivity)
      _ = 2 ^ (k + 64) := by rw [Nat.pow_add, Nat.mul_comm]
      _ ≤ 2 ^ 256 := Nat.pow_le_pow_right (by decide) hk
  have hor := Nat.two_pow_add_eq_or_of_lt hx y.toNat
  rw [BitVec.toNat_or, BitVec.toNat_shiftLeft, Nat.shiftLeft_eq, Nat.mod_eq_of_lt hfit, Nat.or_comm,
    Nat.mul_comm y.toNat, ← hor, Nat.add_comm]

theorem packOutput_toNat {s : Lanes} (hs : Canonical s) : (packOutput s).toNat =
    (s.get 0).toNat + 2 ^ 64 * (s.get 1).toNat + 2 ^ 128 * (s.get 2).toNat + 2 ^ 192 * (s.get 3).toNat := by
  have hword : ∀ i : Fin 12, (s.get i).toNat < 2 ^ 64 := fun i => (hs i).trans (by decide)
  have h0 : (s.get 0).toNat < 2 ^ 64 := hword 0
  have h1 : (s.get 1).toNat < 2 ^ 64 := hword 1
  have h2 : (s.get 2).toNat < 2 ^ 64 := hword 2
  have h3 : (s.get 3).toNat < 2 ^ 64 := hword 3
  have hone := or_shift_toNat (x := s.get 0) (y := s.get 1) (k := 64) h0 h1 (by decide)
  have htwo := or_shift_toNat (x := s.get 0 ||| (s.get 1 <<< 64)) (y := s.get 2) (k := 128)
    (by rw [hone]; omega) h2 (by decide)
  have hthree := or_shift_toNat (x := s.get 0 ||| (s.get 1 <<< 64) ||| (s.get 2 <<< 128)) (y := s.get 3)
    (k := 192) (by rw [htwo, hone]; omega) h3 (by decide)
  rw [packOutput, hthree, htwo, hone]

theorem lane_packOutput {s : Lanes} (hs : Canonical s) (i : Fin 4) :
    lane 64 i (packOutput s).toNat = (s.get (i.castLE (by decide))).toNat := by
  have hword : ∀ i : Fin 12, (s.get i).toNat < 2 ^ 64 := fun i => (hs i).trans (by decide)
  have h0 : (s.get 0).toNat < 2 ^ 64 := hword 0
  have h1 : (s.get 1).toNat < 2 ^ 64 := hword 1
  have h2 : (s.get 2).toNat < 2 ^ 64 := hword 2
  have h3 : (s.get 3).toNat < 2 ^ 64 := hword 3
  rw [packOutput_toNat hs, lane]
  fin_cases i
  · show _ / 2 ^ 0 % _ = (s.get 0).toNat
    omega
  · show _ / 2 ^ 64 % _ = (s.get 1).toNat
    omega
  · show _ / 2 ^ 128 % _ = (s.get 2).toNat
    omega
  · show _ / 2 ^ 192 % _ = (s.get 3).toNat
    omega

/-! ## The result -/

theorem ensures_compress (left right : U256) : (compressSteps left right).Ensures fun x =>
    ∀ i : Fin 4, lane 64 i x.toNat < ORDER ∧
      (lane 64 i x.toNat : F) = poseidon (inputState left right) (i.castLE (by decide)) := by
  refine (ensures_permute (absorbed_setup left right)).bind fun t ht => ensures_pure fun i => ?_
  rw [lane_packOutput ht.1]
  refine ⟨ht.1 (i.castLE (by decide)), ?_⟩
  rw [← residues_setup, ← ht.2]
  rfl

/-- `compress` returns the reduced first four lanes of the plain permutation. -/
theorem compress_eq_poseidon (left right : U256) (i : Fin 4) :
    lane 64 i (compress left right).toNat < ORDER ∧
      (lane 64 i (compress left right).toNat : F) =
        poseidon (inputState left right) (i.castLE (by decide)) :=
  (ensures_compress left right).2 i

/-- No step of a run of `compress` leaves its range. -/
theorem compress_safe (left right : U256) : (compressSteps left right).safe = true :=
  (ensures_compress left right).1

/-! ## The node hash -/

theorem hash2to1_unpackLE (perm : State → State) (left right : U256) :
    hash2to1 perm (unpackLE left) (unpackLE right) = squeeze (perm (inputState left right)) := by
  have hblock : overwrite (List.ofFn (unpackLE left) ++ List.ofFn (unpackLE right)) 0 =
      inputState left right := by
    funext i
    match i with
    | 0 | 1 | 2 | 3 | 4 | 5 | 6 | 7 | 8 | 9 | 10 | 11 => rfl
  have hchunks : chunks 8 (List.ofFn (unpackLE left) ++ List.ofFn (unpackLE right)) =
      [List.ofFn (unpackLE left) ++ List.ofFn (unpackLE right)] := by
    have h := chunks_append (r := 8) (by decide) (b := List.ofFn (unpackLE left) ++
      List.ofFn (unpackLE right)) (by simp) []
    rwa [List.append_nil] at h
  rw [hash2to1, hash2to1Swapped, if_neg (by decide), hashNoPad, hchunks, absorb_cons, absorb_nil,
    hblock]

theorem lanes_eq (x : U256) : x.toNat = lane 64 0 x.toNat +
    2 ^ 64 * (lane 64 1 x.toNat + 2 ^ 64 * (lane 64 2 x.toNat + 2 ^ 64 * lane 64 3 x.toNat)) := by
  have hx := x.isLt
  show _ = x.toNat / 2 ^ 0 % 2 ^ 64 + 2 ^ 64 * (x.toNat / 2 ^ 64 % 2 ^ 64 +
    2 ^ 64 * (x.toNat / 2 ^ 128 % 2 ^ 64 + 2 ^ 64 * (x.toNat / 2 ^ 192 % 2 ^ 64)))
  omega

/-- The contract's `compress` is the node hash of the trees on packed digests. -/
theorem compress_eq_compressLE (left right : U256) :
    compress left right = compressLE poseidon left right := by
  have hval : ∀ i : Fin 4, (squeeze (poseidon (inputState left right)) i).val =
      lane 64 i (compress left right).toNat := by
    intro i
    obtain ⟨hlt, hcast⟩ := (ensures_compress left right).2 i
    show (poseidon (inputState left right) (i.castLE (by decide))).val = _
    rw [← hcast]
    exact ZMod.val_cast_of_lt hlt
  have h0 := hval 0
  have h1 := hval 1
  have h2 := hval 2
  have h3 := hval 3
  apply BitVec.eq_of_toNat_eq
  have hword := lanes_eq (compress left right)
  have hfit := (compress left right).isLt
  rw [compressLE, hash2to1_unpackLE, packLE, h0, h1, h2, h3]
  show _ = (BitVec.ofNat 256 (lane 64 0 _ + 2 ^ 64 * (lane 64 1 _ + 2 ^ 64 * (lane 64 2 _ +
    2 ^ 64 * lane 64 3 _)))).toNat
  rw [← hword, BitVec.toNat_ofNat, Nat.mod_eq_of_lt hfit]

end Doxa.PoseidonGoldilocks
