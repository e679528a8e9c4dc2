import Doxa.Contract.PoseidonPartial

/-!
# Poseidon on tables

The permutation and the sponge on lists of numbers, reduced after every round. A table
gives the digest of a fixed input by comparing lists.
-/

namespace Doxa

open Lib Residues PoseidonGoldilocks
open scoped Matrix

/-! ## The permutation -/

def addTable (r : ℕ) (s : List ℕ) : List ℕ := List.zipWith (fun x c => x + c) s (constantRow r)

def sboxTable (r : ℕ) (s : List ℕ) : List ℕ :=
  List.zipWith (fun x c => (x + c) ^ 7 % 18446744069414584321) s (constantRow r)

def fullTable (s : List ℕ) (r : ℕ) : List ℕ := mulVec 18446744069414584321 mdsRows (sboxTable r s)

def partialTable (s : List ℕ) (r : ℕ) : List ℕ :=
  mulVec 18446744069414584321 mdsRows ((sboxTable r s).headD 0 :: (addTable r s).tail)

def poseidonTable (s : List ℕ) : List ℕ :=
  let s := (List.range 4).foldl fullTable s
  let s := (List.range' 4 22).foldl partialTable s
  (List.range' 26 4).foldl fullTable s

/-- The lanes of a table. -/
abbrev lanes (s : List ℕ) : State := vec 12 s

set_option maxRecDepth 2000 in
theorem constantRow_length {r : ℕ} (hr : r < 30) : (constantRow r).length = 12 := by
  have hlen : ROUND_CONSTANTS.length = 360 := by decide
  rw [constantRow, List.length_take, List.length_drop, hlen]
  omega

/-- Both rows are complete, so that no entry falls away. -/
theorem vec_zipWith {f : ℕ → ℕ → ℕ} {n : ℕ} {a b : List ℕ} (ha : a.length = n) (hb : b.length = n) :
    (vec n (List.zipWith f a b) : Fin n → F) = fun i : Fin n => ((f (a.getD i 0) (b.getD i 0) : ℕ) : F) := by
  funext i
  have hget : (List.zipWith f a b).getD i 0 = f (a.getD i 0) (b.getD i 0) := by
    rw [List.getD_eq_getElem _ _ (by simp [ha, hb]), List.getD_eq_getElem _ _ (ha ▸ i.isLt),
      List.getD_eq_getElem _ _ (hb ▸ i.isLt), List.getElem_zipWith]
  rw [vec, hget]

section Rounds

variable {r : ℕ} {s : List ℕ}

theorem lanes_addTable (hs : s.length = 12) (hr : r < 30) :
    lanes (addTable r s) = fun i => lanes s i + roundConstants r i := by
  rw [addTable, lanes, vec_zipWith hs (constantRow_length hr), ← vec_constantRow]
  funext i
  exact Nat.cast_add _ _

theorem lanes_sboxTable (hs : s.length = 12) (hr : r < 30) :
    lanes (sboxTable r s) = fun i => (lanes s i + roundConstants r i) ^ 7 := by
  rw [sboxTable, lanes, vec_zipWith hs (constantRow_length hr), ← vec_constantRow]
  funext i
  have hmod : ∀ x : ℕ, ((x % 18446744069414584321 : ℕ) : F) = x := fun x => ZMod.natCast_mod x _
  rw [hmod, Nat.cast_pow, Nat.cast_add]
  rfl

theorem addTable_length (hs : s.length = 12) (hr : r < 30) : (addTable r s).length = 12 := by
  rw [addTable, List.length_zipWith, hs, constantRow_length hr]
  rfl

theorem sboxTable_length (hs : s.length = 12) (hr : r < 30) : (sboxTable r s).length = 12 := by
  rw [sboxTable, List.length_zipWith, hs, constantRow_length hr]
  rfl

theorem lanes_fullTable (hs : s.length = 12) (hr : r < 30) :
    lanes (fullTable s r) = fullRound r (lanes s) := by
  rw [fullTable, lanes, vec_mulVec (sboxTable_length hs hr).le, mat_mdsRows]
  exact congrArg (mdsMatrix *ᵥ ·) (lanes_sboxTable hs hr)

/-- The first lane passes the S-box, the others only add their constants. -/
theorem lanes_partialTable (hs : s.length = 12) (hr : r < 30) :
    lanes (partialTable s r) = partialRound r (lanes s) := by
  have hlen : ((sboxTable r s).headD 0 :: (addTable r s).tail).length ≤ 12 := by
    rw [List.length_cons, List.length_tail, addTable_length hs hr]
  rw [partialTable, lanes, vec_mulVec hlen, mat_mdsRows]
  refine congrArg (mdsMatrix *ᵥ ·) ?_
  have hhead : (((sboxTable r s).headD 0 : ℕ) : F) = (lanes s 0 + roundConstants r 0) ^ 7 := by
    have h := congrFun (lanes_sboxTable hs hr) 0
    rwa [lanes, vec_succ, Fin.cons_zero] at h
  rw [vec_cons, hhead, vec_tail]
  funext i
  refine Fin.cases ?_ (fun i => ?_) i
  · rw [Fin.cons_zero, if_pos rfl]
  · rw [Fin.cons_succ, if_neg (Fin.succ_ne_zero i)]
    exact congrFun (lanes_addTable hs hr) i.succ

theorem mulVec_mdsRows_length (s : List ℕ) : (mulVec 18446744069414584321 mdsRows s).length = 12 := by
  rw [mulVec, List.length_map]
  rfl

end Rounds

/-- Rounds that agree one by one agree in a row. -/
theorem lanes_foldl {table : List ℕ → ℕ → List ℕ} {round : ℕ → State → State}
    (hlen : ∀ s r, (table s r).length = 12)
    (hround : ∀ s r, s.length = 12 → r < 30 → lanes (table s r) = round r (lanes s))
    (rs : List ℕ) (hrs : ∀ r ∈ rs, r < 30) {s : List ℕ} (hs : s.length = 12) :
    lanes (rs.foldl table s) = rs.foldl (fun x r => round r x) (lanes s) ∧
      (rs.foldl table s).length = 12 := by
  induction rs generalizing s with
  | nil => exact ⟨rfl, hs⟩
  | cons r rs ih =>
    rw [List.foldl_cons, List.foldl_cons, ← hround s r hs (hrs r List.mem_cons_self)]
    exact ih (fun r' hr' => hrs r' (List.mem_cons_of_mem r hr')) (hlen s r)

theorem lanes_poseidonTable {s : List ℕ} (hs : s.length = 12) :
    lanes (poseidonTable s) = poseidon (lanes s) ∧ (poseidonTable s).length = 12 := by
  have hfull : ∀ rs : List ℕ, (∀ r ∈ rs, r < 30) → ∀ {s : List ℕ}, s.length = 12 →
      lanes (rs.foldl fullTable s) = rs.foldl (fun x r => fullRound r x) (lanes s) ∧
        (rs.foldl fullTable s).length = 12 := fun rs hrs _ hs =>
    lanes_foldl (fun _ _ => mulVec_mdsRows_length _) (fun _ _ => lanes_fullTable) rs hrs hs
  obtain ⟨hfirst, hfirstLen⟩ := hfull (List.range 4) (by decide) hs
  obtain ⟨hmiddle, hmiddleLen⟩ := lanes_foldl (fun s r => mulVec_mdsRows_length _)
    (fun s r => lanes_partialTable) (List.range' 4 22) (by decide) hfirstLen
  obtain ⟨hlast, hlastLen⟩ := hfull (List.range' 26 4) (by decide) hmiddleLen
  refine ⟨?_, hlastLen⟩
  rw [hfirst] at hmiddle
  rw [hmiddle] at hlast
  exact hlast

/-! ## The sponge -/

def overwriteTable (block s : List ℕ) : List ℕ := block ++ s.drop block.length

def absorbTable (s : List ℕ) (blocks : List (List ℕ)) : List ℕ :=
  blocks.foldl (fun s block => poseidonTable (overwriteTable block s)) s

def hashTable (inputs : List ℕ) : List ℕ :=
  (absorbTable (List.replicate 12 0) (chunks 8 inputs)).take 4

/-- The digest of a table. -/
abbrev digest (s : List ℕ) : HashOut := vec 4 s

/-- The elements a table stands for. -/
abbrev elements (xs : List ℕ) : List F := xs.map Nat.cast

theorem lanes_overwriteTable {block s : List ℕ} :
    lanes (overwriteTable block s) = overwrite (elements block) (lanes s) := by
  funext i
  rw [overwriteTable, lanes, vec, overwrite]
  by_cases hi : i.val < block.length
  · rw [List.getD_append _ _ _ _ hi, List.getD_eq_getElem _ _ hi,
      List.getD_eq_getElem _ _ (by rwa [List.length_map]), List.getElem_map]
  · have hge := Nat.le_of_not_lt hi
    rw [List.getD_append_right _ _ _ _ hge, List.getD_eq_default (elements block) _ (by rwa [List.length_map])]
    have hdrop : (s.drop block.length).getD (i.val - block.length) 0 = s.getD i 0 := by
      rw [List.getD_eq_getElem?_getD, List.getElem?_drop, Nat.add_sub_cancel' hge,
        List.getD_eq_getElem?_getD]
    rw [hdrop]
    rfl

theorem lanes_absorbTable {blocks : List (List ℕ)} (hblocks : ∀ b ∈ blocks, b.length ≤ 12)
    {s : List ℕ} (hs : s.length = 12) : lanes (absorbTable s blocks) =
      absorb poseidon (lanes s) (blocks.map elements) := by
  induction blocks generalizing s with
  | nil => rfl
  | cons b blocks ih =>
    have hb := hblocks b List.mem_cons_self
    have hlen : (overwriteTable b s).length = 12 := by
      rw [overwriteTable, List.length_append, List.length_drop, hs]
      omega
    obtain ⟨hperm, hpermLen⟩ := lanes_poseidonTable hlen
    rw [List.map_cons, absorb_cons, ← lanes_overwriteTable, ← hperm]
    exact ih (fun c hc => hblocks c (List.mem_cons_of_mem b hc)) hpermLen

theorem chunks_map {α β : Type} (f : α → β) (r : ℕ) (xs : List α) :
    chunks r (xs.map f) = (chunks r xs).map (List.map f) := by
  have hstep : ∀ n (xs : List α), chunksN r n (xs.map f) = (chunksN r n xs).map (List.map f) := by
    intro n
    induction n with
    | zero => exact fun xs => rfl
    | succ n ih =>
      intro xs
      cases xs with
      | nil => rfl
      | cons x xs =>
        have htake : (f x :: xs.map f).take r = ((x :: xs).take r).map f := by
          rw [List.map_take, List.map_cons]
        have hdrop : (f x :: xs.map f).drop r = ((x :: xs).drop r).map f := by
          rw [List.map_drop, List.map_cons]
        rw [List.map_cons, chunksN, chunksN, htake, hdrop, ih, List.map_cons]
  rw [chunks, chunks, List.length_map]
  exact hstep _ xs

theorem length_of_mem_chunks {α : Type} {r : ℕ} {xs b : List α} (h : b ∈ chunks r xs) : b.length ≤ r := by
  have hstep : ∀ n (xs : List α), b ∈ chunksN r n xs → b.length ≤ r := by
    intro n
    induction n with
    | zero => exact fun xs hb => absurd hb List.not_mem_nil
    | succ n ih =>
      intro xs hb
      cases xs with
      | nil => exact absurd hb List.not_mem_nil
      | cons x xs =>
        rcases List.mem_cons.mp hb with rfl | hb
        · exact List.length_take_le r _
        · exact ih _ hb
  exact hstep _ xs h

/-- The digest of a list of numbers. -/
theorem hashNoPad_table (inputs : List ℕ) :
    hashNoPad poseidon (elements inputs) = digest (hashTable inputs) := by
  have hblocks : ∀ b ∈ chunks 8 inputs, b.length ≤ 12 := fun b hb =>
    (length_of_mem_chunks hb).trans (by decide)
  have hzero : lanes (List.replicate 12 0) = 0 := by
    funext i
    rw [lanes, vec, List.getD_replicate _ i.isLt]
    exact Nat.cast_zero
  rw [hashNoPad, chunks_map, ← hzero, ← lanes_absorbTable hblocks List.length_replicate]
  funext i
  have hget : ∀ s : List ℕ, (s.take 4).getD i 0 = s.getD i 0 := fun s => by
    rw [List.getD_eq_getElem?_getD, List.getElem?_take_of_lt i.isLt, List.getD_eq_getElem?_getD]
  rw [digest, vec, hashTable, hget]
  rfl

/-! ## Nodes -/

theorem poseidonTable_length (s : List ℕ) : (poseidonTable s).length = 12 := mulVec_mdsRows_length _

theorem hashTable_length (inputs : List ℕ) : (hashTable inputs).length = 4 := by
  have hstep : ∀ (blocks : List (List ℕ)) (s : List ℕ), s.length = 12 →
      (absorbTable s blocks).length = 12 := by
    intro blocks
    induction blocks with
    | nil => exact fun s hs => hs
    | cons b blocks ih => exact fun s _ => ih _ (poseidonTable_length _)
  rw [hashTable, List.length_take, hstep _ _ List.length_replicate]
  rfl

theorem ofFn_digest {s : List ℕ} (hs : s.length = 4) : List.ofFn (digest s) = elements s := by
  refine List.ext_getElem (by rw [List.length_ofFn, List.length_map, hs]) fun i hi hi' => ?_
  rw [List.length_map] at hi'
  rw [List.getElem_ofFn, List.getElem_map, digest, vec, List.getD_eq_getElem _ _ hi']

/-- A node over two digests. -/
theorem hash2to1_table {left right : List ℕ} (hleft : left.length = 4) (hright : right.length = 4) :
    hash2to1 poseidon (digest left) (digest right) = digest (hashTable (left ++ right)) := by
  rw [← hashNoPad_table, elements, List.map_append]
  show hashNoPad poseidon (List.ofFn (digest left) ++ List.ofFn (digest right)) = _
  rw [ofFn_digest hleft, ofFn_digest hright]

end Doxa
