import Doxa.Client.PoolConfig
import Doxa.Trees.Proof

/-!
# Calls on the config tree

`insert_subpool_at_position` in place, as a release build runs it: the position of the insertion
is not compared with the id. From the id 2 on the tree must end just before the position. The id 1
is not compared with anything, so on a tree that has its first subpool a further call with the id 1
appends a leaf at the end. In a run without such a call every success puts the leaf at the
position of its id, a failure changes nothing, and every subpool that was inserted has its proof
(`config_insertions`).
-/

namespace Doxa.Client

open Lib Circuit Trees Function

namespace MainPoolConfigTree

/-! ## Calls -/

section Calls

variable (perm : State → State) (t : MainPoolConfigTree)

/-- `insert_subpool_at_position` without its debug assertion. -/
def insertInPlace (subpoolId : F) (subpoolRoot : HashOut) : Except Failure Unit × MainPoolConfigTree :=
  match seed perm t.inner subpoolId.val with
  | .error e => (.error e, t)
  | .ok inner =>
    let digest := configDigest perm subpoolId subpoolRoot
    match treeResult (inner.insert (hashOutput perm) digest) with
    | .error e => (.error e, { t with inner := inner })
    | .ok inserted => (.ok (), {
        inner := inserted.1
        leafIndexMap := if digest ≠ 0 then update t.leafIndexMap digest (some subpoolId.val)
          else t.leafIndexMap })

def subpoolProof (subpoolId : F) (subpoolConfigComm : HashOut) : Except Failure (MerkleProof HashOut) :=
  if subpoolConfigComm = 0 then treeResult (t.inner.merkleProof (hashOutput perm) subpoolId.val)
  else
    match t.leafIndexMap (MainPoolConfigLeaf.commit perm ⟨subpoolConfigComm, subpoolId⟩) with
    | none => .error (.error "subpool leaf not found in index map")
    | some i => treeResult (t.inner.merkleProof (hashOutput perm) i)

/-- The calls one after the other, failed ones included. -/
def run (cs : List (F × HashOut)) : MainPoolConfigTree :=
  cs.foldl (fun u c => (u.insertInPlace perm c.1 c.2).2) t

/-- The leaf at a position, the zero leaf if there is none. -/
def leafAt (i : ℕ) : HashOut := t.inner.leaves.getD i 0

/-- A success puts the leaf at the position of the id, a failure changes nothing. -/
structure Placed (c : F × HashOut) : Prop where
  placed : (t.insertInPlace perm c.1 c.2).1 = .ok () →
    (t.insertInPlace perm c.1 c.2).2.leafAt c.1.val = configDigest perm c.1 c.2 ∧
      c.1.val < (t.insertInPlace perm c.1 c.2).2.inner.numLeaves ∧
      ∀ i, i ≠ c.1.val → (t.insertInPlace perm c.1 c.2).2.leafAt i = t.leafAt i
  unchanged : ∀ e, (t.insertInPlace perm c.1 c.2).1 = .error e →
    (t.insertInPlace perm c.1 c.2).2 = t

/-- The id 1, where there are leaves and room for more. -/
def Repeats (c : F × HashOut) : Prop :=
  c.1.val = 1 ∧ 0 < t.inner.numLeaves ∧ t.inner.numLeaves < 2 ^ MAIN_POOL_CONFIG_DEPTH

/-- The subpool has a proof for its position that leads to the root. -/
def Proven (c : F × HashOut) : Prop :=
  ∃ proof, t.subpoolProof perm c.1 c.2 = .ok proof ∧ proof.pos = c.1.val ∧
    proof.leaf = configDigest perm c.1 c.2 ∧ t.root perm = .ok proof.root ∧
    proof.verify (hashOutput perm) = true

/-- The input of the leaf's digest. -/
def leafInput (c : F × HashOut) : List F := List.ofFn ![c.1, 0, 0, 0] ++ List.ofFn c.2

/-- The digest of the leaf is zero, or that of another one. -/
def LeafClash (c : F × HashOut) : Prop :=
  hashNoPad perm (leafInput c) = 0 ∨ ∃ c', Collision perm (leafInput c) (leafInput c')

/-- The call succeeds in the course of the calls. -/
def Inserted (cs : List (F × HashOut)) (c : F × HashOut) : Prop :=
  ∃ before after, cs = before ++ c :: after ∧
    ((t.run perm before).insertInPlace perm c.1 c.2).1 = .ok ()

/-- No call of the run repeats the id 1. -/
def NoRepeat (cs : List (F × HashOut)) : Prop :=
  ∀ before c after, cs = before ++ c :: after → ¬ (t.run perm before).Repeats c

end Calls

/-! ## What a call does -/

section Steps

variable {perm : State → State} {roots : ℕ → HashOut} {count : ℕ} {t : MainPoolConfigTree}
variable {c : F × HashOut}

variable (perm) in
/-- The tree holds the subpools `1` to `count`, and the map has an entry for each leaf. -/
structure Holds (roots : ℕ → HashOut) (count : ℕ) (t : MainPoolConfigTree) : Prop where
  reserved : roots 0 = 0
  room : count < 2 ^ MAIN_POOL_CONFIG_DEPTH
  tree : Represents (hashOutput perm) MAIN_POOL_CONFIG_DEPTH (leavesOf perm roots count) t.inner
  indexed : ∀ i, i ≤ count → configDigest perm (i : F) (roots i) ≠ 0 →
    ∃ j ≤ count, t.leafIndexMap (configDigest perm (i : F) (roots i)) = some j ∧
      configDigest perm (j : F) (roots j) = configDigest perm (i : F) (roots i)

theorem Holds.leafAt (h : Holds perm roots count t) (i : ℕ) :
    t.leafAt i = if i ≤ count then configDigest perm (i : F) (roots i) else 0 := by
  rw [MainPoolConfigTree.leafAt, h.tree.leaves, leavesOf_getD h.reserved]

theorem Holds.numLeaves (h : Holds perm roots count t) :
    t.inner.numLeaves = if count = 0 then 0 else count + 1 := by
  rw [MerkleTree.numLeaves, h.tree.leaves]
  split
  · rename_i hcount
    rw [hcount, leavesOf, if_pos rfl, List.length_nil]
  · rename_i hcount
    exact leavesOf_length hcount

/-- Subpools below the next one keep their leaves. -/
theorem leavesOf_update {i : ℕ} (hi : i ≤ count) (root : HashOut) :
    update roots (count + 1) root i = roots i := update_of_ne (by omega) _ _

theorem leavesOf_congr {roots' : ℕ → HashOut} (h : ∀ i ≤ count, roots' i = roots i) :
    leavesOf perm roots' count = leavesOf perm roots count := by
  unfold leavesOf
  split
  · rfl
  · refine List.map_congr_left fun i hi => ?_
    rw [h i (by have := List.mem_range.mp hi; omega)]

/-- The next subpool is inserted. -/
theorem Holds.next (h : Holds perm roots count t) (hroom : count + 1 < 2 ^ MAIN_POOL_CONFIG_DEPTH)
    (hid : c.1.val = count + 1) : ∃ t', t.insertInPlace perm c.1 c.2 = (.ok (), t') ∧
      Holds perm (update roots (count + 1) c.2) (count + 1) t' := by
  have hzero : update roots (count + 1) c.2 0 = 0 :=
    (leavesOf_update (Nat.zero_le count) c.2).trans h.reserved
  have hid' : c.1 = ((count + 1 : ℕ) : F) := by rw [← hid, ZMod.natCast_zmod_val]
  have hsame := @leavesOf_congr perm roots count (update roots (count + 1) c.2)
    fun i hi => leavesOf_update hi c.2
  have htree := h.tree
  rw [← hsame] at htree
  obtain ⟨seeded, hseed, hrep⟩ := seed_represents htree
  have hlength : (if count = 0 then [0] else
      leavesOf perm (update roots (count + 1) c.2) count).length = count + 1 := by
    split
    · rename_i hcount
      rw [hcount]
      rfl
    · rename_i hcount
      exact leavesOf_length hcount
  obtain ⟨inner, hins, hrep'⟩ := insert_represents (hashOutput_lawful perm) hrep
    (by rwa [hlength]) (configDigest perm c.1 c.2)
  have hcall : t.insertInPlace perm c.1 c.2 = (.ok (), {
      inner := inner
      leafIndexMap := if configDigest perm c.1 c.2 ≠ 0 then
        update t.leafIndexMap (configDigest perm c.1 c.2) (some c.1.val)
          else t.leafIndexMap }) := by
    unfold insertInPlace
    simp only [hid, hseed, hins, treeResult]
  refine ⟨_, hcall, hzero, hroom, ?_, fun i hi hdigest => ?_⟩
  · rw [leavesOf_succ hzero, ← hid', update_self]
    exact hrep'
  · have hlast : configDigest perm ((count + 1 : ℕ) : F) (update roots (count + 1) c.2 (count + 1)) =
        configDigest perm c.1 c.2 := by rw [update_self, ← hid']
    by_cases hnew : configDigest perm (i : F) (update roots (count + 1) c.2 i) =
        configDigest perm c.1 c.2
    · rw [hnew] at hdigest ⊢
      refine ⟨count + 1, le_refl _, ?_, hlast⟩
      rw [if_pos hdigest, ← hid]
      exact update_self _ _ _
    · have hle : i ≤ count := by
        refine Nat.le_of_lt_succ (lt_of_le_of_ne hi fun heq => hnew ?_)
        rw [heq]
        exact hlast
      rw [leavesOf_update hle] at hdigest hnew ⊢
      obtain ⟨j, hj, hmap, hsame⟩ := h.indexed i hle hdigest
      refine ⟨j, by omega, ?_, by rw [leavesOf_update hj, hsame]⟩
      split
      · exact (update_of_ne hnew _ _).trans hmap
      · exact hmap

/-- A call that does not repeat the id 1 either inserts the next subpool or fails and changes
nothing. -/
theorem Holds.step (h : Holds perm roots count t) (hrepeat : ¬ t.Repeats c) :
    (∃ e, t.insertInPlace perm c.1 c.2 = (.error e, t)) ∨
      c.1.val = count + 1 ∧ count + 1 < 2 ^ MAIN_POOL_CONFIG_DEPTH := by
  by_cases hnext : c.1.val = count + 1 ∧ count + 1 < 2 ^ MAIN_POOL_CONFIG_DEPTH
  · exact .inr hnext
  refine .inl ?_
  have hleaves := h.numLeaves
  have hroom := h.room
  by_cases hzero : c.1.val = 0
  · refine ⟨.error "subpool_id 0 is reserved and cannot be used", ?_⟩
    unfold insertInPlace seed
    rw [if_pos hzero]
  have hfull : t.inner.numLeaves = 2 ^ MAIN_POOL_CONFIG_DEPTH → ∀ x,
      t.inner.insert (hashOutput perm) x = .error .fullTree := by
    intro hfull x
    unfold MerkleTree.insert
    rw [MerkleTree.depth, h.tree.depth_eq, Nat.one_shiftLeft, if_pos hfull.ge]
  by_cases hone : c.1.val = 1
  · have hcount : count ≠ 0 := by
      rintro rfl
      exact hnext ⟨hone, by decide⟩
    rw [if_neg hcount] at hleaves
    have htree : t.inner.numLeaves = 2 ^ MAIN_POOL_CONFIG_DEPTH := by
      by_contra hne
      exact hrepeat ⟨hone, by omega, by omega⟩
    refine ⟨.error "tree is full", ?_⟩
    unfold insertInPlace seed
    rw [if_neg hzero, if_pos hone, if_neg (by omega)]
    simp only [pure, Except.pure, hfull htree, treeResult]
  · by_cases hlast : t.inner.numLeaves = c.1.val
    · have htree : t.inner.numLeaves = 2 ^ MAIN_POOL_CONFIG_DEPTH := by
        split at hleaves
        · omega
        · have hfits : ¬ count + 1 < 2 ^ MAIN_POOL_CONFIG_DEPTH := fun hlt =>
            hnext ⟨hlast.symm.trans hleaves, hlt⟩
          omega
      refine ⟨.error "tree is full", ?_⟩
      unfold insertInPlace seed
      rw [if_neg hzero, if_neg hone, if_pos hlast]
      simp only [pure, Except.pure, hfull htree, treeResult]
    · refine ⟨.error (s!"cannot insert subpool_id={c.1.val}: subpool_id={c.1.val - 1} must be inserted " ++
        s!"first (tree has {t.inner.numLeaves} leaves, expected {c.1.val})"), ?_⟩
      unfold insertInPlace seed
      rw [if_neg hzero, if_neg hone, if_neg hlast]

/-- A repetition of the id 1 appends its leaf at the end. -/
theorem Holds.repeated (h : Holds perm roots count t) (hrepeat : t.Repeats c) :
    ∃ t', t.insertInPlace perm c.1 c.2 = (.ok (), t') ∧
      t'.inner.leaves = t.inner.leaves ++ [configDigest perm c.1 c.2] := by
  obtain ⟨hone, hpos, hroom⟩ := hrepeat
  have hlen : (leavesOf perm roots count).length = t.inner.numLeaves := by
    rw [MerkleTree.numLeaves, h.tree.leaves]
  obtain ⟨inner, hins, hrep⟩ := insert_represents (hashOutput_lawful perm) h.tree
    (by rwa [hlen]) (configDigest perm c.1 c.2)
  have hseed : seed perm t.inner c.1.val = .ok t.inner := by
    unfold seed
    rw [hone, if_neg one_ne_zero, if_pos rfl, if_neg hpos.ne']
    rfl
  refine ⟨{
    inner := inner
    leafIndexMap := if configDigest perm c.1 c.2 ≠ 0 then
      update t.leafIndexMap (configDigest perm c.1 c.2) (some c.1.val) else t.leafIndexMap }, ?_, ?_⟩
  · unfold insertInPlace
    simp only [hseed, hins, treeResult]
  · rw [h.tree.leaves]
    exact hrep.leaves

/-- Every such call does what it says. -/
theorem Holds.placed (h : Holds perm roots count t) (hrepeat : ¬ t.Repeats c) :
    t.Placed perm c := by
  rcases h.step hrepeat with ⟨e, hcall⟩ | ⟨hid, hroom⟩
  · refine ⟨fun hok => ?_, fun _ _ => by rw [hcall]⟩
    rw [hcall] at hok
    cases hok
  · obtain ⟨t', hcall, ht'⟩ := h.next hroom hid
    refine ⟨fun _ => ?_, fun e herror => ?_⟩
    · rw [hcall]
      refine ⟨?_, ?_, fun i hi => ?_⟩
      · rw [ht'.leafAt, hid, if_pos (le_refl _), update_self, ← hid, ZMod.natCast_zmod_val]
      · rw [ht'.numLeaves, if_neg (Nat.succ_ne_zero count), hid]
        exact Nat.lt_succ_self _
      · rw [hid] at hi
        rw [ht'.leafAt, h.leafAt]
        by_cases hle : i ≤ count
        · rw [if_pos hle, if_pos (by omega), leavesOf_update hle]
        · rw [if_neg hle, if_neg (by omega)]
    · rw [hcall] at herror
      cases herror

end Steps

/-! ## Runs -/

section Runs

variable {perm : State → State} {t₀ : MainPoolConfigTree} {cs : List (F × HashOut)}
variable {c : F × HashOut}

theorem run_concat (cs : List (F × HashOut)) (c : F × HashOut) :
    t₀.run perm (cs ++ [c]) = ((t₀.run perm cs).insertInPlace perm c.1 c.2).2 := by
  rw [run, List.foldl_append]
  rfl

/-- A call of a longer run is one of the shorter one or the last. -/
theorem split_concat {before after : List (F × HashOut)} {c' : F × HashOut}
    (h : cs ++ [c] = before ++ c' :: after) :
    (before = cs ∧ c' = c) ∨ ∃ after', cs = before ++ c' :: after' := by
  rcases List.eq_nil_or_concat after with rfl | ⟨after', last, rfl⟩
  · obtain ⟨hbefore, hlast⟩ := List.append_inj' h rfl
    exact .inl ⟨hbefore.symm, (List.cons.inj hlast).1.symm⟩
  · rw [List.concat_eq_append, ← List.cons_append, ← List.append_assoc] at h
    exact .inr ⟨after', (List.append_inj' h rfl).1⟩

/-- A run without a repetition holds the subpools that were inserted. -/
theorem Holds.run (h₀ : Holds perm (fun _ => 0) 0 t₀) (hno : t₀.NoRepeat perm cs) :
    ∃ roots count, Holds perm roots count (t₀.run perm cs) ∧
      ∀ c, t₀.Inserted perm cs c → c.1.val ≤ count ∧ roots c.1.val = c.2 := by
  induction cs using List.reverseRecOn with
  | nil =>
    refine ⟨_, _, h₀, ?_⟩
    rintro c ⟨before, after, hsplit, -⟩
    exact absurd hsplit.symm (List.append_ne_nil_of_right_ne_nil _ (List.cons_ne_nil _ _))
  | append_singleton cs c ih =>
    obtain ⟨roots, count, hholds, hinserted⟩ := ih fun before c' after hsplit =>
      hno before c' (after ++ [c]) (by rw [hsplit, List.append_assoc]; rfl)
    rw [run_concat]
    rcases hholds.step (hno cs c [] rfl) with ⟨e, hcall⟩ | ⟨hid, hroom⟩
    · rw [hcall]
      refine ⟨roots, count, hholds, ?_⟩
      rintro c' ⟨before, after, hsplit, hok⟩
      rcases split_concat hsplit with ⟨rfl, rfl⟩ | ⟨after', hcs⟩
      · rw [hcall] at hok
        cases hok
      · exact hinserted c' ⟨before, after', hcs, hok⟩
    · obtain ⟨t', hcall, ht'⟩ := hholds.next hroom hid
      rw [hcall]
      refine ⟨_, _, ht', ?_⟩
      rintro c' ⟨before, after, hsplit, hok⟩
      rcases split_concat hsplit with ⟨-, rfl⟩ | ⟨after', hcs⟩
      · exact ⟨hid.le, by rw [hid, update_self]⟩
      · obtain ⟨hle, hroot⟩ := hinserted c' ⟨before, after', hcs, hok⟩
        exact ⟨by omega, (leavesOf_update hle c.2).trans hroot⟩

variable {roots : ℕ → HashOut} {count : ℕ} {t : MainPoolConfigTree}

theorem configDigest_eq (c : F × HashOut) (hroot : c.2 ≠ 0) :
    configDigest perm c.1 c.2 = hashNoPad perm (leafInput c) := if_neg hroot

theorem leafInput_injective : Function.Injective leafInput := by
  rintro ⟨subpoolId, root⟩ ⟨subpoolId', root'⟩ h
  obtain ⟨hid, hroot⟩ := List.append_inj h (by rw [List.length_ofFn, List.length_ofFn])
  rw [show subpoolId = subpoolId' from congrFun (List.ofFn_inj.mp hid) 0,
    show root = root' from List.ofFn_inj.mp hroot]

/-- A subpool that the tree holds has its proof, up to a clash of its leaf. -/
theorem Holds.proven (h : Holds perm roots count t) (hle : c.1.val ≤ count)
    (hroot : roots c.1.val = c.2) : t.Proven perm c ∨ LeafClash perm c := by
  have hlen : (leavesOf perm roots count).length ≤ 2 ^ MAIN_POOL_CONFIG_DEPTH := by
    have hleaves := h.numLeaves
    have hroom := h.room
    rw [MerkleTree.numLeaves, h.tree.leaves] at hleaves
    rw [hleaves]
    split <;> omega
  have hdigest : configDigest perm ((c.1.val : ℕ) : F) (roots c.1.val) = configDigest perm c.1 c.2 := by
    rw [hroot, ZMod.natCast_zmod_val]
  have hproven : t.subpoolProof perm c.1 c.2 =
      .ok (proofOf (hashOutput perm) MAIN_POOL_CONFIG_DEPTH (leavesOf perm roots count) c.1.val) →
      t.Proven perm c := by
    intro hproof
    refine ⟨_, hproof, rfl, ?_, ?_, ?_⟩
    · show (leavesOf perm roots count).getD c.1.val 0 = _
      rw [leavesOf_getD h.reserved, if_pos hle, hdigest]
    · rw [MainPoolConfigTree.root, root_represents h.tree depth_pos hlen]
      rfl
    · exact proofOf_verify (hashOutput_lawful perm) (lt_of_le_of_lt hle h.room)
  have hmerkle := merkleProof_represents h.tree depth_pos hlen
  by_cases hzero : c.2 = 0
  · refine .inl (hproven ?_)
    rw [subpoolProof, if_pos hzero, hmerkle]
    rfl
  · by_cases hcommit : configDigest perm c.1 c.2 = 0
    · exact .inr (.inl ((configDigest_eq c hzero).symm.trans hcommit))
    · obtain ⟨j, hj, hmap, hsame⟩ := h.indexed _ hle (by rwa [hdigest])
      rw [hdigest] at hmap hsame
      by_cases hpos : j = c.1.val
      · refine .inl (hproven ?_)
        rw [subpoolProof, if_neg hzero, ← show configDigest perm c.1 c.2 = _ from if_neg hzero, hmap,
          hpos]
        show treeResult (t.inner.merkleProof (hashOutput perm) c.1.val) = _
        rw [hmerkle]
        rfl
      · have hother : roots j ≠ 0 := by
          intro hnone
          rw [hnone, configDigest_zero] at hsame
          exact hcommit hsame.symm
        refine .inr (.inr ⟨((j : F), roots j), fun heq => hpos ?_, ?_⟩)
        · have hid := congrArg Prod.fst (leafInput_injective heq)
          rw [show c.1 = (j : F) from hid, val_natCast (lt_of_le_of_lt hj h.room)]
        · rw [← configDigest_eq c hzero, ← configDigest_eq ((j : F), roots j) hother, hsame]

variable (perm) in
theorem new_holds (hnew : new perm = .ok t₀) : Holds perm (fun _ => 0) 0 t₀ := by
  obtain ⟨t₁, hnew₁, hempty⟩ := new_empty perm fun _ => 0
  obtain rfl := Except.ok.inj (hnew.symm.trans hnew₁)
  refine ⟨rfl, by decide, hempty, fun i _ hdigest => ?_⟩
  exact absurd (configDigest_zero _) hdigest

end Runs

/-- In a run that does not repeat the id 1, every success puts the subpool at its position and
changes no other, every failure changes nothing, and each subpool that was inserted has a proof for
its position, up to a clash of its leaf. -/
theorem config_insertions (perm : State → State) {t₀ : MainPoolConfigTree} {cs : List (F × HashOut)}
    (hnew : new perm = .ok t₀) (hno : t₀.NoRepeat perm cs) :
    (∀ before c after, cs = before ++ c :: after → (t₀.run perm before).Placed perm c) ∧
      ∀ c, t₀.Inserted perm cs c → (t₀.run perm cs).Proven perm c ∨ LeafClash perm c := by
  have h₀ := new_holds perm hnew
  constructor
  · intro before c after hcs
    have hbefore : t₀.NoRepeat perm before := by
      intro before' c' after' hsplit
      exact hno before' c' (after' ++ c :: after) (by rw [hcs, hsplit, List.append_assoc]; rfl)
    obtain ⟨roots, count, hholds, -⟩ := h₀.run hbefore
    exact hholds.placed (hno before c after hcs)
  · intro c hinserted
    obtain ⟨roots, count, hholds, hall⟩ := h₀.run hno
    obtain ⟨hle, hroot⟩ := hall c hinserted
    exact hholds.proven hle hroot

/-- The subpools 1 and 2, and 4 too early. -/
theorem config_insertions_sample : ∃ t₀ : MainPoolConfigTree, new id = .ok t₀ ∧
    ∀ c ∈ [((1 : F), (1 : HashOut)), (2, 1), (4, 1)], t₀.Inserted id [(1, 1), (2, 1), (4, 1)] c →
      (t₀.run id [(1, 1), (2, 1), (4, 1)]).Proven id c ∨ LeafClash id c := by
  obtain ⟨t₀, hnew, -⟩ := new_empty id fun _ => 0
  refine ⟨t₀, hnew, fun c _ => (config_insertions id hnew ?_).2 c⟩
  intro before c after hcs hrepeat
  match before, hcs with
  | [], hcs =>
    have hleaves := (new_holds id hnew).numLeaves
    exact absurd hleaves hrepeat.2.1.ne'
  | [_], hcs =>
    obtain ⟨-, hc⟩ := List.cons.inj hcs
    rw [← (List.cons.inj hc).1] at hrepeat
    exact absurd hrepeat.1 (by decide)
  | [_, _], hcs =>
    obtain ⟨-, hc⟩ := List.cons.inj (List.cons.inj hcs).2
    rw [← (List.cons.inj hc).1] at hrepeat
    exact absurd hrepeat.1 (by decide)
  | _ :: _ :: _ :: before, hcs =>
    have hlen := congrArg List.length hcs
    simp at hlen

/-- A subpool without a root, and then another one under the id 1: the second call succeeds, its
leaf is at position 2, and position 1 keeps the zero leaf. -/
theorem repeated_id_misplaced : ∃ t₀ t : MainPoolConfigTree, new id = .ok t₀ ∧
    t = t₀.run id [(1, 0)] ∧ (t.insertInPlace id 1 1).1 = .ok () ∧
    (t.insertInPlace id 1 1).2.leafAt 2 = configDigest id 1 1 ∧
    (t.insertInPlace id 1 1).2.leafAt 1 = 0 ∧ ¬ t.Placed id (1, 1) := by
  obtain ⟨t₀, hnew, -⟩ := new_empty id fun _ => 0
  obtain ⟨t, hcall, ht⟩ := (new_holds id hnew).next (show 0 + 1 < 2 ^ MAIN_POOL_CONFIG_DEPTH by decide)
    (show ((1 : F), (0 : HashOut)).1.val = 0 + 1 by decide)
  have hleaves : t.inner.leaves = [0, 0] := by
    rw [ht.tree.leaves]
    decide
  have hrepeat : t.Repeats (1, 1) := by
    refine ⟨by decide, ?_, ?_⟩
    · rw [MerkleTree.numLeaves, hleaves]
      decide
    · rw [MerkleTree.numLeaves, hleaves]
      decide
  obtain ⟨t', hagain, hleaves'⟩ := ht.repeated hrepeat
  rw [hleaves] at hleaves'
  have hone : t'.leafAt 1 = 0 := by
    rw [leafAt, hleaves']
    rfl
  refine ⟨t₀, t, hnew, by rw [run, List.foldl_cons, List.foldl_nil, hcall], by rw [hagain], ?_, ?_, ?_⟩
  · rw [hagain, leafAt, hleaves']
    rfl
  · rw [hagain]
    exact hone
  · intro hplaced
    have hat := (hplaced.placed (by rw [hagain])).1
    rw [hagain] at hat
    have hdigest : configDigest id (1 : F) (1 : HashOut) ≠ 0 := by decide
    exact hdigest (hat.symm.trans hone)

end MainPoolConfigTree

end Doxa.Client
