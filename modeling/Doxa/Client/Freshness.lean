import Doxa.Circuit.Account
import Doxa.Client.AssetCalls
import Doxa.Client.Witness
import Doxa.Hash.Evaluation
import Doxa.Subpool.Convert

/-!
# Fresh accounts

`is_fresh` wants an empty asset tree, but `AccountStateTree::new` puts the default asset at leaf
`0` and no call removes a leaf. So no account is fresh for the client. The circuit compares the
root with that of a new tree, so that it accepts a new account, and any other one whose keys and
nonce are the default ones and whose tree holds no further asset (`fresh_agrees_iff`).
-/

namespace Doxa.Client

open Lib Circuit Trees

/-! ## The two tests -/

/-- Number of occupied leaves. -/
def AccountStateTree.size (self : AccountStateTree) : ℕ := self.tree.numLeaves

def StandardAccount.isFresh (self : StandardAccount) : Bool :=
  self.nonce = 0 && self.spendAuth.spendPk.isNone && !self.consumeAuth.config &&
    self.consumeAuth.pk.isNone && self.ast.size = 0

/-- The witness of the account satisfies `assert_fresh_account`. -/
def CircuitFresh (perm : State → State) (acc : StandardAccount) : Prop :=
  ∃ t, AccountTarget.setWitness perm acc = .ok t ∧ AssertFreshAccount t 1

/-- Nonce and keys are those of a new account; a key that is set may be the placeholder. -/
structure StandardAccount.Defaults (acc : StandardAccount) : Prop where
  nonce : acc.nonce = 0
  spend : acc.spendAuth.pkOrDefault = DEFAULT_SPEND_AUTH_PK
  config : acc.consumeAuth.config = false
  consume : acc.consumeAuth.pkOrDefault = DEFAULT_ACC_COMM_CONSUME_PK_PLACEHOLDER

/-- The leaves of a new tree. -/
def newLeaves (perm : State → State) : List HashOut := [leafCommitment perm 0 0]

/-- The tree of a new account has the same root, by the leaf of an asset that is the zero leaf or by
two different pairs of nodes with one parent. -/
def RootClash (perm : State → State) (ast : AccountStateTree) : Prop :=
  ast.root perm = .ok AST_DEFAULT_ROOT ∧
    (0 ∈ ast.tree.leaves ∨ ∃ l < ACC_AST_DEPTH, ∃ i,
      NodeCollision (hashOutput perm).node ((hashOutput perm).leafOf ast.tree.leaves)
        ((hashOutput perm).leafOf (newLeaves perm)) l i)

variable {perm : State → State}

/-! ## The circuit's test -/

/-- A condition of one compares. -/
theorem condKeyEq_one {x y : PubkeyTarget} : CondKeyEq 1 x y ↔ x = y := by
  rw [CondKeyEq, funext_iff]
  exact forall_congr' fun i => condEq_one

theorem assertFreshAccount_iff {acc : StandardAccount} {r : HashOut} :
    AssertFreshAccount (accountTarget acc r) 1 ↔ acc.Defaults ∧ r = AST_DEFAULT_ROOT := by
  have hflag : (ConsumeAuthTarget.set acc.consumeAuth).config = 0 ↔ acc.consumeAuth.config = false := by
    rw [ConsumeAuthTarget.set]
    cases acc.consumeAuth.config with
    | false => simp
    | true => simp
  constructor
  · intro h
    refine ⟨{ nonce := condEq_one.mp h.nonce
              spend := condKeyEq_one.mp h.spend_auth
              config := hflag.mp (condEq_one.mp h.config)
              consume := condKeyEq_one.mp h.consume_auth }, ?_⟩
    exact condHashEq_one.mp h.ast_root
  · rintro ⟨h, rfl⟩
    exact {
      ast_root := condHashEq_one.mpr rfl
      nonce := condEq_one.mpr h.nonce
      spend_auth := condKeyEq_one.mpr h.spend
      config := condEq_one.mpr (hflag.mpr h.config)
      consume_auth := condKeyEq_one.mpr h.consume }

/-! ## The root of a new tree -/

/-- The path of the first leaf and the default nodes, one level up. -/
def levelTable (s : List ℕ × List ℕ) : List ℕ × List ℕ :=
  (hashTable (s.1 ++ s.2), hashTable (s.2 ++ s.2))

/-- `DS_ACC_AST_LEAF`, the default asset and eight limbs of zero. -/
def leafTable : List ℕ := hashTable [1312, 0, 0, 0, 0, 0, 0, 0, 0, 0]

theorem leafTable_length : leafTable.length = 4 := hashTable_length _

def levels (l : ℕ) : List ℕ × List ℕ := levelTable^[l] (leafTable, [0, 0, 0, 0])

theorem levels_ten : (levels 10).1 =
    [2537328717772714990, 1534150781011785517, 14977255124160483673, 9325839111461431495] := by
  -- in two halves, so that the evaluation stays small
  have hfive : levels 5 =
      ([15348741401072310054, 8363375488545595381, 17732188967404752496, 2746848515975789802],
        [16854358529591173550, 9704301947898025017, 13222045073939169687,
          14989445859181028978]) := by
    decide +kernel
  have hsplit : levels 10 = levelTable^[5] (levels 5) := Function.iterate_add_apply levelTable 5 5 _
  rw [hsplit, hfive]
  decide +kernel

theorem digest_leafTable : leafCommitment poseidon 0 0 = digest leafTable := by
  rw [leafTable, ← hashNoPad_table]
  rfl

theorem digest_levels (l : ℕ) :
    node (hashOutput poseidon).node ((hashOutput poseidon).leafOf (newLeaves poseidon)) l 0 =
        digest (levels l).1 ∧
      ladder (hashOutput poseidon).node 0 l = digest (levels l).2 ∧
      (levels l).1.length = 4 ∧ (levels l).2.length = 4 := by
  induction l with
  | zero =>
    have hstart : levels 0 = (leafTable, [0, 0, 0, 0]) := rfl
    have hzero : (0 : HashOut) = digest [0, 0, 0, 0] := by
      funext i
      fin_cases i <;> exact Nat.cast_zero.symm
    have hfirst : (hashOutput poseidon).leafOf (newLeaves poseidon) 0 = leafCommitment poseidon 0 0 := by
      rw [MerkleHash.leafOf, newLeaves, List.getD_cons_zero]
    rw [hstart, node_zero, hfirst, digest_leafTable]
    exact ⟨rfl, hzero, leafTable_length, rfl⟩
  | succ l ih =>
    obtain ⟨hpath, hdefault, hlen, hlen'⟩ := ih
    have hright : node (hashOutput poseidon).node ((hashOutput poseidon).leafOf (newLeaves poseidon))
        l (2 * 0 + 1) = digest (levels l).2 := by
      rw [← hdefault]
      refine node_eq_ladder fun j hj _ => ?_
      have hpos : 0 < 2 ^ l := Nat.two_pow_pos l
      exact leafOf_fresh (show 1 ≤ j by omega)
    rw [levels, Function.iterate_succ_apply']
    refine ⟨?_, ?_, hashTable_length _, hashTable_length _⟩
    · rw [node_succ, hright, Nat.mul_zero, hpath]
      exact hash2to1_table hlen hlen'
    · rw [ladder_succ, hdefault]
      exact hash2to1_table hlen' hlen'

/-- The constant of the circuit is the root of a new tree. -/
theorem newLeaves_root :
    node (hashOutput poseidon).node ((hashOutput poseidon).leafOf (newLeaves poseidon))
      ACC_AST_DEPTH 0 = AST_DEFAULT_ROOT := by
  obtain ⟨hpath, -⟩ := digest_levels 10
  rw [levels_ten] at hpath
  refine hpath.trans ?_
  funext i
  fin_cases i <;> rfl

/-! ## Trees with that root -/

namespace AccountStateTree

variable {ast : AccountStateTree} {ds : List HashOut}

/-- The default asset keeps its leaf. -/
theorem Mirrors.first (hm : Mirrors perm ast ds) : ds[0]? = some (leafCommitment perm 0 0) :=
  hm.leaf ⟨0, (0, 0)⟩ (AList.mem_lookup_iff.mp hm.default)

theorem Mirrors.size_pos (hm : Mirrors perm ast ds) : 0 < ast.size := by
  rw [size, hm.numLeaves]
  exact (List.getElem?_eq_some_iff.mp hm.first).1

theorem Mirrors.size_eq_one (hm : Mirrors perm ast ds) (h : ast.size = 1) : ds = newLeaves perm := by
  rw [size, hm.numLeaves] at h
  obtain ⟨x, rfl⟩ := List.length_eq_one_iff.mp h
  exact congrArg (fun y => [y]) (Option.some.inj hm.first)

/-- A second leaf is the zero leaf, or the nodes above it collide. -/
theorem Mirrors.root_default_iff (hm : Mirrors poseidon ast ds) :
    ast.root poseidon = .ok AST_DEFAULT_ROOT ↔ ast.size = 1 ∨ RootClash poseidon ast := by
  constructor
  · intro hroot
    by_cases hone : ast.size = 1
    · exact .inl hone
    refine .inr ⟨hroot, ?_⟩
    have hsecond : 1 < ds.length := by
      have hpos := hm.size_pos
      rw [size, hm.numLeaves] at hone hpos
      omega
    rw [hm.root] at hroot
    have hnode := (Except.ok.inj hroot).trans newLeaves_root.symm
    rw [hm.tree.leaves]
    by_contra hfree
    rw [not_or, not_exists] at hfree
    have hleaf := leaf_eq_of_node_eq hnode
      (fun l hl i _ hcollision => hfree.2 l ⟨hl, i, hcollision⟩) (j := 1) (by decide)
    have hzero : (hashOutput poseidon).leafOf (newLeaves poseidon) 1 = 0 := leafOf_fresh (le_refl 1)
    refine hfree.1 (List.mem_iff_getElem?.mpr ⟨1, ?_⟩)
    rw [leafOf_getElem? hsecond, hleaf, hzero]
  · rintro (hone | hclash)
    · rw [hm.root, hm.size_eq_one hone, newLeaves_root]
    · exact hclash.1

end AccountStateTree

/-! ## The tests on reachable accounts -/

theorem isFresh_false {acc : StandardAccount} (h : Subpool.Reachable perm acc) : acc.isFresh = false := by
  obtain ⟨ds, hm⟩ := h.ast.mirrors
  have hsize : acc.ast.size ≠ 0 := hm.size_pos.ne'
  rw [StandardAccount.isFresh, decide_eq_false hsize, Bool.and_false]

theorem circuitFresh_iff {acc : StandardAccount} (h : Subpool.Reachable poseidon acc) :
    CircuitFresh poseidon acc ↔ acc.Defaults ∧ (acc.ast.size = 1 ∨ RootClash poseidon acc.ast) := by
  obtain ⟨ds, hm⟩ := h.ast.mirrors
  rw [← hm.root_default_iff, hm.root, Except.ok.injEq, ← assertFreshAccount_iff, CircuitFresh]
  constructor
  · rintro ⟨t, ht, hfresh⟩
    rw [setWitness_eq hm.root] at ht
    rwa [Except.ok.inj ht]
  · intro hfresh
    exact ⟨_, setWitness_eq hm.root, hfresh⟩

/-- The client's test is false for every account, so the two agree exactly on the accounts the
circuit refuses too. -/
theorem fresh_agrees_iff {acc : StandardAccount} (h : Subpool.Reachable poseidon acc) :
    (acc.isFresh = true ↔ CircuitFresh poseidon acc) ↔
      ¬ (acc.Defaults ∧ (acc.ast.size = 1 ∨ RootClash poseidon acc.ast)) := by
  rw [isFresh_false h, ← circuitFresh_iff h]
  simp

/-- After one transaction without a change of assets both tests fail. -/
theorem fresh_agrees_incremented : ∃ acc : StandardAccount,
    StandardAccount.newWith poseidon 0 1 = .ok acc ∧
      (acc.cloneWithIncrementedNonce.isFresh = true ↔
        CircuitFresh poseidon acc.cloneWithIncrementedNonce) := by
  obtain ⟨ast, hnew⟩ := AccountStateTree.new_ok poseidon
  have hacc : StandardAccount.newWith poseidon 0 1 = .ok ⟨0, 1, 0, .default, .default, ast⟩ := by
    rw [StandardAccount.newWith, hnew]
    rfl
  refine ⟨_, hacc, (fresh_agrees_iff (.incrementNonce (.newWith hacc))).mpr ?_⟩
  rintro ⟨hdefaults, -⟩
  exact absurd (show (0 : F) + 1 = 0 from hdefaults.nonce) (by decide)

/-- A new account: fresh for the circuit, not for the client. -/
theorem new_account_not_fresh : ∃ acc : StandardAccount,
    StandardAccount.newWith poseidon 0 1 = .ok acc ∧ acc.isFresh = false ∧
      CircuitFresh poseidon acc := by
  obtain ⟨ast, hnew⟩ := AccountStateTree.new_ok poseidon
  have hacc : StandardAccount.newWith poseidon 0 1 = .ok ⟨0, 1, 0, .default, .default, ast⟩ := by
    rw [StandardAccount.newWith, hnew]
    rfl
  have hreach : Subpool.Reachable poseidon ⟨0, 1, 0, .default, .default, ast⟩ := .newWith hacc
  refine ⟨_, hacc, isFresh_false hreach, (circuitFresh_iff hreach).mpr ⟨⟨rfl, rfl, rfl, rfl⟩, .inl ?_⟩⟩
  show ast.size = 1
  rw [AccountStateTree.size, (AccountStateTree.new_eq_ok hnew).numLeaves]
  rfl

end Doxa.Client
