import Doxa.StateSync.ConfigIndex

/-!
# The mirror of the config tree

The events of a range tell how the roots of the contract before it become those after it, so an
index at any block of the range, or before it, is brought to its end (`applied_mirrors`), and the
tree is the one of the contract. A subpool is never waited for, since the contract assigns the ids
in order.
-/

namespace Doxa.StateSync

open Lib Contract Function Trees Client

/-! ## The counts and the roots of a history -/

section History

variable {chain : Chain}

theorem Chain.deployed_tells (n : ℕ) : Tells chain.deployed
    ((blocksIn chain.subpoolLogs 0 n).map Prod.snd) (chain.contract n) :=
  chain.tells (Nat.zero_le (n + 1))

theorem mem_assignedIds {L : List SubpoolLog} {id : BitVec 64} (h : id ∈ assignedIds L) :
    ∃ owner, .assigned id owner ∈ L := by
  obtain ⟨log, hlog, hid⟩ := List.mem_filterMap.mp h
  cases log with
  | assigned j owner =>
    cases hid
    exact ⟨owner, hlog⟩
  | updated j r => cases hid

/-- The assignments of a range. -/
theorem Chain.range_assigns {m n count count' : ℕ} (hmn : m ≤ n)
    (hcount : Owned (chain.contract m) count) (hlt : count < 2 ^ 64)
    (hcount' : Owned (chain.contract n) count') (hlt' : count' < 2 ^ 64) :
    Assigns count (assignedIds ((blocksIn chain.subpoolLogs (m + 1) n).map Prod.snd)) count' :=
  (chain.tells (Nat.succ_le_succ hmn)).assigns_of hcount hcount' hlt'
    (fun id _ => id.isLt) hlt

variable (hdeployed : Deployed chain.env chain.deployed)
include hdeployed

theorem Chain.roots_eq (n : ℕ) (id : BitVec 64) : (chain.contract n).subpoolRoots id =
    (lastUpdate id ((blocksIn chain.subpoolLogs 0 n).map Prod.snd)).getD 0 := by
  rw [(chain.deployed_tells n).roots]
  have hzero : chain.deployed.subpoolRoots id = 0 := by
    obtain ⟨_, _, _, _, _, _, _, h⟩ := hdeployed.deployed
    simp only [constructor, revertIf_bind_eq_ok, pure_eq_ok] at h
    obtain ⟨-, -, -, -, -, -, heq⟩ := h
    rw [← heq]
  rw [hzero]

theorem Chain.root_unowned {n : ℕ} {id : BitVec 64} (h : (chain.contract n).subpoolOwners id = 0) :
    (chain.contract n).subpoolRoots id = 0 := by
  rw [Chain.roots_eq hdeployed]
  cases hlast : lastUpdate id ((blocksIn chain.subpoolLogs 0 n).map Prod.snd) with
  | none => rfl
  | some r => exact absurd h ((chain.deployed_tells n).owned id r (mem_of_lastUpdate hlast))

variable (hwithin : chain.SubpoolsWithin)
include hwithin

/-- The ids with an owner are those up to a position of the tree. -/
theorem Chain.counted (n : ℕ) : ∃ count, Owned (chain.contract n) count ∧
    count < 2 ^ chain.deployed.configTreeDepth := by
  obtain ⟨count, hcount, hassigns⟩ := (chain.deployed_tells n).assigns 0 (owned_deployed hdeployed)
  refine ⟨count, hcount, hassigns.lt (fun id hid => ?_) (by positivity)⟩
  obtain ⟨owner, hmem⟩ := mem_assignedIds hid
  exact hwithin.within hmem

/-- Every root the contract has is a digest. -/
theorem Chain.root_isDigest (n : ℕ) (id : BitVec 64) :
    (u256LeToHash ((chain.contract n).subpoolRoots id)).isSome := by
  rw [Chain.roots_eq hdeployed]
  cases hlast : lastUpdate id ((blocksIn chain.subpoolLogs 0 n).map Prod.snd) with
  | none =>
    rw [Option.getD_none, u256LeToHash_zero]
    rfl
  | some r => exact (hwithin.within (mem_of_lastUpdate hlast)).2

end History

/-! ## The spec of a sync -/

namespace ConfigIndex

/-- The index of a contract with these subpools. -/
structure MirrorsAt (perm : State → State) (s : ContractState) (count : ℕ) (index : ConfigIndex) :
    Prop where
  owned : Owned s count
  next : index.nextExpectedSubpoolId.toNat = count + 1
  waiting : index.pendingSubpoolAssignments = ∅
  roots : ∀ id, index.subpoolRoots.lookup id =
    if 1 ≤ id.toNat ∧ id.toNat ≤ count then u256LeToHash (s.subpoolRoots id) else none
  tree : Represents (hashOutput perm) Circuit.MAIN_POOL_CONFIG_DEPTH
    (MainPoolConfigTree.leavesOf perm index.rootAt count) index.configTree.inner

section Spec

variable {perm : State → State} {chain : Chain} {chunkBlocks : ℕ} {node : ConfigNode}
variable {index : ConfigIndex} {count : ℕ}

theorem MirrorsAt.registered {s : ContractState} (h : MirrorsAt perm s count index)
    (hroots : ∀ id, (u256LeToHash (s.subpoolRoots id)).isSome) :
    Registered (fun id => index.subpoolRoots.lookup id) count index where
  next := h.next
  waiting := h.waiting
  roots := by
    intro id
    rw [h.roots]
    split
    · obtain ⟨root, hroot⟩ := Option.isSome_iff_exists.mp (hroots id)
      rw [hroot]
      rfl
    · rfl

variable (perm index) in
/-- The tree is built from the roots. -/
theorem rebuildConfigTree_mirrors {s : ContractState} (hcount : Owned s count)
    (hlt : count < 2 ^ Circuit.MAIN_POOL_CONFIG_DEPTH)
    (hdigest : ∀ id, (u256LeToHash (s.subpoolRoots id)).isSome)
    (hnext : index.nextExpectedSubpoolId.toNat = count + 1)
    (hwaiting : index.pendingSubpoolAssignments = ∅)
    (hroots : ∀ id, index.subpoolRoots.lookup id =
      if 1 ≤ id.toNat ∧ id.toNat ≤ count then u256LeToHash (s.subpoolRoots id) else none) :
    ∃ index', (Program.change (rebuildConfigTree perm) : ConfigProgram Unit) index =
      (.ok (), index') ∧ MirrorsAt perm s count index' := by
  have hids : ∀ id, id ∈ index.subpoolRoots ↔ 1 ≤ id.toNat ∧ id.toNat ≤ count := by
    intro id
    rw [← AList.lookup_isSome, hroots]
    split
    · rename_i hid
      exact iff_of_true (hdigest id) hid
    · rename_i hid
      exact iff_of_false Bool.false_ne_true hid
  obtain ⟨tree, hbuild, hrep⟩ := buildConfigTree_ok perm hids hlt
  refine ⟨{ index with configTree := tree }, ?_, hcount, hnext, hwaiting, hroots, hrep⟩
  simp only [Program.change, rebuildConfigTree, hbuild]

variable (chain node) in
theorem fetchLogs_cases (hchunk : 0 < chunkBlocks) (event : EventKind) (fromBlock toBlock : ℕ) :
    fetchLogs chain chunkBlocks node event fromBlock toBlock =
        pure ((blocksIn chain.subpoolLogs fromBlock toBlock).filter fun x =>
          decide (subpoolEvent x.2 = event)) ∨
      fetchLogs chain chunkBlocks node event fromBlock toBlock = Program.fail .rpc ∧
        ∃ c, node.rpc c = false := by
  rw [← blocksIn_filter chain.subpoolLogs fun log => decide (subpoolEvent log = event)]
  by_cases hall : ∀ c, node.rpc c = true
  · refine .inl (readPages_ok hchunk _ (fun a b => ?_) toBlock (Nat.le_refl _))
    rw [fetchPage, if_pos (hall _)]
  · obtain ⟨c, hc⟩ := not_forall.mp hall
    have hpage : ∀ a b, fetchPage chain node event a b =
        pure (blocksIn (fun n => (chain.subpoolLogs n).filter fun log => subpoolEvent log = event)
          a b) ∨ fetchPage chain node event a b = Program.fail .rpc := by
      intro a b
      unfold fetchPage
      split
      · exact .inl rfl
      · exact .inr rfl
    rcases readPages_cases hchunk _ hpage toBlock (Nat.le_refl _) with h | h
    · exact .inl h
    · exact .inr ⟨h, c, Bool.eq_false_iff.mpr hc⟩

/-- The loop over the assignments, in the events of the range. -/
theorem foldl_assigned (L : List (ℕ × SubpoolLog)) :
    (L.filter fun x => decide (subpoolEvent x.2 = .subpoolOwnerAssigned)).foldl applyAssigned index =
      L.foldl applyAssigned index := by
  refine foldl_filter (p := fun log => decide (subpoolEvent log = .subpoolOwnerAssigned))
    (f := applyAssigned) ?_ L index
  rintro s ⟨block, log⟩ hlog
  cases log with
  | assigned id owner => exact absurd rfl (of_decide_eq_false hlog)
  | updated id r => rfl

theorem forEach_updated (L : List (ℕ × SubpoolLog)) :
    Program.forEach applyUpdated
        (L.filter fun x => decide (subpoolEvent x.2 = .subpoolRootUpdated)) =
      Program.forEach applyUpdated L := by
  refine Program.forEach_filter ?_ L
  rintro ⟨block, log⟩ hlog
  cases log with
  | assigned id owner => rfl
  | updated id r => exact absurd rfl (of_decide_eq_false hlog)

/-- The assignments and the updates of a range take the index of the contract at any block of the
range, or just before it, to the index of the contract at its end. -/
theorem applied_mirrors (hdeployed : Deployed chain.env chain.deployed)
    (hwithin : chain.SubpoolsWithin)
    (hdepth : chain.deployed.configTreeDepth = Circuit.MAIN_POOL_CONFIG_DEPTH) {k m n : ℕ}
    (hkm : k ≤ m) (hmn : m ≤ n) (h : MirrorsAt perm (chain.contract m) count index) :
    ∃ index₁ index₂ count', index₁ =
        (blocksIn chain.subpoolLogs (k + 1) n).foldl applyAssigned index ∧
      Program.forEach applyUpdated (blocksIn chain.subpoolLogs (k + 1) n) index₁ =
        (.ok (), index₂) ∧
      Owned (chain.contract n) count' ∧ count' < 2 ^ Circuit.MAIN_POOL_CONFIG_DEPTH ∧
      index₂.nextExpectedSubpoolId.toNat = count' + 1 ∧ index₂.pendingSubpoolAssignments = ∅ ∧
      ∀ id, index₂.subpoolRoots.lookup id = if 1 ≤ id.toNat ∧ id.toNat ≤ count' then
        u256LeToHash ((chain.contract n).subpoolRoots id) else none := by
  have hpow : 2 ^ Circuit.MAIN_POOL_CONFIG_DEPTH + 1 < 2 ^ 64 := by decide
  obtain ⟨start, hstart, hstartlt⟩ := Chain.counted hdeployed hwithin k
  obtain ⟨mid, hmid, hmidlt⟩ := Chain.counted hdeployed hwithin m
  obtain ⟨stop, hstop, hstoplt⟩ := Chain.counted hdeployed hwithin n
  rw [hdepth] at hstartlt hmidlt hstoplt
  have hdigest := Chain.root_isDigest hdeployed hwithin
  have hcount : count = mid := by
    refine h.owned.unique hmid ?_ (by omega)
    have hnext := index.nextExpectedSubpoolId.isLt
    rw [h.next] at hnext
    omega
  subst hcount
  have hsplit := blocksIn_append chain.subpoolLogs (a := k + 1) (by omega : k + 1 ≤ m + 1) hmn
  -- the blocks up to `m` are read again
  have hassigns : Assigns count
      (assignedIds ((blocksIn chain.subpoolLogs (k + 1) n).map Prod.snd)) stop := by
    rw [← hsplit, List.map_append, assignedIds, List.filterMap_append]
    exact (Chain.range_assigns hkm hstart (by omega) hmid (by omega)).reread
      (Chain.range_assigns hmn hmid (by omega) hstop (by omega))
  have hfresh : ∀ id, count < id.toNat → index.subpoolRoots.lookup id = none := by
    intro id hid
    rw [h.roots, if_neg (by omega)]
  have hregistered := foldl_applyAssigned hassigns (by omega) hfresh (h.registered (hdigest m))
  obtain ⟨index₂, hrun, hset⟩ := forEach_applyUpdated
    ((blocksIn chain.subpoolLogs (k + 1) n).foldl applyAssigned index)
    fun id r hmem => (hwithin.within hmem).2
  refine ⟨_, index₂, stop, rfl, hrun, hstop, hstoplt, ?_, ?_, fun id => ?_⟩
  · rw [hset.next]
    exact hregistered.next
  · rw [hset.waiting]
    exact hregistered.waiting
  · have htells := chain.tells (a := k + 1) (b := n) (by omega)
    have hbegin := chain.tells (a := k + 1) (b := m) (by omega)
    rw [hset.roots, hregistered.roots, lastRoot]
    cases hlast : lastUpdate id ((blocksIn chain.subpoolLogs (k + 1) n).map Prod.snd) with
    | some r =>
      have hroot := htells.roots id
      have hown := (hstop id).mp (htells.owned id r (mem_of_lastUpdate hlast))
      obtain ⟨root, hdig⟩ := Option.isSome_iff_exists.mp
        (hwithin.within (mem_of_lastUpdate hlast)).2
      rw [hlast, Option.getD_some] at hroot
      rw [if_pos hown, if_pos hown, hroot, Option.bind_some, hdig, Option.some_or]
    | none =>
      -- the root is the one of block `m`
      have hroot : (chain.contract n).subpoolRoots id = (chain.contract m).subpoolRoots id := by
        have hnone := hlast
        rw [← hsplit, List.map_append, lastUpdate_append, Option.or_eq_none_iff] at hnone
        rw [htells.roots, hlast, hbegin.roots, hnone.2]
      rw [Option.bind_none, Option.none_or, hroot]
      refine if_congr Iff.rfl ?_ rfl
      obtain ⟨root, hdig⟩ := Option.isSome_iff_exists.mp (hdigest m id)
      rw [h.roots]
      split
      · rw [hdig]
        rfl
      · rename_i hnot
        have hunowned : (chain.contract m).subpoolOwners id = 0 := by
          by_contra hown
          exact hnot ((hmid id).mp hown)
        rw [Chain.root_unowned hdeployed hunowned, u256LeToHash_zero]
        rfl

variable (node) in
/-- A poll brings the index to the end of its range, or a call of the node fails and nothing
happens. -/
theorem pollConfigTree_spec (hdeployed : Deployed chain.env chain.deployed)
    (hwithin : chain.SubpoolsWithin)
    (hdepth : chain.deployed.configTreeDepth = Circuit.MAIN_POOL_CONFIG_DEPTH)
    (hchunk : 0 < chunkBlocks) {k m n : ℕ} (hkm : k ≤ m) (hmn : m ≤ n)
    (h : MirrorsAt perm (chain.contract m) count index) :
    (∃ index' count', pollConfigTree perm chain chunkBlocks node (k + 1) n index =
        (.ok (), index') ∧ MirrorsAt perm (chain.contract n) count' index') ∨
      pollConfigTree perm chain chunkBlocks node (k + 1) n index = (.error .rpc, index) ∧
        ∃ c, node.rpc c = false := by
  obtain ⟨index₁, index₂, count', hassigned, hupdated, hcount, hlt, hnext, hwaiting, hroots⟩ :=
    applied_mirrors hdeployed hwithin hdepth hkm hmn h
  unfold pollConfigTree syncConfigTree
  rcases fetchLogs_cases chain node hchunk .subpoolOwnerAssigned (k + 1) n
    with hlogs | ⟨hlogs, hcall⟩
  · rw [hlogs, Program.pure_bind]
    rcases fetchLogs_cases chain node hchunk .subpoolRootUpdated (k + 1) n
      with hlogs' | ⟨hlogs', hcall⟩
    · rw [hlogs', Program.pure_bind]
      obtain ⟨index₃, hbuild, hmirrors⟩ := rebuildConfigTree_mirrors perm _ hcount hlt
        (Chain.root_isDigest hdeployed hwithin n) hnext hwaiting hroots
      refine .inl ⟨index₃, count', ?_, hmirrors⟩
      have hchange : (Program.change fun s => .ok (((blocksIn chain.subpoolLogs (k + 1) n).filter
          fun x => decide (subpoolEvent x.2 = .subpoolOwnerAssigned)).foldl applyAssigned s) :
          ConfigProgram Unit) index = (.ok (), index₁) := by
        simp only [Program.change, foldl_assigned, ← hassigned]
      rw [Program.bind_ok hchange, if_neg (Nat.succ_ne_zero k), forEach_updated,
        Program.bind_ok hupdated]
      exact hbuild
    · rw [hlogs', Program.fail_bind]
      exact .inr ⟨rfl, hcall⟩
  · rw [hlogs, Program.fail_bind]
    exact .inr ⟨rfl, hcall⟩

variable (perm node) in
/-- The first sync reads the index at the end of its range, or a call of the node fails. -/
theorem syncFromGenesis_spec (hdeployed : Deployed chain.env chain.deployed)
    (hwithin : chain.SubpoolsWithin)
    (hdepth : chain.deployed.configTreeDepth = Circuit.MAIN_POOL_CONFIG_DEPTH)
    (hchunk : 0 < chunkBlocks) {genesisBlock : ℕ} (hgenesis : ∀ n < genesisBlock, chain.blocks n = [])
    (latestBlock : ℕ) :
    (∃ index count, syncFromGenesis perm chain chunkBlocks node genesisBlock latestBlock =
        .ok index ∧ MirrorsAt perm (chain.contract latestBlock) count index) ∨
      syncFromGenesis perm chain chunkBlocks node genesisBlock latestBlock = .error .rpc ∧
        ¬ ((∀ c, node.rpc c = true) ∧ ∀ id, node.subpoolRoots id = true) := by
  have hpow : 2 ^ Circuit.MAIN_POOL_CONFIG_DEPTH + 1 < 2 ^ 64 := by decide
  have hempty : ∀ n < genesisBlock, chain.subpoolLogs n = [] := by
    intro n hn
    rw [Chain.subpoolLogs, hgenesis n hn]
    rfl
  have hfirst := blocksIn_first hempty latestBlock
  obtain ⟨count, hcount, hlt⟩ := Chain.counted hdeployed hwithin latestBlock
  rw [hdepth] at hlt
  have hdigest := Chain.root_isDigest hdeployed hwithin latestBlock
  have hassigns := (chain.deployed_tells latestBlock).assigns_of (owned_deployed hdeployed) hcount
    (by omega) (fun id _ => id.isLt) (by decide)
  rw [← hfirst] at hassigns
  obtain ⟨tree₀, hnew, -⟩ := MainPoolConfigTree.new_empty perm fun _ => 0
  have hstart : Registered (fun _ => none) 0 (empty tree₀) := by
    refine ⟨rfl, rfl, fun id => ?_⟩
    rw [if_neg (by omega)]
    rfl
  have hregistered := foldl_applyAssigned hassigns (by omega) (fun _ _ => rfl) hstart
  generalize hindex₁ : (blocksIn chain.subpoolLogs genesisBlock latestBlock).foldl applyAssigned
    (empty tree₀) = index₁ at hregistered
  unfold syncFromGenesis
  rw [if_neg (not_not_intro hdepth), hnew]
  dsimp only
  unfold syncConfigTree
  rcases fetchLogs_cases chain node hchunk .subpoolOwnerAssigned genesisBlock
    latestBlock with hlogs | ⟨hlogs, c, hc⟩
  · rw [hlogs, Program.pure_bind]
    rcases fetchLogs_cases chain node hchunk .subpoolRootUpdated genesisBlock
      latestBlock with hlogs' | ⟨hlogs', c, hc⟩
    · rw [hlogs', Program.pure_bind]
      have hchange : (Program.change fun s => .ok (((blocksIn chain.subpoolLogs genesisBlock
          latestBlock).filter fun x => decide (subpoolEvent x.2 = .subpoolOwnerAssigned)).foldl
          applyAssigned s) : ConfigProgram Unit) (empty tree₀) = (.ok (), index₁) := by
        simp only [Program.change, foldl_assigned, hindex₁]
      have hids : ∀ id, id ∈ index₁.registeredIds ↔ 1 ≤ id.toNat ∧ id.toNat ≤ count := by
        intro id
        rw [registeredIds, hregistered.next, Nat.add_sub_cancel, List.mem_map]
        constructor
        · rintro ⟨i, hi, rfl⟩
          have hrange := List.mem_range'_1.mp hi
          rw [BitVec.toNat_ofNat, Nat.mod_eq_of_lt (by omega)]
          omega
        · intro hid
          refine ⟨id.toNat, List.mem_range'_1.mpr (by omega), ?_⟩
          rw [BitVec.ofNat_toNat, BitVec.setWidth_eq]
      rw [Program.bind_ok hchange, if_pos rfl, Program.read_bind]
      rcases forEach_readSubpoolRoot index₁ chain node hdigest index₁.registeredIds with
        ⟨index₂, hread, hset⟩ | ⟨⟨index₂, hread⟩, id, hid⟩
      · rw [Program.bind_ok hread]
        obtain ⟨index₃, hbuild, hmirrors⟩ := rebuildConfigTree_mirrors perm index₂ hcount
          hlt hdigest (by rw [hset.next, hregistered.next])
          (by rw [hset.waiting, hregistered.waiting]) fun id => by
            rw [hset.roots, hregistered.roots]
            by_cases hid : 1 ≤ id.toNat ∧ id.toNat ≤ count
            · obtain ⟨root, hroot⟩ := Option.isSome_iff_exists.mp (hdigest id)
              rw [if_pos ((hids id).mpr hid), if_pos hid, if_pos hid, hroot, Option.some_or]
            · rw [if_neg fun h => hid ((hids id).mp h), if_neg hid, if_neg hid, Option.none_or]
        refine .inl ⟨index₃, count, ?_, hmirrors⟩
        dsimp only
        rw [hbuild]
      · rw [Program.bind_error hread]
        refine .inr ⟨rfl, fun hall => ?_⟩
        rw [hall.2 id] at hid
        cases hid
    · rw [hlogs', Program.fail_bind]
      refine .inr ⟨rfl, fun hall => ?_⟩
      rw [hall.1 c] at hc
      cases hc
  · rw [hlogs, Program.fail_bind]
    refine .inr ⟨rfl, fun hall => ?_⟩
    rw [hall.1 c] at hc
    cases hc

end Spec

end ConfigIndex

/-! ## The tree of the contract -/

/-- The updates of the history bring paths that do not collide with the tree. -/
def Chain.NoPathCollision (chain : Chain) : Prop :=
  ∀ n, Along (Contract.step chain.env)
    (fun s c => ∀ s', Contract.step chain.env c s = .ok s' → Contract.NoPathCollision chain.env s c)
    chain.deployed ((List.range n).flatMap chain.blocks)

section Root

variable {chain : Chain}

/-- An accepted call whose events are within the tree. -/
theorem withinTree_of_log {depth : ℕ} {c : Call}
    (h : ∀ log ∈ subpoolLog c, LogWithin depth log) : WithinTree depth c := by
  obtain ⟨ctx, op⟩ := c
  cases op with
  | assignSubpoolOwner id owner => exact h _ (List.mem_singleton_self _)
  | updateSubpoolRoot id r siblings => exact (h _ (List.mem_singleton_self _)).1
  | _ => trivial

theorem Chain.configInv (hdeployed : Deployed chain.env chain.deployed)
    (hwithin : chain.SubpoolsWithin) (hcol : chain.NoPathCollision) (n : ℕ) :
    ConfigInv chain.env chain.deployed.configTreeDepth (chain.before n).1 := by
  induction n with
  | zero => exact configInv_deployed hdeployed
  | succ n ih =>
    have hblock := hcol (n + 1)
    rw [List.range_succ, List.flatMap_append, List.flatMap_singleton, along_append,
      ← Chain.before_fst] at hblock
    rw [Chain.before_fst_succ, runLog_fst]
    refine run_inv_along (ConfigInv chain.env chain.deployed.configTreeDepth) ih
      ((along_of_runLog (hwithin n)).and hblock.2) ?_
    rintro c - s s' hI ⟨hlogs, hpath⟩ hstep
    exact step_configInv hI (withinTree_of_log (hlogs s' hstep)) (hpath s' hstep) hstep

/-- A word whose limbs are the elements of a digest is its packing. -/
theorem packLE_of_u256LeToHash {v : U256} {h : HashOut} (hv : u256LeToHash v = some h) :
    packLE h = v := by
  unfold u256LeToHash at hv
  split at hv
  · rename_i hlimbs
    cases hv
    have hval : ∀ i : Fin 4, ((v.toNat / 2 ^ (64 * i.val) % 2 ^ 64 : ℕ) : F).val =
        v.toNat / 2 ^ (64 * i.val) % 2 ^ 64 := fun i => ZMod.val_cast_of_lt (hlimbs i)
    have hlt := v.isLt
    refine BitVec.eq_of_toNat_eq ?_
    rw [packLE, BitVec.toNat_ofNat, hval, hval, hval, hval]
    have h0 : (0 : Fin 4).val = 0 := rfl
    have h1 : (1 : Fin 4).val = 1 := rfl
    have h2 : (2 : Fin 4).val = 2 := rfl
    have h3 : (3 : Fin 4).val = 3 := rfl
    rw [h0, h1, h2, h3]
    norm_num only
    omega
  · cases hv

/-- The word of an id is the packing of the digest the id is the first element of. -/
theorem packLE_id {i : ℕ} (hi : i < 2 ^ Circuit.MAIN_POOL_CONFIG_DEPTH) :
    packLE ![(i : F), 0, 0, 0] = (BitVec.ofNat 64 i).setWidth 256 := by
  have hval := MainPoolConfigTree.val_natCast hi
  have hlt : i < 2 ^ 20 := hi
  refine BitVec.eq_of_toNat_eq ?_
  rw [packLE, BitVec.toNat_ofNat, BitVec.toNat_setWidth, BitVec.toNat_ofNat]
  simp only [Matrix.cons_val, hval, ZMod.val_zero]
  omega

variable {perm : State → State} {index : ConfigIndex} {count : ℕ}

/-- The tree of the index is the one of the contract. -/
theorem ConfigIndex.MirrorsAt.root {s : ContractState} {env : Env}
    (hpack : ∀ l r, env.compress (packLE l) (packLE r) = packLE (hash2to1 perm l r))
    (hI : ConfigInv env Circuit.MAIN_POOL_CONFIG_DEPTH s)
    (hdigest : ∀ id, (u256LeToHash (s.subpoolRoots id)).isSome)
    (hunowned : ∀ id, s.subpoolOwners id = 0 → s.subpoolRoots id = 0)
    (h : ConfigIndex.MirrorsAt perm s count index)
    (hlt : count < 2 ^ Circuit.MAIN_POOL_CONFIG_DEPTH) :
    ∃ r, index.configTree.root perm = .ok r ∧ packLE r = s.mainPoolConfigRoot := by
  have hpow : 2 ^ Circuit.MAIN_POOL_CONFIG_DEPTH < 2 ^ 64 := by decide
  have hzero : packLE 0 = 0 := by decide
  -- the root of id `i`, in both places
  have hrootAt : ∀ i ≤ count, u256LeToHash (s.subpoolRoots (BitVec.ofNat 64 i)) =
      some (index.rootAt i) := by
    intro i hi
    have hval : (BitVec.ofNat 64 i).toNat = i := Nat.mod_eq_of_lt (by omega)
    rw [ConfigIndex.rootAt, h.roots, hval]
    obtain ⟨root, hroot⟩ := Option.isSome_iff_exists.mp (hdigest (BitVec.ofNat 64 i))
    by_cases hpos : 1 ≤ i
    · rw [if_pos ⟨hpos, hi⟩, hroot]
      rfl
    · have hnot : s.subpoolOwners (BitVec.ofNat 64 i) = 0 := by
        by_contra hown
        have hrange := (h.owned _).mp hown
        omega
      rw [if_neg (by omega), hunowned _ hnot, u256LeToHash_zero]
      rfl
  have hlength : (MainPoolConfigTree.leavesOf perm index.rootAt count).length ≤
      2 ^ Circuit.MAIN_POOL_CONFIG_DEPTH := by
    by_cases hcount : count = 0
    · rw [MainPoolConfigTree.leavesOf, if_pos hcount]
      exact Nat.zero_le _
    · rw [MainPoolConfigTree.leavesOf_length hcount]
      omega
  have hroot := root_represents h.tree MainPoolConfigTree.depth_pos hlength
  refine ⟨_, by rw [MainPoolConfigTree.root, hroot, treeResult], ?_⟩
  rw [hI.root, configTreeRoot, hI.depth_eq,
    map_node (h := (hashOutput perm).node) packLE (k := env.compress) fun a b => (hpack a b).symm]
  refine node_congr fun j _ hj => ?_
  have hj' : j < 2 ^ Circuit.MAIN_POOL_CONFIG_DEPTH := by simpa using hj
  have hR0 : index.rootAt 0 = 0 := by
    have h0 := hrootAt 0 (Nat.zero_le _)
    have hnot : s.subpoolOwners (BitVec.ofNat 64 0) = 0 := by
      by_contra hown
      have hrange := (h.owned _).mp hown
      exact absurd hrange.1 (by decide)
    rw [hunowned _ hnot, u256LeToHash_zero] at h0
    exact (Option.some.inj h0).symm
  have hleaf : (hashOutput perm).leafOf (MainPoolConfigTree.leavesOf perm index.rootAt count) j =
      if j ≤ count then configDigest perm (j : F) (index.rootAt j) else 0 :=
    MainPoolConfigTree.leavesOf_getD hR0 count j
  rw [hleaf, configTreeLeaf, configLeaf]
  by_cases hjc : j ≤ count
  · have hword := packLE_of_u256LeToHash (hrootAt j hjc)
    rw [if_pos hjc, configDigest, ← hword]
    by_cases hz : index.rootAt j = 0
    · rw [if_pos hz, hz, hzero, if_pos rfl]
    · have hne : packLE (index.rootAt j) ≠ 0 := by
        intro heq
        have hdig := hrootAt j hjc
        rw [← hword, heq, u256LeToHash_zero] at hdig
        exact hz (Option.some.inj hdig).symm
      rw [if_neg hz, if_neg hne, MainPoolConfigLeaf.commit, ← hpack, packLE_id hj']
  · have hnot : s.subpoolOwners (BitVec.ofNat 64 j) = 0 := by
      by_contra hown
      have hrange := (h.owned _).mp hown
      have hval : (BitVec.ofNat 64 j).toNat = j := Nat.mod_eq_of_lt (by omega)
      omega
    rw [if_neg hjc, hunowned _ hnot, if_pos rfl, hzero]

end Root

/-! ## Every split of a history -/

/-- The index has every assigned subpool once, the ids before the next one and no others, each with
the root of the contract, and its tree has the root of the contract. -/
structure ConfigMirror (perm : State → State) (s : ContractState) (index : ConfigIndex) : Prop where
  registered : ∀ id, index.subpoolRoots.keys.count id = if s.subpoolOwners id = 0 then 0 else 1
  contiguous : ∀ id, id ∈ index.subpoolRoots ↔
    1 ≤ id.toNat ∧ id.toNat < index.nextExpectedSubpoolId.toNat
  waiting : index.pendingSubpoolAssignments = ∅
  roots : ∀ id h, index.subpoolRoots.lookup id = some h → packLE h = s.subpoolRoots id
  root : ∃ r, index.configTree.root perm = .ok r ∧ packLE r = s.mainPoolConfigRoot

section Mirror

open ConfigIndex

variable {perm : State → State} {chain : Chain} {index : ConfigIndex}

theorem configMirror_of_mirrorsAt (hdeployed : Deployed chain.env chain.deployed)
    (hpack : ∀ l r, chain.env.compress (packLE l) (packLE r) = packLE (hash2to1 perm l r))
    (hwithin : chain.SubpoolsWithin) (hcol : chain.NoPathCollision)
    (hdepth : chain.deployed.configTreeDepth = Circuit.MAIN_POOL_CONFIG_DEPTH) {n count : ℕ}
    (h : MirrorsAt perm (chain.contract n) count index) :
    ConfigMirror perm (chain.contract n) index := by
  have hdigest := Chain.root_isDigest hdeployed hwithin n
  have hmem : ∀ id, id ∈ index.subpoolRoots ↔ 1 ≤ id.toNat ∧ id.toNat ≤ count := by
    intro id
    rw [← AList.lookup_isSome, h.roots]
    split
    · rename_i hid
      exact iff_of_true (hdigest id) hid
    · rename_i hid
      exact iff_of_false Bool.false_ne_true hid
  refine ⟨fun id => ?_, fun id => ?_, h.waiting, fun id root hroot => ?_, ?_⟩
  · rw [index.subpoolRoots.keys_nodup.count]
    by_cases hown : (chain.contract n).subpoolOwners id = 0
    · rw [if_pos hown, if_neg]
      intro hkey
      exact (h.owned id).mpr ((hmem id).mp (AList.mem_keys.mpr hkey)) hown
    · rw [if_neg hown, if_pos]
      exact AList.mem_keys.mp ((hmem id).mpr ((h.owned id).mp hown))
  · rw [hmem, h.next]
    omega
  · rw [h.roots] at hroot
    split at hroot
    · exact packLE_of_u256LeToHash hroot
    · cases hroot
  · have hI := Chain.configInv hdeployed hwithin hcol (n + 1)
    rw [hdepth] at hI
    obtain ⟨count', hcount', hlt⟩ := Chain.counted hdeployed hwithin n
    rw [hdepth] at hlt
    have hpow : 2 ^ Circuit.MAIN_POOL_CONFIG_DEPTH < 2 ^ 64 := by decide
    have hcount : count = count' := by
      refine h.owned.unique hcount' ?_ (by omega)
      have hnext := index.nextExpectedSubpoolId.isLt
      rw [h.next] at hnext
      omega
    subst hcount
    exact h.root hpack hI hdigest (fun id hid => Chain.root_unowned hdeployed hid) hlt

/-- In a history whose new roots are digests other than zero, whose subpools have leaves of their
own, and whose updates bring paths that do not collide with the tree: a first sync and every later
attempt fail with an error of the node or of the depth and never in the tree, and after the first
sync, and any later attempts, successful or not, every attempt that reads its range leaves the
subpools of the contract at its end, and a tree with the root of the contract. -/
theorem config_mirrored (perm : State → State) (chain : Chain)
    (hdeployed : Deployed chain.env chain.deployed)
    (hpack : ∀ l r, chain.env.compress (packLE l) (packLE r) = packLE (hash2to1 perm l r))
    (hwithin : chain.SubpoolsWithin) (hcol : chain.NoPathCollision)
    (chunkBlocks genesisBlock latestBlock : ℕ) (hchunk : 0 < chunkBlocks)
    (hgenesis : ∀ n < genesisBlock, chain.blocks n = []) :
    (∀ node e, ConfigIndex.syncFromGenesis perm chain chunkBlocks node genesisBlock latestBlock = .error e →
      e = .rpc ∨ e = .configTreeDepth) ∧
    ∀ node index, ConfigIndex.syncFromGenesis perm chain chunkBlocks node genesisBlock latestBlock =
        .ok index →
      ConfigMirror perm (chain.contract latestBlock) index ∧
      ∀ (attempts : List (Attempt ConfigNode)) (last : Attempt ConfigNode),
        HeadsFrom latestBlock (attempts ++ [last]) →
        ∀ f, f = (Follower.mk latestBlock index).follow (pollConfigTree perm chain chunkBlocks)
            attempts →
          (∀ e s, pollConfigTree perm chain chunkBlocks last.input (f.position + 1) last.head
            f.state = (.error e, s) → e = .rpc) ∧
          ((f.attempt (pollConfigTree perm chain chunkBlocks) last).1 = true →
            ConfigMirror perm (chain.contract last.head)
              (f.attempt (pollConfigTree perm chain chunkBlocks) last).2.state) := by
  by_cases hdepth : chain.deployed.configTreeDepth = Circuit.MAIN_POOL_CONFIG_DEPTH
  swap
  · have herror : ∀ node, ConfigIndex.syncFromGenesis perm chain chunkBlocks node genesisBlock latestBlock =
        .error .configTreeDepth := fun node => if_pos hdepth
    refine ⟨fun node e he => ?_, fun node index hindex => ?_⟩
    · rw [herror] at he
      cases he
      exact .inr rfl
    · rw [herror] at hindex
      cases hindex
  refine ⟨fun node e he => ?_, fun node index hindex => ?_⟩
  · rcases syncFromGenesis_spec perm node hdeployed hwithin hdepth hchunk
      hgenesis latestBlock with ⟨index, count, hok, -⟩ | ⟨herror, -⟩
    · rw [hok] at he
      cases he
    · rw [herror] at he
      cases he
      exact .inl rfl
  -- the first sync
  have hfirst : ∃ count, MirrorsAt perm (chain.contract latestBlock) count index := by
    rcases syncFromGenesis_spec perm node hdeployed hwithin hdepth hchunk
      hgenesis latestBlock with ⟨index', count, hok, hmirrors⟩ | ⟨herror, -⟩
    · rw [hok] at hindex
      cases hindex
      exact ⟨count, hmirrors⟩
    · rw [herror] at hindex
      cases hindex
  have hmirror : ∀ n s, (∃ count, MirrorsAt perm (chain.contract n) count s) →
      ConfigMirror perm (chain.contract n) s := by
    rintro n s ⟨count, h⟩
    exact configMirror_of_mirrorsAt hdeployed hpack hwithin hcol hdepth h
  have hpoll : ∀ node k m n, k ≤ m → m ≤ n → ∀ s,
      (∃ count, MirrorsAt perm (chain.contract m) count s) →
      (∃ s', pollConfigTree perm chain chunkBlocks node (k + 1) n s = (.ok (), s') ∧
        ∃ count, MirrorsAt perm (chain.contract n) count s') ∨
      pollConfigTree perm chain chunkBlocks node (k + 1) n s = (.error .rpc, s) := by
    rintro node k m n hkm hmn s ⟨count, h⟩
    rcases pollConfigTree_spec node hdeployed hwithin hdepth hchunk hkm hmn h with
      ⟨s', count', hrun, h'⟩ | ⟨hrun, -⟩
    · exact .inl ⟨s', hrun, count', h'⟩
    · exact .inr hrun
  refine ⟨hmirror latestBlock index hfirst, fun attempts last hheads f hf => ?_⟩
  subst hf
  have hsplit := hheads
  unfold HeadsFrom at hsplit
  rw [List.map_append, List.map_singleton, ← List.cons_append, List.pairwise_append] at hsplit
  obtain ⟨hinit, -, hhead⟩ := hsplit
  have hbefore : HeadsFrom latestBlock attempts := hinit
  have hok : ∀ node k m n, latestBlock ≤ k → k ≤ m → m ≤ n → ∀ s s',
      (∃ count, MirrorsAt perm (chain.contract m) count s) →
      pollConfigTree perm chain chunkBlocks node (k + 1) n s = (.ok (), s') →
      ∃ count, MirrorsAt perm (chain.contract n) count s' := by
    intro node k m n _ hkm hmn s s' hs hrun
    rcases hpoll node k m n hkm hmn s hs with ⟨t, hrun', h⟩ | hrun'
    · rw [hrun] at hrun'
      cases hrun'
      exact h
    · rw [hrun] at hrun'
      cases hrun'
  have herror : ∀ node k m n, latestBlock ≤ k → k ≤ m → m ≤ n → ∀ s s' e,
      (∃ count, MirrorsAt perm (chain.contract m) count s) →
      pollConfigTree perm chain chunkBlocks node (k + 1) n s = (.error e, s') →
      e = .rpc ∧ s' = s := by
    intro node k m n _ hkm hmn s s' e hs hrun
    rcases hpoll node k m n hkm hmn s hs with ⟨t, hrun', -⟩ | hrun'
    · rw [hrun] at hrun'
      cases hrun'
    · rw [hrun] at hrun'
      cases hrun'
      exact ⟨rfl, rfl⟩
  have hunchanged := fun node k m n hk hkm hmn s s' e hs hrun =>
    (herror node k m n hk hkm hmn s s' e hs hrun).2
  refine ⟨fun e s hrun => ?_, fun hread => hmirror last.head _ ?_⟩
  · have hwithin' : latestBlock ≤ ((Follower.mk latestBlock index).follow
          (pollConfigTree perm chain chunkBlocks) attempts).position ∧
        ((Follower.mk latestBlock index).follow (pollConfigTree perm chain chunkBlocks)
          attempts).Within (fun n s => ∃ count, MirrorsAt perm (chain.contract n) count s)
          ((latestBlock :: attempts.map Attempt.head).getLast (List.cons_ne_nil _ _)) :=
      follow_within (f := Follower.mk latestBlock index) hfirst hbefore hok hunchanged
    obtain ⟨hpos, m, hm, hmhead, hat⟩ := hwithin'
    have hle := hhead _ (List.getLast_mem (List.cons_ne_nil _ _)) last.head
      (List.mem_singleton_self _)
    exact (herror last.input _ m last.head hpos hm (Nat.le_trans hmhead hle) _ s e hat hrun).1
  · exact follow_reads (P := fun n s => ∃ count, MirrorsAt perm (chain.contract n) count s)
      hfirst hheads hok hunchanged hread

end Mirror

/-! ## A subpool that is assigned and updated -/

section Sample

open ConfigIndex

/-- An environment that hashes with the identity permutation. -/
def subpoolEnv : Env where
  keccak256 := fun _ => 1
  compress := compressLE id
  verifyProof := fun _ _ _ => true

/-- A contract with a config tree of the depth of the client, deployed by the operator `1`. -/
def subpoolState : ContractState := (constructor subpoolEnv 1 1 1 1 1 20 0).toOption.get rfl

theorem subpoolState_deployed : Deployed subpoolEnv subpoolState := ⟨1, 1, 1, 1, 1, 20, 0, rfl⟩

/-- The operator gives subpool `1` to account `7`. -/
def assignFirst : Call := ⟨⟨1, 0⟩, .assignSubpoolOwner 1 7⟩

def assignedState : ContractState :=
  { subpoolState with subpoolOwners := update subpoolState.subpoolOwners 1 7 }

/-- Account `7` sets its root, along the path of the tree. -/
def updateFirst : Call :=
  ⟨⟨7, 0⟩, .updateSubpoolRoot 1 5 (truePath subpoolEnv assignedState 1)⟩

def subpoolChain : Chain where
  env := subpoolEnv
  deployed := subpoolState
  blocks
    | 1 => [assignFirst]
    | 2 => [updateFirst]
    | _ => []
  calldata := fun _ => none

theorem subpoolChain_blocks (n : ℕ) (c : Call) (h : c ∈ subpoolChain.blocks n) :
    c = assignFirst ∨ c = updateFirst := by
  match n with
  | 0 => cases h
  | 1 => exact .inl (List.mem_singleton.mp h)
  | 2 => exact .inr (List.mem_singleton.mp h)
  | n + 3 => cases h

theorem subpoolChain_within : subpoolChain.SubpoolsWithin := by
  intro n log hlog
  obtain ⟨c, hc, hmem⟩ := mem_runLog hlog
  rcases subpoolChain_blocks n c hc with rfl | rfl
  · obtain rfl := List.mem_singleton.mp hmem
    show (1 : BitVec 64).toNat < 2 ^ 20
    decide
  · obtain rfl := List.mem_singleton.mp hmem
    refine ⟨by decide, ?_⟩
    unfold u256LeToHash
    rw [if_pos (by decide)]
    rfl

theorem subpoolChain_upTo (n : ℕ) : (List.range (n + 3)).flatMap subpoolChain.blocks =
    [assignFirst, updateFirst] := by
  induction n with
  | zero => rfl
  | succ n ih =>
    rw [List.range_succ, List.flatMap_append, List.flatMap_singleton, ih]
    rfl

theorem assigned_run : run (Contract.step subpoolEnv) subpoolState [assignFirst] = assignedState := by
  change attempt (Contract.step subpoolEnv) subpoolState assignFirst = assignedState
  exact attempt_ok rfl

theorem subpoolChain_noPathCollision : subpoolChain.NoPathCollision := by
  have hassign : ∀ s, Contract.NoPathCollision subpoolEnv s assignFirst := by
    intro s id r siblings hop
    cases hop
  have hI : ConfigInv subpoolEnv 20 assignedState := by
    rw [← assigned_run]
    refine run_inv _ (ConfigInv subpoolEnv 20) (configInv_deployed subpoolState_deployed) ?_
    intro c hc s s' hs hstep
    obtain rfl := List.mem_singleton.mp hc
    refine step_configInv hs ?_ (hassign s) hstep
    show (1 : BitVec 64).toNat < 2 ^ 20
    decide
  intro n
  match n with
  | 0 => trivial
  | 1 => trivial
  | 2 => exact ⟨fun _ _ => hassign _, trivial⟩
  | n + 3 =>
    rw [subpoolChain_upTo]
    refine ⟨fun _ _ => hassign _, fun s' _ => ?_, trivial⟩
    have hstate : attempt (Contract.step subpoolEnv) subpoolState assignFirst = assignedState :=
      assigned_run
    change Contract.NoPathCollision subpoolEnv
      (attempt (Contract.step subpoolEnv) subpoolState assignFirst) updateFirst
    rw [hstate]
    exact noPathCollision_truePath hI 5 (by decide)

/-- The first sync ends before the update, a poll without a node fails, and the next one reads
it. -/
theorem config_mirrored_sample : ∃ index f,
    ConfigIndex.syncFromGenesis id subpoolChain 1 ⟨fun _ => true, fun _ => true⟩ 1 1 = .ok index ∧
    f = (Follower.mk 1 index).follow (pollConfigTree id subpoolChain 1)
      [⟨2, ⟨fun _ => false, fun _ => true⟩, true, true⟩] ∧
    ConfigMirror id (subpoolChain.contract 2)
      (f.attempt (pollConfigTree id subpoolChain 1) ⟨2, ⟨fun _ => true, fun _ => true⟩, true, true⟩
        ).2.state := by
  have hpack : ∀ l r, subpoolEnv.compress (packLE l) (packLE r) = packLE (hash2to1 id l r) := by
    intro l r
    change compressLE id (packLE l) (packLE r) = _
    rw [compressLE, unpackLE_packLE, unpackLE_packLE]
  have hgenesis : ∀ n < 1, subpoolChain.blocks n = [] := by
    intro n hn
    obtain rfl : n = 0 := by omega
    rfl
  obtain ⟨-, hmirrored⟩ := config_mirrored id subpoolChain subpoolState_deployed hpack
    subpoolChain_within subpoolChain_noPathCollision 1 1 1 Nat.one_pos hgenesis
  rcases syncFromGenesis_spec id ⟨fun _ => true, fun _ => true⟩
    subpoolState_deployed subpoolChain_within rfl Nat.one_pos hgenesis 1 with
    ⟨index, count, hfirst, hat⟩ | ⟨-, hcalls⟩
  · obtain ⟨-, hpolls⟩ := hmirrored _ index hfirst
    have hfail : (Follower.mk 1 index).follow (pollConfigTree id subpoolChain 1)
        [⟨2, ⟨fun _ => false, fun _ => true⟩, true, true⟩] = ⟨1, index⟩ := rfl
    refine ⟨index, _, hfirst, rfl, (hpolls [⟨2, ⟨fun _ => false, fun _ => true⟩, true, true⟩]
      ⟨2, ⟨fun _ => true, fun _ => true⟩, true, true⟩ (by simp [HeadsFrom]) _ rfl).2 ?_⟩
    rw [hfail]
    have hone : 1 ≤ 2 := Nat.le_succ 1
    rcases pollConfigTree_spec ⟨fun _ => true, fun _ => true⟩ subpoolState_deployed
      subpoolChain_within rfl Nat.one_pos (Nat.le_refl 1) hone hat with
      ⟨index', count', hrun, -⟩ | ⟨-, c, hc⟩
    · simp only [Follower.attempt, Nat.not_succ_le_self, if_false, Bool.true_eq_false, hrun]
    · cases hc
  · exact absurd ⟨fun _ => rfl, fun _ => rfl⟩ hcalls

end Sample

end Doxa.StateSync
