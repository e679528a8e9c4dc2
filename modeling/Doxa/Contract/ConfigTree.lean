import Doxa.Contract.Ledger

/-!
# The config tree

The contract keeps only the root of the tree of subpool roots. A call of `updateSubpoolRoot`
brings the siblings of its leaf, and the contract climbs twice: from the old leaf, to compare
with the stored root, and from the new leaf, to replace it. When the caller's path is the one
of the tree, the second climb gives the root of the tree with the leaf replaced.

Two things take a run off the tree. The root `0` means "never updated", and it can be stored
by an update whose leaf is `compress(id, 0)`; and an id is never compared with the capacity of
the tree, so ids that agree modulo `2 ^ configTreeDepth` share a leaf.

No `compress` on 256-bit words is injective. That it is free of collisions is said of the
pairs a run evaluates: no path a caller brings combines other children than the tree, on some
level, to the same parent.
-/

namespace Doxa.Contract

open Lib Function

variable {env : Env} {s s' : ContractState} {c : Call}

/-! ## The tree of the current subpool roots -/

/-- Leaf `i`: zero for a subpool with root zero, else the hash of the id and the root. -/
def configTreeLeaf (env : Env) (s : ContractState) (i : ℕ) : U256 :=
  configLeaf env s (BitVec.ofNat 64 i)

/-- The root of the tree over the current subpool roots. -/
def configTreeRoot (env : Env) (s : ContractState) : U256 :=
  node env.compress (configTreeLeaf env s) s.configTreeDepth 0

/-- The leaf that the walk of a subpool starts at: its bits below the depth. -/
def leafPosition (s : ContractState) (subpoolId : BitVec 64) : ℕ :=
  subpoolId.toNat % 2 ^ s.configTreeDepth

/-- The siblings of the leaf of a subpool, from the leaf to the root. -/
def truePath (env : Env) (s : ContractState) (subpoolId : BitVec 64) : List U256 :=
  (List.range s.configTreeDepth).map
    (siblingOf env.compress (configTreeLeaf env s) (leafPosition s subpoolId))

/-- The stored root is the root of the tree of the current subpool roots, assigned subpools have
leaves of their own, and each owner can go on updating. -/
structure ConfigFaithful (env : Env) (s : ContractState) : Prop where
  root : s.mainPoolConfigRoot = configTreeRoot env s
  apart : ∀ i j, s.subpoolOwners i ≠ 0 → s.subpoolOwners j ≠ 0 →
    leafPosition s i = leafPosition s j → i = j
  live : ∀ (ctx : Ctx) (id : BitVec 64) (newSubpoolRoot : U256), s.subpoolOwners id ≠ 0 →
    ctx.msgSender = s.subpoolOwners id → s.paused = false →
    ∃ s', updateSubpoolRoot env ctx id newSubpoolRoot (truePath env s id) s = .ok s'

/-! ## One step -/

/-- The part of the state the config tree is about is the same. -/
structure SameConfig (s s' : ContractState) : Prop where
  mainPoolConfigRoot : s'.mainPoolConfigRoot = s.mainPoolConfigRoot
  configTreeDepth : s'.configTreeDepth = s.configTreeDepth
  subpoolOwners : s'.subpoolOwners = s.subpoolOwners
  subpoolRoots : s'.subpoolRoots = s.subpoolRoots

theorem proveTransactionBatch_config {data : Bytes} {proof : Proof}
    (h : proveTransactionBatch env data proof s = .ok s') : SameConfig s s' := by
  simp only [proveTransactionBatch, bind_eq_ok] at h
  obtain ⟨_, -, _, -, _, -, h⟩ := h
  obtain ⟨imt', -, rfl⟩ := appendBatchRoot_ok h
  exact ⟨rfl, rfl, rfl, rfl⟩

theorem proveBridgeTxBatch_config {data : Bytes} {proof : Proof}
    (h : proveBridgeTxBatch env data proof s = .ok s') : SameConfig s s' := by
  obtain ⟨-, -, t, imt', hloop, -, rfl⟩ := proveBridgeTxBatch_parts h
  obtain ⟨wnull, queue, hw, -⟩ :=
    withdrawLoop_spec data (confirm .bridge (piCommitment env data) s) BRIDGE_TX_HALF_SIZE
  rw [hw] at hloop
  obtain ⟨dnull, deposits, rfl⟩ := hloop.frame
  exact ⟨rfl, rfl, rfl, rfl⟩

theorem updateSubpoolRoot_ok {ctx : Ctx} {id : BitVec 64} {r : U256} {siblings : List U256}
    (h : updateSubpoolRoot env ctx id r siblings s = .ok s') :
    s.subpoolOwners id ≠ 0 ∧ siblings.length = s.configTreeDepth ∧
      configWalk env id siblings s.configTreeDepth (configLeaf env s id) = s.mainPoolConfigRoot ∧
      s' = { s with
        subpoolRoots := update s.subpoolRoots id r
        mainPoolConfigRoot := configWalk env id siblings s.configTreeDepth
          (env.compress (id.setWidth 256) r) } := by
  simp only [updateSubpoolRoot, whenNotPaused, revertIf_bind_eq_ok, pure_eq_ok, not_not] at h
  obtain ⟨-, howner, -, hlen, hroot, rfl⟩ := h
  exact ⟨howner, hlen, hroot, rfl⟩

/-- What a call can do to the config tree. -/
theorem step_configTree (h : step env c s = .ok s') :
    SameConfig s s' ∨
    (∃ id owner, c.op = .assignSubpoolOwner id owner ∧
      s' = { s with subpoolOwners := update s.subpoolOwners id owner }) ∨
    (∃ id r siblings, c.op = .updateSubpoolRoot id r siblings ∧
      updateSubpoolRoot env c.ctx id r siblings s = .ok s') := by
  obtain ⟨ctx, op⟩ := c
  cases op with
  | setTxVerifier v | setBridgeTxVerifier v =>
      simp only [step, setTxVerifier, setBridgeTxVerifier, setVerifier, onlyOperator,
        revertIf_bind_eq_ok, pure_eq_ok] at h
      obtain ⟨-, -, rfl⟩ := h
      exact .inl ⟨rfl, rfl, rfl, rfl⟩
  | setOperator o =>
      simp only [step, setOperator, onlyOperator, revertIf_bind_eq_ok, pure_eq_ok] at h
      obtain ⟨-, -, rfl⟩ := h
      exact .inl ⟨rfl, rfl, rfl, rfl⟩
  | setPaused b =>
      simp only [step, setPaused, onlyOperator, revertIf_bind_eq_ok, pure_eq_ok] at h
      obtain ⟨-, rfl⟩ := h
      exact .inl ⟨rfl, rfl, rfl, rfl⟩
  | setWithdrawalDelay d =>
      simp only [step, setWithdrawalDelay, onlyOperator, revertIf_bind_eq_ok, pure_eq_ok] at h
      obtain ⟨-, rfl⟩ := h
      exact .inl ⟨rfl, rfl, rfl, rfl⟩
  | registerAsset a t =>
      simp only [step, registerAsset, onlyOperator, revertIf_bind_eq_ok, pure_eq_ok] at h
      obtain ⟨-, -, -, -, -, rfl⟩ := h
      exact .inl ⟨rfl, rfl, rfl, rfl⟩
  | assignSubpoolOwner id owner =>
      simp only [step, assignSubpoolOwner, onlyOperator, revertIf_bind_eq_ok, pure_eq_ok] at h
      obtain ⟨-, -, -, -, rfl⟩ := h
      exact .inr (.inl ⟨id, owner, rfl, rfl⟩)
  | updateSubpoolRoot id r siblings => exact .inr (.inr ⟨id, r, siblings, rfl, h⟩)
  | depositAndRegister n a m r =>
      obtain ⟨-, dep, -, rfl⟩ := step_deposit (.inl rfl) h
      exact .inl ⟨rfl, rfl, rfl, rfl⟩
  | depositAndRegisterFor n p a m r =>
      obtain ⟨-, dep, -, rfl⟩ := step_deposit (.inr ⟨p, rfl⟩) h
      exact .inl ⟨rfl, rfl, rfl, rfl⟩
  | withdrawPendingDeposit n ok =>
      obtain ⟨-, rfl⟩ := withdrawPendingDeposit_ok h
      exact .inl ⟨rfl, rfl, rfl, rfl⟩
  | submitTransactionBatch b | submitBridgeTxBatch b =>
      obtain ⟨-, -, -, rfl⟩ := submitBatch_ok h
      exact .inl ⟨rfl, rfl, rfl, rfl⟩
  | proveTransactionBatch b p => exact .inl (proveTransactionBatch_config h)
  | proveBridgeTxBatch b p => exact .inl (proveBridgeTxBatch_config h)
  | flushPendingWithdrawals ok =>
      simp only [step, flushPendingWithdrawals, bind_eq_ok, pure_eq_ok] at h
      obtain ⟨_, -, rfl⟩ := h
      exact .inl ⟨rfl, rfl, rfl, rfl⟩

theorem configWalk_eq_climb (id : BitVec 64) (siblings : List U256) (leaf : U256) (k : ℕ) :
    configWalk env id siblings k leaf =
      climb env.compress (fun l => siblings.getD l 0) id.toNat.testBit leaf k :=
  forLoop_climb _ _ _ _

/-- On no level does the path of an update combine other children than the tree to the same
parent. -/
def NoPathCollision (env : Env) (s : ContractState) (c : Call) : Prop :=
  ∀ id r siblings, c.op = .updateSubpoolRoot id r siblings → ∀ l < s.configTreeDepth,
    ¬ PathCollision env.compress (configTreeLeaf env s) (fun k => siblings.getD k 0)
      (configLeaf env s id) (leafPosition s id) l

/-- The subpool has a leaf in the tree, and its root is not reset to zero. -/
def WithinTree (depth : ℕ) (c : Call) : Prop :=
  match c.op with
  | .assignSubpoolOwner id _ => id.toNat < 2 ^ depth
  | .updateSubpoolRoot _ newSubpoolRoot _ => newSubpoolRoot ≠ 0
  | _ => True

structure ConfigInv (env : Env) (depth : ℕ) (s : ContractState) : Prop where
  depth_eq : s.configTreeDepth = depth
  depth_le : depth ≤ MAX_TREE_DEPTH
  root : s.mainPoolConfigRoot = configTreeRoot env s
  owners : ∀ id, s.subpoolOwners id ≠ 0 → id.toNat < 2 ^ depth

theorem SameConfig.configInv {depth : ℕ} (h : SameConfig s s') (hI : ConfigInv env depth s) :
    ConfigInv env depth s' := by
  refine ⟨h.configTreeDepth.trans hI.depth_eq, hI.depth_le, ?_, ?_⟩
  · have hleaf : configTreeLeaf env s' = configTreeLeaf env s := by
      funext i
      unfold configTreeLeaf configLeaf
      rw [h.subpoolRoots]
    rw [h.mainPoolConfigRoot, hI.root]
    unfold configTreeRoot
    rw [hleaf, h.configTreeDepth]
  · rw [h.subpoolOwners]
    exact hI.owners

theorem leafPosition_eq {depth : ℕ} (hI : ConfigInv env depth s) {id : BitVec 64}
    (howner : s.subpoolOwners id ≠ 0) : leafPosition s id = id.toNat := by
  unfold leafPosition
  rw [hI.depth_eq]
  exact Nat.mod_eq_of_lt (hI.owners id howner)

theorem configTreeLeaf_toNat (id : BitVec 64) :
    configTreeLeaf env s id.toNat = configLeaf env s id := by
  unfold configTreeLeaf
  rw [BitVec.ofNat_toNat, BitVec.setWidth_eq]

/-- An update replaces one leaf of the tree. -/
theorem configTreeLeaf_update {id : BitVec 64} {r root : U256} (hr : r ≠ 0) {j : ℕ}
    (hj : j < 2 ^ 64) :
    configTreeLeaf env
        { s with subpoolRoots := update s.subpoolRoots id r, mainPoolConfigRoot := root } j =
      update (configTreeLeaf env s) id.toNat (env.compress (id.setWidth 256) r) j := by
  by_cases hid : j = id.toNat
  · subst hid
    rw [configTreeLeaf_toNat, update_self]
    simp only [configLeaf, update_self, if_neg hr]
  · have hne : BitVec.ofNat 64 j ≠ id := by
      rintro rfl
      rw [BitVec.toNat_ofNat, Nat.mod_eq_of_lt hj] at hid
      exact hid rfl
    rw [update_of_ne hid]
    simp only [configTreeLeaf, configLeaf, update_of_ne hne]

theorem updateSubpoolRoot_configInv {ctx : Ctx} {depth : ℕ} {id : BitVec 64} {r : U256}
    {siblings : List U256} (hI : ConfigInv env depth s) (hr : r ≠ 0)
    (hcol : ∀ l < s.configTreeDepth, ¬ PathCollision env.compress (configTreeLeaf env s)
      (fun k => siblings.getD k 0) (configLeaf env s id) (leafPosition s id) l)
    (h : updateSubpoolRoot env ctx id r siblings s = .ok s') : ConfigInv env depth s' := by
  obtain rfl := hI.depth_eq
  obtain ⟨howner, -, hwalk, rfl⟩ := updateSubpoolRoot_ok h
  have hzero : id.toNat / 2 ^ s.configTreeDepth = 0 := Nat.div_eq_of_lt (hI.owners id howner)
  have hsib : ∀ l < s.configTreeDepth, siblings.getD l 0 =
      siblingOf env.compress (configTreeLeaf env s) id.toNat l := by
    rw [configWalk_eq_climb, hI.root, configTreeRoot, ← hzero] at hwalk
    rcases isPath_of_climb hwalk with hpath | ⟨l, hl, hcollision⟩
    · exact hpath.2
    · rw [leafPosition_eq hI howner] at hcol
      exact absurd hcollision (hcol l hl)
  refine ⟨rfl, hI.depth_le, ?_, hI.owners⟩
  change configWalk env id siblings s.configTreeDepth _ = node env.compress _ s.configTreeDepth 0
  rw [configWalk_eq_climb, climb_siblings hsib, hzero]
  refine node_congr fun j _ hj => (configTreeLeaf_update hr ?_).symm
  have hle : 2 ^ s.configTreeDepth ≤ 2 ^ 32 := Nat.pow_le_pow_right (by decide) hI.depth_le
  omega

theorem step_configInv {depth : ℕ} (hI : ConfigInv env depth s) (hwithin : WithinTree depth c)
    (hcol : NoPathCollision env s c) (h : step env c s = .ok s') : ConfigInv env depth s' := by
  rcases step_configTree h with hsame | ⟨id, owner, hop, rfl⟩ | ⟨id, r, siblings, hop, hupd⟩
  · exact hsame.configInv hI
  · simp only [WithinTree, hop] at hwithin
    refine ⟨hI.depth_eq, hI.depth_le, hI.root, ?_⟩
    intro j hj
    by_cases hid : j = id
    · subst hid
      exact hwithin
    · exact hI.owners j ((update_of_ne hid owner s.subpoolOwners) ▸ hj)
  · simp only [WithinTree, hop] at hwithin
    exact updateSubpoolRoot_configInv hI hwithin (hcol id r siblings hop) hupd

theorem configInv_deployed (h : Deployed env s) : ConfigInv env s.configTreeDepth s := by
  obtain ⟨_, _, _, _, _, depth, _, h⟩ := h.deployed
  simp only [constructor, revertIf_bind_eq_ok, pure_eq_ok, not_or, not_lt] at h
  obtain ⟨-, -, -, -, -, ⟨-, hle⟩, rfl⟩ := h
  refine ⟨rfl, hle, ?_, fun id hid => absurd rfl hid⟩
  have hladder : ∀ k, forLoop (fun _ z => env.compress z z) k 0 = ladder env.compress 0 k := by
    intro k
    induction k with
    | zero => rfl
    | succ k ih => rw [forLoop_succ, ih, ladder_succ]
  refine (hladder depth).trans (node_eq_ladder fun j _ _ => ?_).symm
  unfold configTreeLeaf configLeaf
  exact if_pos rfl

/-! ## What the invariant gives -/

/-- With the siblings of the tree the first climb of an update ends at the stored root. -/
theorem truePath_accepted {depth : ℕ} (hI : ConfigInv env depth s) {ctx : Ctx} {id : BitVec 64}
    (r : U256) (howner : s.subpoolOwners id ≠ 0) (hsender : ctx.msgSender = s.subpoolOwners id)
    (hpaused : s.paused = false) :
    ∃ s', updateSubpoolRoot env ctx id r (truePath env s id) s = .ok s' := by
  have hlen : (truePath env s id).length = s.configTreeDepth := by
    rw [truePath, List.length_map, List.length_range]
  have hsib : ∀ l < s.configTreeDepth, (truePath env s id).getD l 0 =
      siblingOf env.compress (configTreeLeaf env s) id.toNat l := by
    intro l hl
    rw [List.getD_eq_getElem _ _ (by rwa [hlen])]
    simp only [truePath, List.getElem_map, List.getElem_range, leafPosition_eq hI howner]
  have hwalk : configWalk env id (truePath env s id) s.configTreeDepth (configLeaf env s id) =
      s.mainPoolConfigRoot := by
    have hzero : id.toNat / 2 ^ s.configTreeDepth = 0 := by
      rw [hI.depth_eq]
      exact Nat.div_eq_of_lt (hI.owners id howner)
    have hself : update (configTreeLeaf env s) id.toNat (configLeaf env s id) =
        configTreeLeaf env s := by
      rw [← configTreeLeaf_toNat, update_eq_self]
    rw [configWalk_eq_climb, climb_siblings hsib, hzero, hself, hI.root, configTreeRoot]
  simp only [updateSubpoolRoot, whenNotPaused, revertIf, hpaused, howner, hsender, hlen, hwalk,
    ne_eq, not_true_eq_false, Bool.false_eq_true, if_false, bind, Except.bind, pure, Except.pure]
  exact ⟨_, rfl⟩

/-- An update along the siblings of the tree does not collide with it. -/
theorem noPathCollision_truePath {depth : ℕ} (hI : ConfigInv env depth s) {ctx : Ctx}
    {id : BitVec 64} (r : U256) (howner : s.subpoolOwners id ≠ 0) :
    NoPathCollision env s ⟨ctx, .updateSubpoolRoot id r (truePath env s id)⟩ := by
  rintro id' r' siblings hop l hl ⟨hne, -⟩
  cases hop
  refine hne (pathPair_tree (k := s.configTreeDepth) ⟨?_, fun k hk => ?_⟩ hl)
  · rw [leafPosition_eq hI howner, configTreeLeaf_toNat]
  · have hlen : (truePath env s id).length = s.configTreeDepth := by
      rw [truePath, List.length_map, List.length_range]
    dsimp only
    rw [List.getD_eq_getElem _ _ (by rwa [hlen])]
    simp only [truePath, List.getElem_map, List.getElem_range]

theorem ConfigInv.faithful {depth : ℕ} (hI : ConfigInv env depth s) : ConfigFaithful env s where
  root := hI.root
  apart := by
    intro i j hi hj hpos
    rw [leafPosition_eq hI hi, leafPosition_eq hI hj] at hpos
    exact BitVec.eq_of_toNat_eq hpos
  live := fun _ _ r howner hsender hpaused => truePath_accepted hI r howner hsender hpaused

/-- `assignSubpoolOwner` and `updateSubpoolRoot`. -/
def Op.isSubpool : Op → Bool
  | .assignSubpoolOwner _ _ | .updateSubpoolRoot _ _ _ => true
  | _ => false

theorem step_subpool_paused (hop : c.op.isSubpool = true) (h : step env c s = .ok s') :
    s'.paused = s.paused := by
  obtain ⟨ctx, op⟩ := c
  cases op with
  | assignSubpoolOwner id owner =>
      simp only [step, assignSubpoolOwner, onlyOperator, revertIf_bind_eq_ok, pure_eq_ok] at h
      obtain ⟨-, -, -, -, rfl⟩ := h
      rfl
  | updateSubpoolRoot id r siblings =>
      obtain ⟨-, -, -, rfl⟩ := updateSubpoolRoot_ok h
      rfl
  | _ => cases hop

/-- In every run of calls whose subpools have leaves of their own and whose new roots are not
zero, on paths that do not collide with the tree, the stored root stays the root of the tree of
the current subpool roots, and every owner can go on. Calls on subpools never pause the
contract. -/
theorem config_tree_faithful (env : Env) (s₀ : ContractState) (h₀ : Deployed env s₀)
    (calls : List Call) (hcol : Along (step env) (NoPathCollision env) s₀ calls)
    (hwithin : ∀ c ∈ calls, WithinTree s₀.configTreeDepth c) :
    ConfigFaithful env (runContract env s₀ calls).1 ∧
      ((∀ c ∈ calls, c.op.isSubpool = true) → (runContract env s₀ calls).1.paused = false) := by
  rw [runContract, runLog_fst]
  constructor
  · have hI : ConfigInv env s₀.configTreeDepth (run (step env) s₀ calls) := by
      refine run_inv_along (ConfigInv env s₀.configTreeDepth) (configInv_deployed h₀) hcol ?_
      intro c hc s s' hI hnc hs
      exact step_configInv hI (hwithin c hc) hnc hs
    exact hI.faithful
  · intro hops
    refine run_inv calls (fun s : ContractState => s.paused = false) ?_ ?_
    · obtain ⟨_, _, _, _, _, _, _, h⟩ := h₀.deployed
      simp only [constructor, revertIf_bind_eq_ok, pure_eq_ok] at h
      obtain ⟨-, -, -, -, -, -, rfl⟩ := h
      rfl
    · intro c hc s s' hs hstep
      exact (step_subpool_paused (hops c hc) hstep).trans hs

/-! ## Runs that leave the tree -/

/-- An environment whose `compress` keeps small pairs apart. -/
def configEnv : Env where
  keccak256 := fun _ => 1
  compress := fun a b => 1 + b + (a <<< 64)
  verifyProof := fun _ _ _ => true

/-- A contract with trees of depth one, deployed by the operator `1`. -/
def configState : ContractState := (constructor configEnv 1 1 1 1 1 1 0).toOption.get rfl

theorem configState_deployed : Deployed configEnv configState := ⟨1, 1, 1, 1, 1, 1, 0, rfl⟩

/-- Subpool `1` goes to account `7`, which sets its root. -/
def assignAndUpdate (newSubpoolRoot : U256) : List Call :=
  [⟨⟨1, 0⟩, .assignSubpoolOwner 1 7⟩, ⟨⟨7, 0⟩, .updateSubpoolRoot 1 newSubpoolRoot [0]⟩]

/-- Subpools `2` and `3` are assigned too, beyond the two leaves of the tree. -/
def assignBeyond : List Call :=
  [⟨⟨1, 0⟩, .assignSubpoolOwner 2 8⟩, ⟨⟨1, 0⟩, .assignSubpoolOwner 3 9⟩]

/-- In a tree with two leaves a path collides at the leaves or not at all. -/
theorem noPathCollision_depth_one {ctx : Ctx} {id : BitVec 64} {r : U256} {siblings : List U256}
    (hdepth : s.configTreeDepth = 1)
    (hpair : pathPair env.compress (fun k => siblings.getD k 0) (leafPosition s id).testBit
      (configLeaf env s id) 0 = nodePair env.compress (configTreeLeaf env s) 0 0) :
    NoPathCollision env s ⟨ctx, .updateSubpoolRoot id r siblings⟩ := by
  rintro id' r' siblings' hop l hl ⟨hne, -⟩
  cases hop
  obtain rfl : l = 0 := by omega
  have hzero : leafPosition s id / 2 ^ (0 + 1) = 0 := by
    apply Nat.div_eq_of_lt
    rw [zero_add, ← hdepth]
    exact Nat.mod_lt _ (by positivity)
  rw [hzero] at hne
  exact hne hpair

theorem assignAndUpdate_noCollision (r : U256) (rest : List Call)
    (hrest : ∀ c ∈ rest, ∃ id owner, c.op = .assignSubpoolOwner id owner) :
    Along (step configEnv) (NoPathCollision configEnv) configState (assignAndUpdate r ++ rest) := by
  have hassign : ∀ s ops, (∀ c ∈ ops, ∃ id owner, c.op = .assignSubpoolOwner id owner) →
      Along (step configEnv) (NoPathCollision configEnv) s ops := by
    intro s ops hops
    induction ops generalizing s with
    | nil => trivial
    | cons c ops ih =>
        obtain ⟨id, owner, hop⟩ := hops c List.mem_cons_self
        refine ⟨?_, ih _ fun c' hc' => hops c' (List.mem_cons_of_mem c hc')⟩
        intro id' r' siblings hop'
        rw [hop] at hop'
        cases hop'
  refine ⟨?_, noPathCollision_depth_one rfl (by decide +kernel), hassign _ rest hrest⟩
  intro id' r' siblings hop
  cases hop

/-- A subpool whose root is set to zero leaves a stored root that is not the one of the tree,
and the owner is locked out. Of two subpools with one leaf only one can be updated. -/
theorem config_tree_left : Deployed configEnv configState ∧
    Along (step configEnv) (NoPathCollision configEnv) configState (assignAndUpdate 0) ∧
    (runContract configEnv configState (assignAndUpdate 0)).1.mainPoolConfigRoot ≠
      configTreeRoot configEnv (runContract configEnv configState (assignAndUpdate 0)).1 ∧
    (step configEnv ⟨⟨7, 0⟩, .updateSubpoolRoot 1 5
      (truePath configEnv (runContract configEnv configState (assignAndUpdate 0)).1 1)⟩
      (runContract configEnv configState (assignAndUpdate 0)).1).toOption.isNone ∧
    Along (step configEnv) (NoPathCollision configEnv) configState
      (assignAndUpdate 5 ++ assignBeyond) ∧
    (runContract configEnv configState (assignAndUpdate 5 ++ assignBeyond)).1.subpoolOwners 3 = 9 ∧
    leafPosition (runContract configEnv configState (assignAndUpdate 5 ++ assignBeyond)).1 3 =
      leafPosition (runContract configEnv configState (assignAndUpdate 5 ++ assignBeyond)).1 1 ∧
    (step configEnv ⟨⟨9, 0⟩, .updateSubpoolRoot 3 5
      (truePath configEnv (runContract configEnv configState
        (assignAndUpdate 5 ++ assignBeyond)).1 3)⟩
      (runContract configEnv configState (assignAndUpdate 5 ++ assignBeyond)).1).toOption.isNone := by
  refine ⟨configState_deployed, ?_, by decide +kernel, by decide +kernel, ?_, by decide +kernel,
    by decide +kernel, by decide +kernel⟩
  · have hnone := assignAndUpdate_noCollision 0 [] fun c hc => absurd hc List.not_mem_nil
    rwa [List.append_nil] at hnone
  · apply assignAndUpdate_noCollision
    intro c hc
    simp only [assignBeyond, List.mem_cons, List.not_mem_nil, or_false] at hc
    rcases hc with rfl | rfl
    · exact ⟨2, 8, rfl⟩
    · exact ⟨3, 9, rfl⟩

theorem config_tree_faithful_sample : Deployed configEnv configState ∧
    ConfigFaithful configEnv (runContract configEnv configState (assignAndUpdate 5)).1 := by
  have hcol := assignAndUpdate_noCollision 5 [] fun c hc => absurd hc List.not_mem_nil
  rw [List.append_nil] at hcol
  refine ⟨configState_deployed,
    (config_tree_faithful configEnv configState configState_deployed _ hcol ?_).1⟩
  intro c hc
  simp only [assignAndUpdate, List.mem_cons, List.not_mem_nil, or_false] at hc
  rcases hc with rfl | rfl
  · show (1 : BitVec 64).toNat < 2 ^ 1
    decide
  · show (5 : U256) ≠ 0
    decide

end Doxa.Contract
