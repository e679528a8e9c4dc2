import Doxa.Client.SpendWitness

/-!
# What the witness of a spend holds

The builder and `set_notes_witness` go through the slots in the same order, so slot by slot the
targets hold what the builder hashed. A note comes with the path of its position, a dummy with
its seed and no amount. The asset tree is opened at the index of the asset, where the output
account has the new amount, and both sides of the balance have the same sum.
-/

namespace Doxa.Circuit

open Lib Client
open Contract (U256)

/-! ## Amounts on limbs -/

theorem U256Target.set_val (value : U256) (k : Fin 8) :
    (U256Target.set value k).val = value.toNat / 2 ^ (32 * k.val) % 2 ^ 32 := by
  have hword : (word value (k.val / 2)).toNat =
      value.toNat / 2 ^ (64 * (k.val / 2)) % 2 ^ 64 := by
    rw [word, BitVec.toNat_setWidth, BitVec.toNat_ushiftRight, Nat.shiftRight_eq_div_pow]
  have hsmall : ∀ x : BitVec 32, ((x.toNat : F)).val = x.toNat := fun x =>
    ZMod.val_natCast_of_lt (x.isLt.trans (by decide))
  unfold U256Target.set
  split
  · rename_i heven
    have hindex : 64 * (k.val / 2) = 32 * k.val := by omega
    rw [lo32, hsmall, BitVec.toNat_setWidth, hword, hindex, Nat.mod_mod_of_dvd _ (by decide)]
  · rename_i hodd
    have hindex : 32 * k.val = 64 * (k.val / 2) + 32 := by omega
    rw [hi32, hsmall, BitVec.toNat_setWidth, BitVec.toNat_ushiftRight, Nat.shiftRight_eq_div_pow,
      hword, hindex, pow_add, ← Nat.div_div_eq_div_mul]
    omega

theorem U256Target.set_lt (value : U256) (k : Fin 8) : (U256Target.set value k).val < 2 ^ 32 := by
  rw [U256Target.set_val]
  exact Nat.mod_lt _ (by decide)

theorem U256Target.value_set (value : U256) : (U256Target.set value).value = value.toNat := by
  have hsum := littleEndian_digits (w := 32) value.toNat 8
  rw [littleEndian_eq_sum, Nat.mod_eq_of_lt value.isLt] at hsum
  rw [U256Target.value, ← hsum]
  exact Finset.sum_congr rfl fun k _ => by rw [U256Target.set_val]

theorem U256Target.set_zero : U256Target.set 0 = 0 := by
  funext k
  apply ZMod.val_injective
  refine (U256Target.set_val 0 k).trans ?_
  rw [show (0 : U256).toNat = 0 from rfl, Nat.zero_div]
  rfl

/-- The chain of one addition that does not overflow. -/
theorem U256AdditionChain.generate_add {a b s : U256} (h : a.toNat + b.toNat = s.toNat) :
    (generate (U256Target.set a) ![U256Target.set b]).Satisfied (U256Target.set a) ![U256Target.set b] ∧
      (generate (U256Target.set a) ![U256Target.set b]).result = U256Target.set s := by
  have hchain : ∀ (j : Fin 1) k, (![U256Target.set b] j k).val < 2 ^ 32 := fun j k => by
    rw [Subsingleton.elim j 0]
    exact U256Target.set_lt _ k
  have hone : 1 ≤ 7 := by decide
  have hsat := (generate_satisfied (U256Target.set_lt a) hchain hone).1
  refine ⟨hsat, U256Target.value_injective hsat.result_lt (U256Target.set_lt _) ?_⟩
  have hresult := generate_result (U256Target.set_lt a) hchain hone
  have hamount : U256Target.value (![U256Target.set b] 0) = b.toNat := U256Target.value_set _
  rw [Fin.sum_univ_one, U256Target.value_set, hamount, h, Nat.mod_eq_of_lt s.isLt] at hresult
  exact hresult.trans (U256Target.value_set _).symm

end Doxa.Circuit

namespace Doxa.Client.Spend

open Lib Circuit Trees
open StateSync (pathTarget pathTarget_satisfied setWitness_proofOf pathTarget_proofOf_root)
open Contract (U256)

variable {perm : State → State}

theorem proveOrPanic_eq_ok {α : Type} {x : Except Failure α} {a : α} :
    proveOrPanic x = .ok a ↔ x = .ok a := by
  cases x with
  | ok b => simp only [proveOrPanic, Except.ok.injEq]
  | error e => simp only [proveOrPanic, reduceCtorEq]

/-- A path is written exactly if it has the depth of the tree. -/
theorem merkleTarget_iff {depth : ℕ} {proof : MerkleProof HashOut} {path : MerkleRootTarget depth} :
    merkleTarget depth proof = .ok path ↔
      proof.siblings.length = depth ∧ pathTarget depth proof.siblings proof.path = path := by
  by_cases hlen : proof.siblings.length = depth
  · rw [merkleTarget, StateSync.setWitness, if_pos hlen, and_iff_right hlen]
    exact ⟨Except.ok.inj, congrArg Except.ok⟩
  · rw [merkleTarget, StateSync.setWitness, if_neg hlen]
    exact iff_of_false (fun h => by cases h) fun h => hlen h.1

theorem merkleTarget_proofOf (depth : ℕ) (ds : List HashOut) (i : ℕ) :
    merkleTarget depth (proofOf (hashOutput perm) depth ds i) =
      .ok (pathTarget depth (proofOf (hashOutput perm) depth ds i).siblings
        (proofOf (hashOutput perm) depth ds i).path) := by
  rw [merkleTarget, setWitness_proofOf]

theorem isBool_boolTarget (b : Bool) : IsBool (boolTarget b) := by
  cases b with
  | true => exact isBool_iff.mpr (.inr rfl)
  | false => exact isBool_iff.mpr (.inl rfl)

/-! ## The asset tree -/

section Ast

variable {ast : AccountStateTree} {assetId : F}

/-- The leaf that is opened for an asset is the one of its entry. -/
theorem existsOrDefault_entry (ast : AccountStateTree) (assetId : F) :
    existsOrDefault perm assetId (U256Target.set (amountOrNext ast assetId).2)
      (boolTarget (ast.amountFor assetId).isSome) = ast.entryLeaf perm assetId := by
  unfold existsOrDefault amountOrNext AccountStateTree.entryLeaf
  cases ast.amountFor assetId with
  | some entry => exact ifElseHash_one _ _
  | none => exact ifElseHash_zero _ _

/-- An asset without an entry is opened with amount zero. -/
theorem absent_entry (ast : AccountStateTree) (assetId : F) (k : Fin 8) :
    CondEq (not (boolTarget (ast.amountFor assetId).isSome))
      (U256Target.set (amountOrNext ast assetId).2 k) 0 := by
  unfold amountOrNext
  cases ast.amountFor assetId with
  | some entry =>
    show CondEq (not 1) _ 0
    rw [not_one]
    exact condEq_zero _ _
  | none =>
    show CondEq _ (U256Target.set 0 k) 0
    rw [U256Target.set_zero]
    exact condEq_self _ _

/-- The leaf of the asset and the new one open at one index. -/
theorem assertAstUpdate_of_insert {ast ast' : AccountStateTree} {ds : List HashOut} {assetId : F}
    {newBal : U256} {prev : Option U256} (hm : AccountStateTree.Mirrors perm ast ds)
    (h : ast.insertOrUpdateAsset perm assetId newBal = .ok (ast', prev)) :
    ∃ i r r', (amountOrNext ast assetId).1 = i ∧ amountOrNext ast' assetId = (i, newBal) ∧
      ast.root perm = .ok r ∧ ast'.root perm = .ok r' ∧
      AssertAstUpdate perm (pathTarget ACC_AST_DEPTH
          (proofOf (hashOutput perm) ACC_AST_DEPTH ds i).siblings
          (proofOf (hashOutput perm) ACC_AST_DEPTH ds i).path)
        assetId (U256Target.set (amountOrNext ast assetId).2) (U256Target.set newBal) r r'
        (boolTarget (ast.amountFor assetId).isSome) (boolTarget (ast'.amountFor assetId).isSome) := by
  obtain ⟨i, ds', hi, hindex, hnew, hleaf, hm', hupdate⟩ := hm.insertOrUpdateAsset h
  have hpath := @pathTarget_satisfied ACC_AST_DEPTH
    (proofOf (hashOutput perm) ACC_AST_DEPTH ds i).siblings
    (proofOf (hashOutput perm) ACC_AST_DEPTH ds i).path
  have hroot := @pathTarget_proofOf_root perm ACC_AST_DEPTH i hi ds
  have hentry : amountOrNext ast' assetId = (i, newBal) := by
    rw [amountOrNext, hnew]
    rfl
  have hnewleaf : ast'.entryLeaf perm assetId = leafCommitment perm assetId newBal := by
    rw [AccountStateTree.entryLeaf, hnew]
  refine ⟨i, _, _, hindex, hentry, hm.root, hm'.root, ⟨hpath, ?_, absent_entry _ _⟩, ?_⟩
  · rw [existsOrDefault_entry, hroot, ← hleaf, Function.update_eq_self]
  · have hamount : newBal = (amountOrNext ast' assetId).2 := by rw [hentry]
    rw [hamount]
    refine ⟨hpath, ?_, absent_entry _ _⟩
    rw [existsOrDefault_entry, hroot, hnewleaf, ← hupdate]

variable (perm) in
/-- What the asset targets hold against the roots of the two accounts. -/
structure AstWitness (tx : BuiltPrivTx) (newBal : U256) (t : AstTargets) : Prop where
  accin_amt : t.accinAmt = U256Target.set (amountOrNext tx.accin.ast tx.assetId).2
  accout_amt : t.accoutAmt = U256Target.set newBal
  exists_accin : IsBool t.assetExistsInAccin
  exists_accout : IsBool t.assetExistsInAccout
  update : ∃ r r', tx.accin.ast.root perm = .ok r ∧ tx.accout.ast.root perm = .ok r' ∧
    AssertAstUpdate perm t.accinAstMerkle tx.assetId t.accinAmt t.accoutAmt r r'
      t.assetExistsInAccin t.assetExistsInAccout

theorem setAstWitness_spec {self : BuiltPrivTx} {ast' : AccountStateTree} {newBal : U256}
    {prev : Option U256} (hast : self.accin.ast.Reachable perm)
    (h : self.accin.ast.insertOrUpdateAsset perm self.assetId newBal = .ok (ast', prev))
    (hout : self.accout.ast = ast') :
    ∃ t, self.setAstWitness perm = .ok t ∧ AstWitness perm self newBal t := by
  obtain ⟨ds, hm⟩ := hast.mirrors
  obtain ⟨i, r, r', hin, hnew, hr, hr', hupdate⟩ := assertAstUpdate_of_insert hm h
  rw [← hout] at hnew hr' hupdate
  have hproof : treeResult (self.accin.ast.tree.merkleProof (hashOutput perm)
      (amountOrNext self.accin.ast self.assetId).1) =
        .ok (proofOf (hashOutput perm) ACC_AST_DEPTH ds i) := by
    rw [hin, merkleProof_represents hm.tree AccountStateTree.depth_pos hm.room]
    rfl
  refine ⟨_, revertIf_bind_eq_ok.mpr ⟨not_not.mpr (by rw [hin, hnew]),
    bind_eq_ok.mpr ⟨_, proveOrPanic_eq_ok.mpr hproof,
      bind_eq_ok.mpr ⟨_, proveOrPanic_eq_ok.mpr (merkleTarget_proofOf _ _ _), rfl⟩⟩⟩, ?_⟩
  have hamount : (amountOrNext self.accout.ast self.assetId).2 = newBal := by rw [hnew]
  exact {
    accin_amt := rfl
    accout_amt := congrArg U256Target.set hamount
    exists_accin := isBool_boolTarget _
    exists_accout := isBool_boolTarget _
    update := ⟨r, r', hr, hr', hamount.symm ▸ hupdate⟩ }

end Ast

/-! ## Slots -/

/-- A note with the proof of its position. -/
structure ProvedNote (perm : State → State) (t : MerkleTree HashOut) (note : StandardNote × ℕ)
    (proof : MerkleProof HashOut) : Prop where
  stored : t.leaves[note.2]? = some (note.1.commitment perm)
  proof : t.merkleProof (hashOutput perm) note.2 = .ok proof

/-- The entries of two lists that belong together. -/
theorem forall₂_getElem? {α β : Type} {R : α → β → Prop} {xs : List α} {ys : List β}
    (h : List.Forall₂ R xs ys) {k : ℕ} {x : α} (hx : xs[k]? = some x) :
    ∃ y, ys[k]? = some y ∧ R x y := by
  induction h generalizing k with
  | nil => cases hx
  | cons hxy _ ih =>
    cases k with
    | zero =>
      obtain rfl := Option.some.inj hx
      exact ⟨_, rfl, hxy⟩
    | succ k => exact ih hx

/-- The entries of a list of amounts that is shorter than the batch. -/
theorem sum_getD {n : ℕ} {amounts : List U256} (h : amounts.length ≤ n) :
    ∑ i : Fin n, (amounts.getD i.val 0).toNat = total amounts := by
  induction amounts generalizing n with
  | nil =>
    refine Finset.sum_eq_zero fun i _ => ?_
    rw [List.getD_nil]
    rfl
  | cons x amounts ih =>
    obtain ⟨m, rfl⟩ : ∃ m, n = m + 1 := ⟨n - 1, by rw [List.length_cons] at h; omega⟩
    rw [List.length_cons] at h
    rw [Fin.sum_univ_succ, total, List.map_cons, List.sum_cons, ← total,
      ← ih (Nat.le_of_succ_le_succ h)]
    rfl

theorem maskAmount_one (amount : U256Target) : maskAmount 1 amount = amount :=
  funext fun _ => ifElse_one _ _

theorem maskAmount_zero (amount : U256Target) : maskAmount 0 amount = U256Target.set 0 := by
  rw [U256Target.set_zero]
  exact funext fun _ => ifElse_zero _ _

/-- What the targets of an input slot hold of it. -/
structure InoteWitness (perm : State → State) (root : HashOut) (accin : AccountTarget) (assetId : F)
    (amount : U256) (slot : InoteSlot) (w : InoteTargets) : Prop where
  slot : match slot with
    | .active note position => w.note = StandardNoteTarget.setWitness note ∧
        w.pos = (position : F) ∧ w.isactive = 1 ∧ position < ORDER
    | .dummy seed => w.dinote = seed ∧ w.isactive = 0
  membership : w.nctMerkle.ConditionalVerify perm (deriveNoteCommitment perm w.note) root w.isactive
  asset_id : w.note.assetId = assetId
  recipient : w.note.recipient =
    ⟨accin.subpoolId, derivePublicIdentifier perm accin.privateIdentifier⟩
  active : IsBool w.isactive
  amount : maskAmount w.isactive w.note.amount = U256Target.set amount

/-- What the targets of an output slot hold of it. -/
structure OnoteWitness (assetId : F) (amount : U256) (slot : OnoteSlot) (w : OnoteTargets) :
    Prop where
  slot : match slot with
    | .active note => w.note = StandardNoteTarget.setWitness note ∧ w.isactive = 1
    | .dummy seed => w.donote = seed ∧ w.isactive = 0
  asset_id : w.note.assetId = assetId
  active : IsBool w.isactive
  amount : maskAmount w.isactive w.note.amount = U256Target.set amount

section Slots

variable {t : MerkleTree HashOut} {ds : List HashOut} {accin : AccountTarget} {assetId : F}
  {address : AccountAddress}

variable (perm) in
/-- The root of the state tree over these leaves. -/
def stateRoot (ds : List HashOut) : HashOut :=
  Lib.node (hashOutput perm).node ((hashOutput perm).leafOf ds) STATE_TREE_DEPTH 0

theorem stateTree_pos : 0 < STATE_TREE_DEPTH := by decide

/-- A note of the tree opens at its position. -/
theorem ProvedNote.targets {note : StandardNote × ℕ} {proof : MerkleProof HashOut}
    (h : ProvedNote perm t note proof)
    (ht : Represents (hashOutput perm) STATE_TREE_DEPTH ds t)
    (hlen : ds.length ≤ 2 ^ STATE_TREE_DEPTH) (hasset : note.1.assetId = assetId)
    (haddress : note.1.recipient = address) (haccin : AccountAddressTarget.set address =
      ⟨accin.subpoolId, derivePublicIdentifier perm accin.privateIdentifier⟩) :
    ∃ w, activeInote note.1 proof = .ok w ∧ w.note = StandardNoteTarget.setWitness note.1 ∧
      w.isactive = 1 ∧
      InoteWitness perm (stateRoot perm ds) accin assetId note.1.amt (.active note.1 note.2) w := by
  have hstored := h.stored
  rw [ht.leaves] at hstored
  have hpos : note.2 < ds.length := (List.getElem?_eq_some_iff.mp hstored).1
  have hi : note.2 < 2 ^ STATE_TREE_DEPTH := hpos.trans_le hlen
  have hproof := h.proof
  rw [merkleProof_represents ht stateTree_pos hlen] at hproof
  obtain rfl := Except.ok.inj hproof
  refine ⟨_, bind_eq_ok.mpr ⟨_, merkleTarget_proofOf _ _ _, rfl⟩, rfl, rfl, ?_⟩
  refine {
    slot := ⟨rfl, rfl, rfl, hi.trans (by decide)⟩
    membership := ⟨pathTarget_satisfied _ _, condHashEq_one.mpr ?_⟩
    asset_id := hasset
    recipient := by
      rw [← haccin, ← haddress]
      rfl
    active := isBool_iff.mpr (.inr rfl)
    amount := maskAmount_one _ }
  have hleaf : (hashOutput perm).leafOf ds note.2 = note.1.commitment perm := by
    rw [leafOf_getElem? hpos] at hstored
    exact Option.some.inj hstored
  rw [pathTarget_proofOf_root hi, deriveNoteCommitment_setWitness, ← hleaf, Function.update_eq_self]
  rfl

/-- A free input slot. -/
theorem dummyInote_witness (seed root : HashOut) :
    InoteWitness perm root accin assetId 0 (.dummy seed)
      { note := dummyInote perm accin assetId
        pos := 0
        isactive := 0
        dinote := seed
        nctMerkle := .zero STATE_TREE_DEPTH } where
  slot := ⟨rfl, rfl⟩
  membership := ⟨MerkleRootTarget.zero_satisfied _, condHashEq_zero _ _⟩
  asset_id := rfl
  recipient := rfl
  active := isBool_iff.mpr (.inl rfl)
  amount := maskAmount_zero _

theorem activeOnote_witness {note : StandardNote} (hasset : note.assetId = assetId) :
    OnoteWitness assetId note.amt (.active note) (activeOnote note) where
  slot := ⟨rfl, rfl⟩
  asset_id := hasset
  active := isBool_iff.mpr (.inr rfl)
  amount := maskAmount_one _

theorem dummyOnote_witness (seed : HashOut) :
    OnoteWitness assetId 0 (.dummy seed)
      { note := dummyOnote assetId, isactive := 0, donote := seed } where
  slot := ⟨rfl, rfl⟩
  asset_id := rfl
  active := isBool_iff.mpr (.inl rfl)
  amount := maskAmount_zero _

variable {tx : BuiltSpendTx} {accinProof : MerkleProof HashOut}
  {inotesProofs rejectedProofs : List (MerkleProof HashOut)} {subpoolProof : SubpoolFullProof}

/-- The amounts of the input side, and of the output side. -/
def inAmounts (tx : BuiltSpendTx) : List U256 :=
  tx.rejectedInotes.map (fun note => note.1.amt) ++ tx.inotes.map (fun note => note.1.amt)

def outAmounts (tx : BuiltSpendTx) : List U256 :=
  tx.rejectedInotes.map (fun note => note.1.amt) ++ tx.onotes.map (fun note => note.amt)

/-- What the calls and the proofs say about the notes of a built transaction. -/
structure GoodNotes (perm : State → State) (t : MerkleTree HashOut) (address : AccountAddress)
    (assetId : F) (rejectedProofs inotesProofs : List (MerkleProof HashOut)) (tx : BuiltSpendTx) :
    Prop where
  rejected : List.Forall₂ (ProvedNote perm t) tx.rejectedInotes rejectedProofs
  inotes : List.Forall₂ (ProvedNote perm t) tx.inotes inotesProofs
  own : ∀ note ∈ tx.rejectedInotes ++ tx.inotes,
    note.1.assetId = assetId ∧ note.1.recipient = address
  onotes : ∀ note ∈ tx.onotes, note.assetId = assetId
  dinotes : NOTE_BATCH ≤ tx.dinotes.length + (tx.inotes.length + tx.rejectedInotes.length)
  donotes : NOTE_BATCH ≤ tx.donotes.length + (tx.onotes.length + tx.rejectedInotes.length)

variable (accinProof subpoolProof) in
/-- The builder and the witness put the same into input slot `i`. -/
theorem GoodNotes.inote (h : GoodNotes perm t address assetId rejectedProofs inotesProofs tx)
    (ht : Represents (hashOutput perm) STATE_TREE_DEPTH ds t)
    (hlen : ds.length ≤ 2 ^ STATE_TREE_DEPTH) (haccin : AccountAddressTarget.set address =
      ⟨accin.subpoolId, derivePublicIdentifier perm accin.privateIdentifier⟩)
    (i : Fin NOTE_BATCH) :
    ∃ slot w, inoteSlot tx.rejectedInotes tx.inotes tx.dinotes i.val = .ok slot ∧
      (tx.privTx accinProof inotesProofs rejectedProofs subpoolProof).inoteTargets perm accin assetId
        i.val = .ok w ∧
      InoteWitness perm (stateRoot perm ds) accin assetId ((inAmounts tx).getD i.val 0) slot w := by
  have hi := i.isLt
  have hdinotes := h.dinotes
  unfold inoteSlot BuiltPrivTx.inoteTargets
  rw [show (tx.privTx accinProof inotesProofs rejectedProofs subpoolProof).rejectedInotes.length =
      tx.rejectedInotes.length from List.length_map _,
    show (tx.privTx accinProof inotesProofs rejectedProofs subpoolProof).inotes.length =
      tx.inotes.length from List.length_map _]
  rcases slot_cases tx.rejectedInotes.length tx.inotes.length i.val with
    hfirst | ⟨hfirst, hsecond⟩ | hfree
  · rw [bySlot_first hfirst, bySlot_first hfirst]
    have hnote := List.getElem?_eq_getElem hfirst
    obtain ⟨proof, hproof, hproved⟩ := forall₂_getElem? h.rejected hnote
    have hown := h.own _ (List.mem_append_left _ (List.getElem_mem hfirst))
    obtain ⟨w, hw, -, -, hwitness⟩ := hproved.targets ht hlen hown.1 hown.2 haccin
    have hfst : (tx.rejectedInotes.map Prod.fst)[i.val]? = some tx.rejectedInotes[i.val].1 := by
      rw [List.getElem?_map, hnote]
      rfl
    have hamount : (inAmounts tx).getD i.val 0 = tx.rejectedInotes[i.val].1.amt := by
      rw [inAmounts, List.getD_append _ _ _ _ (by rwa [List.length_map]),
        List.getD_eq_getElem _ _ (by rwa [List.length_map]), List.getElem_map]
    refine ⟨_, w, bind_eq_ok.mpr ⟨_, at?_eq_ok hnote, rfl⟩, ?_, hamount ▸ hwitness⟩
    exact bind_eq_ok.mpr ⟨_, at?_eq_ok hfst, bind_eq_ok.mpr ⟨_, at?_eq_ok hproof, hw⟩⟩
  · rw [bySlot_second hfirst hsecond, bySlot_second hfirst hsecond]
    have hnote := List.getElem?_eq_getElem hsecond
    obtain ⟨proof, hproof, hproved⟩ := forall₂_getElem? h.inotes hnote
    have hown := h.own _ (List.mem_append_right _ (List.getElem_mem hsecond))
    obtain ⟨w, hw, -, -, hwitness⟩ := hproved.targets ht hlen hown.1 hown.2 haccin
    have hfst : (tx.inotes.map Prod.fst)[i.val - tx.rejectedInotes.length]? =
        some tx.inotes[i.val - tx.rejectedInotes.length].1 := by
      rw [List.getElem?_map, hnote]
      rfl
    have hamount : (inAmounts tx).getD i.val 0 =
        tx.inotes[i.val - tx.rejectedInotes.length].1.amt := by
      rw [inAmounts, List.getD_append_right _ _ _ _ (by rwa [List.length_map]), List.length_map,
        List.getD_eq_getElem _ _ (by rwa [List.length_map]), List.getElem_map]
    refine ⟨_, w, bind_eq_ok.mpr ⟨_, at?_eq_ok hnote, rfl⟩, ?_, hamount ▸ hwitness⟩
    exact bind_eq_ok.mpr ⟨_, at?_eq_ok hfst, bind_eq_ok.mpr ⟨_, at?_eq_ok hproof, hw⟩⟩
  · rw [bySlot_dummy hfree, bySlot_dummy hfree]
    have hseed := List.getElem?_eq_getElem
      (show i.val - tx.rejectedInotes.length - tx.inotes.length < tx.dinotes.length by omega)
    have hamount : (inAmounts tx).getD i.val 0 = 0 := by
      refine List.getD_eq_default _ _ ?_
      rw [inAmounts, List.length_append, List.length_map, List.length_map]
      exact hfree
    refine ⟨_, _, bind_eq_ok.mpr ⟨_, at?_eq_ok hseed, rfl⟩,
      bind_eq_ok.mpr ⟨_, at?_eq_ok hseed, rfl⟩, ?_⟩
    rw [hamount]
    exact dummyInote_witness _ _

variable (accinProof subpoolProof) in
/-- The same for output slot `i`. -/
theorem GoodNotes.onote (h : GoodNotes perm t address assetId rejectedProofs inotesProofs tx)
    (i : Fin NOTE_BATCH) :
    ∃ slot w, onoteSlot tx.rejectedInotes tx.onotes tx.donotes i.val = .ok slot ∧
      (tx.privTx accinProof inotesProofs rejectedProofs subpoolProof).onoteTargets assetId
        i.val = .ok w ∧
      OnoteWitness assetId ((outAmounts tx).getD i.val 0) slot w := by
  have hi := i.isLt
  have hdonotes := h.donotes
  unfold onoteSlot BuiltPrivTx.onoteTargets
  rw [show (tx.privTx accinProof inotesProofs rejectedProofs subpoolProof).rejectedInotes.length =
      tx.rejectedInotes.length from List.length_map _,
    show (tx.privTx accinProof inotesProofs rejectedProofs subpoolProof).onotes = tx.onotes from rfl]
  rcases slot_cases tx.rejectedInotes.length tx.onotes.length i.val with
    hfirst | ⟨hfirst, hsecond⟩ | hfree
  · rw [bySlot_first hfirst, bySlot_first hfirst]
    have hnote := List.getElem?_eq_getElem hfirst
    have hown := h.own _ (List.mem_append_left _ (List.getElem_mem hfirst))
    have hfst : (tx.rejectedInotes.map Prod.fst)[i.val]? = some tx.rejectedInotes[i.val].1 := by
      rw [List.getElem?_map, hnote]
      rfl
    have hamount : (outAmounts tx).getD i.val 0 = tx.rejectedInotes[i.val].1.amt := by
      rw [outAmounts, List.getD_append _ _ _ _ (by rwa [List.length_map]),
        List.getD_eq_getElem _ _ (by rwa [List.length_map]), List.getElem_map]
    refine ⟨_, _, bind_eq_ok.mpr ⟨_, at?_eq_ok hnote, rfl⟩,
      bind_eq_ok.mpr ⟨_, at?_eq_ok hfst, rfl⟩, ?_⟩
    rw [hamount]
    exact @activeOnote_witness assetId (reject tx.rejectedInotes[i.val].1) hown.1
  · rw [bySlot_second hfirst hsecond, bySlot_second hfirst hsecond]
    have hnote := List.getElem?_eq_getElem hsecond
    have hamount : (outAmounts tx).getD i.val 0 =
        tx.onotes[i.val - tx.rejectedInotes.length].amt := by
      rw [outAmounts, List.getD_append_right _ _ _ _ (by rwa [List.length_map]), List.length_map,
        List.getD_eq_getElem _ _ (by rwa [List.length_map]), List.getElem_map]
    refine ⟨_, _, bind_eq_ok.mpr ⟨_, at?_eq_ok hnote, rfl⟩,
      bind_eq_ok.mpr ⟨_, at?_eq_ok hnote, rfl⟩, ?_⟩
    rw [hamount]
    exact activeOnote_witness (h.onotes _ (List.getElem_mem hsecond))
  · rw [bySlot_dummy hfree, bySlot_dummy hfree]
    have hseed := List.getElem?_eq_getElem
      (show i.val - tx.rejectedInotes.length - tx.onotes.length < tx.donotes.length by omega)
    have hamount : (outAmounts tx).getD i.val 0 = 0 := by
      refine List.getD_eq_default _ _ ?_
      rw [outAmounts, List.length_append, List.length_map, List.length_map]
      exact hfree
    refine ⟨_, _, bind_eq_ok.mpr ⟨_, at?_eq_ok hseed, rfl⟩,
      bind_eq_ok.mpr ⟨_, at?_eq_ok hseed, rfl⟩, ?_⟩
    rw [hamount]
    exact dummyOnote_witness _

/-- A rejected note and the note that goes back. -/
theorem assertRejectNotePair_reject (note : StandardNote) :
    AssertRejectNotePair (StandardNoteTarget.setWitness note)
      (StandardNoteTarget.setWitness (reject note)) 1 1 where
  active := condEq_self _ _
  identifier := fun _ => condEq_self _ _
  amount := fun _ => condEq_self _ _
  asset_id := condEq_self _ _
  recipient_subpool := condEq_self _ _
  recipient_identifier := fun _ => condEq_self _ _
  sender_subpool := condEq_self _ _
  sender_identifier := fun _ => condEq_self _ _

theorem assertRejectNotePair_zero (inote onote : StandardNoteTarget) (isactive : F) :
    AssertRejectNotePair inote onote isactive 0 where
  active := condEq_zero _ _
  identifier := fun _ => condEq_zero _ _
  amount := fun _ => condEq_zero _ _
  asset_id := condEq_zero _ _
  recipient_subpool := condEq_zero _ _
  recipient_identifier := fun _ => condEq_zero _ _
  sender_subpool := condEq_zero _ _
  sender_identifier := fun _ => condEq_zero _ _

/-- The slots flagged as rejected hold such pairs. -/
theorem rejectNotePair {self : BuiltPrivTx} {i : ℕ} {w : InoteTargets} {w' : OnoteTargets}
    (hw : self.inoteTargets perm accin assetId i = .ok w) (hw' : self.onoteTargets assetId i = .ok w') :
    AssertRejectNotePair w.note w'.note w.isactive (boolTarget (i < self.rejectedInotes.length)) := by
  by_cases hi : i < self.rejectedInotes.length
  · rw [decide_eq_true hi]
    rw [BuiltPrivTx.inoteTargets, bySlot_first hi] at hw
    rw [BuiltPrivTx.onoteTargets, bySlot_first hi] at hw'
    obtain ⟨note, hnote, hw⟩ := bind_eq_ok.mp hw
    obtain ⟨proof, -, hw⟩ := bind_eq_ok.mp hw
    obtain ⟨path, -, hw⟩ := bind_eq_ok.mp hw
    obtain ⟨note', hnote', hw'⟩ := bind_eq_ok.mp hw'
    rw [hnote] at hnote'
    obtain rfl := Except.ok.inj hnote'
    rw [← pure_eq_ok.mp hw, ← pure_eq_ok.mp hw']
    exact assertRejectNotePair_reject note
  · rw [decide_eq_false hi]
    exact assertRejectNotePair_zero _ _ _

/-! ## The notes -/

/-- The checks of `set_notes_witness`. -/
structure Checked (tx : BuiltSpendTx) : Prop where
  room : tx.rejectedInotes.length + max tx.inotes.length tx.onotes.length < NOTE_BATCH
  dinotes : tx.dinotes.length = NOTE_BATCH - tx.inotes.length - tx.rejectedInotes.length
  donotes : tx.donotes.length = NOTE_BATCH - tx.onotes.length - tx.rejectedInotes.length

/-- What the note targets hold of the slots. -/
structure NotesWitness (perm : State → State) (root : HashOut) (accin : AccountTarget) (assetId : F)
    (tx : BuiltSpendTx) (inotes : Fin NOTE_BATCH → InoteSlot) (onotes : Fin NOTE_BATCH → OnoteSlot)
    (w : NotesTargets) : Prop where
  inotes : ∀ i, InoteWitness perm root accin assetId ((inAmounts tx).getD i.val 0) (inotes i)
    (w.inotes i)
  onotes : ∀ i, OnoteWitness assetId ((outAmounts tx).getD i.val 0) (onotes i) (w.onotes i)
  reject : ∀ i, AssertRejectNotePair (w.inotes i).note (w.onotes i).note (w.inotes i).isactive
    (w.isNotePairRjct i)
  flags : ∀ i, IsBool (w.isNotePairRjct i)

theorem setNotesWitness_checked {w : NotesTargets}
    (h : (tx.privTx accinProof inotesProofs rejectedProofs subpoolProof).setNotesWitness perm accin
      assetId = .ok w) : Checked tx := by
  obtain ⟨hroom, h⟩ := revertIf_bind_eq_ok.mp h
  obtain ⟨hdinotes, h⟩ := revertIf_bind_eq_ok.mp h
  obtain ⟨hdonotes, -⟩ := revertIf_bind_eq_ok.mp h
  simp only [BuiltSpendTx.privTx, List.length_map] at hroom hdinotes hdonotes
  exact ⟨Nat.lt_of_not_ge hroom, not_not.mp hdinotes, not_not.mp hdonotes⟩

variable (accinProof subpoolProof) in
/-- The notes that pass the checks are written, slot by slot as the builder hashed them. -/
theorem GoodNotes.setNotesWitness
    (h : GoodNotes perm t address assetId rejectedProofs inotesProofs tx)
    (ht : Represents (hashOutput perm) STATE_TREE_DEPTH ds t)
    (hlen : ds.length ≤ 2 ^ STATE_TREE_DEPTH) (haccin : AccountAddressTarget.set address =
      ⟨accin.subpoolId, derivePublicIdentifier perm accin.privateIdentifier⟩) :
    ∃ inotes onotes w,
      (collect fun i : Fin NOTE_BATCH => inoteSlot tx.rejectedInotes tx.inotes tx.dinotes i.val) =
        .ok inotes ∧
      (collect fun i : Fin NOTE_BATCH => onoteSlot tx.rejectedInotes tx.onotes tx.donotes i.val) =
        .ok onotes ∧
      (Checked tx → (tx.privTx accinProof inotesProofs rejectedProofs subpoolProof).setNotesWitness
        perm accin assetId = .ok w) ∧
      NotesWitness perm (stateRoot perm ds) accin assetId tx inotes onotes w := by
  choose inotes win hinotes hwin hin using
    h.inote accinProof subpoolProof ht hlen haccin
  choose onotes wout honotes hwout hout using
    h.onote accinProof subpoolProof
  refine ⟨inotes, onotes, ⟨win, wout, fun i => boolTarget (i.val < tx.rejectedInotes.length)⟩,
    collect_eq_ok hinotes, collect_eq_ok honotes, fun hchecked => ?_, hin, hout, fun i => ?_,
    fun i => isBool_boolTarget _⟩
  · have hroom := hchecked.room
    have hdinotes := hchecked.dinotes
    have hdonotes := hchecked.donotes
    refine revertIf_bind_eq_ok.mpr ⟨?_, revertIf_bind_eq_ok.mpr ⟨?_, revertIf_bind_eq_ok.mpr ⟨?_,
      bind_eq_ok.mpr ⟨win, proveOrPanic_eq_ok.mpr (collect_eq_ok hwin),
        bind_eq_ok.mpr ⟨wout, proveOrPanic_eq_ok.mpr (collect_eq_ok hwout), ?_⟩⟩⟩⟩⟩
    · simp only [BuiltSpendTx.privTx, List.length_map]
      omega
    · simp only [BuiltSpendTx.privTx, List.length_map]
      exact not_not.mpr hdinotes
    · simp only [BuiltSpendTx.privTx, List.length_map]
      exact not_not.mpr hdonotes
    · simp only [BuiltSpendTx.privTx, List.length_map]
      rfl
  · have hpair := rejectNotePair (hwin i) (hwout i)
    simpa only [BuiltSpendTx.privTx, List.length_map] using hpair

end Slots

end Doxa.Client.Spend
