import Doxa.Client.AssetCalls
import Doxa.Client.SpendBuilder

/-!
# When a spend is built

`build` adds the amounts of each side before it looks at the balance, and these sums panic past
256 bits; the balance itself is checked, in the order credit then debit, so that a credit past
256 bits is refused even where the debit would bring it back. The asset tree and the two digests
of the accounts are unwrapped. `Safe` collects what has to hold for none of this to matter, and
`spend_build_exact` shows that nothing else does.
-/

namespace Doxa.Client

open Lib Circuit Trees
open Contract (U256)

variable {perm : State → State}

/-! ## Digests that exist -/

/-- A key is stored if the account consumes its notes itself. -/
def ConsumeAuth.KeySet (auth : ConsumeAuth) : Prop := auth.config = true → auth.pk ≠ none

theorem consumePart_iff {acc : StandardAccount} :
    (∃ part, acc.consumePart = .ok part) ↔ acc.consumeAuth.KeySet := by
  unfold StandardAccount.consumePart ConsumeAuth.KeySet
  cases acc.consumeAuth.config with
  | false => exact ⟨fun _ h => absurd h Bool.false_ne_true, fun _ => ⟨_, rfl⟩⟩
  | true =>
    cases acc.consumeAuth.pk with
    | none => exact ⟨fun ⟨part, h⟩ => absurd h (by simp only [if_true, reduceCtorEq,
        not_false_eq_true]), fun h => absurd rfl (h rfl)⟩
    | some pk => exact ⟨fun _ _ => Option.some_ne_none pk, fun _ => ⟨_, rfl⟩⟩

theorem commitment_iff {acc : StandardAccount} (h : ∃ r, acc.ast.root perm = .ok r) :
    (∃ c, acc.commitment perm = .ok c) ↔ acc.consumeAuth.KeySet := by
  obtain ⟨r, hr⟩ := h
  rw [← consumePart_iff]
  constructor
  · rintro ⟨c, hc⟩
    obtain ⟨inp, hinp, -⟩ := bind_eq_ok.mp hc
    obtain ⟨root, -, hinp⟩ := bind_eq_ok.mp hinp
    obtain ⟨part, hpart, -⟩ := bind_eq_ok.mp hinp
    exact ⟨part, hpart⟩
  · rintro ⟨part, hpart⟩
    exact ⟨_, bind_eq_ok.mpr ⟨_, bind_eq_ok.mpr ⟨r, hr, bind_eq_ok.mpr ⟨part, hpart, rfl⟩⟩, rfl⟩⟩

theorem nullifier_iff {acc : StandardAccount} (h : ∃ r, acc.ast.root perm = .ok r) :
    (∃ n, acc.nullifier perm = .ok n) ↔ acc.consumeAuth.KeySet := by
  rw [← commitment_iff h]
  constructor
  · rintro ⟨n, hn⟩
    obtain ⟨c, hc, -⟩ := bind_eq_ok.mp hn
    exact ⟨c, hc⟩
  · rintro ⟨c, hc⟩
    exact ⟨_, bind_eq_ok.mpr ⟨c, hc, rfl⟩⟩

end Doxa.Client

namespace Doxa.Client.Spend

open Lib Circuit Trees
open AccountStateTree (Mirrors)
open Contract (U256)

/-! ## Sums -/

/-- An unwrapped result is there or panics. -/
theorem orPanic_cases {α : Type} (x : Except Failure α) :
    (∃ a, x = .ok a) ∨ ((¬ ∃ a, x = .ok a) ∧ orPanic x = .error .panic) := by
  cases x with
  | ok a => exact .inl ⟨a, rfl⟩
  | error e => exact .inr ⟨fun ⟨_, h⟩ => (by cases h), rfl⟩

theorem foldlM_addAmount_ok {amounts : List U256} {a : U256}
    (h : a.toNat + total amounts < 2 ^ 256) : ∃ s, amounts.foldlM addAmount a = .ok s := by
  induction amounts generalizing a with
  | nil => exact ⟨a, rfl⟩
  | cons x amounts ih =>
    have htotal : total (x :: amounts) = x.toNat + total amounts := rfl
    rw [htotal] at h
    have hstep : addAmount a x = .ok (a + x) := if_pos (by omega)
    have hsum : (a + x).toNat = a.toNat + x.toNat := by
      rw [BitVec.toNat_add, Nat.mod_eq_of_lt (by omega)]
    obtain ⟨s, hs⟩ := @ih (a + x) (by omega)
    exact ⟨s, bind_eq_ok.mpr ⟨a + x, hstep, hs⟩⟩

theorem foldlM_addAmount_error {amounts : List U256} {a : U256} {e : SpendTxBuilderError}
    (h : amounts.foldlM addAmount a = .error e) : e = .panic := by
  induction amounts generalizing a with
  | nil => cases h
  | cons x amounts ih =>
    rw [List.foldlM_cons] at h
    by_cases hfits : a.toNat + x.toNat < 2 ^ 256
    · rw [addAmount, if_pos hfits] at h
      exact ih h
    · rw [addAmount, if_neg hfits] at h
      exact (Except.error.inj h).symm

/-- A side is added exactly or panics. -/
theorem sumAmounts_cases (amounts : List U256) :
    (total amounts < 2 ^ 256 ∧ ∃ s, sumAmounts amounts = .ok s ∧ s.toNat = total amounts) ∨
      (¬ total amounts < 2 ^ 256 ∧ sumAmounts amounts = .error .panic) := by
  by_cases hfits : total amounts < 2 ^ 256
  · obtain ⟨s, hs⟩ := @foldlM_addAmount_ok amounts 0 (by
      rw [show (0 : U256).toNat = 0 from rfl]
      omega)
    exact .inl ⟨hfits, s, hs, sumAmounts_eq_ok hs⟩
  · refine .inr ⟨hfits, ?_⟩
    cases hsum : sumAmounts amounts with
    | ok s => exact absurd (sumAmounts_eq_ok hsum ▸ s.isLt) hfits
    | error e => rw [foldlM_addAmount_error hsum]

theorem newBalance_iff {oldBal deltaIn deltaOut : U256} :
    (∃ newBal, newBalance oldBal deltaIn deltaOut = some newBal) ↔
      oldBal.toNat + deltaIn.toNat < 2 ^ 256 ∧ deltaOut.toNat ≤ oldBal.toNat + deltaIn.toNat := by
  unfold newBalance
  by_cases hadd : oldBal.toNat + deltaIn.toNat < 2 ^ 256
  · rw [if_pos hadd]
    by_cases hsub : deltaOut.toNat ≤ oldBal.toNat + deltaIn.toNat
    · rw [if_pos hsub]
      exact ⟨fun _ => ⟨hadd, hsub⟩, fun _ => ⟨_, rfl⟩⟩
    · rw [if_neg hsub]
      exact ⟨fun ⟨_, h⟩ => (Option.some_ne_none _ h.symm).elim, fun h => absurd h.2 hsub⟩
  · rw [if_neg hadd]
    exact ⟨fun ⟨_, h⟩ => (Option.some_ne_none _ h.symm).elim, fun h => absurd h.1 hadd⟩

/-! ## What `build` should do -/

namespace SpendTxBuilder

variable (self : SpendTxBuilder)

def Active : Prop := ¬ (self.inputNotes = [] ∧ self.outputNotes = [] ∧ self.rejectedNotes = [])

/-- The balance of the asset, and the two sums, as numbers. -/
def balance : ℕ := (amountOrNext self.accin.ast self.assetId).2.toNat

def inputs : ℕ := total (self.inputNotes.map fun note => note.1.amt)

def outputs : ℕ := total (self.outputNotes.map fun note => note.amt)

/-- The outputs are covered and the new balance fits. -/
def Covered : Prop :=
  self.outputs ≤ self.balance + self.inputs ∧ self.balance + self.inputs < self.outputs + 2 ^ 256

/-- Both kinds of seeds were drawn. -/
def Filled : Prop := self.dinotes ≠ none ∧ self.donotes ≠ none

end SpendTxBuilder

/-- The output account has this balance. -/
def HasBalance (tx : BuiltSpendTx) (assetId : F) (newBal : ℕ) : Prop :=
  ∃ i amount, tx.accout.ast.amountFor assetId = some (i, amount) ∧ amount.toNat = newBal

variable (perm : State → State)

/-- `build` never panics, refuses exactly what is not covered, and is exact otherwise. -/
structure Exact (b : SpendTxBuilder) : Prop where
  no_panic : b.build perm ≠ .error .panic
  refused : (∃ oldBal deltaIn deltaOut,
    b.build perm = .error (.insufficientBalance oldBal deltaIn deltaOut)) ↔ ¬ b.Covered
  built : b.Covered → b.build perm = .error .noActiveNotes ∨
    (∃ kind, b.build perm = .error (.dummyNotesNotFilled kind)) ∨
    ∃ tx, b.build perm = .ok tx ∧ HasBalance tx b.assetId (b.balance + b.inputs - b.outputs)

/-- What the notes, the account and the asset have to meet. -/
structure Safe (b : SpendTxBuilder) : Prop where
  inputs : b.inputs < 2 ^ 256
  outputs : b.outputs < 2 ^ 256
  credit : b.Covered → b.balance + b.inputs < 2 ^ 256
  asset : b.Covered → b.assetId ≠ 0 ∧
    (b.assetId ∈ b.accin.ast.assets ∨ b.accin.ast.tree.numLeaves < 2 ^ ACC_AST_DEPTH)
  key : b.Covered → b.Filled → b.accin.consumeAuth.KeySet
  positions : b.Covered → b.Filled → ∀ note ∈ b.rejectedNotes ++ b.inputNotes, note.2 < ORDER

/-- `build` from the output account on. -/
def SpendTxBuilder.finish (b : SpendTxBuilder) (newBal : U256) :
    Except SpendTxBuilderError BuiltSpendTx := do
  let accout ← orPanic (b.accout perm newBal)
  let dinotes ← okOr (.dummyNotesNotFilled "input") b.dinotes
  let donotes ← okOr (.dummyNotesNotFilled "output") b.donotes
  let slots ← orPanic (b.slots accout dinotes donotes)
  let txHash ← orPanic (slots.txHash perm)
  return {
    accin := b.accin
    accout := accout
    rejectedInotes := b.rejectedNotes
    inotes := b.inputNotes
    onotes := b.outputNotes
    dinotes := dinotes
    donotes := donotes
    txHash := txHash
    accinProof := none
    inotesNctProofs := none
    rejectedInotesNctProofs := none
    subpoolProof := none
    spendSig := none
    consumeSig := none
    approvalSig := none }

/-- `build` from the sums on. -/
def SpendTxBuilder.settle (b : SpendTxBuilder) : Except SpendTxBuilderError BuiltSpendTx := do
  let deltaIn ← sumAmounts (b.inputNotes.map fun note => note.1.amt)
  let deltaOut ← sumAmounts (b.outputNotes.map fun note => note.amt)
  let oldBal := (amountOrNext b.accin.ast b.assetId).2
  let newBal ← okOr (.insufficientBalance oldBal deltaIn deltaOut)
    (newBalance oldBal deltaIn deltaOut)
  b.finish perm newBal

variable {perm}

/-! ## The slots -/

section Slots

variable {rejected inotes : List (StandardNote × ℕ)} {onotes : List StandardNote}
  {dinotes donotes : List HashOut}

/-- With enough seeds every input slot is filled. -/
theorem inoteSlot_ok (hseeds : NOTE_BATCH ≤ dinotes.length + (inotes.length + rejected.length))
    (i : Fin NOTE_BATCH) : ∃ slot, inoteSlot rejected inotes dinotes i.val = .ok slot := by
  have hi := i.isLt
  unfold inoteSlot
  rcases slot_cases rejected.length inotes.length i.val with hfirst | ⟨hfirst, hsecond⟩ | hfree
  · rw [bySlot_first hfirst]
    exact ⟨_, bind_eq_ok.mpr ⟨_, at?_eq_ok (List.getElem?_eq_getElem hfirst), rfl⟩⟩
  · rw [bySlot_second hfirst hsecond]
    exact ⟨_, bind_eq_ok.mpr ⟨_, at?_eq_ok (List.getElem?_eq_getElem hsecond), rfl⟩⟩
  · rw [bySlot_dummy hfree]
    exact ⟨_, bind_eq_ok.mpr ⟨_, at?_eq_ok (List.getElem?_eq_getElem
      (show i.val - rejected.length - inotes.length < dinotes.length by omega)), rfl⟩⟩

theorem onoteSlot_ok (hseeds : NOTE_BATCH ≤ donotes.length + (onotes.length + rejected.length))
    (i : Fin NOTE_BATCH) : ∃ slot, onoteSlot rejected onotes donotes i.val = .ok slot := by
  have hi := i.isLt
  unfold onoteSlot
  rcases slot_cases rejected.length onotes.length i.val with hfirst | ⟨hfirst, hsecond⟩ | hfree
  · rw [bySlot_first hfirst]
    exact ⟨_, bind_eq_ok.mpr ⟨_, at?_eq_ok (List.getElem?_eq_getElem hfirst), rfl⟩⟩
  · rw [bySlot_second hfirst hsecond]
    exact ⟨_, bind_eq_ok.mpr ⟨_, at?_eq_ok (List.getElem?_eq_getElem hsecond), rfl⟩⟩
  · rw [bySlot_dummy hfree]
    exact ⟨_, bind_eq_ok.mpr ⟨_, at?_eq_ok (List.getElem?_eq_getElem
      (show i.val - rejected.length - onotes.length < donotes.length by omega)), rfl⟩⟩

/-- The active input slots hold the notes that were added. -/
theorem inoteSlot_active {i : ℕ} {note : StandardNote} {position : ℕ}
    (h : inoteSlot rejected inotes dinotes i = .ok (.active note position)) :
    (note, position) ∈ rejected ++ inotes := by
  have hmem : ∀ (xs : List (StandardNote × ℕ)) (k : ℕ), (do
      let note ← at? xs k
      return InoteSlot.active note.1 note.2) = .ok (.active note position) →
      (note, position) ∈ xs := by
    intro xs k hslot
    obtain ⟨entry, hentry, hactive⟩ := bind_eq_ok.mp hslot
    have hactive := pure_eq_ok.mp hactive
    rw [InoteSlot.active.injEq] at hactive
    rw [← hactive.1, ← hactive.2]
    unfold at? at hentry
    split at hentry
    · rename_i x hx
      rw [← Except.ok.inj hentry]
      exact List.mem_of_getElem? hx
    · cases hentry
  unfold inoteSlot at h
  rcases slot_cases rejected.length inotes.length i with hfirst | ⟨hfirst, hsecond⟩ | hfree
  · rw [bySlot_first hfirst] at h
    exact List.mem_append_left _ (hmem _ _ h)
  · rw [bySlot_second hfirst hsecond] at h
    exact List.mem_append_right _ (hmem _ _ h)
  · rw [bySlot_dummy hfree] at h
    obtain ⟨seed, -, hdummy⟩ := bind_eq_ok.mp h
    cases pure_eq_ok.mp hdummy

/-- Every note that was added has its slot. -/
theorem exists_inoteSlot (hroom : rejected.length + inotes.length ≤ NOTE_BATCH)
    {note : StandardNote × ℕ} (hnote : note ∈ rejected ++ inotes) :
    ∃ i : Fin NOTE_BATCH, inoteSlot rejected inotes dinotes i.val = .ok (.active note.1 note.2) := by
  unfold inoteSlot
  rcases List.mem_append.mp hnote with hnote | hnote
  · obtain ⟨k, hk, hget⟩ := List.mem_iff_getElem.mp hnote
    refine ⟨⟨k, by omega⟩, ?_⟩
    rw [bySlot_first hk]
    exact bind_eq_ok.mpr ⟨note, at?_eq_ok (hget ▸ List.getElem?_eq_getElem hk), rfl⟩
  · obtain ⟨k, hk, hget⟩ := List.mem_iff_getElem.mp hnote
    refine ⟨⟨rejected.length + k, by omega⟩, ?_⟩
    rw [bySlot_second (Nat.le_add_right _ _) (by rwa [Nat.add_sub_cancel_left]),
      Nat.add_sub_cancel_left]
    exact bind_eq_ok.mpr ⟨note, at?_eq_ok (hget ▸ List.getElem?_eq_getElem hk), rfl⟩

theorem inoteSlot_nullifier_iff {slot : InoteSlot} {nk : HashOut} :
    (∃ n, slot.nullifier perm nk = .ok n) ↔
      ∀ note position, slot = .active note position → position < ORDER := by
  cases slot with
  | dummy seed => exact ⟨fun _ _ _ h => (by cases h), fun _ => ⟨_, rfl⟩⟩
  | active note position =>
    have hnull : (InoteSlot.active note position).nullifier perm nk =
        unwrap (note.nullifier perm position nk) := rfl
    rw [hnull, StandardNote.nullifier]
    by_cases hpos : position < ORDER
    · rw [if_pos hpos]
      refine ⟨fun _ note' position' h => ?_, fun _ => ⟨_, rfl⟩⟩
      rw [InoteSlot.active.injEq] at h
      rwa [← h.2]
    · rw [if_neg hpos]
      exact ⟨fun ⟨_, h⟩ => (by cases h), fun h => absurd (h note position rfl) hpos⟩

end Slots

/-! ## The outcome -/

section Outcome

variable {accin : StandardAccount} {assetId : F} {cs : List SpendCall} {b : SpendTxBuilder}
  {newBal : U256}

variable (perm) in
theorem build_inactive (h : ¬ b.Active) : b.build perm = .error .noActiveNotes := by
  have hguard : revertIf (b.inputNotes = [] ∧ b.outputNotes = [] ∧ b.rejectedNotes = [])
      SpendTxBuilderError.noActiveNotes = .error .noActiveNotes := if_pos (not_not.mp h)
  unfold SpendTxBuilder.build
  rw [hguard]
  rfl

theorem build_active (h : b.Active) : b.build perm = b.settle perm := by
  unfold SpendTxBuilder.build
  rw [revertIf_of_not h]
  rfl

variable (perm) in
/-- A sum that does not fit is a panic. -/
theorem build_overflow (h : b.Active) (hsum : ¬ (b.inputs < 2 ^ 256 ∧ b.outputs < 2 ^ 256)) :
    b.build perm = .error .panic := by
  rw [build_active h, SpendTxBuilder.settle]
  rcases sumAmounts_cases (b.inputNotes.map fun note => note.1.amt) with
    ⟨hin, deltaIn, hdeltaIn, -⟩ | ⟨-, hpanic⟩
  · rcases sumAmounts_cases (b.outputNotes.map fun note => note.amt) with ⟨hout, -⟩ | ⟨-, hpanic⟩
    · exact absurd ⟨hin, hout⟩ hsum
    · rw [hdeltaIn, hpanic]
      rfl
  · rw [hpanic]
    rfl

variable (perm) in
/-- The balance is refused, or the rest of `build` runs with the new one. -/
theorem build_settled (h : b.Active) (hin : b.inputs < 2 ^ 256) (hout : b.outputs < 2 ^ 256) :
    (∃ newBal : U256, newBal.toNat = b.balance + b.inputs - b.outputs ∧
      (b.balance + b.inputs < 2 ^ 256 ∧ b.outputs ≤ b.balance + b.inputs) ∧
      b.build perm = b.finish perm newBal) ∨
    (¬ (b.balance + b.inputs < 2 ^ 256 ∧ b.outputs ≤ b.balance + b.inputs) ∧
      ∃ oldBal deltaIn deltaOut,
        b.build perm = .error (.insufficientBalance oldBal deltaIn deltaOut)) := by
  rw [build_active h, SpendTxBuilder.settle]
  rcases sumAmounts_cases (b.inputNotes.map fun note => note.1.amt) with
    ⟨-, deltaIn, hdeltaIn, hinNat⟩ | ⟨hover, -⟩
  swap
  · exact absurd hin hover
  rcases sumAmounts_cases (b.outputNotes.map fun note => note.amt) with
    ⟨-, deltaOut, hdeltaOut, houtNat⟩ | ⟨hover, -⟩
  swap
  · exact absurd hout hover
  have hbalance := @newBalance_iff (amountOrNext b.accin.ast b.assetId).2 deltaIn deltaOut
  rw [hinNat, houtNat] at hbalance
  rw [hdeltaIn, hdeltaOut]
  cases hnew : newBalance (amountOrNext b.accin.ast b.assetId).2 deltaIn deltaOut with
  | some newBal =>
    have hnat := newBalance_eq_some hnew
    rw [hinNat, houtNat] at hnat
    refine .inl ⟨newBal, Nat.eq_sub_of_add_eq hnat, hbalance.mp ⟨newBal, hnew⟩, ?_⟩
    show (okOr _ (newBalance _ deltaIn deltaOut) >>= _) = _
    rw [hnew]
    rfl
  | none =>
    refine .inr ⟨fun hcovered => ?_, (amountOrNext b.accin.ast b.assetId).2, deltaIn, deltaOut, ?_⟩
    · obtain ⟨newBal, hsome⟩ := hbalance.mpr hcovered
      rw [hnew] at hsome
      cases hsome
    · show (okOr _ (newBalance _ deltaIn deltaOut) >>= _) = _
      rw [hnew]
      rfl

variable (newBal) in
/-- The output account exists exactly if the asset tree takes the asset. -/
theorem accout_iff {ds : List HashOut} (hm : b.accin.ast.Mirrors perm ds) :
    (∃ accout, b.accout perm newBal = .ok accout) ↔
      b.assetId ≠ 0 ∧
        (b.assetId ∈ b.accin.ast.assets ∨ b.accin.ast.tree.numLeaves < 2 ^ ACC_AST_DEPTH) := by
  rw [hm.numLeaves, ← @Mirrors.insertOrUpdateAsset_iff perm _ ds b.assetId newBal hm]
  constructor
  · rintro ⟨accout, h⟩
    obtain ⟨updated, hupdated, -⟩ := bind_eq_ok.mp h
    exact ⟨updated, hupdated⟩
  · rintro ⟨updated, hupdated⟩
    exact ⟨_, bind_eq_ok.mpr ⟨updated, hupdated, rfl⟩⟩

/-- What the output account is. -/
theorem accout_spec {ds : List HashOut} {accout : StandardAccount}
    (hm : b.accin.ast.Mirrors perm ds) (h : b.accout perm newBal = .ok accout) :
    (∃ i, accout.ast.amountFor b.assetId = some (i, newBal)) ∧
      (∃ r, accout.ast.root perm = .ok r) ∧ accout.consumeAuth = b.accin.consumeAuth := by
  obtain ⟨⟨ast', prev⟩, hupdated, haccout⟩ := bind_eq_ok.mp h
  obtain ⟨i, ds', -, -, hamount, -, hm', -⟩ := hm.insertOrUpdateAsset hupdated
  rw [← pure_eq_ok.mp haccout]
  exact ⟨⟨i, hamount⟩, ⟨_, hm'.root⟩, rfl⟩

/-- An asset the tree does not take is a panic. -/
theorem finish_refused {ds : List HashOut} (hm : b.accin.ast.Mirrors perm ds)
    (h : ¬ (b.assetId ≠ 0 ∧
      (b.assetId ∈ b.accin.ast.assets ∨ b.accin.ast.tree.numLeaves < 2 ^ ACC_AST_DEPTH))) :
    b.finish perm newBal = .error .panic := by
  rcases orPanic_cases (b.accout perm newBal) with hok | ⟨-, hpanic⟩
  · exact absurd ((accout_iff newBal hm).mp hok) h
  · rw [SpendTxBuilder.finish, hpanic]
    rfl

theorem finish_unfilled {accout : StandardAccount} (haccout : b.accout perm newBal = .ok accout)
    (h : ¬ b.Filled) : ∃ kind, b.finish perm newBal = .error (.dummyNotesNotFilled kind) := by
  unfold SpendTxBuilder.finish
  rw [haccout]
  cases hin : b.dinotes with
  | none => exact ⟨"input", rfl⟩
  | some dinotes =>
    cases hout : b.donotes with
    | none => exact ⟨"output", rfl⟩
    | some donotes => exact absurd ⟨by rw [hin]; exact Option.some_ne_none _,
        by rw [hout]; exact Option.some_ne_none _⟩ h

/-- With enough seeds all slots are filled. -/
theorem Grown.slots_ok (hb : Grown perm accin assetId cs b) {dinotes donotes : List HashOut}
    (hin : b.dinotes = some dinotes) (hout : b.donotes = some donotes) (accout : StandardAccount) :
    ∃ slots, b.slots accout dinotes donotes = .ok slots ∧ slots.accin = accin ∧
      slots.accout = accout ∧
      ∀ i, inoteSlot b.rejectedNotes b.inputNotes dinotes i.val = .ok (slots.inotes i) := by
  obtain ⟨inotes, hinotes⟩ := collect_iff.mpr (inoteSlot_ok (hb.dinotes _ hin).1)
  obtain ⟨onotes, honotes⟩ := collect_iff.mpr (onoteSlot_ok (hb.donotes _ hout).1)
  refine ⟨⟨accin, accout, inotes, onotes⟩, ?_, rfl, rfl, collect_apply hinotes⟩
  rw [← hb.account]
  exact bind_eq_ok.mpr ⟨inotes, hinotes, bind_eq_ok.mpr ⟨onotes, honotes, rfl⟩⟩

/-- The hash needs the consume key of the account and positions below the order. -/
theorem txHash_iff {slots : Client.BuiltPrivTx} (hin : ∃ r, slots.accin.ast.root perm = .ok r)
    (hout : ∃ r, slots.accout.ast.root perm = .ok r)
    (hkey : slots.accout.consumeAuth = slots.accin.consumeAuth) :
    (∃ h, slots.txHash perm = .ok h) ↔ slots.accin.consumeAuth.KeySet ∧
      ∀ i note position, slots.inotes i = .active note position → position < ORDER := by
  have hnulls : (∃ nulls, (collect fun i =>
      (slots.inotes i).nullifier perm (slots.accin.nk perm)) = .ok nulls) ↔
      ∀ i note position, slots.inotes i = .active note position → position < ORDER :=
    collect_iff.trans (forall_congr' fun i => inoteSlot_nullifier_iff)
  rw [← hnulls]
  constructor
  · rintro ⟨h, hhash⟩
    obtain ⟨nulls, hnulls, hhash⟩ := bind_eq_ok.mp hhash
    obtain ⟨n, hn, -⟩ := bind_eq_ok.mp hhash
    exact ⟨(nullifier_iff hin).mp ⟨n, hn⟩, nulls, hnulls⟩
  · rintro ⟨hset, nulls, hnulls⟩
    obtain ⟨n, hn⟩ := (nullifier_iff hin).mpr hset
    obtain ⟨c, hc⟩ := (commitment_iff hout).mpr (hkey ▸ hset)
    exact ⟨_, bind_eq_ok.mpr ⟨nulls, hnulls, bind_eq_ok.mpr ⟨n, hn, bind_eq_ok.mpr ⟨c, hc, rfl⟩⟩⟩⟩

/-- Filled builders end in a transaction or in a panic over the digests. -/
theorem Grown.finish_filled {ds : List HashOut} {accout : StandardAccount}
    (hb : Grown perm accin assetId cs b) (hm : b.accin.ast.Mirrors perm ds)
    (haccout : b.accout perm newBal = .ok accout) (h : b.Filled) :
    (b.accin.consumeAuth.KeySet ∧ (∀ note ∈ b.rejectedNotes ++ b.inputNotes, note.2 < ORDER) ∧
      ∃ tx, b.finish perm newBal = .ok tx ∧ tx.accout = accout) ∨
    (¬ (b.accin.consumeAuth.KeySet ∧
        ∀ note ∈ b.rejectedNotes ++ b.inputNotes, note.2 < ORDER) ∧
      b.finish perm newBal = .error .panic) := by
  obtain ⟨dinotes, hin⟩ := Option.ne_none_iff_exists'.mp h.1
  obtain ⟨donotes, hout⟩ := Option.ne_none_iff_exists'.mp h.2
  obtain ⟨slots, hslots, haccin, hslotsout, hinotes⟩ := hb.slots_ok hin hout accout
  obtain ⟨-, hroot, hkey⟩ := accout_spec hm haccout
  have hroom := hb.room
  have hpositions : (∀ i note position, slots.inotes i = .active note position → position < ORDER) ↔
      ∀ note ∈ b.rejectedNotes ++ b.inputNotes, note.2 < ORDER := by
    constructor
    · intro hslot note hnote
      obtain ⟨i, hi⟩ := @exists_inoteSlot _ _ dinotes (by omega) note hnote
      rw [hinotes] at hi
      exact hslot i note.1 note.2 (Except.ok.inj hi)
    · intro hall i note position hslot
      have hi := hinotes i
      rw [hslot] at hi
      exact hall _ (inoteSlot_active hi)
  have hhash := @txHash_iff perm slots (by rw [haccin, ← hb.account]; exact ⟨_, hm.root⟩)
    (by rw [hslotsout]; exact hroot) (by rw [hslotsout, haccin, hkey, hb.account])
  rw [haccin, ← hb.account, hpositions] at hhash
  unfold SpendTxBuilder.finish
  rw [haccout, hin, hout]
  rcases orPanic_cases (slots.txHash perm) with hok | ⟨hnone, hpanic⟩
  · obtain ⟨txHash, htxHash⟩ := hok
    obtain ⟨hset, hall⟩ := hhash.mp ⟨txHash, htxHash⟩
    refine .inl ⟨hset, hall, ?_⟩
    refine ⟨_, bind_eq_ok.mpr ⟨accout, rfl, bind_eq_ok.mpr ⟨dinotes, rfl, bind_eq_ok.mpr ⟨donotes, rfl,
      bind_eq_ok.mpr ⟨slots, orPanic_eq_ok.mpr hslots,
        bind_eq_ok.mpr ⟨txHash, orPanic_eq_ok.mpr htxHash, rfl⟩⟩⟩⟩⟩, rfl⟩
  · refine .inr ⟨fun hboth => hnone (hhash.mpr hboth), ?_⟩
    show (orPanic (b.slots accout dinotes donotes) >>= _) = _
    rw [hslots]
    show (orPanic (slots.txHash perm) >>= _) = _
    rw [hpanic]
    rfl

/-- A safe builder with notes and seeds whose outputs are covered is built. -/
theorem Grown.build_ok {ds : List HashOut} (hb : Grown perm accin assetId cs b)
    (hm : b.accin.ast.Mirrors perm ds) (hactive : b.Active) (hsafe : Safe b) (hcovered : b.Covered)
    (hfilled : b.Filled) : ∃ tx, b.build perm = .ok tx := by
  rcases build_settled perm hactive hsafe.inputs hsafe.outputs with
    ⟨newBal, -, -, hbuild⟩ | ⟨hcredit, -⟩
  · obtain ⟨accout, haccout⟩ := (accout_iff newBal hm).mpr (hsafe.asset hcovered)
    rcases hb.finish_filled hm haccout hfilled with ⟨-, -, tx, hfinish, -⟩ | ⟨hnot, -⟩
    · exact ⟨tx, hbuild.trans hfinish⟩
    · exact absurd ⟨hsafe.key hcovered hfilled, hsafe.positions hcovered hfilled⟩ hnot
  · exact absurd ⟨hsafe.credit hcovered, hcovered.1⟩ hcredit

/-- `build` is exact, unless the builder has notes and is not safe. -/
theorem Grown.exact_iff {ds : List HashOut} (hb : Grown perm accin assetId cs b)
    (hm : b.accin.ast.Mirrors perm ds) : Exact perm b ↔ (b.Active → Safe b) := by
  by_cases hactive : b.Active
  swap
  · have hbuild := build_inactive perm hactive
    refine ⟨fun _ h => absurd h hactive, fun _ => ⟨?_, ?_, fun _ => .inl hbuild⟩⟩
    · rw [hbuild]
      exact fun h => by cases h
    · rw [hbuild]
      refine ⟨fun ⟨_, _, _, h⟩ => (by cases h), fun h => absurd ?_ h⟩
      obtain ⟨hin, hout, -⟩ := not_not.mp hactive
      have hnone : b.inputs = 0 ∧ b.outputs = 0 := by
        rw [SpendTxBuilder.inputs, SpendTxBuilder.outputs, hin, hout]
        exact ⟨rfl, rfl⟩
      have hlt := (amountOrNext b.accin.ast b.assetId).2.isLt
      rw [SpendTxBuilder.Covered, hnone.1, hnone.2, SpendTxBuilder.balance]
      omega
  rw [forall_prop_of_true hactive]
  by_cases hsum : b.inputs < 2 ^ 256 ∧ b.outputs < 2 ^ 256
  swap
  · have hbuild := build_overflow perm hactive hsum
    exact ⟨fun h => absurd hbuild h.no_panic, fun h => absurd ⟨h.inputs, h.outputs⟩ hsum⟩
  rcases build_settled perm hactive hsum.1 hsum.2 with
    ⟨newBal, hnat, hcredit, hbuild⟩ | ⟨hcredit, oldBal, deltaIn, deltaOut, hbuild⟩
  swap
  · -- the balance is refused: rightly unless only the credit does not fit
    have hiff : Exact perm b ↔ ¬ b.Covered := by
      constructor
      · intro h
        exact h.refused.mp ⟨_, _, _, hbuild⟩
      · intro h
        refine ⟨?_, iff_of_true ⟨_, _, _, hbuild⟩ h, fun hcovered => absurd hcovered h⟩
        rw [hbuild]
        exact fun hpanic => by cases hpanic
    rw [hiff]
    constructor
    · intro h
      exact ⟨hsum.1, hsum.2, fun hc => absurd hc h, fun hc => absurd hc h, fun hc => absurd hc h,
        fun hc => absurd hc h⟩
    · intro h hcovered
      exact hcredit ⟨h.credit hcovered, hcovered.1⟩
  have hcovered : b.Covered := ⟨hcredit.2, by omega⟩
  have hrefused : ∀ {r : Except SpendTxBuilderError BuiltSpendTx}, b.build perm = r →
      (∀ oldBal deltaIn deltaOut, r ≠ .error (.insufficientBalance oldBal deltaIn deltaOut)) →
      ((∃ oldBal deltaIn deltaOut,
        b.build perm = .error (.insufficientBalance oldBal deltaIn deltaOut)) ↔ ¬ b.Covered) := by
    rintro r rfl hr
    exact iff_of_false (fun ⟨_, _, _, h⟩ => hr _ _ _ h) (not_not_intro hcovered)
  by_cases hasset : b.assetId ≠ 0 ∧
      (b.assetId ∈ b.accin.ast.assets ∨ b.accin.ast.tree.numLeaves < 2 ^ ACC_AST_DEPTH)
  swap
  · have hpanic := hbuild.trans (finish_refused hm hasset)
    exact ⟨fun h => absurd hpanic h.no_panic, fun h => absurd (h.asset hcovered) hasset⟩
  obtain ⟨accout, haccout⟩ := (accout_iff newBal hm).mpr hasset
  by_cases hfilled : b.Filled
  swap
  · obtain ⟨kind, hfinish⟩ := finish_unfilled haccout hfilled
    have hunfilled := hbuild.trans hfinish
    refine iff_of_true ⟨?_, hrefused hunfilled fun _ _ _ h => (by cases h),
      fun _ => .inr (.inl ⟨kind, hunfilled⟩)⟩ ⟨hsum.1, hsum.2, fun _ => hcredit.1, fun _ => hasset,
        fun _ h => absurd h hfilled, fun _ h => absurd h hfilled⟩
    rw [hunfilled]
    exact fun h => by cases h
  rcases hb.finish_filled hm haccout hfilled with ⟨hset, hpos, tx, hfinish, htx⟩ | ⟨hnot, hpanic⟩
  · have hok := hbuild.trans hfinish
    obtain ⟨⟨i, hamount⟩, -, -⟩ := accout_spec hm haccout
    refine iff_of_true ⟨?_, hrefused hok fun _ _ _ h => (by cases h),
      fun _ => .inr (.inr ⟨tx, hok, i, newBal, by rw [htx]; exact hamount, hnat⟩)⟩
      ⟨hsum.1, hsum.2, fun _ => hcredit.1, fun _ => hasset, fun _ _ => hset, fun _ _ => hpos⟩
    rw [hok]
    exact fun h => by cases h
  · have hpanic := hbuild.trans hpanic
    exact ⟨fun h => absurd hpanic h.no_panic,
      fun h => absurd ⟨h.key hcovered hfilled, h.positions hcovered hfilled⟩ hnot⟩

end Outcome

/-! ## Payments -/

section Payments

/-- One output note for each amount, then the seeds. -/
def payments (amounts : List U256) : List SpendCall :=
  amounts.map (fun amount => .addOutputNote .default amount 0) ++
    [.fillDinotes fun _ => 0, .fillDonotes fun _ => 0]

variable (perm) in
def payment (self : SpendTxBuilder) (amount : U256) : StandardNote where
  identifier := 0
  assetId := self.assetId
  amt := amount
  recipient := .default
  sender := self.accin.address perm

theorem calls_outputs (amounts : List U256) {b : SpendTxBuilder} (hrejected : b.rejectedNotes = [])
    (hroom : b.outputNotes.length + amounts.length ≤ NOTE_BATCH) :
    b.calls perm (amounts.map fun amount => .addOutputNote .default amount 0) =
      .ok { b with outputNotes := b.outputNotes ++ amounts.map (payment perm b) } := by
  induction amounts generalizing b with
  | nil =>
    rw [List.map_nil, List.map_nil, List.append_nil]
    rfl
  | cons amount amounts ih =>
    rw [List.length_cons] at hroom
    have hstep : b.call perm (.addOutputNote .default amount 0) =
        .ok { b with outputNotes := b.outputNotes ++ [payment perm b amount] } := by
      refine if_neg ?_
      rw [hrejected, List.length_nil]
      omega
    have hrest := @ih { b with outputNotes := b.outputNotes ++ [payment perm b amount] } hrejected
      (by rw [List.length_append, List.length_singleton]; omega)
    have happend : b.outputNotes ++ [payment perm b amount] ++ amounts.map (payment perm b) =
        b.outputNotes ++ (amount :: amounts).map (payment perm b) := by
      rw [List.append_assoc]
      rfl
    refine bind_eq_ok.mpr ⟨_, hstep, hrest.trans ?_⟩
    rw [← happend]
    rfl

variable (perm) in
/-- The builder after such calls. -/
structure Paid (acc : StandardAccount) (assetId : F) (amounts : List U256) (b₀ b : SpendTxBuilder) :
    Prop where
  new : SpendTxBuilder.new acc assetId = .ok b₀
  calls : b₀.calls perm (payments amounts) = .ok b
  account : b.accin = acc
  asset : b.assetId = assetId
  notes : b.rejectedNotes = [] ∧ b.inputNotes = []
  outputs : b.outputs = total amounts
  filled : b.Filled

theorem payments_run {acc : StandardAccount} (hnonce : acc.nonce ≠ 0) (assetId : F)
    {amounts : List U256} (hroom : amounts.length ≤ NOTE_BATCH) :
    ∃ b₀ b, Paid perm acc assetId amounts b₀ b := by
  have hnew : SpendTxBuilder.new acc assetId = .ok ⟨acc, assetId, [], [], [], none, none⟩ :=
    if_neg hnonce
  have houts := @calls_outputs perm amounts ⟨acc, assetId, [], [], [], none, none⟩ rfl
    (by rw [List.length_nil, Nat.zero_add]; exact hroom)
  refine ⟨_, ((SpendTxBuilder.mk acc assetId [] (amounts.map (payment perm
    ⟨acc, assetId, [], [], [], none, none⟩)) [] none none).fillDinotes fun _ => 0).fillDonotes
      fun _ => 0, hnew, ?_, rfl, rfl, ⟨rfl, rfl⟩, ?_,
    ⟨Option.some_ne_none _, Option.some_ne_none _⟩⟩
  · rw [SpendTxBuilder.calls, payments, List.foldlM_append]
    exact bind_eq_ok.mpr ⟨_, houts, rfl⟩
  · show total ((amounts.map _).map fun note : StandardNote => note.amt) = total amounts
    rw [List.map_map]
    exact congrArg total (List.map_id _)

/-- A new account after its first transaction. -/
theorem exists_active (perm : State → State) : ∃ acc : StandardAccount,
    AccountStateTree.new perm = .ok acc.ast ∧ acc.nonce ≠ 0 ∧ acc.consumeAuth = .default := by
  obtain ⟨ast, hnew⟩ := AccountStateTree.new_ok perm
  exact ⟨⟨0, 0, 1, .default, .default, ast⟩, hnew, one_ne_zero, rfl⟩

/-- A new tree knows the default asset alone. -/
theorem new_amountFor {ast : AccountStateTree} (hnew : AccountStateTree.new perm = .ok ast)
    {assetId : F} (hid : assetId ≠ 0) : ast.amountFor assetId = none := by
  have hm := AccountStateTree.new_eq_ok hnew
  rw [Option.eq_none_iff_forall_ne_some]
  rintro ⟨i, amount⟩ hlookup
  have hi := (List.getElem?_eq_some_iff.mp
    (hm.leaf ⟨assetId, (i, amount)⟩ (AList.mem_lookup_iff.mp hlookup))).1
  rw [List.length_singleton, Nat.lt_one_iff] at hi
  have hsame := hm.entry_unique (AList.mem_lookup_iff.mp hlookup)
    (AList.mem_lookup_iff.mp hm.default) hi
  exact hid (congrArg Sigma.fst hsame)

variable {acc : StandardAccount} {assetId : F} {amounts : List U256} {b₀ b : SpendTxBuilder}

theorem Paid.balance (hpaid : Paid perm acc assetId amounts b₀ b)
    (hnew : AccountStateTree.new perm = .ok acc.ast) (hid : assetId ≠ 0) :
    b.balance = 0 ∧ b.inputs = 0 := by
  rw [SpendTxBuilder.balance, SpendTxBuilder.inputs, hpaid.notes.2, hpaid.account, hpaid.asset,
    amountOrNext, new_amountFor hnew hid]
  exact ⟨rfl, rfl⟩

/-- Payments of nothing are safe. -/
theorem Paid.safe (hpaid : Paid perm acc assetId amounts b₀ b)
    (hnew : AccountStateTree.new perm = .ok acc.ast) (hid : assetId ≠ 0)
    (hauth : acc.consumeAuth = .default) (htotal : total amounts = 0) : Safe b ∧ b.Covered := by
  obtain ⟨hbalance, hinputs⟩ := hpaid.balance hnew hid
  have houtputs := hpaid.outputs.trans htotal
  have hm := AccountStateTree.new_eq_ok hnew
  refine ⟨⟨by omega, by omega, fun _ => by omega, fun _ => ?_, fun _ _ => ?_, fun _ _ => ?_⟩,
    by rw [SpendTxBuilder.Covered]; omega⟩
  · rw [hpaid.asset, hpaid.account, hm.numLeaves, List.length_singleton]
    exact ⟨hid, .inr (by decide)⟩
  · rw [hpaid.account, hauth]
    exact fun h => absurd h Bool.false_ne_true
  · rw [hpaid.notes.1, hpaid.notes.2]
    exact fun note hnote => absurd hnote List.not_mem_nil

end Payments

/-- The calls after which `build` is total and exact: without notes, or with sums and a credit of
at most 256 bits, an asset the tree takes, a consume key where it is needed and positions below
the order. -/
theorem spend_build_exact (perm : State → State) {accin : StandardAccount} {assetId : F}
    {cs : List SpendCall} {b₀ b : SpendTxBuilder} (hast : accin.ast.Reachable perm)
    (hnew : SpendTxBuilder.new accin assetId = .ok b₀) (hcalls : b₀.calls perm cs = .ok b) :
    Exact perm b ↔ (b.Active → Safe b) := by
  have hb : Grown perm accin assetId cs b := (grown_new hnew).calls hcalls
  obtain ⟨ds, hm⟩ := hast.mirrors
  rw [← hb.account] at hm
  exact hb.exact_iff hm

/-- A payment of nothing. -/
theorem spend_build_exact_payment : ∃ acc b₀ b, acc.ast.Reachable id ∧
    SpendTxBuilder.new acc 1 = .ok b₀ ∧ b₀.calls id (payments [0]) = .ok b ∧ Exact id b := by
  obtain ⟨acc, hnew, hnonce, hauth⟩ := exists_active id
  obtain ⟨b₀, b, hpaid⟩ := @payments_run id acc hnonce 1 [0] (by decide)
  refine ⟨acc, b₀, b, .new hnew, hpaid.new, hpaid.calls, ?_⟩
  exact (spend_build_exact id (.new hnew) hpaid.new hpaid.calls).mpr fun _ =>
    (hpaid.safe hnew one_ne_zero hauth rfl).1

/-- Two payments of `2^255` from an account without the asset panic instead of being refused. -/
theorem spend_build_panics : ∃ acc b₀ b, acc.ast.Reachable id ∧
    SpendTxBuilder.new acc 1 = .ok b₀ ∧
    b₀.calls id (payments [BitVec.ofNat 256 (2 ^ 255), BitVec.ofNat 256 (2 ^ 255)]) = .ok b ∧
    ¬ b.Covered ∧ b.build id = .error .panic ∧ ¬ Exact id b := by
  obtain ⟨acc, hnew, hnonce, hauth⟩ := exists_active id
  obtain ⟨b₀, b, hpaid⟩ := @payments_run id acc hnonce 1
    [BitVec.ofNat 256 (2 ^ 255), BitVec.ofNat 256 (2 ^ 255)] (by decide)
  obtain ⟨hbalance, hinputs⟩ := hpaid.balance hnew one_ne_zero
  have houtputs : b.outputs = 2 ^ 256 := hpaid.outputs.trans (by decide)
  have hactive : b.Active := by
    rintro ⟨-, hout, -⟩
    rw [SpendTxBuilder.outputs, hout] at houtputs
    exact absurd houtputs (by decide)
  have hpanic := build_overflow id hactive fun hsum => absurd hsum.2 (by omega)
  refine ⟨acc, b₀, b, .new hnew, hpaid.new, hpaid.calls, fun hcovered => ?_, hpanic,
    fun hexact => hexact.no_panic hpanic⟩
  have hle := hcovered.1
  omega

end Doxa.Client.Spend
