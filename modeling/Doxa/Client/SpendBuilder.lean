import Doxa.Client.AssetTree
import Doxa.Client.Note
import Doxa.Curve.Schnorr
import Doxa.Trees.Proof

/-!
# The builder of a spend

Calls add notes to a builder and draw the seeds of the dummy notes, then `build` derives the
output account and the transaction hash. Each call checks its own limit, and `Grown` collects what
a sequence of successful calls says about the builder. The number of seeds is that of the free
slots at the time of the call that draws them: notes that are added later leave too many seeds
(`LastFill`), which `build` does not notice.
-/

namespace Doxa.Client.Spend

open Lib Circuit Trees
open Contract (U256)

/-- The errors of the builder; `panic` is a failed `unwrap`, an overflow or an index out of bounds. -/
inductive SpendTxBuilderError
  | accountNotInitialized
  | noteBatchLimitReached (kind : String) (limit : ℕ)
  | assetMismatch (expected got : F)
  | recipientMismatch
  | noActiveNotes
  | insufficientBalance (oldBalance deltaIn deltaOut : U256)
  | dummyNotesNotFilled (kind : String)
  | accountPathNotSet
  | notePathsNotSet
  | subpoolProofNotSet
  | panic
  deriving DecidableEq

def orPanic {α : Type} : Except Failure α → Except SpendTxBuilderError α
  | .ok a => .ok a
  | .error _ => .error .panic

/-- `ok_or`. -/
def okOr {α : Type} (e : SpendTxBuilderError) : Option α → Except SpendTxBuilderError α
  | some a => .ok a
  | none => .error e

structure SpendTxBuilder where
  accin : StandardAccount
  assetId : F
  inputNotes : List (StandardNote × ℕ)
  outputNotes : List StandardNote
  rejectedNotes : List (StandardNote × ℕ)
  dinotes : Option (List HashOut)
  donotes : Option (List HashOut)

structure SubpoolFullProof where
  approvalKey : CompressedPublicKey
  mainPoolProof : MerkleProof HashOut

/-- The validated transaction, with the proofs and signatures attached so far. -/
structure BuiltSpendTx where
  accin : StandardAccount
  accout : StandardAccount
  rejectedInotes : List (StandardNote × ℕ)
  inotes : List (StandardNote × ℕ)
  onotes : List StandardNote
  dinotes : List HashOut
  donotes : List HashOut
  txHash : HashOut
  accinProof : Option (MerkleProof HashOut)
  inotesNctProofs : Option (List (MerkleProof HashOut))
  rejectedInotesNctProofs : Option (List (MerkleProof HashOut))
  subpoolProof : Option SubpoolFullProof
  spendSig : Option Signature
  consumeSig : Option Signature
  approvalSig : Option Signature

/-! ## Slots -/

/-- A rejected note goes back to its sender. -/
def reject (inote : StandardNote) : StandardNote := { inote with recipient := inote.sender }

/-- `xs[i]`. -/
def at? {α : Type} (xs : List α) (i : ℕ) : Except Failure α :=
  match xs[i]? with
  | some x => .ok x
  | none => .error .panic

/-- The first `nFirst` slots, the next `nSecond` ones and the dummies after them. -/
def bySlot {α : Type} (nFirst nSecond i : ℕ) (first second dummy : ℕ → α) : α :=
  if i < nFirst then first i
  else if i - nFirst < nSecond then second (i - nFirst)
  else dummy (i - nFirst - nSecond)

/-- Input slot `i`: rejected notes, then input notes, then dummies. -/
def inoteSlot (rejected inotes : List (StandardNote × ℕ)) (dinotes : List HashOut) (i : ℕ) :
    Except Failure InoteSlot :=
  bySlot rejected.length inotes.length i
    (fun k => do
      let note ← at? rejected k
      return .active note.1 note.2)
    (fun k => do
      let note ← at? inotes k
      return .active note.1 note.2)
    (fun k => do
      let seed ← at? dinotes k
      return .dummy seed)

/-- Output slot `i`. -/
def onoteSlot (rejected : List (StandardNote × ℕ)) (onotes : List StandardNote)
    (donotes : List HashOut) (i : ℕ) : Except Failure OnoteSlot :=
  bySlot rejected.length onotes.length i
    (fun k => do
      let note ← at? rejected k
      return .active (reject note.1))
    (fun k => do
      let note ← at? onotes k
      return .active note)
    (fun k => do
      let seed ← at? donotes k
      return .dummy seed)

theorem at?_eq_ok {α : Type} {xs : List α} {i : ℕ} {x : α} (h : xs[i]? = some x) :
    at? xs i = .ok x := by
  simp only [at?, h]

section BySlot

variable {α : Type} {nFirst nSecond i : ℕ} {first second dummy : ℕ → α}

theorem bySlot_first (h : i < nFirst) : bySlot nFirst nSecond i first second dummy = first i :=
  if_pos h

theorem bySlot_second (h : nFirst ≤ i) (hsecond : i - nFirst < nSecond) :
    bySlot nFirst nSecond i first second dummy = second (i - nFirst) := by
  rw [bySlot, if_neg (Nat.not_lt.mpr h), if_pos hsecond]

theorem bySlot_dummy (h : nFirst + nSecond ≤ i) :
    bySlot nFirst nSecond i first second dummy = dummy (i - nFirst - nSecond) := by
  rw [bySlot, if_neg (by omega), if_neg (by omega)]

/-- A slot holds either kind of notes or is free. -/
theorem slot_cases (nFirst nSecond i : ℕ) :
    i < nFirst ∨ (nFirst ≤ i ∧ i - nFirst < nSecond) ∨ nFirst + nSecond ≤ i := by
  omega

end BySlot

/-! ## The builder -/

variable (perm : State → State)

/-- `+`, which panics on overflow. -/
def addAmount (a b : U256) : Except SpendTxBuilderError U256 :=
  if a.toNat + b.toNat < 2 ^ 256 then .ok (a + b) else .error .panic

def sumAmounts (amounts : List U256) : Except SpendTxBuilderError U256 := amounts.foldlM addAmount 0

/-- `old_bal.checked_add(delta_in)` and then `checked_sub(delta_out)`. -/
def newBalance (oldBal deltaIn deltaOut : U256) : Option U256 :=
  if oldBal.toNat + deltaIn.toNat < 2 ^ 256 then
    if deltaOut.toNat ≤ oldBal.toNat + deltaIn.toNat then some (oldBal + deltaIn - deltaOut) else none
  else none

/-- The leaf index and the amount of an asset, or the next free leaf and nothing. -/
def amountOrNext (ast : AccountStateTree) (assetId : F) : ℕ × U256 :=
  (ast.amountFor assetId).getD (ast.tree.numLeaves, 0)

namespace SpendTxBuilder

def new (accin : StandardAccount) (assetId : F) : Except SpendTxBuilderError SpendTxBuilder :=
  if accin.nonce = 0 then .error .accountNotInitialized
  else .ok {
    accin := accin
    assetId := assetId
    inputNotes := []
    outputNotes := []
    rejectedNotes := []
    dinotes := none
    donotes := none }

variable (self : SpendTxBuilder)

def addInputNote (note : StandardNote) (position : ℕ) : Except SpendTxBuilderError SpendTxBuilder :=
  if self.rejectedNotes.length + self.inputNotes.length + 1 > NOTE_BATCH then
    .error (.noteBatchLimitReached "input" NOTE_BATCH)
  else if note.assetId ≠ self.assetId then .error (.assetMismatch self.assetId note.assetId)
  else if note.recipient ≠ self.accin.address perm then .error .recipientMismatch
  else .ok { self with inputNotes := self.inputNotes ++ [(note, position)] }

/-- `add_output_note`; the identifier is drawn from the generator. -/
def addOutputNote (recipient : AccountAddress) (amount : U256) (identifier : Fin 2 → F) :
    Except SpendTxBuilderError SpendTxBuilder :=
  if self.rejectedNotes.length + self.outputNotes.length + 1 > NOTE_BATCH then
    .error (.noteBatchLimitReached "output" NOTE_BATCH)
  else .ok { self with
    outputNotes := self.outputNotes ++ [{
      identifier := identifier
      assetId := self.assetId
      amt := amount
      recipient := recipient
      sender := self.accin.address perm }] }

def addRejectedNote (note : StandardNote) (position : ℕ) :
    Except SpendTxBuilderError SpendTxBuilder :=
  if self.rejectedNotes.length + 1 + max self.inputNotes.length self.outputNotes.length >
      NOTE_BATCH then
    .error (.noteBatchLimitReached "rejected" NOTE_BATCH)
  else if note.assetId ≠ self.assetId then .error (.assetMismatch self.assetId note.assetId)
  else if note.recipient ≠ self.accin.address perm then .error .recipientMismatch
  else .ok { self with rejectedNotes := self.rejectedNotes ++ [(note, position)] }

def fillDinotes (seeds : ℕ → HashOut) : SpendTxBuilder :=
  { self with
    dinotes := some ((List.range
      (NOTE_BATCH - self.inputNotes.length - self.rejectedNotes.length)).map seeds) }

def fillDonotes (seeds : ℕ → HashOut) : SpendTxBuilder :=
  { self with
    donotes := some ((List.range
      (NOTE_BATCH - self.outputNotes.length - self.rejectedNotes.length)).map seeds) }

/-- What the builder hashes. -/
def slots (accout : StandardAccount) (dinotes donotes : List HashOut) :
    Except Failure Client.BuiltPrivTx := do
  let inotes ← collect fun i : Fin NOTE_BATCH =>
    inoteSlot self.rejectedNotes self.inputNotes dinotes i.val
  let onotes ← collect fun i : Fin NOTE_BATCH =>
    onoteSlot self.rejectedNotes self.outputNotes donotes i.val
  return { accin := self.accin, accout := accout, inotes := inotes, onotes := onotes }

/-- The output account: the next nonce and the new balance. -/
def accout (newBal : U256) : Except Failure StandardAccount := do
  let updated ← self.accin.ast.insertOrUpdateAsset perm self.assetId newBal
  return { self.accin.cloneWithIncrementedNonce with ast := updated.1 }

def build : Except SpendTxBuilderError BuiltSpendTx := do
  revertIf (self.inputNotes = [] ∧ self.outputNotes = [] ∧ self.rejectedNotes = []) .noActiveNotes
  let deltaIn ← sumAmounts (self.inputNotes.map fun note => note.1.amt)
  let deltaOut ← sumAmounts (self.outputNotes.map fun note => note.amt)
  let oldBal := (amountOrNext self.accin.ast self.assetId).2
  let newBal ← okOr (.insufficientBalance oldBal deltaIn deltaOut)
    (newBalance oldBal deltaIn deltaOut)
  let accout ← orPanic (self.accout perm newBal)
  let dinotes ← okOr (.dummyNotesNotFilled "input") self.dinotes
  let donotes ← okOr (.dummyNotesNotFilled "output") self.donotes
  let slots ← orPanic (self.slots accout dinotes donotes)
  let txHash ← orPanic (slots.txHash perm)
  return {
    accin := self.accin
    accout := accout
    rejectedInotes := self.rejectedNotes
    inotes := self.inputNotes
    onotes := self.outputNotes
    dinotes := dinotes
    donotes := donotes
    txHash := txHash
    accinProof := none
    inotesNctProofs := none
    rejectedInotesNctProofs := none
    subpoolProof := none
    spendSig := none
    consumeSig := none
    approvalSig := none }

end SpendTxBuilder

/-! ## Calls -/

/-- A call on the builder, with what it draws from its generator. -/
inductive SpendCall
  | addInputNote (note : StandardNote) (position : ℕ)
  | addOutputNote (recipient : AccountAddress) (amount : U256) (identifier : Fin 2 → F)
  | addRejectedNote (note : StandardNote) (position : ℕ)
  | fillDinotes (seeds : ℕ → HashOut)
  | fillDonotes (seeds : ℕ → HashOut)

def SpendTxBuilder.call (self : SpendTxBuilder) : SpendCall → Except SpendTxBuilderError SpendTxBuilder
  | .addInputNote note position => self.addInputNote perm note position
  | .addOutputNote recipient amount identifier => self.addOutputNote perm recipient amount identifier
  | .addRejectedNote note position => self.addRejectedNote perm note position
  | .fillDinotes seeds => .ok (self.fillDinotes seeds)
  | .fillDonotes seeds => .ok (self.fillDonotes seeds)

/-- The calls one after the other, up to the first error. -/
def SpendTxBuilder.calls (self : SpendTxBuilder) (cs : List SpendCall) :
    Except SpendTxBuilderError SpendTxBuilder := cs.foldlM (SpendTxBuilder.call perm) self

namespace SpendCall

def isInput : SpendCall → Bool
  | addInputNote _ _ => true
  | _ => false

def isOutput : SpendCall → Bool
  | addOutputNote _ _ _ => true
  | _ => false

def isRejected : SpendCall → Bool
  | addRejectedNote _ _ => true
  | _ => false

def fillsDinotes : SpendCall → Bool
  | fillDinotes _ => true
  | _ => false

def fillsDonotes : SpendCall → Bool
  | fillDonotes _ => true
  | _ => false

end SpendCall

/-- No call after the last one of `fills` is one of `adds`. -/
def LastFill (fills adds : SpendCall → Bool) (cs : List SpendCall) : Prop :=
  ∃ before fill after, cs = before ++ fill :: after ∧ fills fill = true ∧ ∀ c ∈ after, adds c = false

theorem lastFill_concat {fills adds : SpendCall → Bool} {cs : List SpendCall} {c : SpendCall} :
    LastFill fills adds (cs ++ [c]) ↔ fills c = true ∨ LastFill fills adds cs ∧ adds c = false := by
  constructor
  · rintro ⟨before, fill, after, hcs, hfill, hafter⟩
    rcases List.eq_nil_or_concat after with rfl | ⟨after, last, rfl⟩
    · obtain ⟨-, hlast⟩ := List.append_inj' hcs rfl
      rw [List.singleton_inj] at hlast
      rw [hlast]
      exact .inl hfill
    · rw [List.concat_eq_append, ← List.cons_append, ← List.append_assoc] at hcs
      obtain ⟨hinit, hlast⟩ := List.append_inj' hcs rfl
      rw [List.singleton_inj] at hlast
      rw [List.concat_eq_append] at hafter
      refine .inr ⟨⟨before, fill, after, hinit, hfill, fun d hd => ?_⟩, ?_⟩
      · exact hafter d (List.mem_append_left _ hd)
      · rw [hlast]
        exact hafter last (List.mem_append_right _ List.mem_cons_self)
  · rintro (hfill | ⟨⟨before, fill, after, rfl, hfill, hafter⟩, hadd⟩)
    · exact ⟨cs, c, [], rfl, hfill, fun d hd => absurd hd List.not_mem_nil⟩
    · refine ⟨before, fill, after ++ [c], by simp, hfill, fun d hd => ?_⟩
      rcases List.mem_append.mp hd with hd | hd
      · exact hafter d hd
      · rw [List.mem_singleton.mp hd]
        exact hadd

/-! ## What the calls leave -/

/-- Enough seeds for `free` slots, and no more exactly if `settled`. -/
def Seeds (seeds : Option (List HashOut)) (used : ℕ) (settled : Prop) : Prop :=
  ∀ l, seeds = some l →
    NOTE_BATCH ≤ l.length + used ∧ (l.length + used = NOTE_BATCH ↔ settled)

/-- The builder after the calls `cs` on a new one. -/
structure Grown (accin : StandardAccount) (assetId : F) (cs : List SpendCall)
    (b : SpendTxBuilder) : Prop where
  account : b.accin = accin
  asset_id : b.assetId = assetId
  inputs : b.inputNotes.length = cs.countP SpendCall.isInput
  outputs : b.outputNotes.length = cs.countP SpendCall.isOutput
  rejected : b.rejectedNotes.length = cs.countP SpendCall.isRejected
  room : b.rejectedNotes.length + max b.inputNotes.length b.outputNotes.length ≤ NOTE_BATCH
  inotes : ∀ note ∈ b.rejectedNotes ++ b.inputNotes,
    note.1.assetId = assetId ∧ note.1.recipient = accin.address perm
  onotes : ∀ note ∈ b.outputNotes, note.assetId = assetId
  dinotes : Seeds b.dinotes (b.inputNotes.length + b.rejectedNotes.length)
    (LastFill SpendCall.fillsDinotes (fun c => c.isInput || c.isRejected) cs)
  donotes : Seeds b.donotes (b.outputNotes.length + b.rejectedNotes.length)
    (LastFill SpendCall.fillsDonotes (fun c => c.isOutput || c.isRejected) cs)

section Seeds

variable {seeds : Option (List HashOut)} {used : ℕ} {fills adds : SpendCall → Bool}
  {cs : List SpendCall} {c : SpendCall}

/-- A call that draws the seeds. -/
theorem Seeds.fill (hfill : fills c = true) (draw : ℕ → HashOut) {free : ℕ}
    (hfree : free + used = NOTE_BATCH) :
    Seeds (some ((List.range free).map draw)) used (LastFill fills adds (cs ++ [c])) := by
  rintro l ⟨⟩
  rw [List.length_map, List.length_range, lastFill_concat]
  exact ⟨hfree.ge, fun _ => .inl hfill, fun _ => hfree⟩

/-- A call that uses another slot. -/
theorem Seeds.add (h : Seeds seeds used (LastFill fills adds cs)) (hfill : fills c = false)
    (hadd : adds c = true) : Seeds seeds (used + 1) (LastFill fills adds (cs ++ [c])) := by
  intro l hl
  obtain ⟨hle, -⟩ := h l hl
  rw [lastFill_concat, hfill, hadd]
  refine ⟨by omega, fun heq => by omega, fun hlast => ?_⟩
  rcases hlast with hlast | ⟨-, hlast⟩
  · cases hlast
  · cases hlast

/-- Any other call. -/
theorem Seeds.keep (h : Seeds seeds used (LastFill fills adds cs)) (hfill : fills c = false)
    (hadd : adds c = false) : Seeds seeds used (LastFill fills adds (cs ++ [c])) := by
  intro l hl
  rw [lastFill_concat, hfill, hadd]
  obtain ⟨hle, hiff⟩ := h l hl
  refine ⟨hle, hiff.trans ⟨fun hlast => .inr ⟨hlast, rfl⟩, fun hlast => ?_⟩⟩
  rcases hlast with hlast | ⟨hlast, -⟩
  · cases hlast
  · exact hlast

end Seeds

section Steps

variable {perm} {b b' : SpendTxBuilder} {note : StandardNote} {position : ℕ}
  {recipient : AccountAddress} {amount : U256} {identifier : Fin 2 → F}

theorem addInputNote_eq_ok (h : b.addInputNote perm note position = .ok b') :
    b.rejectedNotes.length + b.inputNotes.length + 1 ≤ NOTE_BATCH ∧ note.assetId = b.assetId ∧
      note.recipient = b.accin.address perm ∧
      b' = { b with inputNotes := b.inputNotes ++ [(note, position)] } := by
  unfold SpendTxBuilder.addInputNote at h
  split at h
  · cases h
  rename_i hlimit
  split at h
  · cases h
  rename_i hasset
  split at h
  · cases h
  rename_i hrecipient
  exact ⟨Nat.le_of_not_gt hlimit, not_not.mp hasset, not_not.mp hrecipient, (Except.ok.inj h).symm⟩

theorem addOutputNote_eq_ok (h : b.addOutputNote perm recipient amount identifier = .ok b') :
    b.rejectedNotes.length + b.outputNotes.length + 1 ≤ NOTE_BATCH ∧
      ∃ note : StandardNote, note.assetId = b.assetId ∧
        b' = { b with outputNotes := b.outputNotes ++ [note] } := by
  unfold SpendTxBuilder.addOutputNote at h
  split at h
  · cases h
  rename_i hlimit
  exact ⟨Nat.le_of_not_gt hlimit, _, rfl, (Except.ok.inj h).symm⟩

theorem addRejectedNote_eq_ok (h : b.addRejectedNote perm note position = .ok b') :
    b.rejectedNotes.length + 1 + max b.inputNotes.length b.outputNotes.length ≤ NOTE_BATCH ∧
      note.assetId = b.assetId ∧ note.recipient = b.accin.address perm ∧
      b' = { b with rejectedNotes := b.rejectedNotes ++ [(note, position)] } := by
  unfold SpendTxBuilder.addRejectedNote at h
  split at h
  · cases h
  rename_i hlimit
  split at h
  · cases h
  rename_i hasset
  split at h
  · cases h
  rename_i hrecipient
  exact ⟨Nat.le_of_not_gt hlimit, not_not.mp hasset, not_not.mp hrecipient, (Except.ok.inj h).symm⟩

variable {accin : StandardAccount} {assetId : F} {cs : List SpendCall}

theorem grown_new (h : SpendTxBuilder.new accin assetId = .ok b) : Grown perm accin assetId [] b := by
  unfold SpendTxBuilder.new at h
  split at h
  · cases h
  obtain rfl := Except.ok.inj h
  exact {
    account := rfl
    asset_id := rfl
    inputs := rfl
    outputs := rfl
    rejected := rfl
    room := Nat.zero_le _
    inotes := fun note hnote => absurd hnote List.not_mem_nil
    onotes := fun note hnote => absurd hnote List.not_mem_nil
    dinotes := fun l hl => by cases hl
    donotes := fun l hl => by cases hl }

/-- Another input note. -/
theorem Grown.addInputNote (hb : Grown perm accin assetId cs b)
    (h : b.addInputNote perm note position = .ok b') :
    Grown perm accin assetId (cs ++ [.addInputNote note position]) b' := by
  obtain ⟨hlimit, hasset, hrecipient, rfl⟩ := addInputNote_eq_ok h
  have hroom := hb.room
  have hlength : (b.inputNotes ++ [(note, position)]).length = b.inputNotes.length + 1 :=
    List.length_append
  refine {
    account := hb.account
    asset_id := hb.asset_id
    inputs := ?_
    outputs := ?_
    rejected := ?_
    room := ?_
    inotes := fun n hn => ?_
    onotes := hb.onotes
    dinotes := ?_
    donotes := ?_ }
  · rw [hlength, List.countP_append, ← hb.inputs]
    rfl
  · rw [List.countP_append, ← hb.outputs]
    rfl
  · rw [List.countP_append, ← hb.rejected]
    rfl
  · show b.rejectedNotes.length + max _ b.outputNotes.length ≤ NOTE_BATCH
    rw [hlength]
    omega
  · rw [← List.append_assoc] at hn
    rcases List.mem_append.mp hn with hn | hn
    · exact hb.inotes n hn
    · rw [List.mem_singleton.mp hn]
      exact ⟨hasset.trans hb.asset_id, by rw [hrecipient, hb.account]⟩
  · show Seeds b.dinotes (_ + b.rejectedNotes.length) _
    rw [hlength, Nat.add_right_comm]
    exact hb.dinotes.add rfl rfl
  · exact hb.donotes.keep rfl rfl

/-- Another output note. -/
theorem Grown.addOutputNote (hb : Grown perm accin assetId cs b)
    (h : b.addOutputNote perm recipient amount identifier = .ok b') :
    Grown perm accin assetId (cs ++ [.addOutputNote recipient amount identifier]) b' := by
  obtain ⟨hlimit, note, hasset, rfl⟩ := addOutputNote_eq_ok h
  have hroom := hb.room
  have hlength : (b.outputNotes ++ [note]).length = b.outputNotes.length + 1 := List.length_append
  refine {
    account := hb.account
    asset_id := hb.asset_id
    inputs := ?_
    outputs := ?_
    rejected := ?_
    room := ?_
    inotes := hb.inotes
    onotes := fun n hn => ?_
    dinotes := ?_
    donotes := ?_ }
  · rw [List.countP_append, ← hb.inputs]
    rfl
  · rw [hlength, List.countP_append, ← hb.outputs]
    rfl
  · rw [List.countP_append, ← hb.rejected]
    rfl
  · show b.rejectedNotes.length + max b.inputNotes.length _ ≤ NOTE_BATCH
    rw [hlength]
    omega
  · rcases List.mem_append.mp hn with hn | hn
    · exact hb.onotes n hn
    · rw [List.mem_singleton.mp hn]
      exact hasset.trans hb.asset_id
  · exact hb.dinotes.keep rfl rfl
  · show Seeds b.donotes (_ + b.rejectedNotes.length) _
    rw [hlength, Nat.add_right_comm]
    exact hb.donotes.add rfl rfl

/-- Another rejected note takes a slot on both sides. -/
theorem Grown.addRejectedNote (hb : Grown perm accin assetId cs b)
    (h : b.addRejectedNote perm note position = .ok b') :
    Grown perm accin assetId (cs ++ [.addRejectedNote note position]) b' := by
  obtain ⟨hlimit, hasset, hrecipient, rfl⟩ := addRejectedNote_eq_ok h
  have hlength : (b.rejectedNotes ++ [(note, position)]).length = b.rejectedNotes.length + 1 :=
    List.length_append
  refine {
    account := hb.account
    asset_id := hb.asset_id
    inputs := ?_
    outputs := ?_
    rejected := ?_
    room := ?_
    inotes := fun n hn => ?_
    onotes := hb.onotes
    dinotes := ?_
    donotes := ?_ }
  · rw [List.countP_append, ← hb.inputs]
    rfl
  · rw [List.countP_append, ← hb.outputs]
    rfl
  · rw [hlength, List.countP_append, ← hb.rejected]
    rfl
  · show _ + max b.inputNotes.length b.outputNotes.length ≤ NOTE_BATCH
    rw [hlength]
    exact hlimit
  · rcases List.mem_append.mp hn with hn | hn
    · rcases List.mem_append.mp hn with hn | hn
      · exact hb.inotes n (List.mem_append_left _ hn)
      · rw [List.mem_singleton.mp hn]
        exact ⟨hasset.trans hb.asset_id, by rw [hrecipient, hb.account]⟩
    · exact hb.inotes n (List.mem_append_right _ hn)
  · show Seeds b.dinotes (b.inputNotes.length + _) _
    rw [hlength, ← Nat.add_assoc]
    exact hb.dinotes.add rfl rfl
  · show Seeds b.donotes (b.outputNotes.length + _) _
    rw [hlength, ← Nat.add_assoc]
    exact hb.donotes.add rfl rfl

/-- New seeds of the dummy input notes. -/
theorem Grown.fillDinotes (hb : Grown perm accin assetId cs b) (seeds : ℕ → HashOut) :
    Grown perm accin assetId (cs ++ [.fillDinotes seeds]) (b.fillDinotes seeds) := by
  have hroom := hb.room
  refine { hb with inputs := ?_, outputs := ?_, rejected := ?_, dinotes := ?_, donotes := ?_ }
  · rw [List.countP_append, ← hb.inputs]
    rfl
  · rw [List.countP_append, ← hb.outputs]
    rfl
  · rw [List.countP_append, ← hb.rejected]
    rfl
  · refine Seeds.fill rfl seeds ?_
    show NOTE_BATCH - b.inputNotes.length - b.rejectedNotes.length +
      (b.inputNotes.length + b.rejectedNotes.length) = NOTE_BATCH
    omega
  · exact hb.donotes.keep rfl rfl

/-- New seeds of the dummy output notes. -/
theorem Grown.fillDonotes (hb : Grown perm accin assetId cs b) (seeds : ℕ → HashOut) :
    Grown perm accin assetId (cs ++ [.fillDonotes seeds]) (b.fillDonotes seeds) := by
  have hroom := hb.room
  refine { hb with inputs := ?_, outputs := ?_, rejected := ?_, dinotes := ?_, donotes := ?_ }
  · rw [List.countP_append, ← hb.inputs]
    rfl
  · rw [List.countP_append, ← hb.outputs]
    rfl
  · rw [List.countP_append, ← hb.rejected]
    rfl
  · exact hb.dinotes.keep rfl rfl
  · refine Seeds.fill rfl seeds ?_
    show NOTE_BATCH - b.outputNotes.length - b.rejectedNotes.length +
      (b.outputNotes.length + b.rejectedNotes.length) = NOTE_BATCH
    omega

theorem Grown.call (hb : Grown perm accin assetId cs b) {c : SpendCall}
    (h : b.call perm c = .ok b') : Grown perm accin assetId (cs ++ [c]) b' := by
  cases c with
  | addInputNote note position => exact hb.addInputNote h
  | addOutputNote recipient amount identifier => exact hb.addOutputNote h
  | addRejectedNote note position => exact hb.addRejectedNote h
  | fillDinotes seeds =>
    obtain rfl := Except.ok.inj h
    exact hb.fillDinotes seeds
  | fillDonotes seeds =>
    obtain rfl := Except.ok.inj h
    exact hb.fillDonotes seeds

theorem Grown.calls (hb : Grown perm accin assetId cs b) {cs' : List SpendCall}
    (h : b.calls perm cs' = .ok b') : Grown perm accin assetId (cs ++ cs') b' := by
  induction cs' generalizing cs b with
  | nil =>
    obtain rfl := Except.ok.inj h
    rwa [List.append_nil]
  | cons c cs' ih =>
    obtain ⟨b₁, hcall, hrest⟩ := bind_eq_ok.mp h
    have hgrown := ih (hb.call hcall) hrest
    rwa [List.append_assoc] at hgrown

end Steps

/-! ## What a successful build says -/

/-- The amounts of some notes. -/
def total (amounts : List U256) : ℕ := (amounts.map BitVec.toNat).sum

theorem orPanic_eq_ok {α : Type} {x : Except Failure α} {a : α} : orPanic x = .ok a ↔ x = .ok a := by
  cases x with
  | ok b => simp only [orPanic, Except.ok.injEq]
  | error e => simp only [orPanic, reduceCtorEq]

theorem okOr_eq_ok {α : Type} {e : SpendTxBuilderError} {x : Option α} {a : α} :
    okOr e x = .ok a ↔ x = some a := by
  cases x with
  | some b => simp only [okOr, Except.ok.injEq, Option.some.injEq]
  | none => simp only [okOr, reduceCtorEq]

theorem foldlM_sum {amounts : List U256} {a s : U256}
    (h : amounts.foldlM addAmount a = .ok s) : s.toNat = a.toNat + total amounts := by
  induction amounts generalizing a with
  | nil =>
    rw [← Except.ok.inj h]
    rfl
  | cons x amounts ih =>
    rw [List.foldlM_cons, bind_eq_ok] at h
    obtain ⟨a', ha', hrest⟩ := h
    unfold addAmount at ha'
    split at ha'
    · rename_i hlt
      rw [ih hrest, ← Except.ok.inj ha', BitVec.toNat_add, Nat.mod_eq_of_lt hlt, Nat.add_assoc]
      rfl
    · cases ha'

/-- A sum that does not panic is exact. -/
theorem sumAmounts_eq_ok {amounts : List U256} {s : U256} (h : sumAmounts amounts = .ok s) :
    s.toNat = total amounts :=
  (foldlM_sum h).trans (Nat.zero_add _)

theorem newBalance_eq_some {oldBal deltaIn deltaOut newBal : U256}
    (h : newBalance oldBal deltaIn deltaOut = some newBal) :
    newBal.toNat + deltaOut.toNat = oldBal.toNat + deltaIn.toNat := by
  unfold newBalance at h
  split at h
  · rename_i hadd
    split at h
    · rename_i hsub
      have hsum : (oldBal + deltaIn).toNat = oldBal.toNat + deltaIn.toNat := by
        rw [BitVec.toNat_add, Nat.mod_eq_of_lt hadd]
      rw [← Option.some.inj h, BitVec.toNat_sub_of_le (by rw [BitVec.le_def, hsum]; exact hsub), hsum]
      omega
    · cases h
  · cases h

variable {perm}

variable (perm) in
/-- What `build` has checked and derived. -/
structure Built (b : SpendTxBuilder) (tx : BuiltSpendTx) : Prop where
  active : ¬ (b.inputNotes = [] ∧ b.outputNotes = [] ∧ b.rejectedNotes = [])
  account : tx.accin = b.accin
  rejected_inotes : tx.rejectedInotes = b.rejectedNotes
  inotes : tx.inotes = b.inputNotes
  onotes : tx.onotes = b.outputNotes
  dinotes : b.dinotes = some tx.dinotes
  donotes : b.donotes = some tx.donotes
  balance : ∃ newBal : U256, b.accout perm newBal = .ok tx.accout ∧
    newBal.toNat + total (b.outputNotes.map fun note => note.amt) =
      (amountOrNext b.accin.ast b.assetId).2.toNat + total (b.inputNotes.map fun note => note.1.amt)
  hash : ∃ slots, b.slots tx.accout tx.dinotes tx.donotes = .ok slots ∧
    slots.txHash perm = .ok tx.txHash

theorem build_eq_ok {b : SpendTxBuilder} {tx : BuiltSpendTx} (h : b.build perm = .ok tx) :
    Built perm b tx := by
  unfold SpendTxBuilder.build at h
  obtain ⟨hactive, h⟩ := revertIf_bind_eq_ok.mp h
  obtain ⟨deltaIn, hin, h⟩ := bind_eq_ok.mp h
  obtain ⟨deltaOut, hout, h⟩ := bind_eq_ok.mp h
  obtain ⟨newBal, hnew, h⟩ := bind_eq_ok.mp h
  obtain ⟨accout, haccout, h⟩ := bind_eq_ok.mp h
  obtain ⟨dinotes, hdinotes, h⟩ := bind_eq_ok.mp h
  obtain ⟨donotes, hdonotes, h⟩ := bind_eq_ok.mp h
  obtain ⟨slots, hslots, h⟩ := bind_eq_ok.mp h
  obtain ⟨txHash, hhash, h⟩ := bind_eq_ok.mp h
  obtain rfl := pure_eq_ok.mp h
  have hbalance := newBalance_eq_some (okOr_eq_ok.mp hnew)
  rw [sumAmounts_eq_ok hin, sumAmounts_eq_ok hout] at hbalance
  exact {
    active := hactive
    account := rfl
    rejected_inotes := rfl
    inotes := rfl
    onotes := rfl
    dinotes := okOr_eq_ok.mp hdinotes
    donotes := okOr_eq_ok.mp hdonotes
    balance := ⟨newBal, orPanic_eq_ok.mp haccout, hbalance⟩
    hash := ⟨slots, orPanic_eq_ok.mp hslots, orPanic_eq_ok.mp hhash⟩ }

end Doxa.Client.Spend
