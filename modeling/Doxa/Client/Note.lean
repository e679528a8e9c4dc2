import Doxa.Client.Account

/-!
# Notes of the client

The two kinds of notes with their native digests, and the transaction hash a builder
computes from its slots: a slot holds a note or the seed of a dummy.
-/

namespace Doxa.Client

open Lib Circuit
open Contract (U256)

variable (perm : State → State)

structure DepositNote where
  identifier : Fin 2 → F
  recipient : AccountAddress
  amount : U256
  assetId : F

def DepositNote.commitment (self : DepositNote) : HashOut :=
  hashNoPad perm (List.ofFn self.identifier ++ [self.recipient.subpoolId] ++
    List.ofFn self.recipient.publicId ++ amountLimbs self.amount ++ [self.assetId])

structure StandardNote where
  identifier : Fin 2 → F
  assetId : F
  amt : U256
  recipient : AccountAddress
  sender : AccountAddress

namespace StandardNote

def commitment (self : StandardNote) : HashOut :=
  hashNoPad perm (List.ofFn self.identifier ++ amountLimbs self.amt ++ [self.assetId] ++
    [self.recipient.subpoolId] ++ List.ofFn self.recipient.publicId ++
    [self.sender.subpoolId] ++ List.ofFn self.sender.publicId)

def nullifier (self : StandardNote) (position : ℕ) (nk : HashOut) : Except Failure HashOut :=
  if position < ORDER then
    .ok (hashNoPad perm (List.ofFn (self.commitment perm) ++ [(position : F)] ++ List.ofFn nk))
  else .error (.error s!"position {position} exceeds field order")

end StandardNote

/-! ## Slots -/

/-- `double_hash_native`. -/
def doubleHashNative (elems : HashOut) : HashOut :=
  hashNoPad perm (List.ofFn (hashNoPad perm (List.ofFn elems)))

/-- An input slot: a note with its position in the state tree, or the seed of a dummy. -/
inductive InoteSlot
  | active (note : StandardNote) (position : ℕ)
  | dummy (seed : HashOut)

inductive OnoteSlot
  | active (note : StandardNote)
  | dummy (seed : HashOut)

/-- The nullifier of an input slot; that of a note is unwrapped. -/
def InoteSlot.nullifier (nk : HashOut) : InoteSlot → Except Failure HashOut
  | .active note position => unwrap (note.nullifier perm position nk)
  | .dummy seed => .ok (doubleHashNative perm seed)

def OnoteSlot.commitment : OnoteSlot → HashOut
  | .active note => note.commitment perm
  | .dummy seed => doubleHashNative perm seed

/-- `array::from_fn` of a fallible function. -/
def collect {α : Type} : {n : ℕ} → (Fin n → Except Failure α) → Except Failure (Fin n → α)
  | 0, _ => .ok Fin.elim0
  | _ + 1, f => do
    let x ← f 0
    let xs ← collect fun i => f i.succ
    return Fin.cons x xs

theorem collect_eq_ok {α : Type} {n : ℕ} {f : Fin n → Except Failure α} {g : Fin n → α}
    (h : ∀ i, f i = .ok (g i)) : collect f = .ok g := by
  induction n with
  | zero => exact congrArg Except.ok (funext fun i => i.elim0)
  | succ n ih =>
      rw [collect, h 0, ih fun i => h i.succ]
      exact congrArg Except.ok (Fin.cons_self_tail g)

theorem collect_apply {α : Type} {n : ℕ} {f : Fin n → Except Failure α} {g : Fin n → α}
    (h : collect f = .ok g) (i : Fin n) : f i = .ok (g i) := by
  induction n with
  | zero => exact i.elim0
  | succ n ih =>
    obtain ⟨x, hx, hrest⟩ := bind_eq_ok.mp h
    obtain ⟨xs, hxs, hg⟩ := bind_eq_ok.mp hrest
    rw [← pure_eq_ok.mp hg]
    refine Fin.cases hx (fun j => ?_) i
    exact ih hxs j

theorem collect_iff {α : Type} {n : ℕ} {f : Fin n → Except Failure α} :
    (∃ g, collect f = .ok g) ↔ ∀ i, ∃ x, f i = .ok x := by
  constructor
  · rintro ⟨g, hg⟩ i
    exact ⟨g i, collect_apply hg i⟩
  · intro h
    choose g hg using h
    exact ⟨g, collect_eq_ok hg⟩

/-- What a builder of private transactions hashes. -/
structure BuiltPrivTx where
  accin : StandardAccount
  accout : StandardAccount
  inotes : Fin NOTE_BATCH → InoteSlot
  onotes : Fin NOTE_BATCH → OnoteSlot

def BuiltPrivTx.txHash (self : BuiltPrivTx) : Except Failure HashOut := do
  let inotesNull ← collect fun i => (self.inotes i).nullifier perm (self.accin.nk perm)
  let accinNull ← self.accin.nullifier perm
  let accoutComm ← self.accout.commitment perm
  return derivePrivTxHash perm accinNull accoutComm inotesNull fun i => (self.onotes i).commitment perm

end Doxa.Client
