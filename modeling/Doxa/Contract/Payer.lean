import Doxa.Contract.Tokens
import Doxa.Circuit.Padding

/-!
# On whose authority a deposit is made

The contract together with the allowances its tokens keep for it: a deposit goes through
only if the payer lets the contract take the amount. The tokens may answer anything else.
Beside the state stand the amounts pulled (`Pull`), the deposits returned (`Return`) and
the bridge batches proven.

`depositAndRegisterFor` may be called by anybody and takes the payer as an argument, so the
sender of the call, not the payer, chooses the note commitment an allowance is spent on.
What the payer keeps is the right to have the deposit back until it is validated, and
`payer_authority` says that every pull ends in one of these two ways, for exactly the
commitment it was made for.
-/

namespace Doxa.Contract

open Lib Function

/-- An amount taken from `payer` by a call of `sender`. -/
structure Pull where
  sender : Address
  payer : Address
  token : Address
  note : Bytes32
  assetId : U256
  maxAmount : U256
  /-- What the contract received. -/
  value : U256

structure Return where
  sender : Address
  recipient : Address
  note : Bytes32
  value : U256
  deriving DecidableEq

structure PayerWorld where
  contract : ContractState
  /-- What each owner lets the contract take of each token. -/
  allowance : Address → Address → ℕ
  /-- All that an owner has ever approved of a token. -/
  approved : Address → Address → ℕ
  pulls : List Pull
  returns : List Return
  batches : List Bytes

inductive PayerOp
  | approve (token owner : Address) (amount : ℕ)
  | call (c : Call)

section Model

/-- `x` at one owner of one token. -/
def set₂ (f : Address → Address → ℕ) (token owner : Address) (x : ℕ) : Address → Address → ℕ :=
  update f token (update (f token) owner x)

/-- A transfer beyond the allowance of the payer fails. -/
def TokenReply.within (allowance : Address → Address → ℕ) (token payer : Address) (m : U256)
    (r : TokenReply) : TokenReply :=
  { r with ok := r.ok && decide (m.toNat ≤ allowance token payer) }

/-- The call with the answers of tokens that honour the allowances. -/
def honoured (allowance : Address → Address → ℕ) (s : ContractState) (ctx : Ctx) : Op → Op
  | .depositAndRegister n a m r =>
    .depositAndRegister n a m (r.within allowance (s.assetMap a) ctx.msgSender m)
  | .depositAndRegisterFor n payer a m r =>
    .depositAndRegisterFor n payer a m (r.within allowance (s.assetMap a) payer m)
  | op => op

/-- What a call pulls. -/
def pulledBy (s : ContractState) (c : Call) : Option Pull :=
  match c.op with
  | .depositAndRegister n a m r =>
    some ⟨c.ctx.msgSender, c.ctx.msgSender, s.assetMap a, n, a, m,
      r.balanceAfter - r.balanceBefore⟩
  | .depositAndRegisterFor n payer a m r =>
    some ⟨c.ctx.msgSender, payer, s.assetMap a, n, a, m, r.balanceAfter - r.balanceBefore⟩
  | _ => none

def returnedBy (s : ContractState) (c : Call) : List Return :=
  match c.op with
  | .withdrawPendingDeposit n _ =>
    [⟨c.ctx.msgSender, (s.deposits n).recipient, n, (s.deposits n).value⟩]
  | _ => []

def batchOf (c : Call) : List Bytes :=
  match c.op with
  | .proveBridgeTxBatch data _ => [data]
  | _ => []

def spend (allowance : Address → Address → ℕ) : Option Pull → Address → Address → ℕ
  | some p => set₂ allowance p.token p.payer (allowance p.token p.payer - p.maxAmount.toNat)
  | none => allowance

def payerStep (env : Env) (o : PayerOp) (w : PayerWorld) : Except Error PayerWorld :=
  match o with
  | .approve token owner amount =>
    .ok { w with
      allowance := set₂ w.allowance token owner amount
      approved := set₂ w.approved token owner (w.approved token owner + amount) }
  | .call c => do
    let s ← step env ⟨c.ctx, honoured w.allowance w.contract c.ctx c.op⟩ w.contract
    return { contract := s
             allowance := spend w.allowance (pulledBy w.contract c)
             approved := w.approved
             pulls := w.pulls ++ (pulledBy w.contract c).toList
             returns := w.returns ++ returnedBy w.contract c
             batches := w.batches ++ batchOf c }

/-- A deployed contract that nobody has approved yet. -/
def PayerWorld.start (s : ContractState) : PayerWorld :=
  ⟨s, fun _ _ => 0, fun _ _ => 0, [], [], []⟩

/-- The call by which a pull is made: one of the payer itself, or a delegated one that names
the payer. Either names the note commitment. -/
def MadeBy (p : Pull) (c : Call) : Prop :=
  c.ctx.msgSender = p.sender ∧
    ((p.payer = p.sender ∧ ∃ r, c.op = .depositAndRegister p.note p.assetId p.maxAmount r) ∨
      ∃ r, c.op = .depositAndRegisterFor p.note p.payer p.assetId p.maxAmount r)

/-- All that was pulled from one owner of a token. -/
def pulled (token owner : Address) (ps : List Pull) : ℕ :=
  (ps.map fun p => if p.token = token ∧ p.payer = owner then p.maxAmount.toNat else 0).sum

/-- A real slot of a proven batch names the note. -/
def Named (batches : List Bytes) (n : Bytes32) : Prop :=
  ∃ data ∈ batches, ∃ i, i < BRIDGE_TX_HALF_SIZE ∧ cdBool data (dSlotOff i) = true ∧
    noteKey data i = n

def returnsOf (n : Bytes32) (returns : List Return) : List Return :=
  returns.filter fun r => r.note = n

/-- What has become of a pull: its deposit waits, or was returned once and in full to the
payer by a call of the payer, or was validated by a slot for this payer, amount and asset. -/
inductive Fate (w : PayerWorld) (p : Pull) : Prop
  | waits : (w.contract.deposits p.note).status = .pending →
      returnsOf p.note w.returns = [] → ¬ Named w.batches p.note → Fate w p
  | returned : (w.contract.deposits p.note).status = .withdrawn →
      returnsOf p.note w.returns = [⟨p.payer, p.payer, p.note, p.value⟩] →
      ¬ Named w.batches p.note → Fate w p
  | validated : (w.contract.deposits p.note).status = .validated →
      returnsOf p.note w.returns = [] → Named w.batches p.note → Fate w p

/-- The deposit of the pull is recorded for the payer, with the amount received. -/
structure Recorded (d : Deposit) (p : Pull) : Prop where
  recipient : d.recipient = p.payer
  value : d.value = p.value
  assetId : d.assetId = p.assetId

/-- What the world knows about the note `n` agrees with its deposit entry. -/
structure NoteInv (w : PayerWorld) (n : Bytes32) : Prop where
  returns : returnsOf n w.returns = if (w.contract.deposits n).status = .withdrawn then
    [⟨(w.contract.deposits n).recipient, (w.contract.deposits n).recipient, n,
      (w.contract.deposits n).value⟩] else []
  named : Named w.batches n ↔ (w.contract.deposits n).status = .validated
  known : (w.contract.deposits n).status ≠ .none ↔ n ∈ w.pulls.map Pull.note

structure PayerInv (w : PayerWorld) : Prop where
  within : ∀ token owner, pulled token owner w.pulls + w.allowance token owner ≤
    w.approved token owner
  distinct : (w.pulls.map Pull.note).Nodup
  recorded : ∀ p ∈ w.pulls, Recorded (w.contract.deposits p.note) p
  note : ∀ n, NoteInv w n
  slots : ∀ data ∈ w.batches, ∀ i, i < BRIDGE_TX_HALF_SIZE → cdBool data (dSlotOff i) = true →
    SlotMatches data i (w.contract.deposits (noteKey data i))

end Model

/-! ## One step -/

section Step

variable {env : Env} {w : PayerWorld} {ctx : Ctx}

theorem set₂_self (f : Address → Address → ℕ) (t o : Address) (x : ℕ) : set₂ f t o x t o = x := by
  rw [set₂, update_self, update_self]

theorem set₂_of_ne (f : Address → Address → ℕ) {t o t' o' : Address} (x : ℕ)
    (h : ¬(t = t' ∧ o = o')) : set₂ f t o x t' o' = f t' o' := by
  by_cases ht : t' = t
  · subst ht
    rw [set₂, update_self, update_of_ne fun ho => h ⟨rfl, ho.symm⟩]
  · rw [set₂, update_of_ne ht]

/-- The matching of a slot does not read the status. -/
theorem slotMatches_congr {data : Bytes} {i : ℕ} {d d' : Deposit}
    (hr : d'.recipient = d.recipient) (hv : d'.value = d.value) (ha : d'.assetId = d.assetId)
    (h : SlotMatches data i d) : SlotMatches data i d' := by
  unfold SlotMatches at h ⊢
  rwa [hr, hv, ha]

theorem PayerInv.same (hI : PayerInv w) {s : ContractState}
    (h : s.deposits = w.contract.deposits) : PayerInv { w with contract := s } := by
  refine ⟨hI.within, hI.distinct, ?_, fun n => ⟨?_, ?_, ?_⟩, ?_⟩
  · rw [h]
    exact hI.recorded
  · rw [h]
    exact (hI.note n).returns
  · rw [h]
    exact (hI.note n).named
  · rw [h]
    exact (hI.note n).known
  · rw [h]
    exact hI.slots

theorem PayerInv.approve (hI : PayerInv w) (token owner : Address) (amount : ℕ) :
    PayerInv { w with
      allowance := set₂ w.allowance token owner amount
      approved := set₂ w.approved token owner (w.approved token owner + amount) } := by
  refine ⟨fun t o => ?_, hI.distinct, hI.recorded, fun n => ⟨(hI.note n).returns,
    (hI.note n).named, (hI.note n).known⟩, hI.slots⟩
  have hbefore := hI.within t o
  by_cases h : token = t ∧ owner = o
  · obtain ⟨rfl, rfl⟩ := h
    simp only [set₂_self]
    omega
  · simp only [set₂_of_ne _ _ h]
    exact hbefore

theorem pulled_append (token owner : Address) (ps ps' : List Pull) :
    pulled token owner (ps ++ ps') = pulled token owner ps + pulled token owner ps' := by
  simp [pulled]

/-- A pull spends the allowance of its payer. -/
theorem PayerInv.spent (hI : PayerInv w) {p : Pull}
    (hp : p.maxAmount.toNat ≤ w.allowance p.token p.payer) (token owner : Address) :
    pulled token owner (w.pulls ++ [p]) + spend w.allowance (some p) token owner ≤
      w.approved token owner := by
  have hbefore := hI.within token owner
  rw [pulled_append]
  by_cases h : p.token = token ∧ p.payer = owner
  · have hone : pulled token owner [p] = p.maxAmount.toNat := by simp [pulled, h]
    obtain ⟨rfl, rfl⟩ := h
    rw [hone, spend, set₂_self]
    omega
  · have hnone : pulled token owner [p] = 0 := by simp [pulled, h]
    rw [hnone, spend, set₂_of_ne _ _ h]
    exact hbefore

/-- A new deposit is recorded for the payer. -/
theorem PayerInv.deposit (hI : PayerInv w) {n : Bytes32} {sender payer : Address} {a m : U256}
    {r : TokenReply} {s : ContractState}
    (h : depositAndRegisterInternal ctx n payer payer a m
      (r.within w.allowance (w.contract.assetMap a) payer m) w.contract = .ok s) :
    PayerInv { w with
      contract := s
      allowance := spend w.allowance (some ⟨sender, payer, w.contract.assetMap a, n, a, m,
        r.balanceAfter - r.balanceBefore⟩)
      pulls := w.pulls ++ [⟨sender, payer, w.contract.assetMap a, n, a, m,
        r.balanceAfter - r.balanceBefore⟩] } := by
  obtain ⟨hnone, -, -, hok, -, rfl⟩ := depositInternal_recorded h
  have hfresh : n ∉ w.pulls.map Pull.note := fun hmem =>
    (hI.note n).known.mpr hmem hnone
  have hallowed : m.toNat ≤ w.allowance (w.contract.assetMap a) payer := by
    simp only [TokenReply.within, Bool.and_eq_true, decide_eq_true_eq] at hok
    exact hok.2
  have hold : ∀ p ∈ w.pulls, p.note ≠ n := by
    rintro p hp rfl
    exact hfresh (List.mem_map_of_mem hp)
  refine ⟨hI.spent hallowed, ?_, ?_, fun k => ?_, ?_⟩
  · rw [List.map_append, List.nodup_append]
    refine ⟨hI.distinct, List.nodup_singleton _, ?_⟩
    rintro x hx y hy rfl
    obtain rfl : x = n := by simpa using hy
    exact hfresh hx
  · intro p hp
    rcases List.mem_append.mp hp with hp | hp
    · simp only [update_of_ne (hold p hp)]
      exact hI.recorded p hp
    · obtain rfl := List.mem_singleton.mp hp
      simp only [update_self]
      exact ⟨rfl, rfl, rfl⟩
  · have hk := hI.note k
    by_cases hkn : k = n
    · subst hkn
      refine ⟨?_, ?_, ?_⟩
      · simp only [update_self, hk.returns, hnone, reduceCtorEq, if_false]
      · simp only [update_self, hk.named, hnone, reduceCtorEq]
      · simp
    · refine ⟨?_, ?_, ?_⟩
      · simp only [update_of_ne hkn]
        exact hk.returns
      · simp only [update_of_ne hkn]
        exact hk.named
      · simp only [update_of_ne hkn, hk.known, List.map_append, List.mem_append,
          List.map_singleton, List.mem_singleton, hkn, or_false]
  · intro data hdata i hi hreal
    have hvalidated := (hI.note _).named.mp ⟨data, hdata, i, hi, hreal, rfl⟩
    have hne : noteKey data i ≠ n := by
      intro heq
      rw [heq, hnone] at hvalidated
      cases hvalidated
    simp only [update_of_ne hne]
    exact hI.slots data hdata i hi hreal

/-- A withdrawn deposit is returned to its payer. -/
theorem PayerInv.withdraw (hI : PayerInv w) {n : Bytes32} {ok : Bool} {s : ContractState}
    (h : withdrawPendingDeposit ctx n ok w.contract = .ok s) :
    PayerInv { w with
      contract := s
      returns := w.returns ++ [⟨ctx.msgSender, (w.contract.deposits n).recipient, n,
        (w.contract.deposits n).value⟩] } := by
  obtain ⟨hpending, hsender, -, rfl⟩ := withdrawPendingDeposit_transfer h
  refine ⟨hI.within, hI.distinct, ?_, fun k => ?_, ?_⟩
  · intro p hp
    have hrec := hI.recorded p hp
    by_cases hk : p.note = n
    · subst hk
      simp only [update_self]
      exact ⟨hrec.recipient, hrec.value, hrec.assetId⟩
    · simp only [update_of_ne hk]
      exact hrec
  · have hk := hI.note k
    by_cases hkn : k = n
    · subst hkn
      refine ⟨?_, ?_, ?_⟩
      · have hnone : returnsOf k w.returns = [] := by simp [hk.returns, hpending]
        simp only [returnsOf] at hnone
        simp [returnsOf, hnone, hsender]
      · simp [hk.named, hpending]
      · have hknown := hk.known.mp (by rw [hpending]; decide)
        simpa using hknown
    · have hnk : ¬ n = k := fun h => hkn h.symm
      refine ⟨?_, ?_, ?_⟩
      · simp only [update_of_ne hkn]
        rw [← hk.returns]
        simp [returnsOf, hnk]
      · simp only [update_of_ne hkn]
        exact hk.named
      · simp only [update_of_ne hkn]
        exact hk.known
  · intro data hdata i hi hreal
    have hmatch := hI.slots data hdata i hi hreal
    by_cases hk : noteKey data i = n
    · subst hk
      simp only [update_self]
      exact slotMatches_congr rfl rfl rfl hmatch
    · simp only [update_of_ne hk]
      exact hmatch

/-- A proven batch validates the deposits its slots name. -/
theorem PayerInv.prove (hI : PayerInv w) {data : Bytes} {proof : Proof} {s : ContractState}
    (h : proveBridgeTxBatch env data proof w.contract = .ok s) :
    PayerInv { w with contract := s, batches := w.batches ++ [data] } := by
  obtain ⟨htouched, huntouched⟩ := proveBridge_deposits h
  have hcases : ∀ k, s.deposits k = w.contract.deposits k ∧ ¬ Named [data] k ∨
      (w.contract.deposits k).status = .pending ∧
        s.deposits k = (w.contract.deposits k).validate ∧ Named [data] k := by
    intro k
    by_cases hk : Named [data] k
    · obtain ⟨d, hd, i, hi, hreal, rfl⟩ := hk
      obtain rfl := List.mem_singleton.mp hd
      obtain ⟨hpending, -, heq⟩ := htouched i hi hreal
      exact .inr ⟨hpending, heq, d, List.mem_singleton_self d, i, hi, hreal, rfl⟩
    · refine .inl ⟨huntouched k ?_, hk⟩
      intro i hi hreal heq
      exact hk ⟨data, List.mem_singleton_self data, i, hi, hreal, heq⟩
  have hfields : ∀ k, (s.deposits k).recipient = (w.contract.deposits k).recipient ∧
      (s.deposits k).value = (w.contract.deposits k).value ∧
      (s.deposits k).assetId = (w.contract.deposits k).assetId := by
    intro k
    rcases hcases k with ⟨heq, -⟩ | ⟨-, heq, -⟩
    · rw [heq]
      exact ⟨rfl, rfl, rfl⟩
    · rw [heq]
      exact ⟨rfl, rfl, rfl⟩
  have hnamed : ∀ k, Named (w.batches ++ [data]) k ↔ Named w.batches k ∨ Named [data] k := by
    intro k
    unfold Named
    simp only [List.mem_append, or_and_right, exists_or]
  refine ⟨hI.within, hI.distinct, ?_, fun k => ?_, ?_⟩
  · intro p hp
    obtain ⟨hr, hv, ha⟩ := hfields p.note
    have hrec := hI.recorded p hp
    exact ⟨hr.trans hrec.recipient, hv.trans hrec.value, ha.trans hrec.assetId⟩
  · have hk := hI.note k
    rcases hcases k with ⟨heq, hnot⟩ | ⟨hpending, heq, hslot⟩
    · refine ⟨?_, ?_, ?_⟩
      · rw [heq]
        exact hk.returns
      · rw [heq, hnamed, hk.named]
        exact or_iff_left hnot
      · rw [heq]
        exact hk.known
    · refine ⟨?_, ?_, ?_⟩
      · simp only [hk.returns, hpending, heq, Deposit.validate, reduceCtorEq, if_false]
      · simp only [hnamed, hslot, heq, Deposit.validate, or_true]
      · have hknown := hk.known.mp (by rw [hpending]; decide)
        simpa [heq, Deposit.validate] using hknown
  · intro d hd i hi hreal
    obtain ⟨hr, hv, ha⟩ := hfields (noteKey d i)
    refine slotMatches_congr hr hv ha ?_
    rcases List.mem_append.mp hd with hd | hd
    · exact hI.slots d hd i hi hreal
    · obtain rfl := List.mem_singleton.mp hd
      exact (htouched i hi hreal).2.1

/-- A call that is no deposit, no withdrawal and no bridge proof leaves the deposits alone. -/
theorem step_deposits_same {c : Call} {s s' : ContractState} (h : step env c s = .ok s')
    (hpull : pulledBy s c = none) (hreturn : returnedBy s c = []) (hbatch : batchOf c = []) :
    s'.deposits = s.deposits := by
  by_cases hinert : c.op.isInert = true
  · exact (step_inert hinert h).deposits
  obtain ⟨ctx, op⟩ := c
  cases op with
  | registerAsset a t =>
      obtain ⟨-, -, -, -, rfl⟩ := registerAsset_ok h
      rfl
  | flushPendingWithdrawals ok =>
      obtain ⟨-, rfl⟩ := flushPendingWithdrawals_ok_iff.mp h
      rfl
  | depositAndRegister n a m r => cases hpull
  | depositAndRegisterFor n payer a m r => cases hpull
  | withdrawPendingDeposit n ok => cases hreturn
  | proveBridgeTxBatch data proof => cases hbatch
  | _ => exact absurd rfl hinert

theorem payerStep_inv (hI : PayerInv w) {o : PayerOp} {w' : PayerWorld}
    (h : payerStep env o w = .ok w') : PayerInv w' := by
  cases o with
  | approve token owner amount =>
      obtain rfl := Except.ok.inj h
      exact hI.approve token owner amount
  | call c =>
      simp only [payerStep, bind_eq_ok, pure_eq_ok] at h
      obtain ⟨s, hs, rfl⟩ := h
      obtain ⟨ctx, op⟩ := c
      cases op with
      | depositAndRegister n a m r =>
          simp only [honoured, step, depositAndRegister, whenNotPaused,
            revertIf_bind_eq_ok] at hs
          simpa only [pulledBy, returnedBy, batchOf, Option.toList_some, List.append_nil] using
            hI.deposit hs.2
      | depositAndRegisterFor n payer a m r =>
          simp only [honoured, step, depositAndRegisterFor, whenNotPaused,
            revertIf_bind_eq_ok] at hs
          simpa only [pulledBy, returnedBy, batchOf, Option.toList_some, List.append_nil] using
            hI.deposit hs.2
      | withdrawPendingDeposit n ok =>
          simpa only [pulledBy, returnedBy, batchOf, spend, Option.toList_none,
            List.append_nil] using hI.withdraw hs
      | proveBridgeTxBatch data proof =>
          simpa only [pulledBy, returnedBy, batchOf, spend, Option.toList_none,
            List.append_nil] using hI.prove hs
      | _ =>
          simpa only [pulledBy, returnedBy, batchOf, spend, Option.toList_none,
            List.append_nil] using hI.same (step_deposits_same hs rfl rfl rfl)

theorem payerInv_start {s : ContractState} (h : Deployed env s) : PayerInv (.start s) := by
  obtain ⟨-, -, -, -, hdeposits⟩ := deployed_state h
  have hnone : ∀ n, ((PayerWorld.start s).contract.deposits n).status = .none := by
    intro n
    rw [show (PayerWorld.start s).contract.deposits = fun _ => Deposit.zero from hdeposits]
    rfl
  refine ⟨fun _ _ => Nat.le_refl _, List.nodup_nil, nofun, fun n => ⟨?_, ?_, ?_⟩, nofun⟩
  · rw [hnone]
    rfl
  · rw [hnone]
    exact ⟨fun ⟨_, hd, _⟩ => (List.not_mem_nil hd).elim, nofun⟩
  · rw [hnone]
    exact ⟨fun h => absurd rfl h, nofun⟩

theorem payerInv_run {s : ContractState} (h : Deployed env s) (ops : List PayerOp) :
    PayerInv (run (payerStep env) (.start s) ops) :=
  run_inv ops PayerInv (payerInv_start h) fun _ _ _ _ hI hstep => payerStep_inv hI hstep

/-- Every pull is made by a call of the run. -/
theorem pulls_made {s : ContractState} (ops : List PayerOp) :
    ∀ p ∈ (run (payerStep env) (.start s) ops).pulls, ∃ c, .call c ∈ ops ∧ MadeBy p c := by
  refine run_inv (s := PayerWorld.start s) ops
    (fun t => ∀ p ∈ t.pulls, ∃ c, .call c ∈ ops ∧ MadeBy p c) nofun ?_
  intro o ho t t' hI h
  cases o with
  | approve token owner amount =>
      obtain rfl := Except.ok.inj h
      exact hI
  | call c =>
      simp only [payerStep, bind_eq_ok, pure_eq_ok] at h
      obtain ⟨s, -, rfl⟩ := h
      intro p hp
      rcases List.mem_append.mp hp with hp | hp
      · exact hI p hp
      · refine ⟨c, ho, ?_⟩
        obtain ⟨ctx, op⟩ := c
        rw [Option.mem_toList] at hp
        cases op with
        | depositAndRegister n a m r =>
            obtain rfl := Option.some.inj hp
            exact ⟨rfl, .inl ⟨rfl, r, rfl⟩⟩
        | depositAndRegisterFor n payer a m r =>
            obtain rfl := Option.some.inj hp
            exact ⟨rfl, .inr ⟨r, rfl⟩⟩
        | _ => cases hp

/-- Each pull has one of the three fates. -/
theorem PayerInv.fate (hI : PayerInv w) {p : Pull} (hp : p ∈ w.pulls) : Fate w p := by
  have hn := hI.note p.note
  have hrec := hI.recorded p hp
  cases hstatus : (w.contract.deposits p.note).status with
  | none => exact absurd hstatus (hn.known.mpr (List.mem_map_of_mem hp))
  | pending =>
      refine .waits hstatus ?_ ?_
      · simp [hn.returns, hstatus]
      · simp [hn.named, hstatus]
  | withdrawn =>
      refine .returned hstatus ?_ ?_
      · rw [hn.returns, if_pos hstatus, hrec.recipient, hrec.value]
      · simp [hn.named, hstatus]
  | validated =>
      refine .validated hstatus ?_ (hn.named.mpr hstatus)
      simp [hn.returns, hstatus]

end Step

section Sample

open Circuit BridgeRoots

/-- Account `7` approves ten of token `9`, account `8` deposits five of them for the note
`33`, and a batch that names the note is submitted. -/
def delegatedDeposit : List PayerOp :=
  [.approve 9 7 10, .call ⟨⟨1, 0⟩, .registerAsset 1 9⟩,
    .call ⟨⟨8, 0⟩, .depositAndRegisterFor 33 7 1 5 ⟨0, true, 5⟩⟩,
    .call ⟨⟨1, 0⟩, .submitBridgeTxBatch (sampleBridgeBatch fun _ => 33)⟩]

/-- The batch is proven. -/
def proveDeposit : PayerOp :=
  .call ⟨⟨2, 0⟩, .proveBridgeTxBatch (sampleBridgeBatch fun _ => 33) sampleProof⟩

/-- The state before the batch is submitted. -/
def delegatedState : ContractState :=
  { sampleState with
    assetMap := update sampleState.assetMap 1 9
    tokenToAssetId := update sampleState.tokenToAssetId 9 1
    deposits := update sampleState.deposits 33 ⟨5, 7, .pending, 0, 1⟩ }

/-- The world around a state of the contract after the deposit. -/
def delegatedWorld (s : ContractState) : PayerWorld where
  contract := s
  allowance := set₂ (set₂ (fun _ _ => 0) 9 7 10) 9 7 5
  approved := set₂ (fun _ _ => 0) 9 7 10
  pulls := [⟨8, 7, 9, 33, 1, 5, 5⟩]
  returns := []
  batches := []

theorem delegated_run : run (payerStep sampleEnv) (.start sampleState) delegatedDeposit =
    delegatedWorld (waiting delegatedState) := by
  have hdeposit : run (payerStep sampleEnv) (.start sampleState) (delegatedDeposit.take 3) =
      delegatedWorld delegatedState := rfl
  have hsubmit : step sampleEnv ⟨⟨1, 0⟩, .submitBridgeTxBatch (sampleBridgeBatch fun _ => 33)⟩
      delegatedState = .ok (waiting delegatedState) := by
    refine submit_waiting ?_ rfl rfl ?_ ?_ ⟨rfl, rfl⟩
    · decide +kernel
    · decide +kernel
    · decide +kernel
  have hstep : payerStep sampleEnv
      (.call ⟨⟨1, 0⟩, .submitBridgeTxBatch (sampleBridgeBatch fun _ => 33)⟩)
      (delegatedWorld delegatedState) = .ok (delegatedWorld (waiting delegatedState)) := by
    simp only [payerStep, honoured, delegatedWorld, hsubmit]
    rfl
  rw [show delegatedDeposit = delegatedDeposit.take 3 ++ [_] from rfl, run_concat, hdeposit,
    attempt_ok hstep]

end Sample

end Doxa.Contract
