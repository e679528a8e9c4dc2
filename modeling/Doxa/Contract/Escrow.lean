import Doxa.Contract.Tokens

/-!
# Solvency of the escrow

Value lies in one of three buckets: a pending deposit, a validated deposit, or a recorded
withdrawal, which is queued until a flush pays it. For each registered asset the balance of
the contract and what flushes have paid cover the pending and the validated deposits
(`EscrowInv.backed`); a deposit adds to both sides, a withdrawn deposit takes from both
sides, a validated one changes the bucket, a flush moves from the balance to what is paid.

Under the hypothesis that no asset has more proven withdrawals than validated deposits
(`Covered`), what is left covers the queue. The hypothesis also says that a withdrawal of
an unregistered asset has no amount, since no deposit of it exists; so a flush skips
nothing.
-/

namespace Doxa.Contract

open Lib Function

/-! ## The buckets -/

/-- The value of a deposit in the given status and asset. -/
def Deposit.worth (status : DepositStatus) (a : U256) (d : Deposit) : ℕ :=
  if d.status = status ∧ d.assetId = a then d.value.toNat else 0

def depositSum (status : DepositStatus) (a : U256) (deposits : Bytes32 → Deposit) : ℕ :=
  ∑ k, (deposits k).worth status a

def PendingWithdrawal.owes (a : U256) (pw : PendingWithdrawal) : ℕ :=
  ∑ j, if pw.assetIds j = a then (pw.amounts j).toNat else 0

def owed (a : U256) (queue : List PendingWithdrawal) : ℕ := (queue.map fun pw => pw.owes a).sum

/-- The transfers an entry asks for: one for each amount that is not zero. -/
def dues (assetMap : U256 → Address) (pw : PendingWithdrawal) : List (Address × Address × U256) :=
  (List.finRange NOTE_BATCH).filterMap fun j =>
    if pw.amounts j = 0 then none else some (assetMap (pw.assetIds j), pw.recipient, pw.amounts j)

/-- The proven withdrawals of every asset are covered by its validated deposits. -/
def Covered (w : World) : Prop :=
  ∀ a, owed a w.recorded ≤ depositSum .validated a w.contract.deposits

structure EscrowInv (me : Address) (w : World) : Prop where
  /-- A token belongs to one asset, and asset `0` has none. -/
  registry : ∀ a, w.contract.assetMap a ≠ 0 →
    w.contract.tokenToAssetId (w.contract.assetMap a) = a ∧ a ≠ 0
  registered : ∀ k, (w.contract.deposits k).status ≠ .none →
    w.contract.assetMap (w.contract.deposits k).assetId ≠ 0
  recipients : ∀ k, (w.contract.deposits k).status = .pending →
    (w.contract.deposits k).recipient ≠ me
  supply_lt : ∀ t, supply w.balance t < 2 ^ 256
  backed : ∀ a, w.contract.assetMap a ≠ 0 →
    depositSum .pending a w.contract.deposits + depositSum .validated a w.contract.deposits ≤
      w.balance (w.contract.assetMap a) me + owed a w.flushed
  recorded : w.recorded = w.flushed ++ w.contract.pendingWithdrawals
  settled : ∀ pw ∈ w.flushed, ∀ j, pw.amounts j ≠ 0 → w.contract.assetMap (pw.assetIds j) ≠ 0
  paid : w.paid = w.flushed.flatMap (dues w.contract.assetMap)

/-! ## Sums of deposits -/

section Deposits

variable {deposits deposits' : Bytes32 → Deposit} {a : U256} {k : Bytes32}

/-- The value of a deposit that is still owed to somebody. -/
def Deposit.secured (a : U256) (d : Deposit) : ℕ := d.worth .pending a + d.worth .validated a

theorem depositSum_add (a : U256) (deposits : Bytes32 → Deposit) :
    depositSum .pending a deposits + depositSum .validated a deposits =
      ∑ k, (deposits k).secured a := Finset.sum_add_distrib.symm

theorem secured_none {d : Deposit} (h : d.status = .none) (a : U256) : d.secured a = 0 := by
  simp [Deposit.secured, Deposit.worth, h]

theorem secured_pending {d : Deposit} (h : d.status = .pending) (a : U256) :
    d.secured a = if d.assetId = a then d.value.toNat else 0 := by
  simp [Deposit.secured, Deposit.worth, h]

theorem secured_withdrawn {d : Deposit} (h : d.status = .withdrawn) (a : U256) :
    d.secured a = 0 := by
  simp [Deposit.secured, Deposit.worth, h]

theorem secured_validate {d : Deposit} (h : d.status = .pending) (a : U256) :
    d.validate.secured a = d.secured a := by
  rw [secured_pending h]
  simp [Deposit.secured, Deposit.worth, Deposit.validate]

theorem secured_update (deposits : Bytes32 → Deposit) (k : Bytes32) (d : Deposit) (a : U256) :
    ∑ j, (update deposits k d j).secured a + (deposits k).secured a =
      ∑ j, (deposits j).secured a + d.secured a :=
  sum_update (fun d : Deposit => d.secured a) deposits k d

/-- Validating deposits moves value between the buckets. -/
theorem secured_proven (h : ∀ k, deposits' k = deposits k ∨
    (deposits k).status = .pending ∧ deposits' k = (deposits k).validate) (a : U256) :
    ∑ k, (deposits' k).secured a = ∑ k, (deposits k).secured a := by
  refine Finset.sum_congr rfl fun k _ => ?_
  rcases h k with hk | ⟨hpending, hk⟩
  · rw [hk]
  · rw [hk, secured_validate hpending]

theorem depositSum_eq_zero {status : DepositStatus} (h : ∀ k, (deposits k).status ≠ .none →
    (deposits k).assetId ≠ a) (hstatus : status ≠ .none) : depositSum status a deposits = 0 := by
  refine Finset.sum_eq_zero fun k _ => if_neg ?_
  rintro ⟨hk, ha⟩
  exact h k (by rw [hk]; exact hstatus) ha

/-- One deposit is part of the sum. -/
theorem worth_le_depositSum (status : DepositStatus) (a : U256) (deposits : Bytes32 → Deposit)
    (k : Bytes32) : (deposits k).worth status a ≤ depositSum status a deposits :=
  Finset.single_le_sum (fun i _ => Nat.zero_le ((deposits i).worth status a)) (Finset.mem_univ k)

end Deposits

/-! ## Sums of withdrawals -/

section Withdrawals

theorem owed_append (a : U256) (q q' : List PendingWithdrawal) :
    owed a (q ++ q') = owed a q + owed a q' := by
  simp [owed]

/-- An asset of which nothing is owed has no amount in any entry. -/
theorem amount_eq_zero_of_owed {a : U256} {q : List PendingWithdrawal} (h : owed a q = 0)
    {pw : PendingWithdrawal} (hpw : pw ∈ q) {j : Fin NOTE_BATCH} (hj : pw.assetIds j = a) :
    pw.amounts j = 0 := by
  have hentry : pw.owes a = 0 := by
    have hle : pw.owes a ≤ owed a q := List.le_sum_of_mem (List.mem_map_of_mem hpw)
    omega
  have hterm := Finset.sum_eq_zero_iff.mp hentry j (Finset.mem_univ j)
  rw [if_pos hj] at hterm
  exact BitVec.eq_of_toNat_eq hterm

theorem sum_filterMap {α β : Type*} (g : α → Option β) (f : β → ℕ) (l : List α) :
    ((l.filterMap g).map f).sum = (l.map fun x => ((g x).map f).getD 0).sum := by
  induction l with
  | nil => rfl
  | cons x l ih =>
      rw [List.filterMap_cons]
      cases hx : g x with
      | none => simp [hx, ih]
      | some y => simp [hx, ih]

theorem total_flatMap (t : Address) {f : PendingWithdrawal → List (Address × Address × U256)}
    (q : List PendingWithdrawal) :
    total t (asPayments (q.flatMap f)) = (q.map fun pw => total t (asPayments (f pw))).sum := by
  induction q with
  | nil => rfl
  | cons pw q ih =>
      rw [List.flatMap_cons, asPayments, List.map_append, total, List.map_append, List.sum_append,
        List.map_cons, List.sum_cons, ← ih]
      rfl

variable {s : ContractState}

/-- A token belongs to one asset. -/
def Registry (s : ContractState) : Prop :=
  ∀ a, s.assetMap a ≠ 0 → s.tokenToAssetId (s.assetMap a) = a ∧ a ≠ 0

theorem Registry.injective (h : Registry s) {a a' : U256} (ha : s.assetMap a ≠ 0)
    (heq : s.assetMap a' = s.assetMap a) : a' = a := by
  have ha' : s.assetMap a' ≠ 0 := by rwa [heq]
  rw [← (h a ha).1, ← (h a' ha').1, heq]

/-- A new token for a new asset. -/
theorem Registry.register (h : Registry s) {a : U256} {t : Address} (ha : a ≠ 0)
    (htok : s.tokenToAssetId t = 0) :
    Registry { s with
      assetMap := update s.assetMap a t
      tokenToAssetId := update s.tokenToAssetId t a } := by
  intro x hx
  by_cases hxa : x = a
  · subst hxa
    simp only [update_self]
    exact ⟨trivial, ha⟩
  · simp only [update_of_ne hxa] at hx ⊢
    have hne : s.assetMap x ≠ t := by
      intro heq
      have hback := h x hx
      rw [heq, htok] at hback
      exact hback.2 hback.1.symm
    rw [update_of_ne hne]
    exact h x hx

/-- The transfers of an entry in the token of `a` add up to what it owes of `a`. -/
theorem total_payments (h : Registry s) {a : U256} (ha : s.assetMap a ≠ 0)
    (pw : PendingWithdrawal) :
    total (s.assetMap a) (asPayments (payments s pw)) = pw.owes a := by
  rw [total, asPayments, List.map_map, payments, sum_filterMap, PendingWithdrawal.owes,
    ← Fin.sum_univ_def]
  refine Finset.sum_congr rfl fun j _ => ?_
  by_cases hj : pw.assetIds j = a
  · rw [if_pos hj, hj]
    by_cases hamt : pw.amounts j = 0
    · simp [hamt]
    · rw [if_neg (not_or.mpr ⟨(h a ha).2, hamt⟩), if_neg ha, Option.map_some, Option.getD_some]
      exact if_pos rfl
  · rw [if_neg hj]
    have hne : s.assetMap (pw.assetIds j) ≠ s.assetMap a := fun heq => hj (h.injective ha heq)
    split
    · rfl
    · split
      · rfl
      · simp [hne]

/-- No transfer is in a token that is not registered. -/
theorem total_payments_other {t : Address} (ht : ∀ a, s.assetMap a = t → t = 0)
    (pw : PendingWithdrawal) : total t (asPayments (payments s pw)) = 0 := by
  rw [total, asPayments, List.map_map, payments, sum_filterMap, ← Fin.sum_univ_def]
  refine Finset.sum_eq_zero fun j _ => ?_
  split
  · rfl
  · split
    · rfl
    · rename_i hreg
      have hne : s.assetMap (pw.assetIds j) ≠ t := fun heq => hreg (heq.trans (ht _ heq))
      simp [hne]

/-- The cost of a flush in the token of `a`. -/
theorem total_flush (h : Registry s) {a : U256} (ha : s.assetMap a ≠ 0) :
    total (s.assetMap a) (asPayments (flushTransfers s)) = owed a s.pendingWithdrawals := by
  rw [flushTransfers, total_flatMap, owed]
  exact congrArg List.sum (List.map_congr_left fun pw _ => total_payments h ha pw)

theorem total_flush_other {t : Address} (ht : ∀ a, s.assetMap a = t → t = 0) :
    total t (asPayments (flushTransfers s)) = 0 := by
  rw [flushTransfers, total_flatMap]
  exact List.sum_eq_zero fun n hn => by
    obtain ⟨pw, -, rfl⟩ := List.mem_map.mp hn
    exact total_payments_other ht pw

theorem payments_eq_dues (h : Registry s) {pw : PendingWithdrawal}
    (hpw : ∀ j, pw.amounts j ≠ 0 → s.assetMap (pw.assetIds j) ≠ 0) :
    payments s pw = dues s.assetMap pw := by
  unfold payments dues
  refine List.filterMap_congr fun j _ => ?_
  by_cases hamt : pw.amounts j = 0
  · simp [hamt]
  · have hreg := hpw j hamt
    rw [if_neg (not_or.mpr ⟨(h _ hreg).2, hamt⟩), if_neg hreg, if_neg hamt]

theorem dues_congr {m m' : U256 → Address} {pw : PendingWithdrawal}
    (h : ∀ j, pw.amounts j ≠ 0 → m' (pw.assetIds j) = m (pw.assetIds j)) :
    dues m' pw = dues m pw := by
  refine List.filterMap_congr fun j _ => ?_
  by_cases hamt : pw.amounts j = 0
  · simp [hamt]
  · rw [h j hamt]

end Withdrawals

/-! ## One step -/

section Step

variable {self : Address} {env : Env} {w : World} {ctx : Ctx}

theorem answer_inert {b : TokenBalances} {s : ContractState} {op : Op} (h : op.isInert = true) :
    answer self b s ctx op = (op, b) := by
  cases op <;> first | rfl | cases h

theorem inert_silent (s : ContractState) {op : Op} (h : op.isInert = true) :
    recordedBy op = [] ∧ flushedBy s op = [] := by
  cases op <;> first | exact ⟨rfl, rfl⟩ | cases h

theorem deployed_registry {s : ContractState} (h : Deployed env s) :
    s.assetMap = (fun _ => 0) ∧ s.pendingWithdrawals = [] := by
  obtain ⟨_, _, _, _, _, _, _, h⟩ := h.deployed
  simp only [constructor, revertIf_bind_eq_ok, pure_eq_ok] at h
  obtain ⟨-, -, -, -, -, -, rfl⟩ := h
  exact ⟨rfl, rfl⟩

/-- The time of a withdrawal, as a number. -/
theorem withdrawPendingDeposit_isOk {s : ContractState} {n : Bytes32}
    (hpending : (s.deposits n).status = .pending) (hpaused : s.paused = false)
    (hsender : ctx.msgSender = (s.deposits n).recipient)
    (htime : (s.deposits n).depositBlock.toNat + s.withdrawalDelay.toNat ≤ ctx.blockNumber.toNat) :
    withdrawPendingDeposit ctx n true s = .ok { s with
      deposits := update s.deposits n { s.deposits n with status := .withdrawn } } := by
  have hlt := ctx.blockNumber.isLt
  have havail : ¬ ctx.blockNumber < (s.deposits n).depositBlock + s.withdrawalDelay := by
    rw [BitVec.lt_def, BitVec.toNat_add, Nat.mod_eq_of_lt (by omega)]
    omega
  simp only [withdrawPendingDeposit, whenNotPaused, revertIf_bind_eq_ok, pure_eq_ok, and_true]
  refine ⟨?_, ?_, ?_, ?_, ?_, havail, by decide⟩
  · rw [hpaused]
    decide
  · rw [hpending]
    decide
  · exact not_not.mpr hpending
  · exact not_not.mpr hsender
  · omega

/-- A call that leaves the escrow alone. -/
theorem EscrowInv.same (hI : EscrowInv self w) {s : ContractState} (h : SameEscrow w.contract s) :
    EscrowInv self { w with contract := s } := by
  constructor
  · rw [h.assetMap, h.tokenToAssetId]
    exact hI.registry
  · rw [h.assetMap, h.deposits]
    exact hI.registered
  · rw [h.deposits]
    exact hI.recipients
  · exact hI.supply_lt
  · rw [h.assetMap, h.deposits]
    exact hI.backed
  · rw [h.pendingWithdrawals]
    exact hI.recorded
  · rw [h.assetMap]
    exact hI.settled
  · rw [h.assetMap]
    exact hI.paid

/-- Tokens moved by others never leave the contract. -/
theorem EscrowInv.moved (hI : EscrowInv self w) {token src dst : Address} {amt : ℕ}
    (hsrc : src ≠ self) (hamt : amt ≤ w.balance token src) :
    EscrowInv self { w with balance := Lib.move w.balance token src dst amt } where
  registry := hI.registry
  registered := hI.registered
  recipients := hI.recipients
  supply_lt t := by
    rw [supply_move hamt]
    exact hI.supply_lt t
  backed a ha := by
    have hle := le_move_of_ne w.balance token (w.contract.assetMap a) dst amt (Ne.symm hsrc)
    exact (hI.backed a ha).trans (Nat.add_le_add_right hle _)
  recorded := hI.recorded
  settled := hI.settled
  paid := hI.paid

/-- A new asset has no deposits yet. -/
theorem EscrowInv.register (hI : EscrowInv self w) {a : U256} {t : Address} (ha : a ≠ 0)
    (hmap : w.contract.assetMap a = 0) (htok : w.contract.tokenToAssetId t = 0) :
    EscrowInv self { w with contract := { w.contract with
      assetMap := update w.contract.assetMap a t
      tokenToAssetId := update w.contract.tokenToAssetId t a } } := by
  have hkept : ∀ x, w.contract.assetMap x ≠ 0 → update w.contract.assetMap a t x =
      w.contract.assetMap x := by
    intro x hx
    refine update_of_ne ?_ _ _
    rintro rfl
    exact hx hmap
  have hstays : ∀ x, w.contract.assetMap x ≠ 0 → update w.contract.assetMap a t x ≠ 0 := by
    intro x hx
    rwa [hkept x hx]
  have hsettled : ∀ pw ∈ w.flushed, ∀ j, pw.amounts j ≠ 0 →
      update w.contract.assetMap a t (pw.assetIds j) ≠ 0 := fun pw hpw j hj =>
    hstays _ (hI.settled pw hpw j hj)
  constructor
  · exact Registry.register hI.registry ha htok
  · intro k hk
    exact hstays _ (hI.registered k hk)
  · exact hI.recipients
  · exact hI.supply_lt
  · intro x hx
    by_cases hxa : x = a
    · subst hxa
      have hno : ∀ k, (w.contract.deposits k).status ≠ .none → (w.contract.deposits k).assetId ≠ x := by
        intro k hk heq
        have hreg := hI.registered k hk
        rw [heq] at hreg
        exact hreg hmap
      simp only [depositSum_eq_zero hno (by decide : DepositStatus.pending ≠ .none),
        depositSum_eq_zero hno (by decide : DepositStatus.validated ≠ .none)]
      exact Nat.zero_le _
    · simp only [update_of_ne hxa] at hx ⊢
      exact hI.backed x hx
  · exact hI.recorded
  · exact hsettled
  · rw [hI.paid]
    refine List.flatMap_congr fun pw hpw => (dues_congr fun j hj => ?_).symm
    exact hkept _ (hI.settled pw hpw j hj)

/-- What a successful pull moved. -/
theorem pull_value {b : TokenBalances} {token payer : Address} {m : U256} {allowed : Bool}
    (hsupply : supply b token < 2 ^ 256) (hok : (pull self b token payer m allowed).2.ok = true)
    (hlt : (pull self b token payer m allowed).2.balanceBefore <
      (pull self b token payer m allowed).2.balanceAfter) :
    payer ≠ self ∧ m.toNat ≤ b token payer ∧
      (pull self b token payer m allowed).1 = Lib.move b token payer self m.toNat ∧
      ((pull self b token payer m allowed).2.balanceAfter -
        (pull self b token payer m allowed).2.balanceBefore).toNat = m.toNat := by
  unfold pull at hok hlt ⊢
  split at hok
  · rename_i hpull
    rw [if_pos hpull] at hlt ⊢
    have hne : payer ≠ self := by
      rintro rfl
      rw [move_self hpull.2] at hlt
      exact BitVec.lt_irrefl _ hlt
    have hroom : b token payer + b token self ≤ supply b token := add_le_sum (b token) hne
    have hafter : Lib.move b token payer self m.toNat token self = b token self + m.toNat :=
      move_dst hne
    refine ⟨hne, hpull.2, rfl, ?_⟩
    have hm := hpull.2
    rw [hafter, BitVec.toNat_sub_of_le (by
      rw [BitVec.le_def, BitVec.toNat_ofNat, BitVec.toNat_ofNat, Nat.mod_eq_of_lt (by omega),
        Nat.mod_eq_of_lt (by omega)]
      omega), BitVec.toNat_ofNat, BitVec.toNat_ofNat, Nat.mod_eq_of_lt (by omega),
      Nat.mod_eq_of_lt (by omega)]
    omega
  · cases hok

/-- A deposit adds its value to the balance and to the pending deposits. -/
theorem EscrowInv.deposit (hI : EscrowInv self w) {n : Bytes32} {payer : Address} {a m : U256}
    {allowed : Bool} {s : ContractState}
    (h : depositAndRegisterInternal ctx n payer payer a m
      (pull self w.balance (w.contract.assetMap a) payer m allowed).2 w.contract = .ok s) :
    EscrowInv self { w with
      contract := s
      balance := (pull self w.balance (w.contract.assetMap a) payer m allowed).1 } := by
  obtain ⟨hnone, -, hasset, hok, hlt, rfl⟩ := depositInternal_recorded h
  obtain ⟨hne, hm, hbalance, hvalue⟩ := pull_value (hI.supply_lt _) hok hlt
  set d : Deposit := ⟨(pull self w.balance (w.contract.assetMap a) payer m allowed).2.balanceAfter -
    (pull self w.balance (w.contract.assetMap a) payer m allowed).2.balanceBefore, payer, .pending,
    ctx.blockNumber, a⟩ with hd
  have hcases : ∀ k, update w.contract.deposits n d k = w.contract.deposits k ∨
      update w.contract.deposits n d k = d := by
    intro k
    by_cases hk : k = n
    · subst hk
      exact .inr (update_self ..)
    · exact .inl (update_of_ne hk ..)
  rw [hbalance]
  constructor
  · exact hI.registry
  · intro k hk
    rcases hcases k with h | h
    · simp only [h] at hk ⊢
      exact hI.registered k hk
    · simp only [h]
      exact hasset
  · intro k hk
    rcases hcases k with h | h
    · simp only [h] at hk ⊢
      exact hI.recipients k hk
    · simp only [h]
      exact hne
  · intro t
    rw [supply_move hm]
    exact hI.supply_lt t
  · intro x hx
    have hback := hI.backed x hx
    rw [depositSum_add] at hback ⊢
    have hsum := secured_update w.contract.deposits n d x
    rw [secured_none hnone, secured_pending rfl] at hsum
    by_cases hxa : a = x
    · subst hxa
      rw [if_pos rfl] at hsum
      have hgain : Lib.move w.balance (w.contract.assetMap a) payer self m.toNat
          (w.contract.assetMap a) self = w.balance (w.contract.assetMap a) self + m.toNat :=
        move_dst hne
      simp only [hgain]
      rw [show d.value.toNat = m.toNat from hvalue] at hsum
      omega
    · rw [if_neg hxa] at hsum
      have hle := le_move_of_ne w.balance (w.contract.assetMap a) (w.contract.assetMap x) self
        m.toNat (Ne.symm hne)
      simp only
      omega
  · exact hI.recorded
  · exact hI.settled
  · exact hI.paid

/-- A withdrawn deposit takes its value from the balance and from the pending deposits. -/
theorem EscrowInv.withdraw (hI : EscrowInv self w) {n : Bytes32} {s : ContractState}
    (h : withdrawPendingDeposit ctx n (decide ((w.contract.deposits n).value.toNat ≤
      w.balance (w.contract.assetMap (w.contract.deposits n).assetId) self)) w.contract = .ok s) :
    EscrowInv self { w with
      contract := s
      balance := Lib.move w.balance (w.contract.assetMap (w.contract.deposits n).assetId) self
        (w.contract.deposits n).recipient (w.contract.deposits n).value.toNat } := by
  obtain ⟨hpending, -, hok, rfl⟩ := withdrawPendingDeposit_transfer h
  have hamt := of_decide_eq_true hok
  have hne := hI.recipients n hpending
  have hasset := hI.registered n (by rw [hpending]; decide)
  set dep := w.contract.deposits n with hdep
  have hcases : ∀ k, update w.contract.deposits n { dep with status := .withdrawn } k =
      w.contract.deposits k ∨ k = n := by
    intro k
    by_cases hk : k = n
    · exact .inr hk
    · exact .inl (update_of_ne hk ..)
  constructor
  · exact hI.registry
  · intro k hk
    rcases hcases k with h | rfl
    · simp only [h] at hk ⊢
      exact hI.registered k hk
    · simp only [update_self]
      exact hasset
  · intro k hk
    rcases hcases k with h | rfl
    · simp only [h] at hk ⊢
      exact hI.recipients k hk
    · simp only [update_self] at hk
      cases hk
  · intro t
    rw [supply_move hamt]
    exact hI.supply_lt t
  · intro x hx
    have hback := hI.backed x hx
    rw [depositSum_add] at hback ⊢
    have hsum := secured_update w.contract.deposits n { dep with status := .withdrawn } x
    rw [secured_withdrawn (d := { dep with status := .withdrawn }) rfl, ← hdep,
      secured_pending hpending] at hsum
    by_cases hxa : dep.assetId = x
    · subst hxa
      rw [if_pos rfl] at hsum
      simp only [move_src hne.symm]
      omega
    · rw [if_neg hxa] at hsum
      have hother : w.contract.assetMap x ≠ w.contract.assetMap dep.assetId := fun heq =>
        hxa (Registry.injective hI.registry hasset heq).symm
      simp only [move_token_ne hother]
      omega
  · exact hI.recorded
  · exact hI.settled
  · exact hI.paid

/-- A proven batch moves deposits to the validated ones and queues withdrawals. -/
theorem EscrowInv.prove (hI : EscrowInv self w) {data : Bytes} {proof : Proof} {s : ContractState}
    (h : proveBridgeTxBatch env data proof w.contract = .ok s) :
    EscrowInv self { w with
      contract := s
      recorded := w.recorded ++ (realWithdrawSlots data).map (readWithdrawal data) } := by
  obtain ⟨hmap, htok, hqueue, hdeposits⟩ := proveBridge_escrow h
  constructor
  · rw [hmap, htok]
    exact hI.registry
  · intro k hk
    rw [hmap]
    rcases hdeposits k with heq | ⟨hpending, heq⟩
    · simp only [heq] at hk ⊢
      exact hI.registered k hk
    · simp only [heq, Deposit.validate]
      exact hI.registered k (by rw [hpending]; decide)
  · intro k hk
    rcases hdeposits k with heq | ⟨hpending, heq⟩
    · simp only [heq] at hk ⊢
      exact hI.recipients k hk
    · simp only [heq, Deposit.validate] at hk
      cases hk
  · exact hI.supply_lt
  · intro x hx
    simp only [hmap] at hx ⊢
    have hback := hI.backed x hx
    rw [depositSum_add] at hback ⊢
    rwa [secured_proven hdeposits]
  · simp only [hqueue, hI.recorded, List.append_assoc]
  · rw [hmap]
    exact hI.settled
  · rw [hmap]
    exact hI.paid

/-- What is left after the validated deposits are set against the proven withdrawals. -/
theorem EscrowInv.solvent (hI : EscrowInv self w) (hc : Covered w) {a : U256}
    (ha : w.contract.assetMap a ≠ 0) :
    depositSum .pending a w.contract.deposits + owed a w.contract.pendingWithdrawals ≤
      w.balance (w.contract.assetMap a) self := by
  have hback := hI.backed a ha
  have hcov := hc a
  rw [hI.recorded, owed_append] at hcov
  omega

/-- Nothing of an unregistered asset is queued. -/
theorem EscrowInv.queue_registered (hI : EscrowInv self w) (hc : Covered w)
    {pw : PendingWithdrawal} (hpw : pw ∈ w.contract.pendingWithdrawals) {j : Fin NOTE_BATCH}
    (hj : pw.amounts j ≠ 0) : w.contract.assetMap (pw.assetIds j) ≠ 0 := by
  intro hnone
  have hno : ∀ k, (w.contract.deposits k).status ≠ .none →
      (w.contract.deposits k).assetId ≠ pw.assetIds j := by
    intro k hk heq
    have hreg := hI.registered k hk
    rw [heq] at hreg
    exact hreg hnone
  have hcov := hc (pw.assetIds j)
  rw [depositSum_eq_zero hno (by decide : DepositStatus.validated ≠ .none)] at hcov
  have hmem : pw ∈ w.recorded := by
    rw [hI.recorded]
    exact List.mem_append_right _ hpw
  exact hj (amount_eq_zero_of_owed (Nat.le_zero.mp hcov) hmem rfl)

/-- A flush makes the transfers its entries ask for. -/
theorem EscrowInv.flush_dues (hI : EscrowInv self w) (hc : Covered w) :
    flushTransfers w.contract =
      w.contract.pendingWithdrawals.flatMap (dues w.contract.assetMap) :=
  List.flatMap_congr fun _ hpw =>
    payments_eq_dues hI.registry fun _ hj => hI.queue_registered hc hpw hj

/-- The balance covers the whole queue. -/
theorem EscrowInv.flushable (hI : EscrowInv self w) (hc : Covered w) :
    ∃ b, payAll self (asPayments (flushTransfers w.contract)) w.balance = some b := by
  apply payAll_isSome
  intro t
  by_cases ht : ∃ a, w.contract.assetMap a = t ∧ t ≠ 0
  · obtain ⟨a, rfl, ha⟩ := ht
    rw [total_flush hI.registry ha]
    have hsolvent := hI.solvent hc ha
    omega
  · rw [total_flush_other]
    · exact Nat.zero_le _
    · intro a ha
      by_contra hne
      exact ht ⟨a, ha, hne⟩

/-- A flush moves the queue from the balance to what is paid. -/
theorem EscrowInv.flush (hI : EscrowInv self w) (hc : Covered w) {b : TokenBalances}
    (hb : payAll self (asPayments (flushTransfers w.contract)) w.balance = some b) :
    EscrowInv self
      { contract := { w.contract with pendingWithdrawals := [] }
        balance := b
        recorded := w.recorded
        flushed := w.flushed ++ w.contract.pendingWithdrawals
        paid := w.paid ++ flushTransfers w.contract } where
  registry := hI.registry
  registered := hI.registered
  recipients := hI.recipients
  supply_lt t := by
    rw [supply_payAll hb]
    exact hI.supply_lt t
  backed a ha := by
    have hback := hI.backed a ha
    have hlost := payAll_src hb (w.contract.assetMap a)
    rw [total_flush hI.registry ha] at hlost
    simp only [owed_append]
    omega
  recorded := by
    rw [hI.recorded]
    exact (List.append_nil _).symm
  settled pw hpw j hj := by
    rcases List.mem_append.mp hpw with hpw | hpw
    · exact hI.settled pw hpw j hj
    · exact hI.queue_registered hc hpw hj
  paid := by
    rw [hI.flush_dues hc, hI.paid, List.flatMap_append]

/-- Every operation of the world keeps the invariant. -/
theorem worldStep_escrowInv (hI : EscrowInv self w) (hc : Covered w) {o : WorldOp} {w' : World}
    (h : worldStep self env o w = .ok w') : EscrowInv self w' := by
  cases o with
  | move token src dst amt =>
      simp only [worldStep] at h
      split at h
      · cases h
      · rename_i hok
        obtain ⟨hsrc, hamt⟩ := not_or.mp hok
        obtain rfl := Except.ok.inj h
        exact hI.moved hsrc (not_lt.mp hamt)
  | call ctx op =>
      simp only [worldStep, bind_eq_ok, pure_eq_ok] at h
      obtain ⟨s, hs, rfl⟩ := h
      by_cases hinert : op.isInert = true
      · rw [answer_inert hinert] at hs ⊢
        obtain ⟨hrec, hflushed⟩ := inert_silent w.contract hinert
        simp only [hrec, hflushed, List.flatMap_nil, List.append_nil]
        exact hI.same (step_inert hinert hs)
      · cases op with
        | registerAsset a t =>
            obtain ⟨ha, -, hmap, htok, rfl⟩ := registerAsset_ok hs
            simpa only [answer, recordedBy, flushedBy, List.flatMap_nil, List.append_nil] using
              hI.register ha hmap htok
        | depositAndRegister n a m r =>
            simp only [answer, step, depositAndRegister, whenNotPaused,
              revertIf_bind_eq_ok] at hs
            simpa only [answer, recordedBy, flushedBy, List.flatMap_nil, List.append_nil] using
              hI.deposit hs.2
        | depositAndRegisterFor n payer a m r =>
            simp only [answer, step, depositAndRegisterFor, whenNotPaused,
              revertIf_bind_eq_ok] at hs
            simpa only [answer, recordedBy, flushedBy, List.flatMap_nil, List.append_nil] using
              hI.deposit hs.2
        | withdrawPendingDeposit n ok =>
            simpa only [answer, recordedBy, flushedBy, List.flatMap_nil, List.append_nil] using
              hI.withdraw hs
        | proveBridgeTxBatch data proof =>
            simpa only [answer, recordedBy, flushedBy, List.flatMap_nil, List.append_nil] using
              hI.prove hs
        | flushPendingWithdrawals ok =>
            obtain ⟨-, rfl⟩ := flushPendingWithdrawals_ok_iff.mp hs
            obtain ⟨b, hb⟩ := hI.flushable hc
            simp only [answer, hb, recordedBy, flushedBy, Option.getD_some, List.append_nil]
            exact hI.flush hc hb
        | _ => exact absurd rfl hinert

/-- The world in which a contract has just been deployed. -/
def World.start (s : ContractState) (balance : TokenBalances) : World := ⟨s, balance, [], [], []⟩

theorem escrowInv_start {s : ContractState} (h : Deployed env s) {balance : TokenBalances}
    (hsupply : ∀ t, supply balance t < 2 ^ 256) : EscrowInv self (.start s balance) := by
  obtain ⟨hmap, hqueue⟩ := deployed_registry h
  obtain ⟨-, -, -, -, hdeposits⟩ := deployed_state h
  have hnone : ∀ k, (s.deposits k).status = .none := by
    intro k
    rw [hdeposits]
    rfl
  constructor
  · intro a ha
    exact absurd (congrFun hmap a) ha
  · intro k hk
    exact absurd (hnone k) hk
  · intro k hk
    exact absurd (hk.symm.trans (hnone k)) (by decide)
  · exact hsupply
  · intro a ha
    exact absurd (congrFun hmap a) ha
  · exact hqueue.symm
  · intro pw hpw
    cases hpw
  · rfl

theorem escrowInv_run {s : ContractState} (h : Deployed env s) {balance : TokenBalances}
    (hsupply : ∀ t, supply balance t < 2 ^ 256) (ops : List WorldOp)
    (hcovered : ∀ pre, pre <+: ops →
      Covered (run (worldStep self env) (.start s balance) pre)) :
    EscrowInv self (run (worldStep self env) (.start s balance) ops) := by
  induction ops using List.reverseRecOn with
  | nil => exact escrowInv_start h hsupply
  | append_singleton ops o ih =>
      obtain ⟨hbefore, -⟩ := forall_prefix_concat.mp hcovered
      have hI := ih hbefore
      rw [run_concat]
      unfold attempt
      split
      · rename_i w' hw'
        exact worldStep_escrowInv hI (hbefore ops (List.prefix_refl _)) hw'
      · exact hI

end Step

/-! ## The escrow is solvent -/

section Solvency

variable {self : Address} {env : Env} {w : World}

/-- A flush goes through: it pays the queue and nothing else. -/
theorem EscrowInv.flush_pays (hI : EscrowInv self w) (hc : Covered w) (ctx : Ctx) (ok : ℕ → Bool) :
    ∃ w', worldStep self env (.call ctx (.flushPendingWithdrawals ok)) w = .ok w' ∧
      w'.contract.pendingWithdrawals = [] ∧ w'.flushed = w.recorded ∧
      w'.paid = w.recorded.flatMap (dues w.contract.assetMap) ∧
      ∀ t h, h ≠ self → w'.balance t h = w.balance t h + received t h
        (asPayments (w.contract.pendingWithdrawals.flatMap (dues w.contract.assetMap))) := by
  obtain ⟨b, hb⟩ := hI.flushable hc
  have hstep : flushPendingWithdrawals
      (fun k => (payAll self ((asPayments (flushTransfers w.contract)).take (k + 1))
        w.balance).isSome) w.contract = .ok { w.contract with pendingWithdrawals := [] } :=
    flushPendingWithdrawals_ok_iff.mpr ⟨fun k _ => payAll_take hb (k + 1), rfl⟩
  refine ⟨_, by simp only [worldStep, answer, step, hstep]; rfl, rfl, ?_, ?_, ?_⟩
  · exact hI.recorded.symm
  · show w.paid ++ flushTransfers w.contract = _
    rw [hI.paid, hI.flush_dues hc, hI.recorded, List.flatMap_append]
  · intro t h hne
    show ((payAll self (asPayments (flushTransfers w.contract)) w.balance).getD w.balance) t h = _
    rw [hb, Option.getD_some, payAll_received hb t hne, hI.flush_dues hc]

/-- A pending deposit is returned in full once its time has come. -/
theorem EscrowInv.returned (hI : EscrowInv self w) (hc : Covered w) {n : Bytes32}
    (hpending : (w.contract.deposits n).status = .pending) (hpaused : w.contract.paused = false)
    {ctx : Ctx} (hsender : ctx.msgSender = (w.contract.deposits n).recipient)
    (htime : (w.contract.deposits n).depositBlock.toNat + w.contract.withdrawalDelay.toNat ≤
      ctx.blockNumber.toNat) (ok : Bool) :
    ∃ w', worldStep self env (.call ctx (.withdrawPendingDeposit n ok)) w = .ok w' ∧
      (w'.contract.deposits n).status = .withdrawn ∧
      w'.balance (w.contract.assetMap (w.contract.deposits n).assetId) ctx.msgSender =
        w.balance (w.contract.assetMap (w.contract.deposits n).assetId) ctx.msgSender +
          (w.contract.deposits n).value.toNat := by
  have hasset := hI.registered n (by rw [hpending]; decide)
  have hne := hI.recipients n hpending
  have hfunds : (w.contract.deposits n).value.toNat ≤
      w.balance (w.contract.assetMap (w.contract.deposits n).assetId) self := by
    have hsolvent := hI.solvent hc hasset
    have hpart := worth_le_depositSum .pending (w.contract.deposits n).assetId
      w.contract.deposits n
    rw [Deposit.worth, if_pos ⟨hpending, rfl⟩] at hpart
    omega
  have hstep := withdrawPendingDeposit_isOk hpending hpaused hsender htime
  refine ⟨_, by simp only [worldStep, answer, step, decide_eq_true hfunds, hstep]; rfl, ?_, ?_⟩
  · simp only [update_self]
  · rw [hsender]
    exact move_dst hne.symm

/-- In every state reached by calls and transfers, if no asset ever has more proven
withdrawals than validated deposits: the balance covers the pending deposits and the queue;
what has been proven is either queued or has been paid, once and in order; a flush pays
exactly what is queued; and a pending deposit is returned in full to its recipient. -/
theorem escrow_solvent (env : Env) (self : Address) (s₀ : ContractState) (h₀ : Deployed env s₀)
    (balance : TokenBalances) (hsupply : ∀ t, supply balance t < 2 ^ 256) (ops : List WorldOp)
    (hcovered : ∀ pre, pre <+: ops →
      Covered (run (worldStep self env) (.start s₀ balance) pre))
    (w : World) (hw : run (worldStep self env) (.start s₀ balance) ops = w) :
    (∀ a, w.contract.assetMap a ≠ 0 →
      depositSum .pending a w.contract.deposits + owed a w.contract.pendingWithdrawals ≤
        w.balance (w.contract.assetMap a) self) ∧
    (w.recorded = w.flushed ++ w.contract.pendingWithdrawals ∧
      w.paid = w.flushed.flatMap (dues w.contract.assetMap)) ∧
    (∀ ctx ok, ∃ w', worldStep self env (.call ctx (.flushPendingWithdrawals ok)) w = .ok w' ∧
      w'.contract.pendingWithdrawals = [] ∧ w'.flushed = w.recorded ∧
      w'.paid = w.recorded.flatMap (dues w.contract.assetMap) ∧
      ∀ t h, h ≠ self → w'.balance t h = w.balance t h + received t h
        (asPayments (w.contract.pendingWithdrawals.flatMap (dues w.contract.assetMap)))) ∧
    ∀ n, (w.contract.deposits n).status = .pending → w.contract.paused = false →
      ∀ ctx : Ctx, ctx.msgSender = (w.contract.deposits n).recipient →
        (w.contract.deposits n).depositBlock.toNat + w.contract.withdrawalDelay.toNat ≤
          ctx.blockNumber.toNat →
        ∀ ok, ∃ w', worldStep self env (.call ctx (.withdrawPendingDeposit n ok)) w = .ok w' ∧
          (w'.contract.deposits n).status = .withdrawn ∧
          w'.balance (w.contract.assetMap (w.contract.deposits n).assetId) ctx.msgSender =
            w.balance (w.contract.assetMap (w.contract.deposits n).assetId) ctx.msgSender +
              (w.contract.deposits n).value.toNat := by
  have hI := escrowInv_run h₀ hsupply ops hcovered
  have hc := hcovered ops (List.prefix_refl _)
  rw [hw] at hI hc
  refine ⟨fun a ha => hI.solvent hc ha, ⟨hI.recorded, hI.paid⟩, fun ctx ok => hI.flush_pays hc ctx ok,
    ?_⟩
  intro n hpending hpaused ctx hsender htime ok
  exact hI.returned hc hpending hpaused hsender htime ok

theorem covered_of_nothing_recorded (h : w.recorded = []) : Covered w := by
  intro a
  rw [h]
  exact Nat.zero_le _

/-- Holder `2` has a hundred of every token. -/
def sampleBalance : TokenBalances := fun _ h => if h = 2 then 100 else 0

/-- An asset is registered and ten of it are deposited. -/
def depositTen : List WorldOp :=
  [.call ⟨1, 0⟩ (.registerAsset 1 7), .call ⟨2, 0⟩ (.depositAndRegister 5 1 10 ⟨0, true, 0⟩)]

theorem escrow_solvent_sample : Deployed sampleEnv sampleState ∧
    ((run (worldStep 9 sampleEnv) (.start sampleState sampleBalance) depositTen).contract.deposits
      5).value = 10 ∧
    ∃ w, worldStep 9 sampleEnv (.call ⟨2, 0⟩ (.withdrawPendingDeposit 5 true))
        (run (worldStep 9 sampleEnv) (.start sampleState sampleBalance) depositTen) = .ok w ∧
      w.balance 7 2 = 100 := by
  have hsupply : ∀ t, supply sampleBalance t < 2 ^ 256 := by
    intro t
    simp only [supply, sampleBalance, Finset.sum_ite_eq', Finset.mem_univ, if_true]
    decide
  have hcovered : ∀ pre, pre <+: depositTen →
      Covered (run (worldStep 9 sampleEnv) (.start sampleState sampleBalance) pre) := by
    intro pre hpre
    apply covered_of_nothing_recorded
    rw [← List.mem_inits] at hpre
    simp only [depositTen, List.inits_cons, List.inits, List.map_cons, List.map_nil,
      List.mem_cons, List.not_mem_nil, or_false] at hpre
    rcases hpre with rfl | rfl | rfl
    · rfl
    · rfl
    · rfl
  refine ⟨sampleState_deployed, by decide +kernel, ?_⟩
  obtain ⟨w, hw, -, hbalance⟩ := (escrow_solvent sampleEnv 9 sampleState sampleState_deployed
    sampleBalance hsupply depositTen hcovered _ rfl).2.2.2 5 (by decide +kernel) (by decide +kernel)
    ⟨2, 0⟩ (by decide +kernel) (by decide +kernel) true
  refine ⟨w, hw, ?_⟩
  exact hbalance.trans (by decide +kernel)

end Solvency

end Doxa.Contract
