import Doxa.Contract.Reentrancy

/-!
# The accounts under callbacks

The invariant behind `callbacks_accounted`. `Backed` is about deposits and tokens,
`QueueInv` about the queue, and each waiting call adds what it relies on (`FrameGood`): a
deposit between its balance reads that nothing has been recorded for its asset since the
first one, and that the balance has not grown by more than was received; a flush that
exactly the amounts before its position are paid.
-/

namespace Doxa.Contract

open Lib Function

variable {env : Env}

/-! ## Deposits and tokens -/

structure Backed (w : Vault) : Prop where
  registry : Registry w.contract
  registered : ∀ k, (w.contract.deposits k).status ≠ .none →
    w.contract.assetMap (w.contract.deposits k).assetId ≠ 0
  bounded : ∀ t, w.balance t < 2 ^ 256
  covered : ∀ a, w.contract.assetMap a ≠ 0 →
    recordedOf a w.contract.deposits ≤ w.received (w.contract.assetMap a)

/-- The balance has grown by no more than was received since, and nothing has been recorded
for an asset. -/
structure Since (w w' : Vault) : Prop where
  kept : ∀ a, w.contract.assetMap a ≠ 0 → w'.contract.assetMap a = w.contract.assetMap a
  received : ∀ t, w.received t ≤ w'.received t
  balance : ∀ t, w'.balance t + w.received t ≤ w.balance t + w'.received t

section Ledger

variable {w w' : Vault} {s : ContractState}

/-- Changing the status of a registered deposit records nothing. -/
theorem recorded_status {d d' : Deposit} (hv : d'.value = d.value) (ha : d'.assetId = d.assetId)
    (hd : d.status ≠ .none) (hd' : d'.status ≠ .none) (a : U256) : d'.recorded a = d.recorded a := by
  simp only [Deposit.recorded, hv, ha, hd, hd', ne_eq, not_false_eq_true, true_and]

theorem recordedOf_update_le (deposits : Bytes32 → Deposit) (n : Bytes32) (d : Deposit) (a : U256) :
    recordedOf a (update deposits n d) ≤ recordedOf a deposits + d.recorded a := by
  have hsum := sum_update (fun d : Deposit => d.recorded a) deposits n d
  simp only [recordedOf]
  omega

theorem recordedOf_eq_zero {deposits : Bytes32 → Deposit} {a : U256}
    (h : ∀ k, (deposits k).status ≠ .none → (deposits k).assetId ≠ a) :
    recordedOf a deposits = 0 := by
  refine Finset.sum_eq_zero fun k _ => if_neg ?_
  rintro ⟨hk, ha⟩
  exact h k hk ha

/-- The tokens and the assets are the same. -/
theorem since_of_eq (hmap : w'.contract.assetMap = w.contract.assetMap)
    (hbalance : w'.balance = w.balance) (hreceived : w'.received = w.received) : Since w w' := by
  refine ⟨fun a _ => congrFun hmap a, fun t => ?_, fun t => ?_⟩
  · rw [hreceived]
  · rw [hreceived, hbalance]

/-- A call that leaves assets and deposits alone. -/
theorem Backed.same (hB : Backed w) (hmap : s.assetMap = w.contract.assetMap)
    (htok : s.tokenToAssetId = w.contract.tokenToAssetId)
    (hdep : s.deposits = w.contract.deposits) : Backed { w with contract := s } := by
  refine ⟨?_, ?_, hB.bounded, ?_⟩
  · unfold Registry
    rw [hmap, htok]
    exact hB.registry
  · rw [hmap, hdep]
    exact hB.registered
  · rw [hmap, hdep]
    exact hB.covered

theorem Backed.register (hB : Backed w) {a : U256} {t : Address} (ha : a ≠ 0)
    (hmap : w.contract.assetMap a = 0) (htok : w.contract.tokenToAssetId t = 0) :
    Backed { w with contract := { w.contract with
      assetMap := update w.contract.assetMap a t
      tokenToAssetId := update w.contract.tokenToAssetId t a } } := by
  refine ⟨?_, ?_, hB.bounded, ?_⟩
  · exact hB.registry.register ha htok
  · intro k hk
    have hreg := hB.registered k hk
    have hne : (w.contract.deposits k).assetId ≠ a := by
      intro heq
      rw [heq] at hreg
      exact hreg hmap
    simp only [update_of_ne hne]
    exact hreg
  · intro x hx
    by_cases hxa : x = a
    · subst hxa
      have hno : ∀ k, (w.contract.deposits k).status ≠ .none →
          (w.contract.deposits k).assetId ≠ x := by
        intro k hk heq
        have hreg := hB.registered k hk
        rw [heq] at hreg
        exact hreg hmap
      simp only [recordedOf_eq_zero hno]
      exact Nat.zero_le _
    · simp only [update_of_ne hxa] at hx ⊢
      exact hB.covered x hx

/-- Deposits that only change their status. -/
theorem Backed.statuses (hB : Backed w) (hmap : s.assetMap = w.contract.assetMap)
    (htok : s.tokenToAssetId = w.contract.tokenToAssetId)
    (hdep : ∀ k, s.deposits k = w.contract.deposits k ∨
      (w.contract.deposits k).status ≠ .none ∧ (s.deposits k).status ≠ .none ∧
        (s.deposits k).value = (w.contract.deposits k).value ∧
        (s.deposits k).assetId = (w.contract.deposits k).assetId) :
    Backed { w with contract := s } ∧
      ∀ a, recordedOf a s.deposits = recordedOf a w.contract.deposits := by
  have hrecorded : ∀ a, recordedOf a s.deposits = recordedOf a w.contract.deposits := by
    intro a
    refine Finset.sum_congr rfl fun k _ => ?_
    rcases hdep k with heq | ⟨hd, hd', hv, ha⟩
    · rw [heq]
    · exact recorded_status hv ha hd hd' a
  refine ⟨⟨?_, ?_, hB.bounded, ?_⟩, hrecorded⟩
  · unfold Registry
    rw [hmap, htok]
    exact hB.registry
  · intro k hk
    rw [hmap]
    rcases hdep k with heq | ⟨hd, -, -, ha⟩
    · simp only [heq] at hk ⊢
      exact hB.registered k hk
    · simp only [ha]
      exact hB.registered k hd
  · intro a ha
    simp only [hmap, hrecorded] at ha ⊢
    exact hB.covered a ha

theorem Backed.receive (hB : Backed w) {t : Address} {x : ℕ} (hx : w.balance t + x < 2 ^ 256) :
    Backed { w with
      balance := update w.balance t (w.balance t + x)
      received := update w.received t (w.received t + x) } := by
  refine ⟨hB.registry, hB.registered, ?_, ?_⟩
  · intro t'
    by_cases ht : t' = t
    · subst ht
      simpa using hx
    · simp only [update_of_ne ht]
      exact hB.bounded t'
  · intro a ha
    have hcovered := hB.covered a ha
    by_cases ht : w.contract.assetMap a = t
    · simp only [ht, update_self] at hcovered ⊢
      omega
    · simp only [update_of_ne ht]
      exact hcovered

theorem since_receive (w : Vault) (t : Address) (x : ℕ) :
    Since w { w with
      balance := update w.balance t (w.balance t + x)
      received := update w.received t (w.received t + x) } := by
  refine ⟨fun _ _ => rfl, fun t' => ?_, fun t' => ?_⟩
  · by_cases ht : t' = t
    · subst ht
      simp
    · simp [update_of_ne ht]
  · by_cases ht : t' = t
    · subst ht
      simp only [update_self]
      omega
    · simp only [update_of_ne ht]
      omega

theorem Backed.lose (hB : Backed w) (t : Address) (x : ℕ) :
    Backed { w with balance := update w.balance t (w.balance t - x) } := by
  refine ⟨hB.registry, hB.registered, ?_, hB.covered⟩
  intro t'
  have hbound := hB.bounded t'
  by_cases ht : t' = t
  · subst ht
    simp only [update_self]
    omega
  · simp only [update_of_ne ht]
    exact hbound

theorem since_lose (w : Vault) (t : Address) (x : ℕ) :
    Since w { w with balance := update w.balance t (w.balance t - x) } := by
  refine ⟨fun _ _ => rfl, fun t' => Nat.le_refl _, fun t' => ?_⟩
  by_cases ht : t' = t
  · subst ht
    simp only [update_self]
    omega
  · simp [update_of_ne ht]

/-- What a deposit relies on between its two balance reads. -/
structure WindowGood (w : Vault) (d : DepositArgs) (before recv : ℕ) : Prop where
  recorded : recordedOf d.assetId w.contract.deposits ≤ recv
  received : recv ≤ w.received d.token
  small : before < 2 ^ 256
  balance : w.balance d.token + recv ≤ before + w.received d.token

theorem WindowGood.since {d : DepositArgs} {before recv : ℕ} (h : WindowGood w d before recv)
    (hs : Since w w') (hrec : recordedOf d.assetId w'.contract.deposits ≤
      recordedOf d.assetId w.contract.deposits) : WindowGood w' d before recv := by
  have hreceived := hs.received d.token
  have hbalance := hs.balance d.token
  have hbefore := h.balance
  exact ⟨hrec.trans h.recorded, h.received.trans hreceived, h.small, by omega⟩

/-- A deposit adds to the records no more than was received while it waited. -/
theorem Backed.recordDeposit (hB : Backed w) {d : DepositArgs} {before recv : ℕ}
    (hasset : w.contract.assetMap d.assetId = d.token ∧ d.token ≠ 0)
    (hwin : WindowGood w d before recv)
    (h : registerDeposit d.ctx d.note d.recipient d.assetId ⟨BitVec.ofNat 256 before, true,
      BitVec.ofNat 256 (w.balance d.token)⟩ w.contract = .ok s) :
    Backed { w with contract := s } ∧ s.assetMap = w.contract.assetMap ∧
      s.pendingWithdrawals = w.contract.pendingWithdrawals ∧
      ∀ a, a ≠ d.assetId → recordedOf a s.deposits ≤ recordedOf a w.contract.deposits := by
  simp only [registerDeposit, revertIf_bind_eq_ok, pure_eq_ok] at h
  obtain ⟨-, hlt, rfl⟩ := h
  have hbalance := hB.bounded d.token
  have hbefore := hwin.small
  rw [BitVec.le_def, BitVec.toNat_ofNat, BitVec.toNat_ofNat, Nat.mod_eq_of_lt hbalance,
    Nat.mod_eq_of_lt hbefore, not_le] at hlt
  have hvalue : (BitVec.ofNat 256 (w.balance d.token) - BitVec.ofNat 256 before).toNat =
      w.balance d.token - before := by
    rw [BitVec.toNat_sub_of_le, BitVec.toNat_ofNat, BitVec.toNat_ofNat,
      Nat.mod_eq_of_lt hbalance, Nat.mod_eq_of_lt hbefore]
    rw [BitVec.le_def, BitVec.toNat_ofNat, BitVec.toNat_ofNat, Nat.mod_eq_of_lt hbalance,
      Nat.mod_eq_of_lt hbefore]
    omega
  set dep : Deposit := ⟨BitVec.ofNat 256 (w.balance d.token) - BitVec.ofNat 256 before,
    d.recipient, .pending, d.ctx.blockNumber, d.assetId⟩ with hdep
  have hother : ∀ a, a ≠ d.assetId → dep.recorded a = 0 := fun a ha =>
    if_neg fun h => ha h.2.symm
  have hown : dep.recorded d.assetId = w.balance d.token - before := by
    rw [← hvalue]
    have hpending : dep.status ≠ .none := DepositStatus.noConfusion
    exact if_pos ⟨hpending, rfl⟩
  refine ⟨⟨hB.registry, ?_, hB.bounded, ?_⟩, rfl, rfl, ?_⟩
  · intro k hk
    by_cases hkn : k = d.note
    · subst hkn
      simp only [update_self, hdep, hasset.1]
      exact hasset.2
    · simp only [update_of_ne hkn] at hk ⊢
      exact hB.registered k hk
  · intro a ha
    have hle := recordedOf_update_le w.contract.deposits d.note dep a
    by_cases had : a = d.assetId
    · subst had
      rw [hown] at hle
      have hwindow := hwin.balance
      have hrecorded := hwin.recorded
      have hrecv := hwin.received
      simp only [hasset.1]
      omega
    · rw [hother a had, Nat.add_zero] at hle
      exact hle.trans (hB.covered a ha)
  · intro a ha
    have hle := recordedOf_update_le w.contract.deposits d.note dep a
    rwa [hother a ha, Nat.add_zero] at hle

end Ledger

/-! ## The queue -/

structure QueueInv (w : Vault) : Prop where
  queue : w.contract.pendingWithdrawals = w.ids.map w.entry
  fresh : (w.deleted ++ w.ids).Nodup
  known : ∀ id ∈ w.deleted ++ w.ids, id < w.entries.length
  once : w.paid.Nodup
  paid : ∀ p ∈ w.paid, p.1 ∈ w.deleted ++ w.ids
  settled : ∀ id ∈ w.deleted, ∀ j, (w.entry id).amounts j ≠ 0 → (id, j) ∈ w.paid

/-- Exactly the amounts at the positions `done` of the queue are paid. -/
def PaidUpTo (w : Vault) (done : List (ℕ × Fin NOTE_BATCH)) : Prop :=
  ∀ i id j, w.ids[i]? = some id →
    ((id, j) ∈ w.paid ↔ (i, j) ∈ done ∧ (w.entry id).amounts j ≠ 0)

/-- The asset of every queued amount is registered. -/
def AllRegistered (w : Vault) : Prop :=
  ∀ pw ∈ w.contract.pendingWithdrawals, ∀ j, pw.amounts j ≠ 0 →
    w.contract.assetMap (pw.assetIds j) ≠ 0

section Queue

variable {w w' : Vault} {s : ContractState}

/-- The queue and its history are the same. -/
structure SameQueue (w w' : Vault) : Prop where
  queue : w'.contract.pendingWithdrawals = w.contract.pendingWithdrawals
  entries : w'.entries = w.entries
  ids : w'.ids = w.ids
  paid : w'.paid = w.paid
  deleted : w'.deleted = w.deleted

theorem SameQueue.entry (h : SameQueue w w') : w'.entry = w.entry := by
  unfold Vault.entry
  rw [h.entries]

theorem SameQueue.inv (h : SameQueue w w') (hQ : QueueInv w) : QueueInv w' := by
  constructor
  · rw [h.queue, h.ids, h.entry]
    exact hQ.queue
  · rw [h.deleted, h.ids]
    exact hQ.fresh
  · rw [h.deleted, h.ids, h.entries]
    exact hQ.known
  · rw [h.paid]
    exact hQ.once
  · rw [h.deleted, h.ids, h.paid]
    exact hQ.paid
  · rw [h.deleted, h.entry, h.paid]
    exact hQ.settled

theorem SameQueue.paidUpTo (h : SameQueue w w') {done : List (ℕ × Fin NOTE_BATCH)}
    (hp : PaidUpTo w done) : PaidUpTo w' done := by
  unfold PaidUpTo
  rw [h.ids, h.paid, h.entry]
  exact hp

theorem queue_nil (w : Vault) (s : ContractState) : w.queue s [] = { w with contract := s } := by
  simp [Vault.queue]

/-- An entry keeps its number when others are queued. -/
theorem entry_queue (w : Vault) (s : ContractState) (new : List PendingWithdrawal) {id : ℕ}
    (h : id < w.entries.length) : (w.queue s new).entry id = w.entry id := by
  simp only [Vault.entry, Vault.queue, List.getD_eq_getElem?_getD, List.getElem?_append_left h]

theorem QueueInv.append (hQ : QueueInv w) {new : List PendingWithdrawal}
    (h : s.pendingWithdrawals = w.contract.pendingWithdrawals ++ new) :
    QueueInv (w.queue s new) := by
  have hnew : ∀ id ∈ List.range' w.entries.length new.length, w.entries.length ≤ id ∧
      id < w.entries.length + new.length := fun id hid => by
    simpa [List.mem_range'_1] using hid
  have hentry : ∀ id ∈ w.deleted ++ w.ids, (w.queue s new).entry id = w.entry id := fun id hid =>
    entry_queue w s new (hQ.known id hid)
  constructor
  · show s.pendingWithdrawals = (w.ids ++ List.range' w.entries.length new.length).map _
    rw [h, hQ.queue, List.map_append]
    congr 1
    · exact List.map_congr_left fun id hid => (hentry id (List.mem_append_right _ hid)).symm
    · refine List.ext_getElem (by simp) fun k hk hk' => ?_
      simp [Vault.entry, Vault.queue, hk]
  · show (w.deleted ++ (w.ids ++ List.range' w.entries.length new.length)).Nodup
    rw [← List.append_assoc, List.nodup_append]
    refine ⟨hQ.fresh, List.nodup_range', ?_⟩
    rintro id hid _ hid' rfl
    have hlt := hQ.known id hid
    have hle := (hnew id hid').1
    omega
  · intro id hid
    show id < (w.entries ++ new).length
    rw [List.length_append]
    replace hid : id ∈ w.deleted ++ (w.ids ++ List.range' w.entries.length new.length) := hid
    rw [← List.append_assoc, List.mem_append] at hid
    rcases hid with hid | hid
    · have := hQ.known id hid
      omega
    · exact (hnew id hid).2
  · exact hQ.once
  · intro p hp
    have hmem := hQ.paid p hp
    show p.1 ∈ w.deleted ++ (w.ids ++ List.range' w.entries.length new.length)
    rw [← List.append_assoc]
    exact List.mem_append_left _ hmem
  · intro id hid j hj
    rw [hentry id (List.mem_append_left _ hid)] at hj
    exact hQ.settled id hid j hj

/-- Newly queued amounts are not paid. -/
theorem PaidUpTo.append (hQ : QueueInv w) (hp : PaidUpTo w []) (s : ContractState)
    (new : List PendingWithdrawal) : PaidUpTo (w.queue s new) [] := by
  intro i id j hid
  simp only [List.not_mem_nil, false_and, iff_false]
  intro hpaid
  replace hid : (w.ids ++ List.range' w.entries.length new.length)[i]? = some id := hid
  by_cases hi : i < w.ids.length
  · rw [List.getElem?_append_left hi] at hid
    exact absurd ((hp i id j hid).mp hpaid).1 (List.not_mem_nil)
  · rw [List.getElem?_append_right (not_lt.mp hi)] at hid
    have hmem := List.mem_of_getElem? hid
    rw [List.mem_range'_1] at hmem
    have hlt := hQ.known _ (hQ.paid _ hpaid)
    simp only at hlt
    omega

theorem mem_positions {n i : ℕ} {j : Fin NOTE_BATCH} : (i, j) ∈ positions n ↔ i < n := by
  simp [positions, List.mem_finRange]

theorem positions_nodup (n : ℕ) : (positions n).Nodup :=
  List.nodup_range.product (List.nodup_finRange _)

/-- The entry at a position of the queue. -/
theorem QueueInv.entry_at (hQ : QueueInv w) {i id : ℕ} (h : w.ids[i]? = some id) :
    w.contract.pendingWithdrawals.getD i .zero = w.entry id ∧
      i < w.contract.pendingWithdrawals.length := by
  have hlt : i < w.ids.length := (List.getElem?_eq_some_iff.mp h).1
  rw [hQ.queue, List.length_map, List.getD_eq_getElem?_getD, List.getElem?_map, h]
  exact ⟨rfl, hlt⟩

/-- An amount of zero counts as paid. -/
theorem PaidUpTo.skip {done : List (ℕ × Fin NOTE_BATCH)} {i id : ℕ} {j : Fin NOTE_BATCH}
    (hp : PaidUpTo w done) (hid : w.ids[i]? = some id) (hzero : (w.entry id).amounts j = 0) :
    PaidUpTo w (done ++ [(i, j)]) := by
  intro i' id' j' hid'
  rw [hp i' id' j' hid', List.mem_append, List.mem_singleton]
  constructor
  · rintro ⟨hdone, hne⟩
    exact ⟨.inl hdone, hne⟩
  · rintro ⟨hdone | heq, hne⟩
    · exact ⟨hdone, hne⟩
    · obtain ⟨rfl, rfl⟩ := Prod.mk.inj heq
      obtain rfl := Option.some.inj (hid'.symm.trans hid)
      exact absurd hzero hne

/-- A flush at work: all before its position is paid, and every asset is registered. -/
structure Flushing (w : Vault) (done todo : List (ℕ × Fin NOTE_BATCH)) : Prop where
  positions : positions w.ids.length = done ++ todo
  paid : PaidUpTo w done
  registered : AllRegistered w

/-- The loop of a flush ends, or stops at the next amount to be paid. -/
theorem Flushing.advance (hQ : QueueInv w) (hR : Registry w.contract)
    {done todo : List (ℕ × Fin NOTE_BATCH)} (h : Flushing w done todo) :
    (w.advance todo = .done ∧ Flushing w (Contract.positions w.ids.length) []) ∨
      ∃ id j rest done' i, w.advance todo = .transfer id j rest ∧
        Flushing w done' ((i, j) :: rest) ∧ w.ids[i]? = some id ∧
        (w.entry id).amounts j ≠ 0 := by
  induction todo generalizing done with
  | nil =>
      have hdone : done = Contract.positions w.ids.length := by
        rw [h.positions, List.append_nil]
      subst hdone
      exact .inl ⟨rfl, h⟩
  | cons p todo ih =>
      obtain ⟨i, j⟩ := p
      have hi : i < w.ids.length := by
        rw [← mem_positions (j := j), h.positions]
        exact List.mem_append_right _ List.mem_cons_self
      obtain ⟨id, hid⟩ : ∃ id, w.ids[i]? = some id := ⟨_, List.getElem?_eq_getElem hi⟩
      obtain ⟨hentry, hlt⟩ := hQ.entry_at hid
      have hinside : ¬(j.val = 0 ∧ w.contract.pendingWithdrawals.length ≤ i) :=
        fun hpanic => absurd hpanic.2 (not_le.mpr hlt)
      by_cases hzero : (w.entry id).amounts j = 0
      · -- the amount is skipped
        have hstep : w.advance ((i, j) :: todo) = w.advance todo := by
          rw [Vault.advance, if_neg hinside, hentry, if_pos (.inr hzero)]
        rw [hstep]
        refine ih ⟨?_, h.paid.skip hid hzero, h.registered⟩
        rw [h.positions, List.append_assoc]
        rfl
      · have hmem : w.entry id ∈ w.contract.pendingWithdrawals := by
          rw [hQ.queue]
          exact List.mem_map_of_mem (List.mem_of_getElem? hid)
        have hasset := h.registered _ hmem j hzero
        refine .inr ⟨id, j, todo, done, i, ?_, h, hid, hzero⟩
        rw [Vault.advance, if_neg hinside, hentry,
          if_neg (not_or.mpr ⟨(hR _ hasset).2, hzero⟩), if_neg hasset,
          List.getD_eq_getElem?_getD, hid, Option.getD_some]

/-- A transfer returned. -/
theorem Flushing.pay (hQ : QueueInv w) {done todo : List (ℕ × Fin NOTE_BATCH)} {i id : ℕ}
    {j : Fin NOTE_BATCH} (h : Flushing w done ((i, j) :: todo)) (hid : w.ids[i]? = some id)
    (hne : (w.entry id).amounts j ≠ 0) :
    QueueInv { w with paid := w.paid ++ [(id, j)] } ∧
      Flushing { w with paid := w.paid ++ [(id, j)] } (done ++ [(i, j)]) todo := by
  have hnot : (i, j) ∉ done := by
    have hnodup := positions_nodup w.ids.length
    rw [h.positions, List.nodup_append] at hnodup
    intro hmem
    exact hnodup.2.2 _ hmem _ List.mem_cons_self rfl
  have hunpaid : (id, j) ∉ w.paid := fun hmem => hnot ((h.paid i id j hid).mp hmem).1
  have hids : w.ids.Nodup := (List.nodup_append.mp hQ.fresh).2.1
  refine ⟨⟨hQ.queue, hQ.fresh, hQ.known, ?_, ?_, ?_⟩, ?_, ?_, h.registered⟩
  · rw [List.nodup_append]
    refine ⟨hQ.once, List.nodup_singleton _, ?_⟩
    rintro p hp _ hq rfl
    rw [List.mem_singleton] at hq
    exact hunpaid (hq ▸ hp)
  · intro p hp
    rcases List.mem_append.mp hp with hp | hp
    · exact hQ.paid p hp
    · obtain rfl := List.mem_singleton.mp hp
      exact List.mem_append_right _ (List.mem_of_getElem? hid)
  · intro id' hid' j' hj'
    exact List.mem_append_left _ (hQ.settled id' hid' j' hj')
  · rw [List.append_assoc]
    exact h.positions
  · intro i' id' j' hid'
    show (id', j') ∈ w.paid ++ [(id, j)] ↔ (i', j') ∈ done ++ [(i, j)] ∧
      (w.entry id').amounts j' ≠ 0
    rw [List.mem_append, List.mem_append, h.paid i' id' j' hid', List.mem_singleton,
      List.mem_singleton]
    constructor
    · rintro (⟨hdone, hj'⟩ | heq)
      · exact ⟨.inl hdone, hj'⟩
      · obtain ⟨rfl, rfl⟩ := Prod.mk.inj heq
        have hsame : i' = i := by
          obtain ⟨hi', hget'⟩ := List.getElem?_eq_some_iff.mp hid'
          obtain ⟨hi, hget⟩ := List.getElem?_eq_some_iff.mp hid
          exact (hids.getElem_inj_iff).mp (hget'.trans hget.symm)
        subst hsame
        exact ⟨.inr rfl, hne⟩
    · rintro ⟨hdone | heq, hj'⟩
      · exact .inl ⟨hdone, hj'⟩
      · obtain ⟨rfl, rfl⟩ := Prod.mk.inj heq
        obtain rfl := Option.some.inj (hid'.symm.trans hid)
        exact .inr rfl

/-- A flush that is through may clear the queue. -/
theorem QueueInv.cleared (hQ : QueueInv w) (h : PaidUpTo w (positions w.ids.length)) :
    QueueInv w.clear ∧ PaidUpTo w.clear [] := by
  refine ⟨⟨rfl, ?_, ?_, hQ.once, ?_, ?_⟩, nofun⟩
  · show ((w.deleted ++ w.ids) ++ []).Nodup
    rw [List.append_nil]
    exact hQ.fresh
  · intro id hid
    replace hid : id ∈ (w.deleted ++ w.ids) ++ [] := hid
    rw [List.append_nil] at hid
    exact hQ.known id hid
  · intro p hp
    show p.1 ∈ (w.deleted ++ w.ids) ++ []
    rw [List.append_nil]
    exact hQ.paid p hp
  · intro id hid j hj
    rcases List.mem_append.mp hid with hid | hid
    · exact hQ.settled id hid j hj
    · obtain ⟨i, hi, rfl⟩ := List.getElem_of_mem hid
      exact (h i _ j (List.getElem?_eq_getElem hi)).mpr ⟨mem_positions.mpr hi, hj⟩

end Queue

/-! ## Waiting calls -/

section Frames

variable {w w' : Vault} {frames : List Frame} {s : ContractState}

/-- The asset of a deposit is registered with its token. -/
def DepositArgs.Registered (w : Vault) (d : DepositArgs) : Prop :=
  w.contract.assetMap d.assetId = d.token ∧ d.token ≠ 0

/-- What a waiting call relies on. -/
def FrameGood (w : Vault) : Frame → Prop
  | .before d => d.Registered w
  | .pull d before recv => d.Registered w ∧ WindowGood w d before recv
  | .after d before recv => d.Registered w ∧ WindowGood w d before recv
  | .withdraw => True
  | .flush id j todo => ∃ done i, Flushing w done ((i, j) :: todo) ∧ w.ids[i]? = some id ∧
      (w.entry id).amounts j ≠ 0

structure VaultGood (w : Vault) (frames : List Frame) : Prop where
  backed : Backed w
  queue : QueueInv w
  frame : ∀ f ∈ frames, FrameGood w f
  apart : frames.Pairwise fun f g => ∀ a, f.asset? = some a → g.window? ≠ some a
  single : frames.Pairwise fun f g => ¬(f.isFlush = true ∧ g.isFlush = true)
  idle : (∀ f ∈ frames, f.isFlush = false) → PaidUpTo w []

theorem DepositArgs.Registered.since {d : DepositArgs} (h : d.Registered w) (hs : Since w w') :
    d.Registered w' := by
  obtain ⟨hmap, hne⟩ := h
  refine ⟨?_, hne⟩
  rw [hs.kept _ (by rw [hmap]; exact hne), hmap]

theorem Flushing.since {done todo : List (ℕ × Fin NOTE_BATCH)} (h : Flushing w done todo)
    (hs : Since w w') (hq : SameQueue w w') : Flushing w' done todo := by
  refine ⟨?_, hq.paidUpTo h.paid, ?_⟩
  · rw [hq.ids]
    exact h.positions
  · intro pw hpw j hj
    rw [hq.queue] at hpw
    have hreg := h.registered pw hpw j hj
    rwa [hs.kept _ hreg]

/-- A waiting call is not disturbed when tokens move and nothing is recorded in its window
or queued. -/
theorem FrameGood.since {f : Frame} (h : FrameGood w f) (hs : Since w w')
    (hrec : ∀ a, f.window? = some a →
      recordedOf a w'.contract.deposits ≤ recordedOf a w.contract.deposits)
    (hq : f.isFlush = true → SameQueue w w') : FrameGood w' f := by
  cases f with
  | before d => exact DepositArgs.Registered.since h hs
  | pull d before recv => exact ⟨h.1.since hs, h.2.since hs (hrec _ rfl)⟩
  | after d before recv => exact ⟨h.1.since hs, h.2.since hs (hrec _ rfl)⟩
  | withdraw => trivial
  | flush id j todo =>
      obtain ⟨done, i, hflush, hid, hne⟩ := h
      refine ⟨done, i, hflush.since hs (hq rfl), ?_, ?_⟩
      · rw [(hq rfl).ids]
        exact hid
      · rw [(hq rfl).entry]
        exact hne

theorem VaultGood.since (h : VaultGood w frames) (hB : Backed w') (hs : Since w w')
    (hq : SameQueue w w') (hrec : ∀ f ∈ frames, ∀ a, f.window? = some a →
      recordedOf a w'.contract.deposits ≤ recordedOf a w.contract.deposits) :
    VaultGood w' frames where
  backed := hB
  queue := hq.inv h.queue
  frame f hf := (h.frame f hf).since hs (hrec f hf) fun _ => hq
  apart := h.apart
  single := h.single
  idle hno := hq.paidUpTo (h.idle hno)

/-- A call begins to wait. -/
theorem VaultGood.push (h : VaultGood w frames) {f : Frame} (hf : FrameGood w f)
    (hflush : f.isFlush = false) (ha : ∀ a, f.asset? = some a → a ∉ windows frames) :
    VaultGood w (f :: frames) where
  backed := h.backed
  queue := h.queue
  frame g hg := by
    rcases List.mem_cons.mp hg with rfl | hg
    · exact hf
    · exact h.frame g hg
  apart := by
    refine List.pairwise_cons.mpr ⟨fun g hg a hfa hga => ?_, h.apart⟩
    exact ha a hfa (List.mem_filterMap.mpr ⟨g, hg, hga⟩)
  single := by
    refine List.pairwise_cons.mpr ⟨fun g _ hboth => ?_, h.single⟩
    rw [hflush] at hboth
    cases hboth.1
  idle hno := h.idle fun g hg => hno g (List.mem_cons_of_mem f hg)

/-- The topmost call, no flush, returns or goes on to another place. -/
theorem VaultGood.pop {f : Frame} (h : VaultGood w (f :: frames)) (hflush : f.isFlush = false) :
    VaultGood w frames where
  backed := h.backed
  queue := h.queue
  frame g hg := h.frame g (List.mem_cons_of_mem f hg)
  apart := (List.pairwise_cons.mp h.apart).2
  single := (List.pairwise_cons.mp h.single).2
  idle hno := by
    apply h.idle
    intro g hg
    rcases List.mem_cons.mp hg with rfl | hg
    · exact hflush
    · exact hno g hg

theorem VaultGood.asset_notMem {f : Frame} (h : VaultGood w (f :: frames)) {a : U256}
    (ha : f.asset? = some a) : a ∉ windows frames := by
  intro hmem
  obtain ⟨g, hg, hga⟩ := List.mem_filterMap.mp hmem
  exact (List.pairwise_cons.mp h.apart).1 g hg a ha hga

/-- A flush begins or goes on: it stops at its next transfer or clears the queue. -/
theorem continueFlush_holds {snapshot : Vault} {stack : List (Suspended Vault Frame)}
    {done todo : List (ℕ × Fin NOTE_BATCH)} (hB : Backed w) (hQ : QueueInv w)
    (hflush : Flushing w done todo)
    (hframe : ∀ f ∈ stack.map Suspended.frame, FrameGood w f ∧ f.isFlush = false)
    (hsnap : Holds VaultGood snapshot stack) :
    Holds VaultGood (continueFlush snapshot w stack todo).world
      (continueFlush snapshot w stack todo).stack := by
  have hbelow := hsnap.good
  rcases hflush.advance hQ hB.registry with
    ⟨hdone, hall⟩ | ⟨id, j, rest, done', i, hstop, hfl, hid, hne⟩
  · -- the loop is through
    have hnext : continueFlush snapshot w stack todo = ⟨w.clear, stack⟩ := by
      simp only [continueFlush, hdone]
    rw [hnext]
    obtain ⟨hQ', hidle⟩ := hQ.cleared hall.paid
    have hB' : Backed w.clear := ⟨hB.registry, hB.registered, hB.bounded, hB.covered⟩
    have hs : Since w w.clear := since_of_eq rfl rfl rfl
    refine hsnap.world ⟨hB', hQ', fun f hf => ?_, hbelow.apart, hbelow.single, fun _ => hidle⟩
    obtain ⟨hf, hnot⟩ := hframe f hf
    refine hf.since hs (fun _ _ => Nat.le_refl _) fun hyes => ?_
    rw [hnot] at hyes
    cases hyes
  · have hnext : continueFlush snapshot w stack todo =
        ⟨w, ⟨snapshot, .flush id j rest⟩ :: stack⟩ := by
      simp only [continueFlush, hstop]
    rw [hnext]
    refine ⟨⟨hB, hQ, ?_, ?_, ?_, fun hno => ?_⟩, hsnap⟩
    · intro f hf
      rcases List.mem_cons.mp hf with rfl | hf
      · exact ⟨done', i, hfl, hid, hne⟩
      · exact (hframe f hf).1
    · exact List.pairwise_cons.mpr ⟨nofun, hbelow.apart⟩
    · refine List.pairwise_cons.mpr ⟨fun g hg hboth => ?_, hbelow.single⟩
      rw [(hframe g hg).2] at hboth
      cases hboth.2
    · cases hno _ List.mem_cons_self

end Frames

/-! ## One step -/

section Step

variable {m m' : VaultMachine}

/-- The machine is in a good state, now and after any number of reverts. -/
def MachineGood (m : VaultMachine) : Prop := Holds VaultGood m.world m.stack

theorem MachineGood.beginDeposit (h : MachineGood m) {ctx : Ctx} {n : Bytes32} {payer : Address}
    {a maxAmount : U256} (ha : a ∉ windows m.frames)
    (hstep : beginDeposit m ctx n payer a maxAmount = .ok m') : MachineGood m' := by
  simp only [Contract.beginDeposit, checkDeposit, bind_eq_ok, revertIf_eq_ok, pure_eq_ok] at hstep
  obtain ⟨_, -, _, ⟨_, -, _, -, _, -, hasset⟩, rfl⟩ := hstep
  refine Holds.begin h (h.good.push ⟨rfl, hasset⟩ rfl ?_)
  rintro b hb
  obtain rfl := Option.some.inj hb
  exact ha

theorem MachineGood.enterWithdraw (h : MachineGood m) {ctx : Ctx} {n : Bytes32} {s : ContractState}
    (hstep : withdrawPendingDeposit ctx n true m.world.contract = .ok s) :
    MachineGood (m.begin { m.world with contract := s } .withdraw) := by
  obtain ⟨hpending, -, -, rfl⟩ := withdrawPendingDeposit_transfer hstep
  have hgood := h.good
  obtain ⟨hB, hrec⟩ := hgood.backed.statuses
    (s := { m.world.contract with
      deposits := update m.world.contract.deposits n
        { m.world.contract.deposits n with status := .withdrawn } }) rfl rfl (by
      intro k
      by_cases hk : k = n
      · subst hk
        refine .inr ⟨by rw [hpending]; decide, ?_⟩
        simp only [update_self]
        decide
      · exact .inl (update_of_ne hk _ _))
  refine Holds.begin h (VaultGood.push (hgood.since hB ?_ ⟨rfl, rfl, rfl, rfl, rfl⟩ ?_) trivial
    rfl nofun)
  · exact since_of_eq rfl rfl rfl
  · exact fun _ _ a _ => (hrec a).le

theorem MachineGood.enterFlush (h : MachineGood m)
    (hno : ∀ f ∈ m.frames, f.isFlush = false) (hreg : AllRegistered m.world) :
    MachineGood (continueFlush m.world m.world m.stack
      (positions m.world.contract.pendingWithdrawals.length)) := by
  have hgood := h.good
  have hlen : m.world.contract.pendingWithdrawals.length = m.world.ids.length := by
    rw [hgood.queue.queue, List.length_map]
  rw [hlen]
  refine continueFlush_holds hgood.backed hgood.queue ⟨rfl, hgood.idle hno, hreg⟩ ?_ h
  exact fun f hf => ⟨hgood.frame f hf, hno f hf⟩

/-- A call that asks no token. -/
theorem MachineGood.plain (h : MachineGood m) {s : ContractState} (hB : Backed { m.world with
      contract := s }) (hs : Since m.world { m.world with contract := s })
    (hqueue : s.pendingWithdrawals = m.world.contract.pendingWithdrawals)
    (hrec : ∀ a, m.world.contract.assetMap a ≠ 0 →
      recordedOf a s.deposits ≤ recordedOf a m.world.contract.deposits) :
    MachineGood ⟨{ m.world with contract := s }, m.stack⟩ := by
  have hgood := h.good
  refine Holds.world h (hgood.since hB hs ⟨hqueue, rfl, rfl, rfl, rfl⟩ ?_)
  intro f hf a ha
  apply hrec
  have hframe := hgood.frame f hf
  cases f with
  | pull d before recv =>
      obtain rfl := Option.some.inj ha
      rw [hframe.1.1]
      exact hframe.1.2
  | after d before recv =>
      obtain rfl := Option.some.inj ha
      rw [hframe.1.1]
      exact hframe.1.2
  | _ => cases ha

/-- A proven batch. -/
theorem MachineGood.enterProve (h : MachineGood m) {data : Bytes} {proof : Proof} {s : ContractState}
    (hcare : realWithdrawSlots data = [] ∨ ∀ f ∈ m.frames, f.isFlush = false)
    (hstep : proveBridgeTxBatch env data proof m.world.contract = .ok s) :
    MachineGood ⟨m.world.queue s ((realWithdrawSlots data).map (readWithdrawal data)), m.stack⟩ := by
  obtain ⟨hmap, htok, hqueue, hdeposits⟩ := proveBridge_escrow hstep
  have hgood := h.good
  obtain ⟨hB, hrec⟩ := hgood.backed.statuses hmap htok (fun k => by
    rcases hdeposits k with heq | ⟨hpending, heq⟩
    · exact .inl heq
    · rw [heq]
      exact .inr ⟨by rw [hpending]; decide, nofun, rfl, rfl⟩)
  have hs : Since m.world { m.world with contract := s } :=
    since_of_eq hmap rfl rfl
  rcases hcare with hnone | hno
  · rw [hnone] at hqueue ⊢
    rw [List.map_nil, queue_nil]
    rw [List.map_nil, List.append_nil] at hqueue
    exact h.plain hB hs hqueue fun a _ => (hrec a).le
  · refine Holds.world h ⟨⟨hB.registry, hB.registered, hB.bounded, hB.covered⟩,
      hgood.queue.append hqueue, fun f hf => ?_, hgood.apart, hgood.single, fun hidle =>
        (hgood.idle hidle).append hgood.queue s _⟩
    refine (hgood.frame f hf).since ⟨hs.kept, hs.received, hs.balance⟩ (fun a _ => (hrec a).le) ?_
    intro hyes
    rw [hno f hf] at hyes
    cases hyes

theorem MachineGood.enter (h : MachineGood m) {c : Call} (hcare : Careful m (.enter c))
    (hstep : enter env m c = .ok m') : MachineGood m' := by
  have hflushes : m.frames.all (fun f => !f.isFlush) = true → ∀ f ∈ m.frames, f.isFlush = false := by
    intro hall f hf
    simpa using List.all_eq_true.mp hall f hf
  obtain ⟨ctx, op⟩ := c
  by_cases hinert : op.isInert = true
  · -- a call that asks no token and touches neither assets, deposits nor the queue
    have hplain : Contract.enter env m ⟨ctx, op⟩ = (do
        let s ← step env ⟨ctx, op⟩ m.world.contract
        return { m with world := m.world.queue s (recordedBy op) }) := by
      cases op <;> first | rfl | cases hinert
    rw [hplain] at hstep
    simp only [bind_eq_ok, pure_eq_ok] at hstep
    obtain ⟨s, hs, rfl⟩ := hstep
    have hsame := step_inert hinert hs
    rw [(inert_silent m.world.contract hinert).1, queue_nil]
    refine h.plain (h.good.backed.same hsame.assetMap hsame.tokenToAssetId hsame.deposits)
      (since_of_eq hsame.assetMap rfl rfl)
      hsame.pendingWithdrawals fun a _ => ?_
    rw [hsame.deposits]
  cases op with
  | depositAndRegister n a maxAmount r => exact h.beginDeposit hcare hstep
  | depositAndRegisterFor n payer a maxAmount r => exact h.beginDeposit hcare hstep
  | withdrawPendingDeposit n ok =>
      simp only [Contract.enter, bind_eq_ok, pure_eq_ok] at hstep
      obtain ⟨s, hs, rfl⟩ := hstep
      exact h.enterWithdraw hs
  | flushPendingWithdrawals ok =>
      obtain rfl := Except.ok.inj hstep
      exact h.enterFlush (hflushes hcare.1) hcare.2
  | registerAsset a t =>
      simp only [Contract.enter, step, bind_eq_ok, pure_eq_ok] at hstep
      obtain ⟨s, hs, rfl⟩ := hstep
      obtain ⟨ha, -, hmap, htok, rfl⟩ := registerAsset_ok hs
      rw [show recordedBy (.registerAsset a t) = [] from rfl, queue_nil]
      refine h.plain (h.good.backed.register ha hmap htok) ⟨fun x hx => ?_, fun _ => Nat.le_refl _,
        fun _ => Nat.le_refl _⟩ rfl fun _ _ => Nat.le_refl _
      exact (registerAsset_grows hs).kept x hx
  | proveBridgeTxBatch data proof =>
      simp only [Contract.enter, step, bind_eq_ok, pure_eq_ok] at hstep
      obtain ⟨s, hs, rfl⟩ := hstep
      exact h.enterProve (hcare.imp_right hflushes) hs
  | _ => exact absurd rfl hinert

theorem MachineGood.resume (h : MachineGood m) {ok : Bool} (hstep : resume m ok = .ok m') :
    MachineGood m' := by
  obtain ⟨w, stack⟩ := m
  cases stack with
  | nil => cases hstep
  | cons f rest =>
      obtain ⟨snapshot, frame⟩ := f
      have hgood := Holds.good h
      have hrevert : MachineGood (Machine.revert ⟨w, ⟨snapshot, frame⟩ :: rest⟩) := Holds.revert h
      have htop := hgood.frame frame List.mem_cons_self
      cases frame with
      | before d =>
          obtain rfl := Except.ok.inj hstep
          have hbelow := hgood.pop rfl
          refine Holds.move h (hbelow.push ⟨htop, ?_, Nat.le_refl _, hbelow.backed.bounded _,
            Nat.le_refl _⟩ rfl fun a ha => hgood.asset_notMem ha)
          have hcovered := hbelow.backed.covered d.assetId (by rw [htop.1]; exact htop.2)
          rwa [htop.1] at hcovered
      | pull d before recv =>
          simp only [Contract.resume] at hstep
          split at hstep
          · obtain rfl := Except.ok.inj hstep
            exact Holds.move h ((hgood.pop rfl).push htop rfl fun a ha => hgood.asset_notMem ha)
          · obtain rfl := Except.ok.inj hstep
            exact hrevert
      | after d before recv =>
          simp only [Contract.resume] at hstep
          split at hstep
          · rename_i s hs
            obtain rfl := Except.ok.inj hstep
            obtain ⟨hB, hmap, hqueue, hrec⟩ := hgood.backed.recordDeposit htop.1 htop.2 hs
            refine Holds.return h ((hgood.pop rfl).since hB
              (since_of_eq hmap rfl rfl)
              ⟨hqueue, rfl, rfl, rfl, rfl⟩ ?_)
            intro g hg a ha
            apply hrec
            rintro rfl
            exact hgood.asset_notMem rfl (List.mem_filterMap.mpr ⟨g, hg, ha⟩)
          · obtain rfl := Except.ok.inj hstep
            exact hrevert
      | withdraw =>
          simp only [Contract.resume] at hstep
          split at hstep
          · obtain rfl := Except.ok.inj hstep
            exact Holds.return h (hgood.pop rfl)
          · obtain rfl := Except.ok.inj hstep
            exact hrevert
      | flush id j todo =>
          simp only [Contract.resume] at hstep
          split at hstep
          · obtain rfl := Except.ok.inj hstep
            obtain ⟨done, i, hflush, hid, hne⟩ := htop
            obtain ⟨hQ, hnext⟩ := hflush.pay hgood.queue hid hne
            refine continueFlush_holds ⟨hgood.backed.registry, hgood.backed.registered,
              hgood.backed.bounded, hgood.backed.covered⟩ hQ hnext ?_ h.2
            intro g hg
            have hnot : g.isFlush = false := by
              have := (List.pairwise_cons.mp hgood.single).1 g hg
              simpa [Frame.isFlush] using this
            refine ⟨(hgood.frame g (List.mem_cons_of_mem _ hg)).since (since_of_eq rfl rfl rfl)
              (fun _ _ => Nat.le_refl _) fun hyes => ?_, hnot⟩
            rw [hnot] at hyes
            cases hyes
          · obtain rfl := Except.ok.inj hstep
            exact hrevert

theorem vaultStep_good (h : MachineGood m) {a : VaultAct} (hcare : Careful m a)
    (hstep : vaultStep env a m = .ok m') : MachineGood m' := by
  cases a with
  | enter c => exact h.enter hcare hstep
  | resume ok => exact h.resume hstep
  | fail =>
      obtain rfl := Except.ok.inj hstep
      exact Holds.revert h
  | receive t x =>
      simp only [vaultStep] at hstep
      split at hstep
      · cases hstep
      · rename_i hroom
        obtain rfl := Except.ok.inj hstep
        have hgood := h.good
        exact Holds.world h (hgood.since (hgood.backed.receive (not_le.mp hroom))
          (since_receive _ t x) ⟨rfl, rfl, rfl, rfl, rfl⟩ fun _ _ _ _ => Nat.le_refl _)
  | lose t x =>
      obtain rfl := Except.ok.inj hstep
      have hgood := h.good
      exact Holds.world h (hgood.since (hgood.backed.lose t x) (since_lose _ t x)
        ⟨rfl, rfl, rfl, rfl, rfl⟩ fun _ _ _ _ => Nat.le_refl _)

theorem start_good {s : ContractState} (h : Deployed env s) : MachineGood (Vault.start s) := by
  obtain ⟨hmap, hqueue⟩ := deployed_registry h
  obtain ⟨-, -, -, -, hdeposits⟩ := deployed_state h
  refine ⟨⟨?_, ?_, ?_, ?_⟩, ⟨hqueue, List.nodup_nil, nofun, List.nodup_nil, nofun, nofun⟩, nofun,
    .nil, .nil, fun _ => nofun⟩
  · intro a ha
    exact absurd (congrFun hmap a) ha
  · intro k hk
    exact absurd (congrArg (fun f => (f k).status) hdeposits) hk
  · intro t
    exact Nat.two_pow_pos 256
  · intro a ha
    exact absurd (congrFun hmap a) ha

end Step

/-- The values recorded for a token are those of its asset. -/
theorem Backed.recordedFor_le {w : Vault} (hB : Backed w) (t : Address) :
    recordedFor t w.contract ≤ w.received t := by
  by_cases ht : ∃ a, w.contract.assetMap a = t ∧ t ≠ 0
  · obtain ⟨a, rfl, ha⟩ := ht
    have hsame : recordedFor (w.contract.assetMap a) w.contract =
        recordedOf a w.contract.deposits := by
      refine Finset.sum_congr rfl fun k _ => ?_
      have hiff : w.contract.assetMap (w.contract.deposits k).assetId = w.contract.assetMap a ↔
          (w.contract.deposits k).assetId = a :=
        ⟨fun heq => hB.registry.injective ha heq, fun heq => by rw [heq]⟩
      simp only [Deposit.recorded, hiff]
    rw [hsame]
    exact hB.covered a ha
  · have hzero : recordedFor t w.contract = 0 := by
      refine Finset.sum_eq_zero fun k _ => if_neg ?_
      rintro ⟨hk, heq⟩
      exact ht ⟨_, heq, fun h0 => hB.registered k hk (heq.trans h0)⟩
    rw [hzero]
    exact Nat.zero_le _

/-- In every run in which no flush begins during a flush or with an unregistered asset, no
withdrawal is queued during a flush, and no deposit begins between the balance reads of one
of the same asset: at any depth of callbacks, no amount is paid twice, no entry has been
deleted with an amount unpaid, and the deposits recorded for a token do not exceed what was
received of it. -/
theorem callbacks_accounted (env : Env) (s₀ : ContractState) (h₀ : Deployed env s₀)
    (acts : List VaultAct) (hcareful : Along (vaultStep env) Careful (Vault.start s₀) acts) :
    Accounted (run (vaultStep env) (Vault.start s₀) acts).world := by
  have hgood : MachineGood (run (vaultStep env) (Vault.start s₀) acts) :=
    run_inv_along MachineGood (start_good h₀) hcareful
      fun _ _ _ _ hI hcare hstep => vaultStep_good hI hcare hstep
  have h := Holds.good hgood
  exact ⟨h.queue.once, h.queue.settled, h.backed.recordedFor_le⟩

/-! ## A flush inside a flush, a deposit inside a deposit -/

section Sample

/-- The two withdrawals of the sample batch. -/
def sampleWithdrawal (recipient : Address) : PendingWithdrawal where
  recipient := recipient
  assetIds := fun j => if j.val = 0 then 1 else 0
  amounts := fun j => if j.val = 0 then 5 else 0

theorem withdrawBatch_reads : readWithdrawal withdrawBatch 0 = sampleWithdrawal 7 ∧
    readWithdrawal withdrawBatch 1 = sampleWithdrawal 0 := by
  have hrecipient : (readWithdrawal withdrawBatch 0).recipient = 7 ∧
      (readWithdrawal withdrawBatch 1).recipient = 0 := by decide +kernel
  have hids : ∀ j, (readWithdrawal withdrawBatch 0).assetIds j = (sampleWithdrawal 7).assetIds j ∧
      (readWithdrawal withdrawBatch 1).assetIds j = (sampleWithdrawal 0).assetIds j := by
    decide +kernel
  have hamounts : ∀ j, (readWithdrawal withdrawBatch 0).amounts j =
      (sampleWithdrawal 7).amounts j ∧
      (readWithdrawal withdrawBatch 1).amounts j = (sampleWithdrawal 0).amounts j := by
    decide +kernel
  have hext : ∀ pw pw' : PendingWithdrawal, pw.recipient = pw'.recipient →
      (∀ j, pw.assetIds j = pw'.assetIds j) → (∀ j, pw.amounts j = pw'.amounts j) → pw = pw' := by
    rintro ⟨r, a, x⟩ ⟨r', a', x'⟩ hr ha hx
    obtain rfl : r = r' := hr
    obtain rfl : a = a' := funext ha
    obtain rfl : x = x' := funext hx
    rfl
  exact ⟨hext _ _ hrecipient.1 (fun j => (hids j).1) fun j => (hamounts j).1,
    hext _ _ hrecipient.2 (fun j => (hids j).2) fun j => (hamounts j).2⟩

/-- A flush from within the last transfer of a flush. -/
def flushInFlush : List VaultAct :=
  [.enter flushCall, .resume true, .enter flushCall, .resume true, .resume true, .resume true]

/-- The loop reads only the assets, the queue and its numbering. -/
theorem advance_congr {w w' : Vault} (hmap : w'.contract.assetMap = w.contract.assetMap)
    (hqueue : w'.contract.pendingWithdrawals = w.contract.pendingWithdrawals)
    (hids : w'.ids = w.ids) (todo : List (ℕ × Fin NOTE_BATCH)) :
    w'.advance todo = w.advance todo := by
  induction todo with
  | nil => rfl
  | cons p todo ih => simp only [Vault.advance, hmap, hqueue, hids, ih]

/-- A vault with the two withdrawals in its queue. -/
def sampleVault : Vault where
  contract := { sampleState with
    assetMap := update (fun _ => 0) 1 9
    pendingWithdrawals := [sampleWithdrawal 7, sampleWithdrawal 0] }
  balance := fun _ => 0
  received := fun _ => 0
  entries := []
  ids := [0, 1]
  paid := []
  deleted := []

def firstAmount : Fin NOTE_BATCH := ⟨0, by decide⟩

theorem sampleVault_advance :
    sampleVault.advance (positions 2) = .transfer 0 firstAmount ((positions 2).drop 1) ∧
      sampleVault.advance ((positions 2).drop 1) = .transfer 1 firstAmount ((positions 2).drop 8) ∧
      sampleVault.advance ((positions 2).drop 8) = .done ∧
      sampleVault.clear.advance ((positions 2).drop 8) = .done := by
  decide +kernel

/-- All four transfers return, those of the inner flush between those of the outer one. -/
theorem flushInFlush_paid {w : Vault} (hmap : w.contract.assetMap = update (fun _ => 0) 1 9)
    (hqueue : w.contract.pendingWithdrawals = [sampleWithdrawal 7, sampleWithdrawal 0])
    (hids : w.ids = [0, 1]) :
    (run (vaultStep sampleEnv) ⟨w, []⟩ flushInFlush).world.paid =
      w.paid ++ [(0, firstAmount)] ++ [(0, firstAmount)] ++ [(1, firstAmount)] ++
        [(1, firstAmount)] := by
  obtain ⟨hfirst, hsecond, hend, hcleared⟩ := sampleVault_advance
  have hadvance : ∀ (paid : List (ℕ × Fin NOTE_BATCH)) todo,
      Vault.advance { w with paid := paid } todo = sampleVault.advance todo := fun _ todo =>
    advance_congr hmap hqueue hids todo
  have hlen : w.contract.pendingWithdrawals.length = 2 := by rw [hqueue]; rfl
  -- a flush as it begins, at its second transfer, and at its end
  have hbegin : ∀ paid stack, enter sampleEnv ⟨{ w with paid := paid }, stack⟩ flushCall =
      .ok ⟨{ w with paid := paid }, ⟨{ w with paid := paid },
        .flush 0 firstAmount ((positions 2).drop 1)⟩ :: stack⟩ := by
    intro paid stack
    simp only [enter, flushCall, continueFlush, hlen, hadvance, hfirst]
  have hmiddle : ∀ snapshot paid stack, continueFlush snapshot { w with paid := paid } stack
      ((positions 2).drop 1) = ⟨{ w with paid := paid },
        ⟨snapshot, .flush 1 firstAmount ((positions 2).drop 8)⟩ :: stack⟩ := by
    intro snapshot paid stack
    simp only [continueFlush, hadvance, hsecond]
  have hfinish : ∀ snapshot paid stack, continueFlush snapshot { w with paid := paid } stack
      ((positions 2).drop 8) = ⟨Vault.clear { w with paid := paid }, stack⟩ := by
    intro snapshot paid stack
    simp only [continueFlush, hadvance, hend]
  -- the outer flush goes on over the cleared queue
  have houter : ∀ snapshot paid paid' stack, (continueFlush snapshot
      { Vault.clear { w with paid := paid } with paid := paid' } stack
      ((positions 2).drop 8)).world.paid = paid' := by
    intro snapshot paid paid' stack
    have hempty : Vault.advance { Vault.clear { w with paid := paid } with paid := paid' }
        ((positions 2).drop 8) = .done := by
      refine (advance_congr ?_ ?_ ?_ _).trans hcleared
      · exact hmap
      · rfl
      · rfl
    simp only [continueFlush, hempty]
    rfl
  rw [flushInFlush, run_cons, attempt_ok (hbegin w.paid []), run_cons,
    attempt_ok (congrArg Except.ok (hmiddle w _ [])), run_cons, attempt_ok (hbegin _ _), run_cons,
    attempt_ok (congrArg Except.ok (hmiddle _ _ _)), run_cons,
    attempt_ok (congrArg Except.ok (hfinish _ _ _)), run_cons, run_nil]
  exact houter w _ _ []

/-- A deposit from within the `transferFrom` of a deposit of the same token. -/
def depositInDeposit : List VaultAct :=
  [.enter ⟨⟨1, 0⟩, .registerAsset 1 9⟩,
    .enter ⟨⟨7, 0⟩, .depositAndRegister 5 1 10 ⟨0, true, 0⟩⟩, .resume true,
    .enter ⟨⟨8, 0⟩, .depositAndRegister 6 1 10 ⟨0, true, 0⟩⟩, .resume true,
    .receive 9 5, .resume true, .resume true,
    .receive 9 1, .resume true, .resume true]

theorem depositInDeposit_recorded :
    recordedFor 9 (run (vaultStep sampleEnv) (Vault.start sampleState)
      depositInDeposit).world.contract ≥ 5 + 6 := by
  have hboth := add_le_sum (fun k => if ((run (vaultStep sampleEnv) (Vault.start sampleState)
      depositInDeposit).world.contract.deposits k).status ≠ .none ∧
      (run (vaultStep sampleEnv) (Vault.start sampleState) depositInDeposit).world.contract.assetMap
        ((run (vaultStep sampleEnv) (Vault.start sampleState)
          depositInDeposit).world.contract.deposits k).assetId = 9 then
      ((run (vaultStep sampleEnv) (Vault.start sampleState)
        depositInDeposit).world.contract.deposits k).value.toNat else 0)
    (show (6 : Bytes32) ≠ 5 by decide)
  refine le_trans ?_ hboth
  decide +kernel

/-- The queue of the sample batch, in a vault. -/
theorem vault_queued : ∃ w : Vault, run (vaultStep sampleEnv) (Vault.start sampleState)
    (.enter ⟨⟨1, 0⟩, .registerAsset 1 9⟩ :: withdrawCalls.map .enter) = ⟨w, []⟩ ∧
      w.contract.assetMap = update (fun _ => 0) 1 9 ∧
      w.contract.pendingWithdrawals = [sampleWithdrawal 7, sampleWithdrawal 0] ∧
      w.ids = [0, 1] ∧ w.paid = [] := by
  obtain ⟨s, hs⟩ := withdrawBatch_prove (update (fun _ => 0) 1 9) (update (fun _ => 0) 9 1)
  obtain ⟨hmap, -, hqueue, -⟩ := proveBridge_escrow hs
  obtain ⟨hfirst, hsecond⟩ := withdrawBatch_reads
  have hrecorded : recordedBy (.proveBridgeTxBatch withdrawBatch sampleProof) =
      [sampleWithdrawal 7, sampleWithdrawal 0] := by
    rw [recordedBy, withdrawBatch_slots, List.map_cons, List.map_cons, List.map_nil, hfirst,
      hsecond]
  have hregister : vaultStep sampleEnv (.enter ⟨⟨1, 0⟩, .registerAsset 1 9⟩)
      (Vault.start sampleState) = .ok (Vault.start
        (poolWith (update (fun _ => 0) 1 9) (update (fun _ => 0) 9 1))) := rfl
  have hsubmit : ∀ pool, step sampleEnv ⟨⟨1, 0⟩, .submitBridgeTxBatch withdrawBatch⟩ pool =
      .ok (waiting pool) → vaultStep sampleEnv
        (.enter ⟨⟨1, 0⟩, .submitBridgeTxBatch withdrawBatch⟩) (Vault.start pool) =
          .ok (Vault.start (waiting pool)) := by
    intro pool hpool
    simp only [vaultStep, enter, Vault.start, hpool]
    rfl
  have hprove : ∀ pool, step sampleEnv ⟨⟨2, 0⟩, .proveBridgeTxBatch withdrawBatch sampleProof⟩
      pool = .ok s → vaultStep sampleEnv
        (.enter ⟨⟨2, 0⟩, .proveBridgeTxBatch withdrawBatch sampleProof⟩) (Vault.start pool) =
          .ok ⟨(Vault.start pool).world.queue s [sampleWithdrawal 7, sampleWithdrawal 0], []⟩ := by
    intro pool hpool
    simp only [vaultStep, enter, Vault.start, hpool, hrecorded]
    rfl
  refine ⟨(Vault.start (waiting (poolWith (update (fun _ => 0) 1 9)
    (update (fun _ => 0) 9 1)))).world.queue s [sampleWithdrawal 7, sampleWithdrawal 0], ?_, hmap,
    ?_, rfl, rfl⟩
  · rw [withdrawCalls, List.map_cons, List.map_cons, List.map_nil, run_cons, attempt_ok hregister,
      run_cons, attempt_ok (hsubmit _ (withdrawBatch_submit _ _)), run_cons,
      attempt_ok (hprove _ hs), run_nil]
  · show s.pendingWithdrawals = _
    rw [hqueue, withdrawBatch_slots, List.map_cons, List.map_cons, List.map_nil, hfirst, hsecond]
    rfl

/-- A token that flushes from within the last transfer of a flush is paid twice, and one that
deposits from within its `transferFrom` is credited twice. -/
theorem callbacks_unaccounted : Deployed sampleEnv sampleState ∧
    ¬ (run (vaultStep sampleEnv) (Vault.start sampleState)
      (.enter ⟨⟨1, 0⟩, .registerAsset 1 9⟩ :: withdrawCalls.map .enter ++
        flushInFlush)).world.paid.Nodup ∧
    ¬ recordedFor 9 (run (vaultStep sampleEnv) (Vault.start sampleState)
      depositInDeposit).world.contract ≤
        (run (vaultStep sampleEnv) (Vault.start sampleState) depositInDeposit).world.received 9 := by
  refine ⟨sampleState_deployed, ?_, ?_⟩
  · obtain ⟨w, hrun, hmap, hqueue, hids, hpaid⟩ := vault_queued
    rw [run_append, hrun, flushInFlush_paid hmap hqueue hids, hpaid]
    decide
  · have hreceived : (run (vaultStep sampleEnv) (Vault.start sampleState)
        depositInDeposit).world.received 9 = 6 := by decide +kernel
    have hrecorded := depositInDeposit_recorded
    omega

/-- One deposit and one flush, each alone. -/
def oneByOne : List VaultAct :=
  [.enter ⟨⟨1, 0⟩, .registerAsset 1 9⟩,
    .enter ⟨⟨7, 0⟩, .depositAndRegister 5 1 10 ⟨0, true, 0⟩⟩, .resume true, .receive 9 5,
    .resume true, .resume true, .enter flushCall]

theorem callbacks_accounted_sample : Deployed sampleEnv sampleState ∧
    recordedFor 9 (run (vaultStep sampleEnv) (Vault.start sampleState) oneByOne).world.contract ≤ 5 := by
  refine ⟨sampleState_deployed, ?_⟩
  have hcareful : Along (vaultStep sampleEnv) Careful (Vault.start sampleState) oneByOne := by
    refine ⟨trivial, ?_, trivial, trivial, trivial, trivial, ⟨?_, ?_⟩, trivial⟩
    · exact List.not_mem_nil
    · decide +kernel
    · exact nofun
  have hcovered := (callbacks_accounted sampleEnv sampleState sampleState_deployed oneByOne
    hcareful).covered 9
  exact hcovered.trans (by decide +kernel)

end Sample

end Doxa.Contract
