import Doxa.Subpool.Balances

/-!
# While a request is pending

The transaction of a request is derived when it is processed, not when it is submitted. What
it is derived from does not change in between: stored notes stay as they are until they are
consumed, a request consumes only notes of its own account, and the row of an account that
was written once can no longer be read. So a request that is prepared later would have been
prepared the same way before, and one that is prepared now is so after every commit for
another account.
-/

namespace Doxa.Subpool

open Lib Client Circuit

variable {perm : State → State} {db db' : Database} {row row₀ : SpendTxRow} {p p₀ : PreparedSpend}
  {sigBytes : List Byte} {cross : List CrossSubpoolNote}

/-- The notes a request names are stored. -/
structure KnownNotes (db : Database) (row : SpendTxRow) : Prop where
  input : ∀ i ∈ row.inoteIdentifiers, (db.inputNotes.find i).isSome
  output : ∀ j ∈ row.onoteIdentifiers, (db.outputNotes.find j).isSome

theorem KnownNotes.of_prepared (h : prepareSpend perm db row = .ok p) : KnownNotes db row := by
  obtain ⟨inotes, assetId, accin, inotesValue, onotesValue, balance, hd⟩ := prepareSpend_eq_ok h
  constructor
  · intro i hi
    obtain ⟨r, -, hr⟩ := exists_of_mem_left (getInotes_eq_ok.mp hd.get_inotes) hi
    rw [(getInote_eq_ok.mp hr).1]
    rfl
  · intro j hj
    obtain ⟨o, -, ho⟩ := exists_of_mem_left (getOnotes_eq_ok.mp hd.get_onotes) hj
    rw [ho]
    rfl

theorem KnownNotes.mono (h : KnownNotes db row)
    (hin : ∀ k r, db.inputNotes.find k = some r → (db'.inputNotes.find k).isSome)
    (hout : ∀ k o, db.outputNotes.find k = some o → (db'.outputNotes.find k).isSome) :
    KnownNotes db' row := by
  constructor
  · intro i hi
    obtain ⟨r, hr⟩ := Option.isSome_iff_exists.mp (h.input i hi)
    exact hin i r hr
  · intro j hj
    obtain ⟨o, ho⟩ := Option.isSome_iff_exists.mp (h.output j hj)
    exact hout j o ho

/-- New notes and requests change nothing for a stored request. -/
theorem prepareSpend_grow (h : KnownNotes db row) (haccounts : db'.accounts = db.accounts)
    (hin : ∀ k r, db.inputNotes.find k = some r → db'.inputNotes.find k = some r)
    (hout : ∀ k o, db.outputNotes.find k = some o → db'.outputNotes.find k = some o) :
    prepareSpend perm db' row = prepareSpend perm db row := by
  refine prepareSpend_congr (by rw [haccounts]) ?_ ?_
  · intro i hi
    obtain ⟨r, hr⟩ := Option.isSome_iff_exists.mp (h.input i hi)
    rw [hin i r hr, hr]
  · intro j hj
    obtain ⟨o, ho⟩ := Option.isSome_iff_exists.mp (h.output j hj)
    rw [hout j o ho, ho]

/-! ## Commits -/

/-- The account a prepared request leaves has a tree of the client. -/
theorem accout_reachable (h : prepareSpend perm db row = .ok p) : p.accout.ast.Reachable perm := by
  obtain ⟨inotes, assetId, accin, inotesValue, onotesValue, balance, hd⟩ := prepareSpend_eq_ok h
  obtain ⟨prev, hast⟩ := hd.ast
  exact (insertOrUpdateAsset_eq_ok hast).1 (accountFromRow_eq_ok hd.from_row).reachable

/-- The row of the sender cannot be read after the commit. -/
theorem finalizeSpend_unreadable (hp : prepareSpend perm db row = .ok p)
    (h : finalizeSpend perm db row p sigBytes = .ok (db', cross)) {r : AccountRow}
    (hr : db'.accounts.find row.privAccAddress = some r) (acc : StandardAccount) :
    accountFromRow perm r ≠ .ok acc := by
  obtain ⟨ins, hins, haccounts⟩ := finalizeSpend_accounts h
  obtain ⟨-, -, -, -, hast⟩ := accountToInsert_eq_ok hins
  rw [haccounts, Table.find_update, Option.map_eq_some_iff] at hr
  obtain ⟨r₀, hr₀, hr⟩ := hr
  rw [if_pos (Table.key_of_find hr₀)] at hr
  have hstores : Stores ins r := by
    rw [← hr]
    exact ⟨rfl, rfl, rfl, rfl, rfl, _, _, hast, hast, List.Perm.refl _⟩
  rw [accountFromRow_stored (accout_reachable hp) hins hstores]
  exact nofun

/-- Another account is as before. -/
theorem finalizeSpend_account_ne (h : finalizeSpend perm db row p sigBytes = .ok (db', cross))
    {address : String} (hne : address ≠ row.privAccAddress) :
    db'.accounts.find address = db.accounts.find address := by
  obtain ⟨ins, -, haccounts⟩ := finalizeSpend_accounts h
  rw [haccounts, Table.find_update_ne hne]

theorem KnownNotes.commit (hknown : KnownNotes db row)
    (h : finalizeSpend perm db row₀ p₀ sigBytes = .ok (db', cross)) : KnownNotes db' row := by
  refine hknown.mono ?_ ?_
  · intro k r hr
    rw [finalizeSpend_find h hr]
    rfl
  · intro k o ho
    rw [(finalizeSpend_frame h).2.1, ho]
    rfl

/-- A request prepared after a commit would have been prepared the same way before it. -/
theorem prepareSpend_before_commit (hp₀ : prepareSpend perm db row₀ = .ok p₀)
    (h : finalizeSpend perm db row₀ p₀ sigBytes = .ok (db', cross)) (hknown : KnownNotes db row)
    (hp : prepareSpend perm db' row = .ok p) : prepareSpend perm db row = .ok p := by
  obtain ⟨inotes, assetId, accin, inotesValue, onotesValue, balance, hd⟩ := prepareSpend_eq_ok hp
  have hne : row.privAccAddress ≠ row₀.privAccAddress := by
    intro heq
    have haccount := hd.account
    rw [heq] at haccount
    exact finalizeSpend_unreadable hp₀ h haccount accin hd.from_row
  rw [← hp]
  refine (prepareSpend_congr (finalizeSpend_account_ne h hne) ?_ ?_).symm
  · intro i hi
    obtain ⟨r, hr⟩ := Option.isSome_iff_exists.mp (hknown.input i hi)
    obtain ⟨r', -, hget⟩ := exists_of_mem_left (getInotes_eq_ok.mp hd.get_inotes) hi
    obtain ⟨hfind, -, hconsume, -⟩ := getInote_eq_ok.mp hget
    have hafter := finalizeSpend_find h hr
    split at hafter
    · -- a consumed note is no longer read
      rw [hafter] at hfind
      rw [← Option.some.inj hfind] at hconsume
      cases hconsume
    · rw [hafter, hr]
  · intro j _
    rw [(finalizeSpend_frame h).2.1]

/-- A request of another account is prepared the same way after the commit. -/
theorem prepareSpend_after_commit (hp₀ : prepareSpend perm db row₀ = .ok p₀)
    (h : finalizeSpend perm db row₀ p₀ sigBytes = .ok (db', cross))
    (hne : row.privAccAddress ≠ row₀.privAccAddress) (hp : prepareSpend perm db row = .ok p) :
    prepareSpend perm db' row = .ok p := by
  obtain ⟨inotes, assetId, accin, inotesValue, onotesValue, balance, hd⟩ := prepareSpend_eq_ok hp
  obtain ⟨inotes₀, assetId₀, accin₀, inotesValue₀, onotesValue₀, balance₀, hd₀⟩ :=
    prepareSpend_eq_ok hp₀
  rw [← hp]
  refine prepareSpend_congr (finalizeSpend_account_ne h hne) ?_ ?_
  · intro i hi
    obtain ⟨r, -, hget⟩ := exists_of_mem_left (getInotes_eq_ok.mp hd.get_inotes) hi
    obtain ⟨hfind, -, -, hrecipient⟩ := getInote_eq_ok.mp hget
    have hother : i ∉ row₀.inoteIdentifiers := by
      intro hi₀
      obtain ⟨r₀, -, hget₀⟩ := exists_of_mem_left (getInotes_eq_ok.mp hd₀.get_inotes) hi₀
      obtain ⟨hfind₀, -, -, hrecipient₀⟩ := getInote_eq_ok.mp hget₀
      rw [hfind, Option.some.injEq] at hfind₀
      rw [← hfind₀, hrecipient] at hrecipient₀
      exact hne hrecipient₀
    rw [finalizeSpend_find h hfind, if_neg hother, hfind]
  · intro j _
    rw [(finalizeSpend_frame h).2.1]

end Doxa.Subpool
