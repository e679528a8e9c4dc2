import Doxa.Client.AssetCalls
import Doxa.Subpool.Progress

/-!
# Solvency of spend requests

The handler adds amounts modulo `2^256` and accepts what the wrapped sums cover; the operator adds
the same amounts with a panic on overflow. So a request whose outputs wrap around is accepted
without being covered, and then panics in the operator, which also panics where the asset tree
does not take the asset. Everything else is judged exactly (`spend_solvency_iff`).
-/

namespace Doxa.Subpool

open Lib Client Circuit Trees
open Contract (U256)

/-- The sum without wrapping. -/
def natSum (vs : List U256) : ℕ := (vs.map BitVec.toNat).sum

theorem natSum_cons (v : U256) (vs : List U256) : natSum (v :: vs) = v.toNat + natSum vs := by
  rw [natSum, List.map_cons, List.sum_cons, natSum]

/-! ## Submission -/

section Submission

variable (perm : State → State)

/-- What a request is judged by: the balance of its asset and the amounts of its notes. -/
structure Amounts (db : Database) (req : SpendTxRequest) (balance : U256) (ins outs : List U256) :
    Prop where
  balance : ∃ row acc assetId, db.accounts.find req.privAccAddress = some row ∧
    accountFromRow perm row = .ok acc ∧ sharedAssetId req = .ok assetId ∧
    balanceOf acc assetId = balance
  ins : req.inputNotes.mapM (checkInputNote db req.privAccAddress) = .ok ins
  outs : ∃ decoded, req.outputNotes.mapM (decodeOutputNote req.privAccAddress) = .ok decoded ∧
    decoded.map DecodedOutput.amount = outs

/-- The balance and the input notes cover the output notes. -/
def Solvent (db : Database) (req : SpendTxRequest) : Prop :=
  ∃ balance ins outs, Amounts perm db req balance ins outs ∧
    natSum outs ≤ balance.toNat + natSum ins

/-- The outputs pass `2^256` more often than what is available. -/
def WrapsMore (db : Database) (req : SpendTxRequest) : Prop :=
  ∃ balance ins outs, Amounts perm db req balance ins outs ∧
    (balance.toNat + natSum ins) / 2 ^ 256 < natSum outs / 2 ^ 256

variable {perm} {db db' : Database} {req : SpendTxRequest} {id : ℕ}

theorem Amounts.unique {balance balance' : U256} {ins ins' outs outs' : List U256}
    (h : Amounts perm db req balance ins outs) (h' : Amounts perm db req balance' ins' outs') :
    balance = balance' ∧ ins = ins' ∧ outs = outs' := by
  obtain ⟨row, acc, assetId, hrow, hacc, hasset, rfl⟩ := h.balance
  obtain ⟨row', acc', assetId', hrow', hacc', hasset', rfl⟩ := h'.balance
  obtain ⟨decoded, hdecoded, rfl⟩ := h.outs
  obtain ⟨decoded', hdecoded', rfl⟩ := h'.outs
  rw [hrow] at hrow'
  obtain rfl := Option.some.inj hrow'
  rw [hacc] at hacc'
  obtain rfl := Except.ok.inj hacc'
  rw [hasset] at hasset'
  obtain rfl := Except.ok.inj hasset'
  rw [hdecoded] at hdecoded'
  obtain rfl := Except.ok.inj hdecoded'
  exact ⟨rfl, Except.ok.inj (h.ins.symm.trans h'.ins), rfl⟩

/-- The fold of the handler keeps the remainder. -/
theorem foldl_u256Add (vs : List U256) (a : U256) :
    (vs.foldl u256Add a).toNat = (a.toNat + natSum vs) % 2 ^ 256 := by
  induction vs generalizing a with
  | nil =>
    rw [List.foldl_nil, natSum, List.map_nil, List.sum_nil, Nat.add_zero, Nat.mod_eq_of_lt a.isLt]
  | cons v vs ih =>
    rw [List.foldl_cons, ih, u256Add, BitVec.toNat_add, Nat.mod_add_mod, natSum_cons, Nat.add_assoc]

/-- An accepted request is covered after wrapping. -/
theorem submit_covered (h : submitSpendTxHandler perm req db = .ok (db', id)) :
    ∃ balance ins outs, Amounts perm db req balance ins outs ∧
      natSum outs % 2 ^ 256 ≤ (balance.toNat + natSum ins) % 2 ^ 256 := by
  unfold submitSpendTxHandler at h
  obtain ⟨accountRow, hrow, h⟩ := bind_eq_ok.mp h
  obtain ⟨account, hacc, h⟩ := bind_eq_ok.mp h
  obtain ⟨inoteAmounts, hin, h⟩ := bind_eq_ok.mp h
  obtain ⟨assetId, hasset, h⟩ := bind_eq_ok.mp h
  obtain ⟨outs, houts, h⟩ := bind_eq_ok.mp h
  obtain ⟨hle, -⟩ := revertIf_bind_eq_ok.mp h
  have hfind : db.accounts.find req.privAccAddress = some accountRow := by
    split at hrow
    · rename_i row hfind
      rw [hfind, Except.ok.inj hrow]
    · cases hrow
  have hacc' : accountFromRow perm accountRow = .ok account := by
    unfold invalidInput at hacc
    split at hacc
    · rename_i acc hread
      rw [hread, Except.ok.inj hacc]
    · cases hacc
    · cases hacc
  refine ⟨balanceOf account assetId, inoteAmounts, outs.map DecodedOutput.amount,
    ⟨⟨accountRow, account, assetId, hfind, hacc', hasset, rfl⟩, hin, outs, houts, rfl⟩, ?_⟩
  rw [BitVec.not_lt, BitVec.le_def, u256Add, BitVec.toNat_add, foldl_u256Add, foldl_u256Add,
    Nat.add_mod_mod] at hle
  simpa using hle

/-- Two numbers with ordered remainders are ordered as their quotients are. -/
theorem le_iff_div_le {a b m : ℕ} (h : a % m ≤ b % m) : a ≤ b ↔ a / m ≤ b / m := by
  refine ⟨Nat.div_le_div_right, fun hdiv => ?_⟩
  calc a = m * (a / m) + a % m := (Nat.div_add_mod a m).symm
    _ ≤ m * (b / m) + b % m := Nat.add_le_add (Nat.mul_le_mul_left m hdiv) h
    _ = b := Nat.div_add_mod b m

theorem accepted_solvent_iff (h : submitSpendTxHandler perm req db = .ok (db', id)) :
    Solvent perm db req ↔ ¬ WrapsMore perm db req := by
  obtain ⟨balance, ins, outs, hamounts, hle⟩ := submit_covered h
  constructor
  · rintro ⟨balance', ins', outs', hamounts', hsolvent⟩ ⟨balance'', ins'', outs'', hamounts'', hwraps⟩
    obtain ⟨rfl, rfl, rfl⟩ := hamounts'.unique hamounts''
    exact absurd (Nat.div_le_div_right hsolvent) (Nat.not_le_of_lt hwraps)
  · intro hwraps
    refine ⟨balance, ins, outs, hamounts, (le_iff_div_le hle).mpr (Nat.le_of_not_lt fun hlt => ?_)⟩
    exact hwraps ⟨balance, ins, outs, hamounts, hlt⟩

end Submission

/-! ## What does not panic -/

section Readers

variable {perm : State → State}

theorem avoids_orError {α : Type} (message : String) (o : Option α) :
    Avoids Failure.panic (orError message o) := by
  cases o with
  | none => exact .error (by simp)
  | some a => exact .ok a

theorem avoids_tryInto (n : ℕ) (message : String) (b : List Byte) :
    Avoids Failure.panic (tryInto n message b) := by
  unfold tryInto
  split
  · exact .ok b
  · exact .error (by simp)

theorem avoids_noteValue (what : String) (id : ℕ) (amount : List Byte) :
    Avoids Failure.panic (noteValue what id amount) :=
  (avoids_tryInto _ _ _).bind fun _ _ => .ok _

theorem avoids_noteAssetId (assetId : List Byte) : Avoids Failure.panic (noteAssetId assetId) :=
  (avoids_tryInto _ _ _).bind fun _ _ => .ok _

theorem avoids_standardNote (identifier : String) (assetId : List Byte) {value : Except Failure U256}
    (hvalue : Avoids Failure.panic value) (recipientAddress senderAddress : String) :
    Avoids Failure.panic (standardNote identifier assetId value recipientAddress senderAddress) := by
  unfold standardNote
  refine ((avoids_orError _ _).bind fun _ _ => (avoids_tryInto _ _ _).bind fun _ _ => .ok _).bind
    fun _ _ => ?_
  refine (avoids_noteAssetId assetId).bind fun _ _ => ?_
  refine hvalue.bind fun _ _ => ?_
  refine (avoids_orError _ _).bind fun _ _ => ?_
  exact (avoids_orError _ _).bind fun _ _ => .ok _

theorem avoids_inoteNullifier (nk : HashOut) (inote : InputNoteRow) :
    Avoids Failure.panic (inoteNullifier perm nk inote) := by
  refine (avoids_standardNote _ _ (avoids_noteValue _ _ _) _ _).bind fun note _ => ?_
  have hpos : note.nullifier perm 0 nk = .ok _ := if_pos (by decide)
  rw [hpos]
  exact .ok _

theorem avoids_onoteCommitment (onote : OutputNoteRow) :
    Avoids Failure.panic (onoteCommitment perm onote) :=
  (avoids_standardNote _ _ (avoids_noteValue _ _ _) _ _).bind fun _ _ => .ok _

theorem avoids_collect {α : Type} {n : ℕ} {f : Fin n → Except Failure α}
    (h : ∀ i, Avoids Failure.panic (f i)) : Avoids Failure.panic (collect f) := by
  induction n with
  | zero => exact .ok _
  | succ n ih => exact (h 0).bind fun _ _ => (ih fun i => h i.succ).bind fun _ _ => .ok _

theorem avoids_dummyHash (seed : String) : Avoids Failure.panic (dummyHash perm seed) := by
  refine Avoids.bind ?_ fun _ _ => .ok _
  unfold hexToHashChecked
  refine (avoids_orError _ _).bind fun _ _ => (avoids_tryInto _ _ _).bind fun _ _ => ?_
  refine avoids_collect fun i => ?_
  dsimp only
  split
  · exact .ok _
  · exact .error (by simp)

theorem avoids_getInotes (row : SpendTxRow) (db : Database) :
    Avoids Failure.panic (row.getInotes db) := by
  refine Avoids.mapM fun i _ => ?_
  unfold SpendTxRow.getInote
  refine (avoids_orError _ _).bind fun _ _ => ?_
  refine (Avoids.revertIf (by simp)).bind fun _ _ => ?_
  exact (Avoids.revertIf (by simp)).bind fun _ _ => .ok _

theorem avoids_getOnotes (row : SpendTxRow) (db : Database) :
    Avoids Failure.panic (row.getOnotes db) :=
  Avoids.mapM fun _ _ => avoids_orError _ _

theorem avoids_spendAsset (onotes : List OutputNoteRow) : Avoids Failure.panic (spendAsset onotes) := by
  cases onotes with
  | nil => exact .error (by simp)
  | cons onote onotes => exact avoids_noteAssetId _

/-- A tree that mirrors its map is refused a leaf at most for want of room. -/
theorem avoids_insertAsset {ast : AccountStateTree} {ds : List HashOut} (hm : ast.Mirrors perm ds)
    (assetId : F) (amount : U256) : Avoids Failure.panic (ast.insertAsset perm assetId amount) := by
  unfold AccountStateTree.insertAsset
  split
  · exact .error (by simp)
  split
  · exact .error (by simp)
  refine Avoids.bind ?_ fun _ _ => .ok _
  by_cases hroom : ds.length < 2 ^ ACC_AST_DEPTH
  · obtain ⟨t, hins⟩ := hm.treeInsert_ok hroom (leafCommitment perm assetId amount)
    rw [hins]
    exact .ok _
  · rw [hm.treeInsert_full (Nat.le_of_not_lt hroom)]
    exact .error (by simp)

theorem avoids_checkContiguous (k : ℕ) (entries : List AssetEntry) :
    Avoids Failure.panic (AccountStateTree.checkContiguous k entries) := by
  induction entries generalizing k with
  | nil => exact .ok ()
  | cons entry entries ih =>
    unfold AccountStateTree.checkContiguous
    split
    · exact ih _
    · exact .error (by simp)

theorem avoids_newFromAssetMap (map : AssetMap) :
    Avoids Failure.panic (AccountStateTree.newFromAssetMap perm map) := by
  refine (avoids_checkContiguous _ _).bind fun _ _ => ?_
  obtain ⟨ast, hast⟩ := AccountStateTree.new_ok perm
  rw [hast]
  refine Avoids.bind (.ok ast) fun ast' hast' => ?_
  refine Avoids.foldlM (I := fun t => ∃ ds, AccountStateTree.Mirrors perm t ds) ?_ ?_
    ⟨_, AccountStateTree.new_eq_ok (hast.trans hast')⟩
  · rintro t entry ⟨ds, hm⟩
    exact avoids_insertAsset hm _ _
  · rintro t entry t' ⟨ds, hm⟩ h
    obtain ⟨-, hfresh, hins⟩ := AccountStateTree.insertAsset_eq_ok h
    exact ⟨_, hm._insertAsset hfresh hins⟩

theorem avoids_readAssets (fields : List (String × Json)) :
    Avoids Failure.panic (readAssets fields) := by
  refine Avoids.foldlM (I := fun _ => True) ?_ (fun _ _ _ _ _ => trivial) trivial
  intro map field _
  refine Avoids.bind ?_ fun _ _ => .ok _
  unfold readEntry
  refine (avoids_orError _ _).bind fun _ _ => ?_
  refine (avoids_orError _ _).bind fun _ _ => ?_
  refine (avoids_orError _ _).bind fun _ _ => ?_
  refine (avoids_orError _ _).bind fun _ _ => ?_
  refine (avoids_tryInto _ _ _).bind fun _ _ => ?_
  refine Avoids.bind ?_ fun _ _ => .ok _
  unfold assetIdFromU64
  split
  · exact .ok _
  · exact .error (by simp)

theorem avoids_accountFromRow (row : AccountRow) :
    Avoids Failure.panic (accountFromRow perm row) := by
  unfold accountFromRow
  refine (avoids_orError _ _).bind fun _ _ => ?_
  refine (avoids_tryInto _ _ _).bind fun _ _ => ?_
  refine (avoids_tryInto _ _ _).bind fun _ _ => ?_
  refine Avoids.bind ?_ fun _ _ => ?_
  · obtain ⟨ast, hast⟩ := AccountStateTree.new_ok perm
    rw [StandardAccount.newWith, hast]
    exact .ok _
  refine (avoids_tryInto _ _ _).bind fun _ _ => ?_
  refine (avoids_tryInto _ _ _).bind fun _ _ => ?_
  split
  · exact (avoids_readAssets _).bind fun _ _ => (avoids_newFromAssetMap _).bind fun _ _ => .ok _
  · exact .ok _

end Readers

/-! ## Sums of values -/

section Sums

variable {ρ : Type} {value : ρ → Except Failure U256} {notes : List ρ}

/-- The first notes can be read, and their values do not fit. -/
def Overflows (value : ρ → Except Failure U256) (notes : List ρ) : Prop :=
  ∃ k vs, (notes.take k).mapM value = .ok vs ∧ 2 ^ 256 ≤ natSum vs

theorem mapM_cons_ok {n : ρ} {v : U256} (hv : value n = .ok v) {vs : List U256} :
    (n :: notes).mapM value = .ok vs ↔ ∃ ws, notes.mapM value = .ok ws ∧ vs = v :: ws := by
  rw [List.mapM_cons, hv, ok_bind, bind_eq_ok]
  exact exists_congr fun ws => and_congr_right fun _ => pure_eq_ok.trans eq_comm

theorem foldlM_checkedAdd_panics (hvalue : ∀ n, Avoids Failure.panic (value n)) {a : U256} :
    notes.foldlM (fun sum note => value note >>= checkedAdd sum) a = .error .panic ↔
      ∃ k vs, (notes.take k).mapM value = .ok vs ∧ 2 ^ 256 ≤ a.toNat + natSum vs := by
  induction notes generalizing a with
  | nil =>
    refine ⟨fun h => (by cases h), ?_⟩
    rintro ⟨k, vs, hvs, hsum⟩
    rw [List.take_nil] at hvs
    obtain rfl : [] = vs := Except.ok.inj hvs
    exact absurd a.isLt (Nat.not_lt_of_le hsum)
  | cons n notes ih =>
    rw [List.foldlM_cons]
    -- nothing read yet cannot overflow
    have hzero : ∀ vs : List U256, ((n :: notes).take 0).mapM value = .ok vs →
        ¬ 2 ^ 256 ≤ a.toNat + natSum vs := by
      intro vs hvs hsum
      obtain rfl : [] = vs := Except.ok.inj hvs
      exact absurd a.isLt (Nat.not_lt_of_le hsum)
    cases hv : value n with
    | error e =>
      have hne : e ≠ .panic := fun he => hvalue n (he ▸ hv)
      refine ⟨fun h => absurd (Except.error.inj h) hne, ?_⟩
      rintro ⟨k, vs, hvs, hsum⟩
      cases k with
      | zero => exact absurd hsum (hzero vs hvs)
      | succ k =>
        rw [List.take_succ_cons, List.mapM_cons, hv] at hvs
        cases hvs
    | ok v =>
      rw [ok_bind]
      by_cases hfit : a.toNat + v.toNat < 2 ^ 256
      · have hadd : checkedAdd a v = .ok (a + v) := if_pos hfit
        rw [hadd, ok_bind, ih, checkedAdd_eq_ok hadd]
        constructor
        · rintro ⟨k, vs, hvs, hsum⟩
          refine ⟨k + 1, v :: vs, (mapM_cons_ok hv).mpr ⟨vs, hvs, rfl⟩, ?_⟩
          rwa [natSum_cons, ← Nat.add_assoc]
        · rintro ⟨k, vs, hvs, hsum⟩
          cases k with
          | zero => exact absurd hsum (hzero vs hvs)
          | succ k =>
            obtain ⟨ws, hws, rfl⟩ := (mapM_cons_ok hv).mp hvs
            refine ⟨k, ws, hws, ?_⟩
            rwa [natSum_cons, ← Nat.add_assoc] at hsum
      · have hadd : checkedAdd a v = .error .panic := if_neg hfit
        rw [hadd]
        refine ⟨fun _ => ⟨1, [v], (mapM_cons_ok hv).mpr ⟨[], rfl, rfl⟩, ?_⟩, fun _ => rfl⟩
        rw [natSum_cons, natSum, List.map_nil, List.sum_nil, Nat.add_zero]
        exact Nat.le_of_not_lt hfit

theorem sumValues_panics (hvalue : ∀ n, Avoids Failure.panic (value n)) :
    sumValues value notes = .error .panic ↔ Overflows value notes := by
  rw [sumValues, foldlM_checkedAdd_panics hvalue, show (0 : U256).toNat = 0 from rfl, Overflows]
  simp only [Nat.zero_add]

/-- A sum that is there is that of the values. -/
theorem sumValues_values {s : U256} (h : sumValues value notes = .ok s) :
    ∃ vs, notes.mapM value = .ok vs ∧ s.toNat = natSum vs := by
  have hfold : ∀ {notes : List ρ} {a : U256},
      notes.foldlM (fun sum note => value note >>= checkedAdd sum) a = .ok s →
        ∃ vs, notes.mapM value = .ok vs ∧ s.toNat = a.toNat + natSum vs := by
    intro notes
    induction notes with
    | nil =>
      intro a h
      rw [Except.ok.inj h]
      exact ⟨[], rfl, rfl⟩
    | cons n notes ih =>
      intro a h
      rw [List.foldlM_cons] at h
      obtain ⟨a', ha', hrest⟩ := bind_eq_ok.mp h
      obtain ⟨v, hv, hadd⟩ := bind_eq_ok.mp ha'
      obtain ⟨vs, hvs, hsum⟩ := ih hrest
      refine ⟨v :: vs, (mapM_cons_ok hv).mpr ⟨vs, hvs, rfl⟩, ?_⟩
      rw [hsum, checkedAdd_eq_ok hadd, natSum_cons, Nat.add_assoc]
  obtain ⟨vs, hvs, hsum⟩ := hfold h
  refine ⟨vs, hvs, ?_⟩
  rw [hsum, show (0 : U256).toNat = 0 from rfl, Nat.zero_add]

/-- Values that fit are summed. -/
theorem sumValues_fits {vs : List U256} (hvs : notes.mapM value = .ok vs) (hfit : natSum vs < 2 ^ 256) :
    ∃ s, sumValues value notes = .ok s ∧ s.toNat = natSum vs := by
  have hfold : ∀ {notes : List ρ} {vs : List U256} {a : U256}, notes.mapM value = .ok vs →
      a.toNat + natSum vs < 2 ^ 256 →
        ∃ s, notes.foldlM (fun sum note => value note >>= checkedAdd sum) a = .ok s := by
    intro notes
    induction notes with
    | nil => exact fun {vs a} _ _ => ⟨a, rfl⟩
    | cons n notes ih =>
      intro vs a hvs hsum
      rw [List.mapM_cons] at hvs
      obtain ⟨v, hv, hrest⟩ := bind_eq_ok.mp hvs
      obtain ⟨ws, hws, hcons⟩ := bind_eq_ok.mp hrest
      obtain rfl := pure_eq_ok.mp hcons
      rw [natSum_cons] at hsum
      have hadd : checkedAdd a v = .ok (a + v) := if_pos (by omega)
      rw [List.foldlM_cons, hv, ok_bind, hadd, ok_bind]
      refine ih hws ?_
      rw [checkedAdd_eq_ok hadd]
      omega
  obtain ⟨s, hs⟩ := hfold (a := 0) hvs (by rwa [show (0 : U256).toNat = 0 from rfl, Nat.zero_add])
  obtain ⟨vs', hvs', hsum⟩ := sumValues_values hs
  rw [hvs] at hvs'
  rw [Except.ok.inj hvs']
  exact ⟨s, hs, hsum⟩

end Sums

/-! ## Processing -/

section Processing

variable (perm : State → State) (db : Database) (row : SpendTxRow)

/-- The account, the notes and the asset a request is processed with. -/
structure Fetched (accin : StandardAccount) (inotes : List InputNoteRow) (onotes : List OutputNoteRow)
    (assetId : F) : Prop where
  account : ∃ accRow, db.accounts.find row.privAccAddress = some accRow ∧
    accountFromRow perm accRow = .ok accin
  get_inotes : row.getInotes db = .ok inotes
  get_onotes : row.getOnotes db = .ok onotes
  asset : spendAsset onotes = .ok assetId

/-- Notes and dummies fill the transaction, and all of them can be read. -/
structure Complete (inotes : List InputNoteRow) (onotes : List OutputNoteRow) : Prop where
  inputs : inotes.length + row.dinotes.length = NOTE_BATCH
  outputs : onotes.length + row.donotes.length = NOTE_BATCH
  inote : ∀ r ∈ inotes, ∃ note, r.toStandardNote = .ok note
  dinote : ∀ d ∈ row.dinotes, ∃ val, hexToHashChecked d = .ok val
  onote : ∀ o ∈ onotes, ∃ note, o.toStandardNote = .ok note
  donote : ∀ d ∈ row.donotes, ∃ val, hexToHashChecked d = .ok val

/-- The values of the notes, each side within a word. -/
structure Values (inotes : List InputNoteRow) (onotes : List OutputNoteRow) (ins outs : List U256) :
    Prop where
  in_values : inotes.mapM InputNoteRow.value = .ok ins
  out_values : onotes.mapM OutputNoteRow.value = .ok outs
  in_lt : natSum ins < 2 ^ 256
  out_lt : natSum outs < 2 ^ 256

/-- A sum of the operator overflows, or the asset tree does not take the new balance. -/
inductive Overflowing : Prop
  | inputs {accin : StandardAccount} {inotes : List InputNoteRow} {onotes : List OutputNoteRow}
      {assetId : F} (h : Fetched perm db row accin inotes onotes assetId)
      (hin : Overflows InputNoteRow.value inotes) : Overflowing
  | outputs {accin : StandardAccount} {inotes : List InputNoteRow} {onotes : List OutputNoteRow}
      {assetId : F} {ins : List U256} (h : Fetched perm db row accin inotes onotes assetId)
      (hin : inotes.mapM InputNoteRow.value = .ok ins) (hlt : natSum ins < 2 ^ 256)
      (hout : Overflows OutputNoteRow.value onotes) : Overflowing
  | available {accin : StandardAccount} {inotes : List InputNoteRow} {onotes : List OutputNoteRow}
      {assetId : F} {ins outs : List U256} (h : Fetched perm db row accin inotes onotes assetId)
      (hvalues : Values inotes onotes ins outs)
      (hsum : 2 ^ 256 ≤ (balanceOf accin assetId).toNat + natSum ins) : Overflowing
  | asset {accin : StandardAccount} {inotes : List InputNoteRow} {onotes : List OutputNoteRow}
      {assetId : F} {ins outs : List U256} (h : Fetched perm db row accin inotes onotes assetId)
      (hvalues : Values inotes onotes ins outs)
      (hsum : (balanceOf accin assetId).toNat + natSum ins < 2 ^ 256)
      (hcovered : natSum outs ≤ (balanceOf accin assetId).toNat + natSum ins)
      (hcomplete : Complete row inotes onotes)
      (hplace : assetId = 0 ∨ assetId ∉ accin.ast.assets ∧ 2 ^ ACC_AST_DEPTH ≤ accin.ast.tree.numLeaves) :
      Overflowing

/-- The request panics before it is posted or while it is finalized. -/
def ProcessPanics : Prop :=
  prepareSpend perm db row = .error .panic ∨ ∃ p sigBytes, prepareSpend perm db row = .ok p ∧
    finalizeSpend perm db row p sigBytes = .error .panic

/-- The request does not panic, and the balance it leaves is exact. -/
structure ProcessSafe : Prop where
  no_panic : ¬ ProcessPanics perm db row
  exact : ∀ p, prepareSpend perm db row = .ok p → ∃ accin inotes assetId ins outs i balance,
    Fetched perm db row accin inotes p.onotes assetId ∧ Values inotes p.onotes ins outs ∧
      p.accout.ast.amountFor assetId = some (i, balance) ∧
      balance.toNat + natSum outs = (balanceOf accin assetId).toNat + natSum ins

variable {perm db row}

theorem insertOrUpdateAsset_error {ast : AccountStateTree} {assetId : F} {amount : U256} {e : Failure}
    (h : ast.insertOrUpdateAsset perm assetId amount = .error e) : e = .panic := by
  have hunwrap : ∀ {α : Type} {x : Except Failure α}, unwrap x = .error e → e = .panic := by
    intro α x hx
    cases x with
    | ok a => cases hx
    | error e' => exact (Except.error.inj hx).symm
  unfold AccountStateTree.insertOrUpdateAsset at h
  split at h
  · rcases bind_eq_error.mp h with h | ⟨updated, -, h⟩
    · exact hunwrap h
    · cases h
  · rcases bind_eq_error.mp h with h | ⟨inserted, -, h⟩
    · exact hunwrap h
    · cases h

theorem not_insertOrUpdateAsset {ast : AccountStateTree} (h : ast.Reachable perm) {assetId : F}
    {amount : U256} : ast.insertOrUpdateAsset perm assetId amount = .error .panic ↔
      assetId = 0 ∨ assetId ∉ ast.assets ∧ 2 ^ ACC_AST_DEPTH ≤ ast.tree.numLeaves := by
  obtain ⟨ds, hm⟩ := h.mirrors
  have hiff : (∃ r, ast.insertOrUpdateAsset perm assetId amount = .ok r) ↔
      assetId ≠ 0 ∧ (assetId ∈ ast.assets ∨ ds.length < 2 ^ ACC_AST_DEPTH) :=
    hm.insertOrUpdateAsset_iff
  rw [← hm.numLeaves] at hiff
  cases hcall : ast.insertOrUpdateAsset perm assetId amount with
  | ok r =>
    obtain ⟨h0, hroom⟩ := hiff.mp ⟨r, hcall⟩
    refine ⟨fun h => (by cases h), ?_⟩
    rintro (rfl | ⟨hfresh, hfull⟩)
    · exact absurd rfl h0
    · exact absurd (hroom.resolve_left hfresh) (Nat.not_lt_of_le hfull)
  | error e =>
    refine ⟨fun _ => ?_, fun _ => by rw [insertOrUpdateAsset_error hcall]⟩
    by_contra hplace
    rw [not_or, not_and] at hplace
    have hroom : assetId ∈ ast.assets ∨ ast.tree.numLeaves < 2 ^ ACC_AST_DEPTH := by
      by_cases hmem : assetId ∈ ast.assets
      · exact .inl hmem
      · exact .inr (Nat.lt_of_not_le (hplace.2 hmem))
    obtain ⟨r, hr⟩ := hiff.mpr ⟨hplace.1, hroom⟩
    rw [hcall] at hr
    cases hr

theorem checkedAdd_panics {a b : U256} :
    checkedAdd a b = .error .panic ↔ 2 ^ 256 ≤ b.toNat + a.toNat := by
  unfold checkedAdd
  rw [Nat.add_comm b.toNat]
  split
  · rename_i hlt
    exact ⟨fun h => (by cases h), fun h => absurd hlt (Nat.not_lt_of_le h)⟩
  · rename_i hge
    exact ⟨fun _ => Nat.le_of_not_lt hge, fun _ => rfl⟩

theorem prepareSpend_panics (h : prepareSpend perm db row = .error .panic) :
    Overflowing perm db row := by
  unfold prepareSpend at h
  rcases bind_eq_error.mp h with h | ⟨accRow, haccount, h⟩
  · exact absurd h (avoids_orError _ _)
  rcases bind_eq_error.mp h with h | ⟨inotes, hinotes, h⟩
  · exact absurd h (avoids_getInotes _ _)
  rcases bind_eq_error.mp h with h | ⟨onotes, honotes, h⟩
  · exact absurd h (avoids_getOnotes _ _)
  rcases bind_eq_error.mp h with h | ⟨assetId, hasset, h⟩
  · exact absurd h (avoids_spendAsset _)
  rcases bind_eq_error.mp h with h | ⟨accin, haccin, h⟩
  · exact absurd h (avoids_accountFromRow _)
  have hf : Fetched perm db row accin inotes onotes assetId :=
    ⟨⟨accRow, orError_eq_ok.mp haccount, haccin⟩, hinotes, honotes, hasset⟩
  have hread := accountFromRow_eq_ok haccin
  rcases bind_eq_error.mp h with h | ⟨inotesValue, hin, h⟩
  · exact .inputs hf ((sumValues_panics fun n => avoids_noteValue _ _ _).mp h)
  obtain ⟨ins, hins, hinSum⟩ := sumValues_values hin
  rcases bind_eq_error.mp h with h | ⟨onotesValue, hout, h⟩
  · exact .outputs hf hins (hinSum ▸ inotesValue.isLt)
      ((sumValues_panics fun n => avoids_noteValue _ _ _).mp h)
  obtain ⟨outs, houts, houtSum⟩ := sumValues_values hout
  have hvalues : Values inotes onotes ins outs :=
    ⟨hins, houts, hinSum ▸ inotesValue.isLt, houtSum ▸ onotesValue.isLt⟩
  rcases bind_eq_error.mp h with h | ⟨balance, hbalance, h⟩
  · refine .available hf hvalues ?_
    rcases bind_eq_error.mp h with h | ⟨available, -, h⟩
    · rw [← hinSum]
      exact checkedAdd_panics.mp h
    · rcases bind_eq_error.mp h with h | ⟨-, -, h⟩
      · exact absurd h (Avoids.revertIf (by simp))
      · cases h
  rcases bind_eq_error.mp h with h | ⟨_, hinLen, h⟩
  · exact absurd h (Avoids.revertIf (by simp))
  rcases bind_eq_error.mp h with h | ⟨_, houtLen, h⟩
  · exact absurd h (Avoids.revertIf (by simp))
  rcases bind_eq_error.mp h with h | ⟨inoteNulls, hnulls, h⟩
  · exact absurd h (Avoids.mapM fun n _ => avoids_inoteNullifier _ n)
  rcases bind_eq_error.mp h with h | ⟨dinoteNulls, hdnulls, h⟩
  · exact absurd h (Avoids.mapM fun d _ => avoids_dummyHash d)
  rcases bind_eq_error.mp h with h | ⟨onoteComms, hcomms, h⟩
  · exact absurd h (Avoids.mapM fun o _ => avoids_onoteCommitment o)
  rcases bind_eq_error.mp h with h | ⟨donoteComms, hdcomms, h⟩
  · exact absurd h (Avoids.mapM fun d _ => avoids_dummyHash d)
  have hexact := accoutBalance_eq_ok hbalance
  rcases bind_eq_error.mp h with h | ⟨updated, hupdated, h⟩
  · have hfirst : ∀ {α β : Type} {x : Except Failure α} {f : α → Except Failure β},
        (∃ b, (x >>= f) = .ok b) → ∃ a, x = .ok a := by
      rintro α β x f ⟨b, hb⟩
      obtain ⟨a, ha, -⟩ := bind_eq_ok.mp hb
      exact ⟨a, ha⟩
    refine .asset hf hvalues ?_ ?_ ?_ ((not_insertOrUpdateAsset hread.reachable).mp h)
    · rw [← hinSum]
      obtain ⟨available, hadd, -⟩ := bind_eq_ok.mp hbalance
      rw [Nat.add_comm, ← checkedAdd_eq_ok hadd]
      exact available.isLt
    · omega
    · exact {
        inputs := not_not.mp (revertIf_eq_ok.mp hinLen)
        outputs := not_not.mp (revertIf_eq_ok.mp houtLen)
        inote := fun r hr => hfirst (forall_of_mapM hnulls r hr)
        dinote := fun d hd => hfirst (forall_of_mapM hdnulls d hd)
        onote := fun o ho => hfirst (forall_of_mapM hcomms o ho)
        donote := fun d hd => hfirst (forall_of_mapM hdcomms d hd) }
  rcases bind_eq_error.mp h with h | ⟨accinNull, hnull, h⟩
  · obtain ⟨n, hn⟩ := nullifier_ok hread.reachable hread.consume_auth
    rw [hn] at h
    cases h
  rcases bind_eq_error.mp h with h | ⟨accoutComm, hcomm, h⟩
  · have hreach := (insertOrUpdateAsset_eq_ok hupdated).1 hread.reachable
    obtain ⟨c, hc⟩ : ∃ c, StandardAccount.commitment perm
        { accin.cloneWithIncrementedNonce with ast := updated.1 } = .ok c :=
      commitment_ok hreach hread.consume_auth
    rw [hc] at h
    cases h
  · cases h

section Fetched

variable {accin : StandardAccount} {inotes : List InputNoteRow} {onotes : List OutputNoteRow}
  {assetId : F} {ins outs : List U256}

/-- The sums of a request that is there decide first. -/
theorem Fetched.sums_panic (h : Fetched perm db row accin inotes onotes assetId)
    (hsums : (sumValues InputNoteRow.value inotes >>= fun inotesValue =>
      sumValues OutputNoteRow.value onotes >>= fun onotesValue =>
        accoutBalance (balanceOf accin assetId) inotesValue onotesValue assetId) = .error .panic) :
    prepareSpend perm db row = .error .panic := by
  obtain ⟨accRow, haccount, haccin⟩ := h.account
  unfold prepareSpend
  rw [haccount, orError, ok_bind, h.get_inotes, ok_bind, h.get_onotes, ok_bind, h.asset, ok_bind,
    haccin, ok_bind]
  rcases bind_eq_error.mp hsums with hin | ⟨inotesValue, hin, hsums⟩
  · rw [hin, error_bind]
  rcases bind_eq_error.mp hsums with hout | ⟨onotesValue, hout, hbalance⟩
  · rw [hin, ok_bind, hout, error_bind]
  · rw [hin, ok_bind, hout, ok_bind, hbalance, error_bind]

/-- A complete request whose sums fit gets to the asset tree. -/
theorem Fetched.tree_panics (h : Fetched perm db row accin inotes onotes assetId)
    (hvalues : Values inotes onotes ins outs)
    (hsum : (balanceOf accin assetId).toNat + natSum ins < 2 ^ 256)
    (hcovered : natSum outs ≤ (balanceOf accin assetId).toNat + natSum ins)
    (hcomplete : Complete row inotes onotes)
    (hplace : ∀ amount, accin.ast.insertOrUpdateAsset perm assetId amount = .error .panic) :
    prepareSpend perm db row = .error .panic := by
  obtain ⟨accRow, haccount, haccin⟩ := h.account
  obtain ⟨inotesValue, hin, hinSum⟩ := sumValues_fits hvalues.in_values hvalues.in_lt
  obtain ⟨onotesValue, hout, houtSum⟩ := sumValues_fits hvalues.out_values hvalues.out_lt
  obtain ⟨balance, hbalance⟩ := accoutBalance_ok (b := balanceOf accin assetId) (i := inotesValue)
    (o := onotesValue) (by rwa [hinSum]) (by rwa [hinSum, houtSum]) assetId
  obtain ⟨nulls, hnulls⟩ := mapM_ok fun r hr =>
    inoteNullifier_ok perm (accin.nk perm) (hcomplete.inote r hr)
  obtain ⟨dnulls, hdnulls⟩ := mapM_ok fun d hd => dummyHash_ok perm (hcomplete.dinote d hd)
  obtain ⟨comms, hcomms⟩ := mapM_ok fun o ho => onoteCommitment_ok perm (hcomplete.onote o ho)
  obtain ⟨dcomms, hdcomms⟩ := mapM_ok fun d hd => dummyHash_ok perm (hcomplete.donote d hd)
  unfold prepareSpend
  rw [haccount, orError, ok_bind, h.get_inotes, ok_bind, h.get_onotes, ok_bind, h.asset, ok_bind,
    haccin, ok_bind, hin, ok_bind, hout, ok_bind, hbalance, ok_bind]
  simp only [revertIf, hcomplete.inputs, hcomplete.outputs, ne_eq, not_true_eq_false, if_false,
    ok_bind, hnulls, hdnulls, hcomms, hdcomms, hplace, error_bind]

end Fetched

theorem Overflowing.panics (h : Overflowing perm db row) :
    prepareSpend perm db row = .error .panic := by
  cases h with
  | inputs h hin =>
    refine h.sums_panic (bind_eq_error.mpr (.inl ?_))
    exact (sumValues_panics fun n => avoids_noteValue _ _ _).mpr hin
  | outputs h hin hlt hout =>
    obtain ⟨inotesValue, hinValue, -⟩ := sumValues_fits hin hlt
    refine h.sums_panic ?_
    rw [hinValue, ok_bind]
    exact bind_eq_error.mpr (.inl ((sumValues_panics fun n => avoids_noteValue _ _ _).mpr hout))
  | available h hvalues hsum =>
    obtain ⟨inotesValue, hin, hinSum⟩ := sumValues_fits hvalues.in_values hvalues.in_lt
    obtain ⟨onotesValue, hout, -⟩ := sumValues_fits hvalues.out_values hvalues.out_lt
    refine h.sums_panic ?_
    rw [hin, ok_bind, hout, ok_bind]
    exact bind_eq_error.mpr (.inl (checkedAdd_panics.mpr (by rwa [hinSum])))
  | asset h hvalues hsum hcovered hcomplete hplace =>
    obtain ⟨accRow, -, haccin⟩ := h.account
    exact h.tree_panics hvalues hsum hcovered hcomplete fun amount =>
      (not_insertOrUpdateAsset (accountFromRow_eq_ok haccin).reachable).mpr hplace

/-- A prepared request is finalized or refused. -/
theorem finalizeSpend_avoids {p : PreparedSpend} (h : prepareSpend perm db row = .ok p)
    (sigBytes : List Byte) : Avoids Failure.panic (finalizeSpend perm db row p sigBytes) := by
  obtain ⟨inotes, assetId, accin, inotesValue, onotesValue, balance, hd⟩ := prepareSpend_eq_ok h
  have hauth : p.accout.consumeAuth = .default := by
    rw [hd.accout]
    exact (accountFromRow_eq_ok hd.from_row).consume_auth
  obtain ⟨ins, hins⟩ : ∃ ins, accountToInsert perm p.accout p.accRow.ethAddress = .ok ins := by
    rw [accountToInsert, hauth]
    exact ⟨_, rfl⟩
  unfold finalizeSpend Database.updateAccount
  simp only [hins, ok_bind]
  refine Avoids.bind ((Avoids.revertIf (by simp)).bind fun _ _ => .ok _) fun updated _ => ?_
  obtain ⟨final, hfinal⟩ := foldlM_settleOnote_ok (s := (updated, [])) hd.onote
  rw [hfinal]
  exact .ok final

/-- The balance of a prepared request. -/
theorem prepareSpend_exact {p : PreparedSpend} (h : prepareSpend perm db row = .ok p) :
    ∃ accin inotes assetId ins outs i balance, Fetched perm db row accin inotes p.onotes assetId ∧
      Values inotes p.onotes ins outs ∧ p.accout.ast.amountFor assetId = some (i, balance) ∧
        balance.toNat + natSum outs = (balanceOf accin assetId).toNat + natSum ins := by
  obtain ⟨inotes, assetId, accin, inotesValue, onotesValue, balance, hd⟩ := prepareSpend_eq_ok h
  obtain ⟨ins, hins, hinSum⟩ := sumValues_values hd.in_value
  obtain ⟨outs, houts, houtSum⟩ := sumValues_values hd.out_value
  obtain ⟨prev, hupdate⟩ := hd.ast
  obtain ⟨-, i, hassets⟩ := insertOrUpdateAsset_eq_ok hupdate
  refine ⟨accin, inotes, assetId, ins, outs, i, balance,
    ⟨⟨p.accRow, hd.account, hd.from_row⟩, hd.get_inotes, hd.get_onotes, hd.asset⟩,
    ⟨hins, houts, hinSum ▸ inotesValue.isLt, houtSum ▸ onotesValue.isLt⟩, ?_, ?_⟩
  · rw [AccountStateTree.amountFor, hassets, AList.lookup_insert]
  · rw [← hinSum, ← houtSum]
    exact accoutBalance_eq_ok hd.out_balance

theorem processSafe_iff : ProcessSafe perm db row ↔ ¬ Overflowing perm db row := by
  constructor
  · exact fun h hover => h.no_panic (.inl hover.panics)
  · intro h
    refine ⟨?_, fun p hp => prepareSpend_exact hp⟩
    rintro (hpanics | ⟨p, sigBytes, hp, hpanics⟩)
    · exact h (prepareSpend_panics hpanics)
    · exact finalizeSpend_avoids hp sigBytes hpanics

end Processing

/-- An accepted request is covered unless its outputs wrap around, and a stored one is processed
exactly unless a sum of the operator or the asset tree overflows. -/
theorem spend_solvency_iff (perm : State → State) (db : Database) :
    (∀ req db' id, submitSpendTxHandler perm req db = .ok (db', id) →
      (Solvent perm db req ↔ ¬ WrapsMore perm db req)) ∧
    ∀ row, ProcessSafe perm db row ↔ ¬ Overflowing perm db row :=
  ⟨fun _ _ _ h => accepted_solvent_iff h, fun _ => processSafe_iff⟩

/-- The note of five units is spent as it is. -/
theorem spend_solvency_small : ∃ db' requestId,
    submitSpendTxHandler id (smallRequest [] 1 1 0) smallDb = .ok (db', requestId) ∧
      (Solvent id smallDb (smallRequest [] 1 1 0) ↔ ¬ WrapsMore id smallDb (smallRequest [] 1 1 0)) := by
  obtain ⟨requests, outputs, -, -, hsubmit⟩ := @small_submit smallDb [] 1 1 0 id small_start rfl rfl
  exact ⟨_, _, hsubmit, (spend_solvency_iff id smallDb).1 _ _ _ hsubmit⟩

/-! ## A request that wraps around -/

/-- Two output notes of `2^255` each, which is also five times that number, and nothing else. -/
def wrapRequest : SpendTxRequest where
  privAccAddress := address 0
  inputNotes := []
  outputNotes := [smallPayload 1 (smallValue (2 ^ 255)) (address 0),
    smallPayload 2 (smallValue (2 ^ 255)) (address 0)]
  dinotes := List.replicate NOTE_BATCH (dummySeed 0)
  donotes := List.replicate (NOTE_BATCH - 2) (dummySeed 0)
  spendTxSignature := hexEncode []

def wrapOutputs : List DecodedOutput := [smallOutput (2 ^ 255) 1 0, smallOutput (2 ^ 255) 2 0]

theorem sharedAssetId_wrap : sharedAssetId wrapRequest = .ok 1 := by
  have hsame : ¬ ∃ s ∈ [hexEncode assetOne, hexEncode assetOne], s ≠ hexEncode assetOne := by simp
  have hid : assetIdFromU64 (ofLeBytes assetOne) = .ok 1 := by decide
  have hlen : assetOne.length = 8 := rfl
  have hall : (wrapRequest.inputNotes ++ wrapRequest.outputNotes).map NotePayload.assetId =
      [hexEncode assetOne, hexEncode assetOne] := rfl
  unfold sharedAssetId
  simp only [hall, List.head?_cons, orInvalid, ok_bind, revertIf, if_neg hsame, hexDecode_hexEncode,
    hlen, ne_eq, not_true_eq_false, if_false, hid]
  rfl

theorem wrap_decoded :
    wrapRequest.outputNotes.mapM (decodeOutputNote wrapRequest.privAccAddress) = .ok wrapOutputs :=
  mapM_eq_ok.mpr (.cons decodeOutputNote_small (.cons decodeOutputNote_small .nil))

theorem wrap_amounts (perm : State → State) :
    Amounts perm smallDb wrapRequest 0 [] [smallValue (2 ^ 255), smallValue (2 ^ 255)] := by
  obtain ⟨acc, hacc, hast⟩ := small_account perm
  exact ⟨⟨smallAccount, acc, 1, small_find_account small_start, hacc, sharedAssetId_wrap,
    amountIn_new hast 1⟩, rfl, wrapOutputs, wrap_decoded, rfl⟩

/-- It is accepted, for the wrapped sum of its outputs is zero. -/
theorem wrap_submit (perm : State → State) : ∃ db', submitSpendTxHandler perm wrapRequest smallDb =
      .ok (db', 0) ∧ Small db' ∧ db'.spendTxRequests.find 0 = some (requestRow wrapRequest [] 0) ∧
      ∃ o o', db'.outputNotes.find (noteId 1) = some (outputNoteRow (smallOutput (2 ^ 255) 1 0) o) ∧
        db'.outputNotes.find (noteId 2) = some (outputNoteRow (smallOutput (2 ^ 255) 2 0) o') := by
  obtain ⟨acc, hacc, hast⟩ := small_account perm
  obtain ⟨requests, hrequests⟩ : ∃ t,
      smallDb.spendTxRequests.insert (requestRow wrapRequest []) = some t := Table.insert_ok rfl
  obtain ⟨first, hfirst⟩ : ∃ t,
      smallDb.outputNotes.insert (outputNoteRow (smallOutput (2 ^ 255) 1 0)) = some t :=
    Table.insert_ok rfl
  have hfree : first.find (noteId 2) = none :=
    (Table.find_insert hfirst).trans (if_neg (noteId_ne (by decide)))
  obtain ⟨outputs, houtputs⟩ : ∃ t,
      first.insert (outputNoteRow (smallOutput (2 ^ 255) 2 0)) = some t := Table.insert_ok hfree
  have hins : wrapOutputs.foldlM insertOutputNote smallDb.outputNotes = .ok outputs := by
    have h₁ : insertOutputNote smallDb.outputNotes (smallOutput (2 ^ 255) 1 0) = .ok first := by
      rw [insertOutputNote, hfirst]
    have h₂ : insertOutputNote first (smallOutput (2 ^ 255) 2 0) = .ok outputs := by
      rw [insertOutputNote, houtputs]
    rw [wrapOutputs, List.foldlM_cons, h₁, ok_bind, List.foldlM_cons, h₂]
    rfl
  have hbalance : ¬ u256Add (balanceOf acc 1) (([] : List U256).foldl u256Add 0) <
      (wrapOutputs.map DecodedOutput.amount).foldl u256Add 0 := by
    have hzero : (wrapOutputs.map DecodedOutput.amount).foldl u256Add 0 = 0 := by decide
    rw [hzero]
    exact Nat.not_lt_zero _
  refine ⟨{ smallDb with outputNotes := outputs, spendTxRequests := requests }, ?_, ⟨rfl, rfl⟩,
    (Table.find_insert hrequests).trans (if_pos rfl), 0, first.serial, ?_,
    (Table.find_insert houtputs).trans (if_pos rfl)⟩
  · exact submit_ok (small_find_account small_start) hacc rfl sharedAssetId_wrap wrap_decoded hbalance
      (hexDecode_hexEncode []) hrequests hins
  · refine (Table.find_insert houtputs).trans ((if_neg (noteId_ne (by decide))).trans ?_)
    exact (Table.find_insert hfirst).trans (if_pos rfl)

/-- Two notes of `2^255` from an account without the asset: the request is accepted and stored, and
panics when it is processed. -/
theorem wrapped_request_accepted : ∃ db', submitSpendTxHandler id wrapRequest smallDb = .ok (db', 0) ∧
    ¬ Solvent id smallDb wrapRequest ∧ ∃ row, db'.spendTxRequests.find 0 = some row ∧
      prepareSpend id db' row = .error .panic ∧ ¬ ProcessSafe id db' row := by
  obtain ⟨db', hsubmit, hsmall, hrow, o, o', ho, ho'⟩ := wrap_submit id
  obtain ⟨acc, hacc, -⟩ := small_account id
  have hover : Overflowing id db' (requestRow wrapRequest [] 0) := by
    have hfetched : Fetched id db' (requestRow wrapRequest [] 0) acc []
        [outputNoteRow (smallOutput (2 ^ 255) 1 0) o, outputNoteRow (smallOutput (2 ^ 255) 2 0) o'] 1 :=
      ⟨⟨smallAccount, small_find_account hsmall, hacc⟩, rfl,
        getOnotes_eq_ok.mpr (.cons ho (.cons ho' .nil)),
        noteAssetId_eq_ok.mpr ⟨rfl, bytesToF_assetOne⟩⟩
    have hnone : ([] : List InputNoteRow).mapM InputNoteRow.value = .ok [] := rfl
    refine .outputs hfetched hnone (by decide)
      ⟨2, [smallValue (2 ^ 255), smallValue (2 ^ 255)], ?_, by decide⟩
    exact mapM_eq_ok.mpr (.cons smallOutput_value (.cons smallOutput_value .nil))
  refine ⟨db', hsubmit, fun hsolvent => ?_, _, hrow, hover.panics, fun h => processSafe_iff.mp h hover⟩
  refine (accepted_solvent_iff hsubmit).mp hsolvent ⟨_, _, _, wrap_amounts id, ?_⟩
  decide

end Doxa.Subpool
