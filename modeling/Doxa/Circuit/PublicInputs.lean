import Doxa.Circuit.Aggregator
import Doxa.Lib.Positional

/-!
# Public inputs as a list

A proof carries its public inputs as one list, in the order in which the circuit registers
them. `fromPis` cuts the list up again, and `uniquePiTargets` lists what is not shared by
the slots of a batch. The three kinds of transactions differ only in what follows the
output commitment.
-/

namespace Doxa.Circuit

open Lib

/-- `n` public inputs from `off` on. -/
def fieldsOf (pis : List F) (off n : ℕ) : Fin n → F := fun k => pis.getD (off + k.val) 0

/-! ## Reading a list back -/

section Read

variable {n : ℕ} (a : Fin n → F) (ys : List F)

theorem fieldsOf_append {xs : List F} {l : ℕ} (hl : xs.length = l) (off : ℕ) :
    fieldsOf (xs ++ ys) (l + off) n = fieldsOf ys off n := by
  subst hl
  funext k
  unfold fieldsOf
  rw [List.getD_append_right _ _ _ _ (by omega), Nat.add_assoc, Nat.add_sub_cancel_left]

theorem fieldsOf_ofFn : fieldsOf (List.ofFn a ++ ys) 0 n = a := by
  funext k
  have hk : k.val < (List.ofFn a).length := by rw [List.length_ofFn]; exact k.isLt
  unfold fieldsOf
  rw [Nat.zero_add, List.getD_append _ _ _ _ hk, List.getD_eq_getElem _ _ hk, List.getElem_ofFn]

theorem fieldsOf_flatMap_ofFn {m : ℕ} (x : Fin m → Fin n → F) (j : Fin m) :
    fieldsOf ((List.ofFn x).flatMap List.ofFn ++ ys) (j.val * n) n = x j := by
  have hwidth : ∀ a ∈ List.ofFn x, (List.ofFn a).length = n := fun a _ => List.length_ofFn
  funext k
  have hrecord : ((List.ofFn x).flatMap List.ofFn)[j.val * n + k.val]? = _ :=
    getElem?_flatMap_record hwidth k.isLt
  have hx : (List.ofFn x)[j.val]? = some (x j) := by
    rw [List.getElem?_ofFn, dif_pos j.isLt]
  have hk : (List.ofFn (x j))[k.val]? = some (x j k) := by
    rw [List.getElem?_ofFn, dif_pos k.isLt]
  rw [hx, Option.bind_some, hk] at hrecord
  have hlt := (List.getElem?_eq_some_iff.mp hrecord).1
  unfold fieldsOf
  rw [List.getD_append _ _ _ _ hlt, List.getD_eq_getElem?_getD, hrecord, Option.getD_some]

end Read

/-! ## What all kinds share -/

/-- The public inputs from `notFakeTx` to the output commitment. -/
def sharedUnique (notFakeTx : F) (accinNull accoutComm : HashOut) : List F :=
  [notFakeTx] ++ List.ofFn accinNull ++ List.ofFn accoutComm

/-- The first public inputs of every kind. -/
def sharedPis (root mainpoolConfigRoot : HashOut) (notFakeTx : F)
    (accinNull accoutComm : HashOut) : List F :=
  List.ofFn root ++ List.ofFn mainpoolConfigRoot ++ sharedUnique notFakeTx accinNull accoutComm

section Shared

variable (root config : HashOut) (notFakeTx : F) (accinNull accoutComm : HashOut) (ys : List F)

/-- The public inputs `pis` begin with the shared ones. -/
structure ReadsShared (pis : List F) : Prop where
  root : fieldsOf pis 0 4 = root
  config : fieldsOf pis 4 4 = config
  not_fake_tx : pis.getD 8 0 = notFakeTx
  accin_null : fieldsOf pis 9 4 = accinNull
  accout_comm : fieldsOf pis 13 4 = accoutComm

theorem readsShared : ReadsShared root config notFakeTx accinNull accoutComm
    (sharedPis root config notFakeTx accinNull accoutComm ++ ys) where
  root := by
    funext k
    fin_cases k <;> rfl
  config := by
    funext k
    fin_cases k <;> rfl
  not_fake_tx := rfl
  accin_null := by
    funext k
    fin_cases k <;> rfl
  accout_comm := by
    funext k
    fin_cases k <;> rfl

theorem fieldsOf_afterShared (off n : ℕ) :
    fieldsOf (sharedPis root config notFakeTx accinNull accoutComm ++ ys) (17 + off) n =
      fieldsOf ys off n := fieldsOf_append ys rfl off

theorem sharedPis_take : (sharedPis root config notFakeTx accinNull accoutComm ++ ys).take 8 =
    List.ofFn root ++ List.ofFn config := rfl

end Shared

/-! ## Private transactions -/

namespace TxCircuitPublicTargets

def PI_LEN : ℕ := 73

variable (t : TxCircuitPublicTargets)

def register : List F :=
  sharedPis t.stateRoot t.mainpoolConfigRoot t.notFakeTx t.accinNull t.accoutComm ++
    ((List.ofFn t.inotesNull).flatMap List.ofFn ++ (List.ofFn t.onotesComm).flatMap List.ofFn)

def fromPis (pis : List F) : TxCircuitPublicTargets where
  stateRoot := fieldsOf pis 0 4
  mainpoolConfigRoot := fieldsOf pis 4 4
  notFakeTx := pis.getD 8 0
  accinNull := fieldsOf pis 9 4
  accoutComm := fieldsOf pis 13 4
  inotesNull := fun j => fieldsOf pis (17 + j.val * 4) 4
  onotesComm := fun j => fieldsOf pis (17 + (NOTE_BATCH * 4 + j.val * 4)) 4

def uniquePiTargets : List F :=
  sharedUnique t.notFakeTx t.accinNull t.accoutComm ++
    ((List.ofFn t.inotesNull).flatMap List.ofFn ++ (List.ofFn t.onotesComm).flatMap List.ofFn)

theorem hashes_length (x : Fin NOTE_BATCH → HashOut) :
    ((List.ofFn x).flatMap List.ofFn).length = NOTE_BATCH * 4 := by
  rw [length_flatMap_record fun a _ => List.length_ofFn, List.length_ofFn]

theorem register_length : t.register.length = PI_LEN := by
  rw [register, List.length_append, List.length_append, hashes_length, hashes_length]
  rfl

theorem fromPis_register : fromPis t.register = t := by
  have hshared := readsShared t.stateRoot t.mainpoolConfigRoot t.notFakeTx t.accinNull t.accoutComm
    ((List.ofFn t.inotesNull).flatMap List.ofFn ++ (List.ofFn t.onotesComm).flatMap List.ofFn)
  have hinotes : (fun j : Fin NOTE_BATCH => fieldsOf t.register (17 + j.val * 4) 4) =
      t.inotesNull := by
    funext j
    rw [register, fieldsOf_afterShared, fieldsOf_flatMap_ofFn]
  have honotes : (fun j : Fin NOTE_BATCH =>
      fieldsOf t.register (17 + (NOTE_BATCH * 4 + j.val * 4)) 4) = t.onotesComm := by
    funext j
    rw [register, fieldsOf_afterShared, fieldsOf_append _ (hashes_length t.inotesNull),
      ← List.append_nil ((List.ofFn t.onotesComm).flatMap List.ofFn), fieldsOf_flatMap_ofFn]
  unfold fromPis
  rw [hinotes, honotes]
  unfold register
  rw [hshared.root, hshared.config, hshared.not_fake_tx, hshared.accin_null, hshared.accout_comm]

end TxCircuitPublicTargets

/-! ## Deposits -/

namespace DepositTxPublicTargets

def PI_LEN : ℕ := 35

variable (t : DepositTxPublicTargets)

/-- The public inputs of deposits alone. -/
def own : List F :=
  List.ofFn t.noteComm ++ (List.ofFn t.ethAddress ++ (List.ofFn t.amount ++ [t.assetId]))

def register : List F :=
  sharedPis t.stateRoot t.mainpoolConfigRoot t.notFakeTx t.accinNull t.accoutComm ++ t.own

def fromPis (pis : List F) : DepositTxPublicTargets where
  stateRoot := fieldsOf pis 0 4
  mainpoolConfigRoot := fieldsOf pis 4 4
  notFakeTx := pis.getD 8 0
  accinNull := fieldsOf pis 9 4
  accoutComm := fieldsOf pis 13 4
  noteComm := fieldsOf pis 17 4
  ethAddress := fieldsOf pis 21 5
  amount := fieldsOf pis 26 8
  assetId := pis.getD 34 0

def uniquePiTargets : List F := sharedUnique t.notFakeTx t.accinNull t.accoutComm ++ t.own

theorem register_length : t.register.length = PI_LEN := rfl

theorem fromPis_register : fromPis t.register = t := by
  have hshared := readsShared t.stateRoot t.mainpoolConfigRoot t.notFakeTx t.accinNull t.accoutComm
    t.own
  have hnote : fieldsOf t.register 17 4 = t.noteComm := by
    funext k
    fin_cases k <;> rfl
  have haddress : fieldsOf t.register 21 5 = t.ethAddress := by
    funext k
    fin_cases k <;> rfl
  have hamount : fieldsOf t.register 26 8 = t.amount := by
    funext k
    fin_cases k <;> rfl
  have hasset : t.register.getD 34 0 = t.assetId := rfl
  unfold fromPis
  rw [hnote, haddress, hamount, hasset]
  unfold register
  rw [hshared.root, hshared.config, hshared.not_fake_tx, hshared.accin_null, hshared.accout_comm]

end DepositTxPublicTargets

/-! ## Withdrawals -/

namespace WithdrawTxPublicTargets

def PI_LEN : ℕ := 85

variable (t : WithdrawTxPublicTargets)

/-- The public inputs of withdrawals alone. -/
def own : List F :=
  List.ofFn t.assetIds ++ ((List.ofFn t.withdrawalAmts).flatMap List.ofFn ++ List.ofFn t.wAccAddr)

def register : List F :=
  sharedPis t.root t.mainpoolConfigRoot t.notFakeTx t.accinNull t.accoutComm ++ t.own

def fromPis (pis : List F) : WithdrawTxPublicTargets where
  root := fieldsOf pis 0 4
  mainpoolConfigRoot := fieldsOf pis 4 4
  notFakeTx := pis.getD 8 0
  accinNull := fieldsOf pis 9 4
  accoutComm := fieldsOf pis 13 4
  assetIds := fieldsOf pis 17 NOTE_BATCH
  withdrawalAmts := fun i => fieldsOf pis (17 + (NOTE_BATCH + i.val * 8)) 8
  wAccAddr := fieldsOf pis (17 + (NOTE_BATCH + NOTE_BATCH * 8)) 5

def uniquePiTargets : List F := sharedUnique t.notFakeTx t.accinNull t.accoutComm ++ t.own

theorem assetIds_length : (List.ofFn t.assetIds).length = NOTE_BATCH := List.length_ofFn

theorem amounts_length :
    ((List.ofFn t.withdrawalAmts).flatMap List.ofFn).length = NOTE_BATCH * 8 := by
  rw [length_flatMap_record fun a _ => List.length_ofFn, List.length_ofFn]

theorem own_length : t.own.length = 68 := by
  rw [own, List.length_append, List.length_append, assetIds_length, amounts_length,
    List.length_ofFn]
  rfl

theorem register_length : t.register.length = PI_LEN := by
  rw [register, List.length_append, own_length]
  rfl

theorem fromPis_register : fromPis t.register = t := by
  have hshared := readsShared t.root t.mainpoolConfigRoot t.notFakeTx t.accinNull t.accoutComm t.own
  have hassets : fieldsOf t.register 17 NOTE_BATCH = t.assetIds := by
    show fieldsOf t.register (17 + 0) NOTE_BATCH = t.assetIds
    rw [register, fieldsOf_afterShared, own, fieldsOf_ofFn]
  have hamounts : (fun i : Fin NOTE_BATCH =>
      fieldsOf t.register (17 + (NOTE_BATCH + i.val * 8)) 8) = t.withdrawalAmts := by
    funext i
    rw [register, fieldsOf_afterShared, own, fieldsOf_append _ t.assetIds_length,
      fieldsOf_flatMap_ofFn]
  have haddress : fieldsOf t.register (17 + (NOTE_BATCH + NOTE_BATCH * 8)) 5 = t.wAccAddr := by
    have hskip := fieldsOf_append (n := 5) (List.ofFn t.wAccAddr ++ []) t.amounts_length 0
    rw [Nat.add_zero, fieldsOf_ofFn, List.append_nil] at hskip
    rw [register, fieldsOf_afterShared, own, fieldsOf_append _ t.assetIds_length, hskip]
  unfold fromPis
  rw [hassets, hamounts, haddress]
  unfold register
  rw [hshared.root, hshared.config, hshared.not_fake_tx, hshared.accin_null, hshared.accout_comm]

end WithdrawTxPublicTargets

end Doxa.Circuit
