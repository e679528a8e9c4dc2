import Doxa.Circuit.Keccak
import Doxa.Server.Layout

/-!
# The commitment of a batch

`pi_commitment` hashes the preimage words natively, a super circuit hashes the words it
splits its targets into, and the contract takes the digest of the preimage bytes apart into
the public inputs of the proof. The words are determined by the public inputs of the batch,
the two sponges agree at every length, and both digests are Keccak-256 of the bytes.
-/

namespace Doxa.Server

open Lib Lib.Keccak Circuit

/-! ## The words of a batch -/

section Words

variable {perm : State → State}

theorem privTx_words {t : PrivTxSuperTargets} (ht : t.Satisfied perm) {proofs : List (List F)}
    (hslots : proofs = List.ofFn fun s => (t.pis perm s).register) {pairs : List U32PairTargets}
    (hpairs : FieldsToU32Words (t.preimageTargets perm) pairs) :
    u32Words pairs = (pushFields (preimageFields
      (computeRootNative perm (proofs.flatMap privOutputCommitments)) proofs)).map wordTarget := by
  rw [privTx_preimageTargets ht hslots] at hpairs
  exact u32Words_eq hpairs

theorem bridgeTx_words {t : BridgeTxSuperTargets} (ht : t.Satisfied perm) {proofs : List (List F)}
    (hslots : proofs = withdrawRegisters perm t ++ depositRegisters perm t)
    {pairs : List U32PairTargets} (hpairs : FieldsToU32Words (t.preimageTargets perm) pairs) :
    u32Words pairs = (pushFields (preimageFields
      (computeRootNative perm (proofs.flatMap bridgeOutputCommitments)) proofs)).map wordTarget := by
  rw [bridgeTx_preimageTargets ht hslots] at hpairs
  exact u32Words_eq hpairs

variable (perm) in
/-- A field element splits into the halves of its canonical representative and into no
others, so the public inputs of a batch determine the words of its preimage. -/
theorem canonical_split :
    (∀ x hi lo : F, (∃ t : U32PairTargets, t.Satisfied x ∧ t.hi = hi ∧ t.lo = lo) ↔
      hi.val < 2 ^ 32 ∧ lo.val < 2 ^ 32 ∧ hi.val * 2 ^ 32 + lo.val = x.val) ∧
    (∀ (t t' : PrivTxSuperTargets) (pairs pairs' : List U32PairTargets),
      t.Satisfied perm → t'.Satisfied perm →
      (∀ s, (t.pis perm s).register = (t'.pis perm s).register) →
      FieldsToU32Words (t.preimageTargets perm) pairs →
      FieldsToU32Words (t'.preimageTargets perm) pairs' → u32Words pairs = u32Words pairs') ∧
    ∀ (t t' : BridgeTxSuperTargets) (pairs pairs' : List U32PairTargets),
      t.Satisfied perm → t'.Satisfied perm →
      withdrawRegisters perm t = withdrawRegisters perm t' →
      depositRegisters perm t = depositRegisters perm t' →
      FieldsToU32Words (t.preimageTargets perm) pairs →
      FieldsToU32Words (t'.preimageTargets perm) pairs' → u32Words pairs = u32Words pairs' := by
  refine ⟨U32PairTargets.exists_satisfied_iff, ?_, ?_⟩
  · intro t t' pairs pairs' ht ht' hpis hpairs hpairs'
    rw [privTx_words ht rfl hpairs, privTx_words ht' (congrArg List.ofFn (funext hpis)) hpairs']
  · intro t t' pairs pairs' ht ht' hw hd hpairs hpairs'
    rw [bridgeTx_words ht rfl hpairs, bridgeTx_words ht' (congrArg₂ (· ++ ·) hw hd) hpairs']

end Words

/-! ## The digest -/

variable (keccakf : Lanes → Lanes)

/-- `SolidityKeccak256::hash`. -/
def solidityKeccak256Hash (words : List (BitVec 32)) : List (BitVec 8) :=
  (List.ofFn (solidityKeccak256 keccakf words)).flatMap toBeBytes

def piCommitment (root : Except BatchError HashOut) (proofs : List (List F)) :
    Except BatchError (List (BitVec 8)) := do
  let words ← piPreimageWords root proofs
  return solidityKeccak256Hash keccakf words

/-- A digest as the contract holds it. -/
def bytes32 (digest : List (BitVec 8)) : Contract.Bytes32 :=
  BitVec.ofNat 256 (bigEndian 8 (fun k => (digest.getD k 0).toNat) 32)

/-- The commitment is Keccak-256 of the preimage bytes. -/
theorem piCommitment_eq (root : Except BatchError HashOut) (proofs : List (List F)) :
    piCommitment keccakf root proofs = keccak256 keccakf <$> piPreimageBytes root proofs := by
  unfold piCommitment piPreimageBytes
  cases piPreimageWords root proofs with
  | error e => rfl
  | ok words => exact congrArg Except.ok (solidityKeccak256_eq keccakf words)

/-- The digest is the number with its words for digits. -/
theorem bytes32_toNat (words : Fin 8 → BitVec 32) :
    (bytes32 ((List.ofFn words).flatMap toBeBytes)).toNat =
      bigEndian 32 (fun i => ((List.ofFn words).getD i 0).toNat) 8 := by
  have hbyte : ∀ i, ∀ j < 4, ((List.ofFn words).flatMap toBeBytes)[i * 4 + j]? =
      (List.ofFn words)[i]?.bind fun w => (toBeBytes w)[j]? :=
    fun i j hj => getElem?_flatMap_record (fun w _ => toBeBytes_length w) hj
  have hword : ∀ i < 8,
      bigEndian 8 (fun j => (((List.ofFn words).flatMap toBeBytes).getD (i * 4 + j) 0).toNat) 4 =
        ((List.ofFn words).getD i 0).toNat := by
    intro i hi
    have hget : (List.ofFn words)[i]? = some (words ⟨i, hi⟩) := by
      rw [List.getElem?_ofFn, dif_pos hi]
    rw [List.getD_eq_getElem?_getD, hget, Option.getD_some, ← toBeBytes_value]
    refine bigEndian_congr fun j hj => ?_
    rw [List.getD_eq_getElem?_getD, hbyte i j hj, hget, Option.bind_some,
      List.getD_eq_getElem?_getD]
  have hlt : bigEndian 32 (fun i => ((List.ofFn words).getD i 0).toNat) 8 < 2 ^ (32 * 8) :=
    bigEndian_lt fun i _ => ((List.ofFn words).getD i 0).isLt
  have hgroup : bigEndian 8 (fun k =>
      (((List.ofFn words).flatMap toBeBytes).getD k 0).toNat) (8 * 4) =
        bigEndian 32 (fun i => ((List.ofFn words).getD i 0).toNat) 8 := by
    rw [bigEndian_group]
    exact bigEndian_congr hword
  rw [bytes32, BitVec.toNat_ofNat]
  exact (congrArg (· % 2 ^ 256) hgroup).trans (Nat.mod_eq_of_lt hlt)

/-- The contract finds the words of a digest again. -/
theorem keccakToPublicInputs_words (words : Fin 8 → BitVec 32) :
    (Contract.keccakToPublicInputs (bytes32 ((List.ofFn words).flatMap toBeBytes))).map
      BitVec.toNat = List.ofFn fun k => (words k).toNat := by
  have hinputs : ∀ hash : Contract.Bytes32, Contract.keccakToPublicInputs hash =
      List.ofFn fun i : Fin 8 => (hash >>> (32 * (8 - 1 - i.val))) &&& 0xFFFFFFFF#256 :=
    fun _ => rfl
  rw [hinputs, List.map_ofFn]
  refine congrArg List.ofFn (funext fun i => ?_)
  have hmask : (0xFFFFFFFF#256).toNat = 2 ^ 32 - 1 := rfl
  have hdigit : bigEndian 32 (fun i => ((List.ofFn words).getD i 0).toNat) 8 /
      2 ^ (32 * (8 - 1 - i.val)) % 2 ^ 32 = ((List.ofFn words).getD i.val 0).toNat :=
    bigEndian_digit (fun i _ => ((List.ofFn words).getD i 0).isLt) i.isLt
  rw [Function.comp_apply, BitVec.toNat_and, BitVec.toNat_ushiftRight, Nat.shiftRight_eq_div_pow,
    bytes32_toNat, hmask, Nat.and_two_pow_sub_one_eq_mod, hdigit, List.getD_eq_getElem?_getD,
    List.getElem?_ofFn, dif_pos i.isLt, Option.getD_some]

/-! ## Agreement -/

/-- What a super circuit that hashes `words` exposes, and what the contract makes of the
digest of the bytes. -/
theorem publicWords_eq {words : List (BitVec 32)} {k : KeccakTargets}
    (hk : k.Satisfied keccakf (words.map wordTarget)) :
    (List.ofFn k.output).map ZMod.val = (Contract.keccakToPublicInputs
      (bytes32 (keccak256 keccakf (words.flatMap toBeBytes)))).map BitVec.toNat := by
  rw [← solidityKeccak256_eq, keccakToPublicInputs_words, List.map_ofFn]
  refine congrArg List.ofFn (funext fun i => ?_)
  have hlt := (solidityKeccak256 keccakf words i).isLt
  rw [Function.comp_apply, hk.output_eq, wordTarget, ZMod.val_natCast_of_lt (by omega)]

/-- The commitment is the digest of the preimage bytes, and whatever super circuit hashes the
batch exposes the public inputs the contract makes of it. -/
def Committed (root : Except BatchError HashOut) (proofs : List (List F))
    (Hashes : List F → Prop) : Prop :=
  ∃ bytes, piPreimageBytes root proofs = .ok bytes ∧
    piCommitment keccakf root proofs = .ok (keccak256 keccakf bytes) ∧
    ∀ (input : List F) (k : KeccakTargets), Hashes input → k.Satisfied keccakf input →
      (List.ofFn k.output).map ZMod.val =
        (Contract.keccakToPublicInputs (bytes32 (keccak256 keccakf bytes))).map BitVec.toNat

variable (perm : State → State)

/-- A super circuit for the private transactions `proofs` hashes the words `input`. -/
def PrivTxHashes (proofs : List (List F)) (input : List F) : Prop :=
  ∃ (t : PrivTxSuperTargets) (pairs : List U32PairTargets), t.Satisfied perm ∧
    (proofs = List.ofFn fun s => (t.pis perm s).register) ∧
    FieldsToU32Words (t.preimageTargets perm) pairs ∧ input = u32Words pairs

/-- A super circuit for the bridge transactions `proofs` hashes the words `input`. -/
def BridgeTxHashes (proofs : List (List F)) (input : List F) : Prop :=
  ∃ (t : BridgeTxSuperTargets) (pairs : List U32PairTargets), t.Satisfied perm ∧
    proofs = withdrawRegisters perm t ++ depositRegisters perm t ∧
    FieldsToU32Words (t.preimageTargets perm) pairs ∧ input = u32Words pairs

theorem committed {root : HashOut} {proofs : List (List F)} {Hashes : List F → Prop}
    (h : ∀ input, Hashes input →
      input = (pushFields (preimageFields root proofs)).map wordTarget) :
    Committed keccakf (.ok root) proofs Hashes := by
  refine ⟨_, piPreimageBytes_ok root proofs, ?_, ?_⟩
  · rw [piCommitment_eq, piPreimageBytes_ok]
    rfl
  · intro input k hinput hk
    rw [h input hinput] at hk
    rw [publicWords_eq keccakf hk, flatMap_toBeBytes_pushFields]

/-- On every list of words the native hash and the circuit return Keccak-256 of the words in
big-endian order, and every finalized batch is committed to by it. -/
theorem keccak_agreement :
    (∀ words : List (BitVec 32),
      solidityKeccak256Hash keccakf words = keccak256 keccakf (words.flatMap toBeBytes) ∧
      (∃ t : KeccakTargets, t.Satisfied keccakf (words.map wordTarget)) ∧
      ∀ t : KeccakTargets, t.Satisfied keccakf (words.map wordTarget) →
        ∃ digest : Fin 8 → BitVec 32, (∀ k, t.output k = wordTarget (digest k)) ∧
          (List.ofFn digest).flatMap toBeBytes = keccak256 keccakf (words.flatMap toBeBytes)) ∧
    (∀ (ops : List PrivateTxBatch.Op) (b : PrivateTxBatch) (root : HashOut),
      run (PrivateTxBatch.step perm) .new ops = b → b.batchPoseidonRoot = some root →
      Committed keccakf b.commitmentsSubtreeRoot b.pis (PrivTxHashes perm b.pis)) ∧
    ∀ (ops : List BridgeTxBatch.Op) (b : BridgeTxBatch) (root : HashOut),
      ops.foldl (BridgeTxBatch.step perm) .new = b → b.batchPoseidonRoot = some root →
      Committed keccakf b.commitmentsSubtreeRoot b.pis (BridgeTxHashes perm b.pis) := by
  refine ⟨fun words => ⟨solidityKeccak256_eq keccakf words,
    ⟨_, KeccakTargets.honest_satisfied keccakf words⟩, fun t ht =>
      ⟨_, ht.output_eq, solidityKeccak256_eq keccakf words⟩⟩, ?_, ?_⟩
  · rintro ops b root rfl hroot
    obtain ⟨-, hvalue⟩ := (PrivateTxBatch.run_inv_new ops).isTxBatch hroot
    rw [PrivateTxBatch.commitmentsSubtreeRoot, hroot]
    refine committed keccakf ?_
    rintro input ⟨t, pairs, ht, hslots, hpairs, rfl⟩
    rw [privTx_words ht hslots hpairs, hvalue]
  · rintro ops b root rfl hroot
    obtain ⟨hpis, -, hvalue⟩ := (BridgeTxBatch.run_inv_new ops).isBridgeBatch hroot
    rw [BridgeTxBatch.commitmentsSubtreeRoot, hroot]
    refine committed keccakf ?_
    rintro input ⟨t, pairs, ht, hslots, hpairs, rfl⟩
    rw [bridgeTx_words ht hslots hpairs, hvalue, hpis]

end Doxa.Server
