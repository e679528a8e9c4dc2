import Doxa.Lib.Keccak
import Doxa.Lib.KeccakF
import Doxa.Verifier.Compression

/-!
# Verifying a proof

A proof of three points comes with a commitment to some of the inputs and a proof of knowledge for
it. The verifier checks the commitment with one pairing, adds the commitment and the public inputs,
each times its point of the key, to one point, and checks the proof with a second pairing. The
precompiled contracts for the curve and the pairing are parameters.

The compressed form decompresses the points and does the same: it accepts a compressed proof
exactly when the proof it stands for is accepted, and every accepted compressed proof stands for
one (`verifyCompressedProof_iff`).
-/

namespace Doxa.Verifier

open Lib Lib.Keccak

/-! ## The verification key -/

def ALPHA_X : ℕ :=
  6502212075017757589017020279678033115110923064535136859137059249344476743368
def ALPHA_Y : ℕ :=
  1948727723043971931156887555594216223787314077511626945079726665251441711520
def BETA_NEG_X_0 : ℕ :=
  12703711292923663036668697391570015692122158711139399561009608478911177669048
def BETA_NEG_X_1 : ℕ :=
  21368079801923907595105314400213287096527294578199484426889925298533148392961
def BETA_NEG_Y_0 : ℕ :=
  3411469089562205307932252236352788609490174904982698900361858444444325952237
def BETA_NEG_Y_1 : ℕ :=
  15293981249199923356971259386283611048623395768902494042195362297915671202660
def GAMMA_NEG_X_0 : ℕ :=
  3546737122561211064914952335431725341217222478050005644108881588790815800284
def GAMMA_NEG_X_1 : ℕ :=
  6007772628492419836673568542474106237597051440629540209922557629393773347892
def GAMMA_NEG_Y_0 : ℕ :=
  10365417340525702414412373560617628726711142790669913796646988327929316748780
def GAMMA_NEG_Y_1 : ℕ :=
  2367144219667139036068166064365215454064542179523245775854356046770488464436
def DELTA_NEG_X_0 : ℕ :=
  18304908754910518115119997045184694111105622452685005347991229097947984148373
def DELTA_NEG_X_1 : ℕ :=
  20244853349872463677208608944495096696940782373093398844055865342169518509012
def DELTA_NEG_Y_0 : ℕ :=
  13179349748295012830690040463195809475248726705351437809171712945686070567619
def DELTA_NEG_Y_1 : ℕ :=
  3800938136626822313329339727929009587950441844721728749764487061655735728851
def PEDERSEN_G_X_0 : ℕ :=
  1278075499881318464153601365899170267761784494537337793763676931950740386260
def PEDERSEN_G_X_1 : ℕ :=
  13513827563322301171062085762324129677631757875859472268081604100872492947145
def PEDERSEN_G_Y_0 : ℕ :=
  2946861010239052550910707054270814599069011614872601664715831231785275212670
def PEDERSEN_G_Y_1 : ℕ :=
  18710360971105475207505118618362433111288636348824924980558793787271723244238
def PEDERSEN_GSIGMANEG_X_0 : ℕ :=
  11142473790059251245424518911208758823816552727168644281039688448567327427488
def PEDERSEN_GSIGMANEG_X_1 : ℕ :=
  8910359643591945747139979204050113587218546830455897599724505707317322136459
def PEDERSEN_GSIGMANEG_Y_0 : ℕ :=
  9816724519967174680647968015493935104966659262669004994086908942461185281525
def PEDERSEN_GSIGMANEG_Y_1 : ℕ :=
  643569388866015423475583885939389759252881828322434137322480974663637691864
def CONSTANT_X : ℕ :=
  19509564546573255310972093916842422819399236457131891857596770621097963815938
def CONSTANT_Y : ℕ :=
  19154819607182480777031204160096203209827119797252853291630375895326728859652
def PUB_0_X : ℕ :=
  10639818935978218304745985826729778524835326551093664195415405723726353384387
def PUB_0_Y : ℕ :=
  19643998137137425463565261411433977568352174104354381897560129057035755029518
def PUB_1_X : ℕ :=
  9503711560692783368538729611367318996704162433182590604063104656006904507001
def PUB_1_Y : ℕ :=
  15254949385246746721427024924274707808004734544788077754129971382527548631228
def PUB_2_X : ℕ :=
  579475440821893596981100459579242921243059863219018546353436240541246743714
def PUB_2_Y : ℕ :=
  13709946624214830485978234117497229625030935861566994828736705288016078840573
def PUB_3_X : ℕ :=
  9397080906838148417444794699654499480855548600766449474578630776666288571121
def PUB_3_Y : ℕ :=
  17259125654290923649496977642618826094962530478546139376228598618170347769963
def PUB_4_X : ℕ :=
  4250834104371164785130147313270481876830548539972247616555469119933755418182
def PUB_4_Y : ℕ :=
  4675549609471178394427834688058222892686714918114210613078687456973114539671
def PUB_5_X : ℕ :=
  21303586018866628488792845690368335507528154989854518580621166590361081801389
def PUB_5_Y : ℕ :=
  2010988827916595188248191240494353351657086480120951600818863450544375792980
def PUB_6_X : ℕ :=
  14332624038305420273047015829220195675587419740206016984846230612780104145465
def PUB_6_Y : ℕ :=
  2557523281403938263367983554688169599455446223713118181293069985276014719887
def PUB_7_X : ℕ :=
  411378284721453220076517131348227386934328171117128684901681234500403532069
def PUB_7_Y : ℕ :=
  6466502471703705185340064304626031903292830824088626742477439972733396863332
def PUB_8_X : ℕ :=
  15807808566984291111720885666978621765733172651434735137708556018784440456346
def PUB_8_Y : ℕ :=
  16371859482426095823814986033940858111479725815294584085208115642765771864384

def CONSTANT : ℕ × ℕ := (CONSTANT_X, CONSTANT_Y)

/-- The points of the public inputs; the last one is that of the commitment. -/
def PUB : Fin 9 → ℕ × ℕ :=
  ![(PUB_0_X, PUB_0_Y), (PUB_1_X, PUB_1_Y), (PUB_2_X, PUB_2_Y), (PUB_3_X, PUB_3_Y), (PUB_4_X, PUB_4_Y),
    (PUB_5_X, PUB_5_Y), (PUB_6_X, PUB_6_Y), (PUB_7_X, PUB_7_Y), (PUB_8_X, PUB_8_Y)]

/-! ## The functions -/

/-- The precompiled contracts; nothing is what a failed call returns. -/
structure Precompiles where
  ecAdd : ℕ × ℕ → ℕ × ℕ → Option (ℕ × ℕ)
  ecMul : ℕ × ℕ → ℕ → Option (ℕ × ℕ)
  pairing : List ℕ → Option Bool

/-- The arguments of `verifyProof` besides the public inputs. -/
structure Proof where
  proof : Fin 8 → ℕ
  commitments : ℕ × ℕ
  commitmentPok : ℕ × ℕ

/-- The arguments of `verifyCompressedProof` besides the public inputs. -/
structure CompressedProof where
  compressedProof : Fin 4 → ℕ
  compressedCommitments : ℕ
  compressedCommitmentPok : ℕ

/-- `abi.encodePacked` of one word. -/
def wordBytes (x : ℕ) : List (BitVec 8) := List.ofFn fun i : Fin 32 => BitVec.ofNat 8 (x / 256 ^ (31 - i.val))

/-- `publicCommitments[0]`. -/
def hashToField (commitments : ℕ × ℕ) : ℕ :=
  let digest := keccak256 keccakF (wordBytes commitments.1 ++ wordBytes commitments.2)
  bigEndian 8 (fun k => (digest.getD k 0).toNat) 32 % R

/-- `success` and the point at `f` in memory. -/
structure Accumulator where
  success : Bool
  point : ℕ × ℕ

/-- The code for one public input. A failed call leaves the memory as it was. -/
def addInput (pre : Precompiles) (acc : Accumulator) (term : (ℕ × ℕ) × ℕ) : Accumulator :=
  let product := pre.ecMul term.1 term.2
  let sum := pre.ecAdd acc.point (product.getD term.1)
  { success := acc.success && decide (term.2 < R) && product.isSome && sum.isSome
    point := sum.getD acc.point }

/-- The points of the key beside their scalars. -/
def terms (input : Fin 8 → ℕ) (publicCommitment : ℕ) : List ((ℕ × ℕ) × ℕ) :=
  List.ofFn (fun i : Fin 8 => (PUB i.castSucc, input i)) ++ [(PUB (Fin.last 8), publicCommitment)]

def publicInputMSM (pre : Precompiles) (input : Fin 8 → ℕ) (publicCommitment : ℕ) (commitments : ℕ × ℕ) :
    Except VerifierError (ℕ × ℕ) :=
  let first := pre.ecAdd CONSTANT commitments
  let acc := (terms input publicCommitment).foldl (addInput pre) ⟨first.isSome, first.getD CONSTANT⟩
  if acc.success then .ok acc.point else .error .publicInputNotInField

/-- The words of the pairing that checks the commitment. -/
def commitmentWords (commitments commitmentPok : ℕ × ℕ) : List ℕ :=
  [commitments.1, commitments.2, PEDERSEN_GSIGMANEG_X_1, PEDERSEN_GSIGMANEG_X_0, PEDERSEN_GSIGMANEG_Y_1,
    PEDERSEN_GSIGMANEG_Y_0, commitmentPok.1, commitmentPok.2, PEDERSEN_G_X_1, PEDERSEN_G_X_0,
    PEDERSEN_G_Y_1, PEDERSEN_G_Y_0]

/-- The words of the pairing that checks the proof. -/
def proofWords (proof : Fin 8 → ℕ) (l : ℕ × ℕ) : List ℕ :=
  [proof 0, proof 1, proof 2, proof 3, proof 4, proof 5, proof 6, proof 7,
    DELTA_NEG_X_1, DELTA_NEG_X_0, DELTA_NEG_Y_1, DELTA_NEG_Y_0, ALPHA_X, ALPHA_Y,
    BETA_NEG_X_1, BETA_NEG_X_0, BETA_NEG_Y_1, BETA_NEG_Y_0, l.1, l.2,
    GAMMA_NEG_X_1, GAMMA_NEG_X_0, GAMMA_NEG_Y_1, GAMMA_NEG_Y_0]

def verifyProof (pre : Precompiles) (p : Proof) (input : Fin 8 → ℕ) : Except VerifierError Unit := do
  revertIf (pre.pairing (commitmentWords p.commitments p.commitmentPok) ≠ some true) .commitmentInvalid
  let l ← publicInputMSM pre input (hashToField p.commitments) p.commitments
  revertIf (pre.pairing (proofWords p.proof l) ≠ some true) .proofInvalid

def compressProof (p : Proof) : Except VerifierError CompressedProof := do
  let a ← compressG1 (p.proof 0) (p.proof 1)
  let b ← compressG2 (p.proof 3) (p.proof 2) (p.proof 5) (p.proof 4)
  let c ← compressG1 (p.proof 6) (p.proof 7)
  let commitments ← compressG1 p.commitments.1 p.commitments.2
  let commitmentPok ← compressG1 p.commitmentPok.1 p.commitmentPok.2
  return ⟨![a, b.2, b.1, c], commitments, commitmentPok⟩

def verifyCompressedProof (pre : Precompiles) (c : CompressedProof) (input : Fin 8 → ℕ) :
    Except VerifierError Unit := do
  let commitments ← decompressG1 c.compressedCommitments
  let commitmentPok ← decompressG1 c.compressedCommitmentPok
  revertIf (pre.pairing (commitmentWords commitments commitmentPok) ≠ some true) .commitmentInvalid
  let a ← decompressG1 (c.compressedProof 0)
  let b ← decompressG2 (c.compressedProof 2) (c.compressedProof 1)
  let cPoint ← decompressG1 (c.compressedProof 3)
  let l ← publicInputMSM pre input (hashToField commitments) commitments
  revertIf (pre.pairing (proofWords
    ![a.1, a.2, b.2.1, b.1, b.2.2.2, b.2.2.1, cPoint.1, cPoint.2] l) ≠ some true) .proofInvalid

/-! ## Compressed and plain proofs -/

/-- The points of a compressed proof. -/
structure StandsFor (c : CompressedProof) (p : Proof) : Prop where
  pointA : decompressG1 (c.compressedProof 0) = .ok (p.proof 0, p.proof 1)
  pointB : decompressG2 (c.compressedProof 2) (c.compressedProof 1) =
    .ok (p.proof 3, p.proof 2, p.proof 5, p.proof 4)
  pointC : decompressG1 (c.compressedProof 3) = .ok (p.proof 6, p.proof 7)
  commitments : decompressG1 c.compressedCommitments = .ok p.commitments
  commitmentPok : decompressG1 c.compressedCommitmentPok = .ok p.commitmentPok

section Compressed

variable {pre : Precompiles} {c : CompressedProof} {p : Proof} {input : Fin 8 → ℕ}

theorem compressProof_eq_ok : compressProof p = .ok c ↔ StandsFor c p := by
  unfold compressProof
  simp only [bind_eq_ok, pure_eq_ok]
  constructor
  · rintro ⟨a, ha, b, hb, c', hc, commitments, hcommitments, pok, hpok, rfl⟩
    exact ⟨compressG1_eq_ok.trans decompressG1_eq_ok.symm |>.mp ha,
      compressG2_eq_ok.trans decompressG2_eq_ok.symm |>.mp hb,
      compressG1_eq_ok.trans decompressG1_eq_ok.symm |>.mp hc,
      compressG1_eq_ok.trans decompressG1_eq_ok.symm |>.mp hcommitments,
      compressG1_eq_ok.trans decompressG1_eq_ok.symm |>.mp hpok⟩
  · intro h
    refine ⟨_, compressG1_eq_ok.mpr (decompressG1_eq_ok.mp h.pointA),
      (_, _), compressG2_eq_ok.mpr (decompressG2_eq_ok.mp h.pointB),
      _, compressG1_eq_ok.mpr (decompressG1_eq_ok.mp h.pointC),
      _, compressG1_eq_ok.mpr (decompressG1_eq_ok.mp h.commitments),
      _, compressG1_eq_ok.mpr (decompressG1_eq_ok.mp h.commitmentPok), ?_⟩
    obtain ⟨words, commitments, pok⟩ := c
    congr 1
    funext i
    fin_cases i <;> rfl

theorem StandsFor.verify (h : StandsFor c p) : verifyCompressedProof pre c input = verifyProof pre p input := by
  have hwords : ![p.proof 0, p.proof 1, p.proof 2, p.proof 3, p.proof 4, p.proof 5, p.proof 6, p.proof 7] =
      p.proof := by
    funext i
    fin_cases i <;> rfl
  unfold verifyCompressedProof verifyProof
  rw [h.commitments, ok_bind, h.commitmentPok, ok_bind, h.pointA, ok_bind, h.pointB, ok_bind, h.pointC, ok_bind]
  simp only [hwords]

/-- What a compressed proof stands for, if all of it decompresses. -/
theorem exists_standsFor (h : verifyCompressedProof pre c input = .ok ()) : ∃ p, StandsFor c p := by
  unfold verifyCompressedProof at h
  obtain ⟨commitments, hcommitments, h⟩ := bind_eq_ok.mp h
  obtain ⟨pok, hpok, h⟩ := bind_eq_ok.mp h
  obtain ⟨-, -, h⟩ := bind_eq_ok.mp h
  obtain ⟨⟨ax, ay⟩, ha, h⟩ := bind_eq_ok.mp h
  obtain ⟨⟨bx0, bx1, by0, by1⟩, hb, h⟩ := bind_eq_ok.mp h
  obtain ⟨⟨cx, cy⟩, hc, -⟩ := bind_eq_ok.mp h
  exact ⟨⟨![ax, ay, bx1, bx0, by1, by0, cx, cy], commitments, pok⟩, ha, hb, hc, hcommitments, hpok⟩

/-- The compressed form of a proof is verified as the proof is, with the same error, and every
accepted compressed proof is the compressed form of an accepted proof. -/
theorem verifyCompressedProof_iff :
    (∀ p, compressProof p = .ok c → verifyCompressedProof pre c input = verifyProof pre p input) ∧
    (verifyCompressedProof pre c input = .ok () ↔
      ∃ p, compressProof p = .ok c ∧ verifyProof pre p input = .ok ()) := by
  have hsame : ∀ p, compressProof p = .ok c → verifyCompressedProof pre c input = verifyProof pre p input :=
    fun p hp => (compressProof_eq_ok.mp hp).verify
  refine ⟨hsame, ?_⟩
  constructor
  · intro h
    obtain ⟨p, hp⟩ := exists_standsFor h
    have hcompress := compressProof_eq_ok.mpr hp
    exact ⟨p, hcompress, (hsame p hcompress).symm.trans h⟩
  · rintro ⟨p, hp, h⟩
    exact (hsame p hp).trans h

end Compressed

end Doxa.Verifier
