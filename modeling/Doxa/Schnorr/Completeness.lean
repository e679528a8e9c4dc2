import Doxa.Schnorr.Coordinates

/-!
# Signing and verifying

`schnorr_sign` and `schnorr_verify` on coordinates and words, with the panics of the divisions.
On points of the group of prime order the verification is that of the group, and whatever a
private key signs verifies under its public key: `s` is `k - e d` modulo the order.
-/

namespace Doxa

open Lib Circuit WeierstrassCurve.Affine

/-! ## Bits of a scalar -/

namespace Scalar

theorem littleEndian_word (s : Scalar) {n : ℕ} (hn : n ≤ 5) :
    bitsVal s.toBitArr (64 * n) = littleEndian 64 (fun i => (s.word i).toNat) n := by
  induction n with
  | zero => rfl
  | succ n ih =>
    have hlimb := limb_val s ⟨n, hn⟩
    have hword : s ⟨n, hn⟩ = s.word n := by
      have hindex : Fin.ofNat 5 n = ⟨n, hn⟩ := Fin.ext (Nat.mod_eq_of_lt hn)
      rw [word, hindex]
    rw [Nat.mul_succ, bitsVal_add, ih (Nat.le_of_succ_le hn), hlimb, hword, littleEndian, mul_comm]

/-- The bits that scalar multiplication reads are those of the integer. -/
theorem bitsVal_toBitArr {s : Scalar} (hs : s.toNat < 2 ^ BITS) :
    bitsVal s.toBitArr BITS = s.toNat := by
  have hall : bitsVal s.toBitArr (BITS + 1) = s.toNat := littleEndian_word s le_rfl
  have htop : s.toBitArr BITS = false := by
    by_contra hbit
    rw [bitsVal, Bool.eq_true_of_not_eq_false hbit, Bool.toNat_true] at hall
    omega
  rw [bitsVal, htop, Bool.toNat_false, Nat.zero_mul, Nat.add_zero] at hall
  exact hall

theorem fromHash_lt (elements : Fin 5 → F) : (fromHash elements).toNat < 2 ^ 318 := by
  have hword : ((fromHash elements).word 4).toNat < 2 ^ 62 := by
    have hval := fromHash_toNat elements 4
    rw [if_pos rfl] at hval
    exact hval.trans_lt (Nat.mod_lt _ (by norm_num))
  have hlow := littleEndian_lt (w := 64) (n := 4) fun i _ => ((fromHash elements).word i).isLt
  rw [toNat, littleEndian]
  calc littleEndian 64 (fun i => ((fromHash elements).word i).toNat) 4 +
        ((fromHash elements).word 4).toNat * 2 ^ (64 * 4)
      < 2 ^ (64 * 4) + ((fromHash elements).word 4).toNat * 2 ^ (64 * 4) :=
        Nat.add_lt_add_right hlow _
    _ = (((fromHash elements).word 4).toNat + 1) * 2 ^ (64 * 4) := by ring
    _ ≤ 2 ^ 62 * 2 ^ (64 * 4) := Nat.mul_le_mul_right _ hword
    _ = 2 ^ 318 := (pow_add 2 62 (64 * 4)).symm

theorem N_lt : N.toNat < 2 ^ BITS := by
  have hpow : (2 : ℕ) ^ BITS = 2 ^ 159 * 2 ^ 160 := pow_add 2 159 160
  rw [N_toNat, hpow]
  norm_num

end Scalar

/-! ## Signatures by their coordinates -/

namespace Native

variable (perm : State → State)

structure Signature where
  r : EwPoint
  s : Scalar

/-- `PointEw::generator`. -/
def generator : EwPoint := ⟨GENERATOR_X, GENERATOR_Y, false⟩

/-- `PrivateKey::public_key`. -/
def publicKey (privkey : Scalar) : Option EwPoint := generator.scalarMul privkey

def schnorrSign (privkey : Scalar) (message : List F) (k : Scalar) : Option Signature := do
  let g := generator
  let r ← g.scalarMul k
  let rEncoded ← r.encode
  let q ← publicKey privkey
  let qEncoded ← q.encode
  let e := schnorrChallenge perm rEncoded qEncoded message
  let s := k.addMod (privkey.mulMod e.negMod)
  return { r, s }

def schnorrVerify (pubkey : EwPoint) (message : List F) (sig : Signature) : Option Bool := do
  let rEncoded ← sig.r.encode
  let qEncoded ← pubkey.encode
  let e := schnorrChallenge perm rEncoded qEncoded message
  let g := generator
  let sg ← g.scalarMul sig.s
  let eq ← pubkey.scalarMul e
  let result ← sg.add eq
  return (← result.encode) = (← sig.r.encode)

theorem publicKey_eq (d : Scalar) :
    publicKey d = some (.ofPoint (scalarMul Doxa.generator d)) :=
  EwPoint.scalarMul_ofPoint (AddSubgroup.mem_zmultiples Doxa.generator) d

theorem scalarMul_mem {P : PointEw} (hP : P ∈ primeGroup) (s : Scalar) :
    scalarMul P s ∈ primeGroup := by
  rw [scalarMul_eq]
  exact AddSubgroup.nsmul_mem _ hP _

/-- In the group of prime order the verification is that of the group. -/
theorem schnorrVerify_ofPoint {Q : PointEw} (hQ : Q ∈ primeGroup) (R : PointEw) (m : List F)
    (s : Scalar) : schnorrVerify perm (.ofPoint Q) m ⟨.ofPoint R, s⟩ =
      Doxa.schnorrVerify perm Q m ⟨R, s⟩ := by
  have hgenerator := AddSubgroup.mem_zmultiples Doxa.generator
  have hg : generator.scalarMul s = some (.ofPoint (scalarMul Doxa.generator s)) :=
    EwPoint.scalarMul_ofPoint hgenerator s
  unfold schnorrVerify Doxa.schnorrVerify
  simp only [EwPoint.encode_ofPoint]
  cases Doxa.encode R with
  | none => rfl
  | some cr =>
    cases Doxa.encode Q with
    | none => rfl
    | some cq =>
      simp only [Option.bind_eq_bind, Option.bind_some, hg, EwPoint.scalarMul_ofPoint hQ,
        EwPoint.add_ofPoint (primeGroup_le_squares (scalarMul_mem hgenerator s)),
        EwPoint.encode_ofPoint]

/-- The equation of an accepted signature, for any key on the curve. -/
theorem encode_of_schnorrVerify {Q : PointEw} {m : List F} {sig : Signature}
    {cr cq : QuinticExtension} (hr : sig.r.encode = some cr) (hq : Doxa.encode Q = some cq)
    (h : schnorrVerify perm (.ofPoint Q) m sig = some true) :
    Doxa.encode (scalarMul Doxa.generator sig.s +
      scalarMul Q (schnorrChallenge perm cr cq m)) = some cr := by
  unfold schnorrVerify at h
  simp only [EwPoint.encode_ofPoint, hr, hq, Option.bind_eq_bind, Option.bind_some] at h
  obtain ⟨sg, hsg, hkey⟩ := Option.bind_eq_some_iff.mp h
  obtain ⟨eq, heq, hsum⟩ := Option.bind_eq_some_iff.mp hkey
  obtain ⟨result, hresult, hcompare⟩ := Option.bind_eq_some_iff.mp hsum
  obtain ⟨w, hw, hsame⟩ := Option.bind_eq_some_iff.mp hcompare
  obtain rfl := EwPoint.eq_of_scalarMul (P := Doxa.generator) hsg
  obtain rfl := EwPoint.eq_of_scalarMul heq
  obtain rfl := EwPoint.eq_of_add hresult
  obtain rfl : w = cr := of_decide_eq_true (Option.some.inj hsame)
  rw [← EwPoint.encode_ofPoint, hw]

/-- `k + d (-e)` solves the equation of the signature. -/
theorem response_add_modEq {n d k e en p s : ℕ} (he : e < n) (hen : en = (n - e) % n)
    (hp : p ≡ d * en [MOD n]) (hs : s = (k + p) % n) : s + e * d ≡ k [MOD n] := by
  have hsum : en + e ≡ 0 [MOD n] := by
    rw [hen]
    refine ((Nat.mod_modEq _ _).add_right _).trans ?_
    rw [Nat.sub_add_cancel he.le]
    exact Nat.modEq_zero_iff_dvd.mpr dvd_rfl
  have hcancel : d * en + e * d ≡ 0 [MOD n] := by
    have hdist : d * en + e * d = d * (en + e) := by ring
    rw [hdist]
    exact hsum.mul_left d
  rw [hs]
  calc (k + p) % n + e * d ≡ k + p + e * d [MOD n] := (Nat.mod_modEq _ _).add_right _
    _ ≡ k + (d * en + e * d) [MOD n] := by
        rw [Nat.add_assoc]
        exact (hp.add_right _).add_left _
    _ ≡ k [MOD n] := hcancel.add_left _

theorem response_spec {d k e : Scalar} (hd : d.toNat < 2 ^ 319) (hk : k.toNat < Scalar.N.toNat)
    (he : e.toNat < 2 ^ 318) : (k.addMod (d.mulMod e.negMod)).toNat < Scalar.N.toNat ∧
      (k.addMod (d.mulMod e.negMod)).toNat + e.toNat * d.toNat ≡ k.toNat [MOD Scalar.N.toNat] := by
  have hpos : 0 < Scalar.N.toNat := N_prime.pos
  have heN : e.toNat < Scalar.N.toNat := he.trans pow_318_lt_N
  have hroom : d.toNat + Scalar.N.toNat ≤ 2 ^ (64 * 5) := by
    have hpow : (2 : ℕ) ^ (64 * 5) = 2 ^ 319 + 2 ^ 319 := by rw [← two_mul, ← pow_succ']
    rw [hpow]
    exact Nat.add_le_add hd.le Scalar.N_lt.le
  have hneg := Scalar.negMod_toNat heN
  have hneg_lt : e.negMod.toNat < Scalar.N.toNat := by
    rw [hneg]
    exact Nat.mod_lt _ hpos
  obtain ⟨hmul_lt, hmul⟩ := Scalar.mulMod_spec hroom hneg_lt
  have hadd : (k.addMod (d.mulMod e.negMod)).toNat =
      (k.toNat + (d.mulMod e.negMod).toNat) % Scalar.N.toNat := by
    refine Scalar.addMod_toNat ?_
    rw [two_mul]
    exact Nat.add_lt_add hk hmul_lt
  refine ⟨?_, response_add_modEq heN hneg hmul hadd⟩
  rw [hadd]
  exact Nat.mod_lt _ hpos

/-- A signature under a private key verifies under its public key, and neither signing nor
verifying divides by zero. -/
theorem schnorr_complete {privkey k : Scalar} (hprivkey : privkey.toNat < 2 ^ 319)
    (hk : k.toNat < Scalar.N.toNat) (message : List F) :
    ∃ pubkey sig, publicKey privkey = some pubkey ∧
      schnorrSign perm privkey message k = some sig ∧
      schnorrVerify perm pubkey message sig = some true := by
  have hgenerator := AddSubgroup.mem_zmultiples Doxa.generator
  have hQ := scalarMul_mem hgenerator privkey
  have hR := scalarMul_mem hgenerator k
  obtain ⟨cr, hcr, -⟩ := decode_encode someBaseSqrt (primeGroup_le_squares hR)
  obtain ⟨cq, hcq, -⟩ := decode_encode someBaseSqrt (primeGroup_le_squares hQ)
  obtain ⟨e, he⟩ : ∃ e, e = schnorrChallenge perm cr cq message := ⟨_, rfl⟩
  have helt : e.toNat < 2 ^ 318 := by
    rw [he]
    exact Scalar.fromHash_lt _
  obtain ⟨hlt, hmod⟩ := response_spec hprivkey hk helt
  have hr : generator.scalarMul k = some (.ofPoint (scalarMul Doxa.generator k)) := publicKey_eq k
  refine ⟨_, ⟨.ofPoint (scalarMul Doxa.generator k), k.addMod (privkey.mulMod e.negMod)⟩,
    publicKey_eq privkey, ?_, ?_⟩
  · unfold schnorrSign
    simp only [hr, publicKey_eq, EwPoint.encode_ofPoint, hcr, hcq, Option.bind_eq_bind,
      Option.bind_some, ← he]
    rfl
  · rw [schnorrVerify_ofPoint perm hQ]
    refine schnorrVerify_of_eq perm hcr hcq ?_
    have hbits (s : Scalar) (h : s.toNat < Scalar.N.toNat) :
        bitsVal s.toBitArr Scalar.BITS = s.toNat := Scalar.bitsVal_toBitArr (h.trans Scalar.N_lt)
    rw [← he, scalarMul_eq, scalarMul_eq, hbits _ hlt, hbits e (helt.trans pow_318_lt_N),
      hbits k hk, Scalar.bitsVal_toBitArr hprivkey, ← mul_nsmul', ← add_nsmul,
      nsmul_eq_nsmul_iff_modEq, addOrderOf_generator]
    exact hmod

/-- Key and nonce zero: the point is infinity. -/
theorem schnorr_complete_zero : Scalar.ZERO.toNat < 2 ^ 319 ∧
    Scalar.ZERO.toNat < Scalar.N.toNat ∧ ∃ pubkey sig, publicKey Scalar.ZERO = some pubkey ∧
      schnorrSign zeroPerm Scalar.ZERO [1] Scalar.ZERO = some sig ∧
      schnorrVerify zeroPerm pubkey [1] sig = some true := by
  have hzero : Scalar.ZERO.toNat = 0 := rfl
  have hprivkey : Scalar.ZERO.toNat < 2 ^ 319 := hzero.trans_lt (Nat.two_pow_pos 319)
  have hk : Scalar.ZERO.toNat < Scalar.N.toNat := hzero.trans_lt N_prime.pos
  exact ⟨hprivkey, hk, schnorr_complete zeroPerm hprivkey hk [1]⟩

end Native

end Doxa
