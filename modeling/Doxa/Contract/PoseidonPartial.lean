import Doxa.Contract.PoseidonLayers
import Doxa.Lib.PartialRounds

/-!
# The partial rounds of `compress`

The constants of the sparse rounds are those of the plain rounds in another form; this is
decided once on the tables. The lanes that are never reduced grow by a bounded amount in
each round, so no round leaves the word.
-/

namespace Doxa.PoseidonGoldilocks

open Lib Flagged Contract Residues PartialRounds
open scoped Matrix

/-! ## The two forms of the rounds -/

def mdsRows : List (List ℕ) :=
  (List.range 12).map fun i => (List.range 12).map fun j => mdsCoeff i j

def constantRow (r : ℕ) : List ℕ := (ROUND_CONSTANTS.drop (12 * r)).take 12

def FastRound.vs (t : FastRound) : List ℕ := (List.range 11).map (constantLane t.v0 t.v1 t.v2)

def FastRound.ws (t : FastRound) : List ℕ := (List.range 11).map (constantLane t.w0 t.w1 t.w2)

/-- Round `r` in both forms. -/
def tableRound (r : ℕ) (t : FastRound) : TableRound := ⟨constantRow r, t.rc, t.vs, t.ws⟩

def tableRounds : List TableRound := List.zipWith tableRound (List.range' 4 22) fastPartialRounds

/-- The square of a matrix, times the matrix. -/
def squareTimes (A B : List (List ℕ)) : List (List ℕ) :=
  matMul 18446744069414584321 11 (matMul 18446744069414584321 11 A A) B

/-- All that is decided on the tables, at once. -/
theorem tables_decided :
    check 18446744069414584321 mdsRows 11 partialFirstConstants.tail tableRounds = true ∧
    (let B := minorRows mdsRows
      let C := squareTimes (squareTimes (matMul 18446744069414584321 11 B B) B) B
      matMul 18446744069414584321 11 C C = partialInitialMatrix) ∧
    (maxInitLane < 2 ^ 133 ∧ ∀ j < 11,
      ∑ i : Fin 11, (partialInitialMatrix.getD j []).getD i 0 * afterFirstConst ≤ maxInitLane ∧
        ∀ i < 11, (partialInitialMatrix.getD j []).getD i 0 < 2 ^ 64) ∧
    lazyLaneMax < 2 ^ 135 ∧ ∀ t ∈ fastPartialRounds, t.rc < ORDER ∧
      (t.v0 < 2 ^ 256 ∧ t.v1 < 2 ^ 256 ∧ t.v2 < 2 ^ 256) ∧
        t.w0 < 2 ^ 256 ∧ t.w1 < 2 ^ 256 ∧ t.w2 < 2 ^ 256 := by
  decide +kernel

theorem tables_check :
    check 18446744069414584321 mdsRows 11 partialFirstConstants.tail tableRounds = true :=
  tables_decided.1

/-- The initial matrix is the power 22 of the mixing matrix without its first lane. -/
theorem initialMatrix_power :
    let B := minorRows mdsRows
    let C := squareTimes (squareTimes (matMul 18446744069414584321 11 B B) B) B
    matMul 18446744069414584321 11 C C = partialInitialMatrix :=
  tables_decided.2.1

theorem mat_mdsRows : mat 12 12 mdsRows = mdsMatrix := by
  funext i j
  simp [mat, vec, mdsRows, mdsMatrix]

theorem vec_constantRow (r : ℕ) : vec 12 (constantRow r) = roundConstants r := by
  funext i
  have hget : (constantRow r).getD i 0 = ROUND_CONSTANTS.getD (12 * r + i) 0 := by
    simp [constantRow, List.getD_eq_getElem?_getD, List.getElem?_drop]
  show (((constantRow r).getD i 0 : ℕ) : F) = _
  rw [hget]
  rfl

theorem mat_minor : mat 11 11 (minorRows mdsRows) = minor mdsMatrix := by
  rw [mat_minorRows, mat_mdsRows]

theorem mat_squareTimes {A B : List (List ℕ)} (hA : ∀ row ∈ A, row.length ≤ 11) :
    (mat 11 11 (squareTimes A B) : Matrix _ _ F) =
      (mat 11 11 A : Matrix _ _ F) ^ 2 * (mat 11 11 B : Matrix _ _ F) := by
  rw [squareTimes, mat_matMul (l := 11) fun row h => length_of_mem_matMul h, mat_matMul (l := 11) hA,
    pow_two]

theorem length_of_mem_squareTimes {A B : List (List ℕ)} {row : List ℕ}
    (h : row ∈ squareTimes A B) : row.length ≤ 11 :=
  length_of_mem_matMul h

theorem initialMatrix_eq : mat 11 11 partialInitialMatrix = minor mdsMatrix ^ 22 := by
  have hB : ∀ row ∈ minorRows mdsRows, row.length ≤ 11 := by decide
  rw [← initialMatrix_power]
  rw [mat_matMul (l := 11) fun row => length_of_mem_squareTimes,
    mat_squareTimes fun row => length_of_mem_squareTimes,
    mat_squareTimes fun row => length_of_mem_matMul, mat_matMul (l := 11) hB, mat_minor]
  simp only [← pow_succ, ← pow_mul, ← pow_two]
  norm_num

/-- The rounds in both forms over the field. -/
def rounds (rs : List ℕ) (ts : List FastRound) : List (Round F 11) :=
  (List.zipWith tableRound rs ts).map (TableRound.round 18446744069414584321 11)

theorem rounds_cons (r : ℕ) (rs : List ℕ) (t : FastRound) (ts : List FastRound) :
    rounds (r :: rs) (t :: ts) =
      TableRound.round 18446744069414584321 11 (tableRound r t) :: rounds rs ts :=
  rfl

theorem rounds_factors : Factors mdsMatrix (vec 11 partialFirstConstants.tail)
    (rounds (List.range' 4 22) fastPartialRounds) := by
  have h := factors_of_check tables_check
  rwa [mat_mdsRows] at h

theorem partialRound_eq (r : ℕ) (t : FastRound) (x : State) :
    PartialRounds.partialRound mdsMatrix (fun y => y ^ 7)
      (TableRound.round 18446744069414584321 11 (tableRound r t)).1 x = Doxa.partialRound r x := by
  show mdsMatrix *ᵥ _ = mdsMatrix *ᵥ _
  congr 1
  have hrow : (TableRound.round 18446744069414584321 11 (tableRound r t)).1 = roundConstants r :=
    vec_constantRow r
  rw [hrow]
  funext i
  refine Fin.cases ?_ (fun i => ?_) i
  · simp
  · simp [Fin.succ_ne_zero]

/-- The plain form of the rounds. -/
theorem rounds_plain {rs : List ℕ} {ts : List FastRound} (h : rs.length = ts.length) (x : State) :
    (rounds rs ts).foldl
      (fun x p => PartialRounds.partialRound mdsMatrix (fun y => y ^ 7) p.1 x) x =
        rs.foldl (fun x r => Doxa.partialRound r x) x := by
  induction rs generalizing ts x with
  | nil => rfl
  | cons r rs ih =>
    cases ts with
    | nil => cases h
    | cons t ts =>
      have hstep := partialRound_eq r t x
      rw [List.foldl_cons, ← hstep, ← ih (Nat.succ.inj h)]
      rfl

/-! ## Before the rounds -/

theorem partialFirstConstants_lt : ∀ i < 12, partialFirstConstants.getD i 0 < ORDER := by decide

theorem partialInitialMatrix_check : maxInitLane < 2 ^ 133 ∧ ∀ j < 11,
    ∑ i : Fin 11, (partialInitialMatrix.getD j []).getD i 0 * afterFirstConst ≤ maxInitLane ∧
      ∀ i < 11, (partialInitialMatrix.getD j []).getD i 0 < 2 ^ 64 :=
  tables_decided.2.2.1

theorem partialInitialMatrix_lt (j : ℕ) (hj : j < 11) (i : ℕ) (hi : i < 11) :
    (partialInitialMatrix.getD j []).getD i 0 < 2 ^ 64 :=
  (partialInitialMatrix_check.2 j hj).2 i hi

theorem partialInitialMatrix_sum (j : ℕ) (hj : j < 11) :
    ∑ i : Fin 11, (partialInitialMatrix.getD j []).getD i 0 * afterFirstConst ≤ maxInitLane :=
  (partialInitialMatrix_check.2 j hj).1

theorem maxInitLane_lt : maxInitLane < 2 ^ 133 := partialInitialMatrix_check.1

/-- The bound on the lanes of all rounds, and the arguments of each round. -/
theorem fastPartialRounds_check : lazyLaneMax < 2 ^ 135 ∧ ∀ t ∈ fastPartialRounds, t.rc < ORDER ∧
    (t.v0 < 2 ^ 256 ∧ t.v1 < 2 ^ 256 ∧ t.v2 < 2 ^ 256) ∧
      t.w0 < 2 ^ 256 ∧ t.w1 < 2 ^ 256 ∧ t.w2 < 2 ^ 256 :=
  tables_decided.2.2.2

theorem lazyLaneMax_lt : lazyLaneMax < 2 ^ 135 := fastPartialRounds_check.1

theorem ensures_addFirstConstants {s : Lanes} (hs : Canonical s) :
    (addFirstConstants s).Ensures fun t => ∀ i : Fin 12,
      (t.get i).toNat = (s.get i).toNat + partialFirstConstants.getD i 0 := by
  refine ensures_ofFn (Q := fun i (x : U256) => x.toNat = (s.get i).toNat + partialFirstConstants.getD i 0)
    fun i => ?_
  have hconst := partialFirstConstants_lt i i.isLt
  have hlane := hs i
  have hfit : ORDER + ORDER < 2 ^ 256 := by decide
  have hword : (word (partialFirstConstants.getD i 0)).toNat = partialFirstConstants.getD i 0 :=
    word_toNat (by omega)
  have hadd := ensures_add (x := s.get i) (y := word (partialFirstConstants.getD i 0)) (by omega)
  rwa [hword] at hadd

theorem products_ofFn {n k : ℕ} (x y : Fin k → BitVec n) :
    products (List.ofFn fun i => (x i, y i)) = ∑ i, (x i).toNat * (y i).toNat := by
  rw [products, List.map_ofFn, List.sum_ofFn]
  rfl

/-- The initial matrix on the lanes without S-box. -/
theorem ensures_mdsPartialInit {s : Lanes}
    (hs : ∀ i : Fin 11, (s.get i.succ).toNat < afterFirstConst) :
    (mdsPartialInit s).Ensures fun t => t.get 0 = s.get 0 ∧ ∀ j : Fin 11,
      (t.get j.succ).toNat ≤ maxInitLane ∧ (t.get j.succ).toNat =
        ∑ i : Fin 11, (partialInitialMatrix.getD j []).getD i 0 * (s.get i.succ).toNat := by
  refine ensures_require hs ?_
  refine (ensures_ofFn (Q := fun j x => x.toNat ≤ maxInitLane ∧ x.toNat =
    ∑ i : Fin 11, (partialInitialMatrix.getD j []).getD i 0 * (s.get i.succ).toNat)
    fun j => ?_).bind fun t ht => ensures_pure ⟨by simp, fun j => ?_⟩
  · have hproducts : products (List.ofFn fun i : Fin 11 =>
        (word ((partialInitialMatrix.getD j []).getD i 0), s.get i.succ)) =
          ∑ i : Fin 11, (partialInitialMatrix.getD j []).getD i 0 * (s.get i.succ).toNat := by
      rw [products_ofFn]
      refine Finset.sum_congr rfl fun i _ => ?_
      have hentry := partialInitialMatrix_lt j j.isLt i i.isLt
      rw [word_toNat (by omega)]
    have hbound : ∑ i : Fin 11, (partialInitialMatrix.getD j []).getD i 0 * (s.get i.succ).toNat ≤
        maxInitLane :=
      (Finset.sum_le_sum fun i _ => Nat.mul_le_mul_left _ (hs i).le).trans
        (partialInitialMatrix_sum j j.isLt)
    have hroom := maxInitLane_lt
    refine (ensures_dot (by rw [hproducts]; omega)).mono fun x hx => ?_
    rw [hx, hproducts]
    exact ⟨hbound, rfl⟩
  · have hne : j.succ.val ≠ 0 := Nat.succ_ne_zero _
    rw [get_ofFn, dif_neg hne]
    exact ht j

/-- The linear map before the sparse rounds. -/
theorem ensures_partialInit {s : Lanes} (hs : Canonical s) :
    (addFirstConstants s >>= mdsPartialInit).Ensures fun t =>
      (t.get 0).toNat < 2 * ORDER ∧ (∀ i : Fin 11, (t.get i.succ).toNat ≤ maxInitLane) ∧
        residues t = sparseState (M := mdsMatrix) (vec 11 partialFirstConstants.tail)
          (rounds (List.range' 4 22) fastPartialRounds) (residues s) := by
  refine (ensures_addFirstConstants hs).bind fun u hu => ?_
  have hlane : ∀ i : Fin 12, (u.get i).toNat < 2 * ORDER := by
    intro i
    have hconst := partialFirstConstants_lt i i.isLt
    have hsi := hs i
    rw [hu i]
    omega
  refine (ensures_mdsPartialInit fun i => hlane i.succ).mono fun t ht => ?_
  obtain ⟨hzero, hrest⟩ := ht
  refine ⟨hzero ▸ hlane 0, fun i => (hrest i).1, funext fun i => Fin.cases ?_ (fun j => ?_) i⟩
  · have hfirst : nextConstant (rounds (List.range' 4 22) fastPartialRounds) =
        ((partialFirstConstants.getD 0 0 : ℕ) : F) :=
      congrFun (vec_constantRow 4) 0
    have hsum := hu 0
    show (((t.get 0).toNat : ℕ) : F) = residues s 0 + nextConstant _
    rw [hzero, hfirst]
    exact (congrArg (Nat.cast (R := F)) hsum).trans (Nat.cast_add _ _)
  · have hlength : (rounds (List.range' 4 22) fastPartialRounds).length = 22 := by
      simp [rounds, fastPartialRounds]
    rw [sparseState, Fin.cons_succ, hlength]
    show (((t.get j.succ).toNat : ℕ) : F) = _
    rw [← initialMatrix_eq, (hrest j).2, Nat.cast_sum, Matrix.mulVec, dotProduct]
    refine Finset.sum_congr rfl fun k _ => ?_
    have hsum := hu k.succ
    have hcast : (((u.get k.succ).toNat : ℕ) : F) =
        residues s k.succ + vec 11 partialFirstConstants.tail k := by
      rw [vec_tail, residues]
      exact (congrArg (Nat.cast (R := F)) hsum).trans (Nat.cast_add _ _)
    rw [Nat.cast_mul, hcast]
    rfl

/-! ## The sparse rounds -/

/-- The arguments of a round are words, and its S-box constant is reduced. -/
def FastRound.Fits (t : FastRound) : Prop :=
  t.rc < ORDER ∧ (t.v0 < 2 ^ 256 ∧ t.v1 < 2 ^ 256 ∧ t.v2 < 2 ^ 256) ∧
    (t.w0 < 2 ^ 256 ∧ t.w1 < 2 ^ 256 ∧ t.w2 < 2 ^ 256) ∧
      ∀ i < 11, constantLane t.v0 t.v1 t.v2 i ≤ maxV

theorem le_maxOf {l : List ℕ} {a : ℕ} (h : a ∈ l) : a ≤ maxOf l := by
  induction l with
  | nil => cases h
  | cons b l ih =>
    obtain rfl | h := List.mem_cons.mp h
    · exact Nat.le_max_left _ _
    · exact (ih h).trans (Nat.le_max_right _ _)

theorem fastPartialRounds_fits {t : FastRound} (ht : t ∈ fastPartialRounds) : t.Fits := by
  obtain ⟨hrc, hv, hw⟩ := fastPartialRounds_check.2 t ht
  refine ⟨hrc, hv, hw, fun i hi => ?_⟩
  have hlane := le_maxOf (List.mem_map_of_mem (f := constantLane t.v0 t.v1 t.v2)
    (List.mem_range.mpr hi))
  exact hlane.trans (le_maxOf (List.mem_map.mpr ⟨t, ht, rfl⟩))

theorem unpackConstant_toNat {v0 v1 v2 : ℕ} (h : v0 < 2 ^ 256 ∧ v1 < 2 ^ 256 ∧ v2 < 2 ^ 256)
    (i : Fin 11) : (unpackConstant (word v0) (word v1) (word v2) i).toNat =
      constantLane v0 v1 v2 i := by
  have hmask : mask64.toNat = 2 ^ 64 - 1 := rfl
  have hword : (if i.val < 4 then word v0 else if i.val < 8 then word v1 else word v2).toNat =
      if i.val < 4 then v0 else if i.val < 8 then v1 else v2 := by
    obtain ⟨h0, h1, h2⟩ := h
    split
    · exact word_toNat h0
    · split
      · exact word_toNat h1
      · exact word_toNat h2
  rw [unpackConstant, BitVec.toNat_and, hmask, Nat.and_two_pow_sub_one_eq_mod,
    BitVec.toNat_ushiftRight, Nat.shiftRight_eq_div_pow, hword]
  rfl

theorem constantLane_lt (v0 v1 v2 i : ℕ) : constantLane v0 v1 v2 i < 2 ^ 64 := lane_lt _ _ _

theorem vec_lanes (v0 v1 v2 : ℕ) (i : Fin 11) :
    (vec 11 ((List.range 11).map (constantLane v0 v1 v2)) i : F) = (constantLane v0 v1 v2 i : ℕ) := by
  simp [vec]

theorem mdsMatrix_corner : mdsMatrix 0 0 = 25 := by
  show ((mdsCoeff 0 0 : ℕ) : F) = 25
  norm_num [mdsCoeff, CIRC, DIAG]

/-- One sparse round raises the bound on the unreduced lanes by a constant. -/
theorem ensures_fastPartialRound {t : FastRound} (ht : t.Fits) (r : ℕ) {s : Lanes} {B : ℕ}
    (hs : (s.get 0).toNat < 2 * ORDER) (hB : ∀ i : Fin 11, (s.get i.succ).toNat ≤ B)
    (hmax : B + afterFirstConst * maxV ≤ lazyLaneMax) :
    (fastPartialRound s (word t.rc) (word t.v0) (word t.v1) (word t.v2) (word t.w0) (word t.w1)
      (word t.w2)).Ensures fun u => (u.get 0).toNat < ORDER ∧
        (∀ i : Fin 11, (u.get i.succ).toNat ≤ B + afterFirstConst * maxV) ∧
        residues u = (TableRound.round 18446744069414584321 11 (tableRound r t)).2.apply
          (fun y => y ^ 7) (mdsMatrix 0 0) (residues s) := by
  obtain ⟨hrc, hv, hw, hlanes⟩ := ht
  have hroom := lazyLaneMax_lt
  have hdouble : afterFirstConst = 2 * ORDER := rfl
  have horder : ORDER < 2 ^ 64 := by decide
  have hrcword : (word t.rc).toNat = t.rc := word_toNat (by omega)
  have hsB : ∀ i : Fin 11, (s.get i.succ).toNat ≤ lazyLaneMax := fun i => (hB i).trans (by omega)
  refine ensures_require hsB ?_
  refine (ensures_sbox7 hs).bind fun x hx => ?_
  refine (ensures_add (by omega)).bind fun s0 hs0 => ?_
  rw [hrcword] at hs0
  have hs0lt : s0.toNat < afterFirstConst := by omega
  refine ensures_require hs0lt ?_
  have h25 : (25 : U256).toNat = 25 := rfl
  refine (ensures_mul (by rw [h25]; omega)).bind fun d hd => ?_
  rw [h25] at hd
  have hproducts : products (List.ofFn fun i : Fin 11 =>
      (s.get i.succ, unpackConstant (word t.w0) (word t.w1) (word t.w2) i)) =
        ∑ i : Fin 11, (s.get i.succ).toNat * constantLane t.w0 t.w1 t.w2 i := by
    rw [products_ofFn]
    exact Finset.sum_congr rfl fun i _ => by rw [unpackConstant_toNat hw]
  have hcollect : ∑ i : Fin 11, (s.get i.succ).toNat * constantLane t.w0 t.w1 t.w2 i ≤
      11 * (lazyLaneMax * 2 ^ 64) := by
    calc ∑ i : Fin 11, (s.get i.succ).toNat * constantLane t.w0 t.w1 t.w2 i
        ≤ ∑ _i : Fin 11, lazyLaneMax * 2 ^ 64 :=
          Finset.sum_le_sum fun i _ => Nat.mul_le_mul (hsB i) (constantLane_lt _ _ _ _).le
      _ = 11 * (lazyLaneMax * 2 ^ 64) := by
          rw [Finset.sum_const, Finset.card_univ, Fintype.card_fin, smul_eq_mul]
  refine (ensures_mulAdd (by rw [hproducts]; omega)).bind fun e he => ?_
  rw [hproducts, hd] at he
  have hstep : ∀ i : Fin 11, s0.toNat * constantLane t.v0 t.v1 t.v2 i ≤ afterFirstConst * maxV :=
    fun i => Nat.mul_le_mul hs0lt.le (hlanes i i.isLt)
  refine (ensures_ofFn (Q := fun i (y : U256) => y.toNat =
    (s.get i.succ).toNat + s0.toNat * constantLane t.v0 t.v1 t.v2 i) fun i => ?_).bind fun y hy => ?_
  · have hsi := hB i
    have hmul := hstep i
    have hconst := unpackConstant_toNat hv i
    refine (ensures_mul (by rw [hconst]; omega)).bind fun p hp => ?_
    rw [hconst] at hp
    refine (ensures_add (by omega)).mono fun z hz => ?_
    rw [hz, hp]
  have hyB : ∀ i : Fin 11, (y.get i).toNat ≤ B + afterFirstConst * maxV := by
    intro i
    rw [hy i]
    exact Nat.add_le_add (hB i) (hstep i)
  refine ensures_require (fun i => (hyB i).trans hmax) (ensures_pure ⟨?_, fun i => ?_, ?_⟩)
  · simpa using mulmod_lt e 1
  · have hne : i.succ.val ≠ 0 := Nat.succ_ne_zero _
    rw [get_ofFn, dif_neg hne]
    exact hyB i
  · have hsbox : (s0.toNat : F) = residues s 0 ^ 7 + (t.rc : ℕ) := by
      rw [hs0, Nat.cast_add, hx.2]
      rfl
    refine funext fun i => Fin.cases ?_ (fun j => ?_) i
    · have hget : residues (Vector.ofFn fun i : Fin 12 =>
          if h : i.val = 0 then mulmod e 1 P else y[i.val - 1]) 0 = ((mulmod e 1 P).toNat : F) := by
        simp [residues]
      refine hget.trans ?_
      rw [reduce_toNat, cast_mod_order, he, mdsMatrix_corner, SparseRound.apply, Fin.cons_zero,
        Nat.cast_add, Nat.cast_mul, hsbox, Nat.cast_sum]
      refine congrArg₂ (· + ·) rfl (Finset.sum_congr rfl fun k _ => ?_)
      rw [Nat.cast_mul, ← vec_lanes]
      rfl
    · have hget : residues (Vector.ofFn fun i : Fin 12 =>
          if h : i.val = 0 then mulmod e 1 P else y[i.val - 1]) j.succ = ((y.get j).toNat : F) := by
        have hne : j.succ.val ≠ 0 := Nat.succ_ne_zero _
        rw [residues, get_ofFn, dif_neg hne]
        rfl
      refine hget.trans ?_
      rw [hy j, SparseRound.apply, Fin.cons_succ, Nat.cast_add, Nat.cast_mul, hsbox, ← vec_lanes]
      rfl

/-- One call of the code's round. -/
def callRound (s : Lanes) (t : FastRound) : Flagged Lanes :=
  fastPartialRound s (word t.rc) (word t.v0) (word t.v1) (word t.v2) (word t.w0) (word t.w1)
    (word t.w2)

/-- A run of sparse rounds keeps its lanes below `lazyLaneMax` and reduces the first one. -/
theorem ensures_callRounds {ts : List FastRound} (ht : ∀ t ∈ ts, t.Fits) (hts : ts ≠ []) {r : ℕ}
    {s : Lanes} {B : ℕ} (hs : (s.get 0).toNat < 2 * ORDER) (hB : ∀ i : Fin 11, (s.get i.succ).toNat ≤ B)
    (hmax : B + ts.length * (afterFirstConst * maxV) ≤ lazyLaneMax) :
    (ts.foldlM callRound s).Ensures fun u => (u.get 0).toNat < ORDER ∧
      residues u = (rounds (List.range' r ts.length) ts).foldl
        (fun y p => p.2.apply (fun y => y ^ 7) (mdsMatrix 0 0) y) (residues s) := by
  induction ts generalizing r s B with
  | nil => exact absurd rfl hts
  | cons t ts ih =>
    rw [List.length_cons, Nat.succ_mul] at hmax
    have hfirst : B + afterFirstConst * maxV ≤ lazyLaneMax :=
      (Nat.add_le_add_left (Nat.le_add_left _ _) B).trans hmax
    rw [List.foldlM_cons]
    refine (ensures_fastPartialRound (ht t List.mem_cons_self) r hs hB hfirst).bind
      fun u ⟨hzero, hlanes, hres⟩ => ?_
    cases ts with
    | nil => exact ensures_pure ⟨hzero, hres⟩
    | cons t' ts =>
      rw [Nat.add_comm _ (afterFirstConst * maxV), ← Nat.add_assoc] at hmax
      have hzero' : (u.get 0).toNat < 2 * ORDER := hzero.trans (by decide)
      have hfits : ∀ x ∈ t' :: ts, x.Fits := fun x hx => ht x (List.mem_cons_of_mem t hx)
      have hrun := ih hfits (List.cons_ne_nil _ _) (r := r + 1) hzero' hlanes hmax
      refine hrun.mono fun x hx => ⟨hx.1, hx.2.trans ?_⟩
      rw [hres, List.length_cons (a := t), List.range'_succ, rounds_cons, List.foldl_cons]

/-- The partial rounds of `compress` are the plain partial rounds. -/
theorem ensures_partialRounds {s : Lanes} (hs : Canonical s) :
    (addFirstConstants s >>= mdsPartialInit >>= fun s =>
      fastPartialRounds.foldlM callRound s).Ensures fun t => (t.get 0).toNat < ORDER ∧
        residues t = (List.range' 4 22).foldl (fun x r => Doxa.partialRound r x) (residues s) := by
  refine (ensures_partialInit hs).bind fun u ⟨hzero, hlanes, hres⟩ => ?_
  have hlength : fastPartialRounds.length = 22 := rfl
  have hmax : maxInitLane + fastPartialRounds.length * (afterFirstConst * maxV) ≤ lazyLaneMax := by
    rw [lazyLaneMax, Nat.mul_assoc]
  refine (ensures_callRounds (r := 4) (fun t => fastPartialRounds_fits) (List.cons_ne_nil _ _) hzero
    hlanes hmax).mono fun t ht => ⟨ht.1, ?_⟩
  have hplain := @rounds_plain (List.range' 4 22) _ hlength.symm (residues s)
  rw [ht.2, hres, hlength, ← hplain]
  exact run_eq _ rounds_factors _

end Doxa.PoseidonGoldilocks
