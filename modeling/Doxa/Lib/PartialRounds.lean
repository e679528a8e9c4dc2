import Doxa.Lib.Residues
import Mathlib.LinearAlgebra.Matrix.Notation
import Mathlib.Tactic.LinearCombination

/-!
# Partial rounds of a permutation

A partial round adds a constant to every lane, applies the S-box to the first lane only and
mixes all lanes by a matrix. Since the other lanes stay linear, a run of partial rounds can
be computed by sparse rounds, which update a lane with one product each, after one linear
map of the other lanes. `Factors` is the relation between the constants of the two forms,
`run_eq` says that it makes the two runs equal for every S-box and every input.

The last section decides the relation modulo a number on lists.
-/

namespace Lib.PartialRounds

open scoped Matrix

section Ring

variable {R : Type} [CommRing R] {n : ℕ} (M : Matrix (Fin (n + 1)) (Fin (n + 1)) R) (sbox : R → R)

/-- Constants, the S-box on the first lane, the mixing matrix. -/
def partialRound (c x : Fin (n + 1) → R) : Fin (n + 1) → R :=
  M *ᵥ Fin.cons (sbox (x 0 + c 0)) fun i => x i.succ + c i.succ

/-- The constants of a sparse round. -/
structure SparseRound (R : Type) (n : ℕ) where
  rc : R
  v : Fin n → R
  w : Fin n → R

/-- The S-box and a constant on the first lane, which then is added to every other lane,
while all lanes are collected in it. -/
def SparseRound.apply (t : SparseRound R n) (corner : R) (y : Fin (n + 1) → R) : Fin (n + 1) → R :=
  Fin.cons (corner * (sbox (y 0) + t.rc) + ∑ i, y i.succ * t.w i)
    fun i => y i.succ + (sbox (y 0) + t.rc) * t.v i

/-- The matrix on the lanes without S-box. -/
def minor : Matrix (Fin n) (Fin n) R := fun i j => M i.succ j.succ

def column : Fin n → R := fun i => M i.succ 0

def row : Fin n → R := fun j => M 0 j.succ

/-- A round in both forms. -/
abbrev Round (R : Type) (n : ℕ) := (Fin (n + 1) → R) × SparseRound R n

/-- The first constant of the next round. -/
def nextConstant : List (Round R n) → R
  | [] => 0
  | p :: _ => p.1 0

def nextColumn : List (Round R n) → Fin n → R
  | [] => column M
  | p :: _ => minor M *ᵥ p.2.v

def nextRow : List (Round R n) → Fin n → R
  | [] => row M
  | p :: _ => p.2.w

/-- The two forms of the rounds fit together, where `k` is what the sparse form has added to
the lanes without S-box before the rounds. -/
def Factors : (Fin n → R) → List (Round R n) → Prop
  | k, [] => k = 0
  | k, p :: ps => p.2.v = nextColumn M ps ∧ p.2.w ᵥ* minor M = nextRow M ps ∧
      ∃ k', M *ᵥ Fin.cons p.2.rc (fun i => k i - p.1 i.succ) = Fin.cons (nextConstant ps) k' ∧
        Factors k' ps

variable {M}

theorem mulVec_cons (a : R) (v : Fin n → R) :
    M *ᵥ Fin.cons a v = Fin.cons (M 0 0 * a + row M ⬝ᵥ v) (a • column M + minor M *ᵥ v) := by
  funext i
  refine Fin.cases ?_ (fun i => ?_) i
  · simp [Matrix.mulVec, dotProduct, Fin.sum_univ_succ, row]
  · simp [Matrix.mulVec, dotProduct, Fin.sum_univ_succ, column, minor, mul_comm]

theorem Factors.column_eq {k : Fin n → R} {ps : List (Round R n)} (h : Factors M k ps) :
    nextColumn M ps = minor M ^ ps.length *ᵥ column M := by
  induction ps generalizing k with
  | nil => simp [nextColumn]
  | cons p ps ih =>
    obtain ⟨hv, -, k', -, hrest⟩ := h
    rw [nextColumn, hv, ih hrest, Matrix.mulVec_mulVec, ← pow_succ', List.length_cons]

theorem Factors.row_eq {k : Fin n → R} {ps : List (Round R n)} (h : Factors M k ps) :
    nextRow M ps ᵥ* minor M ^ ps.length = row M := by
  induction ps generalizing k with
  | nil => simp [nextRow]
  | cons p ps ih =>
    obtain ⟨-, hw, k', -, hrest⟩ := h
    rw [nextRow, List.length_cons, pow_succ', ← Matrix.vecMul_vecMul, hw, ih hrest]

/-- What the sparse form holds where the plain form holds `x`. -/
def sparseState (k : Fin n → R) (ps : List (Round R n)) (x : Fin (n + 1) → R) : Fin (n + 1) → R :=
  Fin.cons (x 0 + nextConstant ps) (minor M ^ ps.length *ᵥ fun i => x i.succ + k i)

theorem step_eq {k : Fin n → R} {p : Round R n} {ps : List (Round R n)}
    (h : Factors M k (p :: ps)) : ∃ k', Factors M k' ps ∧ ∀ x,
      p.2.apply sbox (M 0 0) (sparseState (M := M) k (p :: ps) x) =
        sparseState (M := M) k' ps (partialRound M sbox p.1 x) := by
  have hrow : p.2.w ᵥ* minor M ^ (ps.length + 1) = row M := h.row_eq
  obtain ⟨hv, -, k', hk, hrest⟩ := h
  rw [hrest.column_eq] at hv
  rw [mulVec_cons, Fin.cons_inj] at hk
  obtain ⟨hconst, rfl⟩ := hk
  refine ⟨_, hrest, fun x => ?_⟩
  have hsplit : (fun i : Fin n => x i.succ + k i) =
      (fun i => x i.succ + p.1 i.succ) + fun i => k i - p.1 i.succ := by
    funext i
    show x i.succ + k i = x i.succ + p.1 i.succ + (k i - p.1 i.succ)
    ring
  have hcollect : ∑ i, (minor M ^ (ps.length + 1) *ᵥ fun i => x i.succ + k i) i * p.2.w i =
      row M ⬝ᵥ (fun i => x i.succ + p.1 i.succ) + row M ⬝ᵥ fun i => k i - p.1 i.succ := by
    rw [← dotProduct_add, ← hsplit, ← hrow, ← Matrix.dotProduct_mulVec, dotProduct_comm]
    rfl
  have hlanes : (minor M ^ (ps.length + 1) *ᵥ fun i => x i.succ + k i) =
      minor M ^ ps.length *ᵥ (minor M *ᵥ (fun i => x i.succ + p.1 i.succ) +
        minor M *ᵥ fun i => k i - p.1 i.succ) := by
    rw [← Matrix.mulVec_add, ← hsplit, Matrix.mulVec_mulVec, ← pow_succ]
  refine funext fun i => Fin.cases ?_ (fun i => ?_) i
  · -- the first lane collects the row of the matrix applied to the other lanes
    show M 0 0 * (sbox (x 0 + p.1 0) + p.2.rc) +
      ∑ i, (minor M ^ (ps.length + 1) *ᵥ fun i => x i.succ + k i) i * p.2.w i =
        partialRound M sbox p.1 x 0 + nextConstant ps
    rw [hcollect, ← hconst, partialRound, mulVec_cons, Fin.cons_zero]
    ring
  · -- another lane is the image of its column times the S-box output and of the old lanes
    show (minor M ^ (ps.length + 1) *ᵥ fun i => x i.succ + k i) i +
      (sbox (x 0 + p.1 0) + p.2.rc) * p.2.v i = (minor M ^ ps.length *ᵥ fun i =>
        partialRound M sbox p.1 x i.succ + (p.2.rc • column M + minor M *ᵥ fun i =>
          k i - p.1 i.succ) i) i
    have hnext : (fun i => partialRound M sbox p.1 x i.succ + (p.2.rc • column M +
        minor M *ᵥ fun i => k i - p.1 i.succ) i) =
        (minor M *ᵥ (fun i => x i.succ + p.1 i.succ) + minor M *ᵥ fun i => k i - p.1 i.succ) +
          (sbox (x 0 + p.1 0) + p.2.rc) • column M := by
      funext j
      rw [partialRound, mulVec_cons, Fin.cons_succ]
      simp only [Pi.add_apply, Pi.smul_apply, smul_eq_mul]
      ring
    rw [hnext, Matrix.mulVec_add, Matrix.mulVec_smul, ← hlanes, ← hv]
    rfl

/-- The sparse rounds compute what the plain rounds compute. -/
theorem run_eq {k : Fin n → R} {ps : List (Round R n)} (h : Factors M k ps)
    (x : Fin (n + 1) → R) :
    ps.foldl (fun y p => p.2.apply sbox (M 0 0) y) (sparseState (M := M) k ps x) =
      ps.foldl (fun x p => partialRound M sbox p.1 x) x := by
  induction ps generalizing k x with
  | nil =>
    obtain rfl : k = 0 := h
    show sparseState _ _ x = x
    funext i
    refine Fin.cases ?_ (fun i => ?_) i
    · simp [sparseState, nextConstant]
    · simp [sparseState]
  | cons p ps ih =>
    obtain ⟨k', hrest, hstep⟩ := step_eq sbox h
    rw [List.foldl_cons, List.foldl_cons, hstep, ih hrest]

end Ring

/-! ## Deciding the relation -/

section Decide

open Residues

/-- A round in both forms, as numbers. -/
structure TableRound where
  c : List ℕ
  rc : ℕ
  v : List ℕ
  w : List ℕ

def TableRound.round (m n : ℕ) (t : TableRound) : Round (ZMod m) n :=
  (vec (n + 1) t.c, ⟨t.rc, vec n t.v, vec n t.w⟩)

def minorRows (M : List (List ℕ)) : List (List ℕ) := M.tail.map List.tail

def columnEntries (M : List (List ℕ)) : List ℕ := M.tail.map fun row => row.headD 0

def rowEntries (M : List (List ℕ)) : List ℕ := (M.headD []).tail

section Next

variable (m : ℕ) (M : List (List ℕ))

def tableConstant : List TableRound → ℕ
  | [] => 0
  | t :: _ => t.c.headD 0

def tableColumn : List TableRound → List ℕ
  | [] => columnEntries M
  | t :: _ => mulVec m (minorRows M) t.v

def tableRow : List TableRound → List ℕ
  | [] => rowEntries M
  | t :: _ => t.w

/-- `Factors` on tables, the constants of the next rounds computed from those of the first. -/
def check (n : ℕ) : List ℕ → List TableRound → Bool
  | k, [] => k.all (· == 0)
  | k, t :: ts =>
      let next := mulVec m M (t.rc :: sub m k t.c.tail)
      t.v == tableColumn m M ts && mulVec m (columns n (minorRows M)) t.w == tableRow M ts &&
        next.headD 0 == tableConstant ts && k.length == n && t.c.length == n + 1 &&
        t.v.length == n && t.w.length == n && check n next.tail ts

end Next

variable {m n : ℕ} {M : List (List ℕ)}

theorem vec_rowEntries : vec n (rowEntries M) = row (mat (n + 1) (n + 1) M : Matrix _ _ (ZMod m)) := by
  rw [rowEntries, vec_tail]
  cases M <;> rfl

theorem mat_minorRows : mat n n (minorRows M) = minor (mat (n + 1) (n + 1) M : Matrix _ _ (ZMod m)) := by
  funext i j
  have hrow : (minorRows M).getD i [] = (M.getD (i + 1) []).tail := by
    rw [← getD_tail]
    exact List.getD_map M.tail [] List.tail
  show vec n ((minorRows M).getD i []) j = vec (n + 1) (M.getD (i + 1) []) j.succ
  rw [hrow, vec_tail]

theorem vec_columnEntries :
    vec n (columnEntries M) = column (mat (n + 1) (n + 1) M : Matrix _ _ (ZMod m)) := by
  funext i
  have hhead : (columnEntries M).getD i 0 = (M.getD (i + 1) []).headD 0 := by
    rw [← getD_tail]
    exact List.getD_map M.tail [] fun row => row.headD 0
  show (((columnEntries M).getD i 0 : ℕ) : ZMod m) = vec (n + 1) (M.getD (i + 1) []) 0
  rw [hhead, vec_succ, Fin.cons_zero]

theorem factors_of_check [NeZero m] {k : List ℕ} {ts : List TableRound}
    (h : check m M n k ts = true) :
    Factors (mat (n + 1) (n + 1) M : Matrix _ _ (ZMod m)) (vec n k) (ts.map (TableRound.round m n)) := by
  induction ts generalizing k with
  | nil =>
    funext i
    have hzero : k.getD i 0 = 0 := by
      by_cases hi : i.val < k.length
      · rw [List.getD_eq_getElem _ _ hi]
        have hall := List.all_eq_true.mp h _ (List.getElem_mem hi)
        simpa using hall
      · exact List.getD_eq_default _ _ (by omega)
    show ((k.getD i 0 : ℕ) : ZMod m) = 0
    rw [hzero, Nat.cast_zero]
  | cons t ts ih =>
    simp only [check, Bool.and_eq_true, beq_iff_eq] at h
    obtain ⟨⟨⟨⟨⟨⟨⟨hv, hw⟩, hhead⟩, hk⟩, hc⟩, hvl⟩, hwl⟩, hrest⟩ := h
    have hcolumn : vec n (tableColumn m M ts) =
        nextColumn (mat (n + 1) (n + 1) M : Matrix _ _ (ZMod m)) (ts.map (TableRound.round m n)) := by
      cases ts with
      | nil => exact vec_columnEntries
      | cons t' ts =>
        simp only [check, Bool.and_eq_true, beq_iff_eq] at hrest
        show vec n (Residues.mulVec m (minorRows M) t'.v) = minor _ *ᵥ vec n t'.v
        rw [vec_mulVec hrest.1.1.2.le, mat_minorRows]
    have hrow : vec n (tableRow M ts) =
        nextRow (mat (n + 1) (n + 1) M : Matrix _ _ (ZMod m)) (ts.map (TableRound.round m n)) := by
      cases ts with
      | nil => exact vec_rowEntries
      | cons t' ts => rfl
    have hconstant : ((tableConstant ts : ℕ) : ZMod m) =
        nextConstant (ts.map (TableRound.round m n)) := by
      cases ts with
      | nil => exact Nat.cast_zero
      | cons t' ts =>
        show _ = vec (n + 1) t'.c 0
        rw [vec_succ, Fin.cons_zero]
        rfl
    refine ⟨?_, ?_, _, ?_, ih hrest⟩
    · show vec n t.v = _
      rw [hv, hcolumn]
    · show vec n t.w ᵥ* minor _ = _
      rw [← hrow, ← hw, vec_mulVec hwl.le, mat_columns, Matrix.mulVec_transpose, mat_minorRows]
    · have htail : t.c.tail.length = n := by rw [List.length_tail, hc, Nat.add_sub_cancel]
      have hlen : (t.rc :: Residues.sub m k t.c.tail).length ≤ n + 1 := by
        simp [Residues.sub, hk, htail]
      rw [← hconstant, ← hhead, ← vec_succ, vec_mulVec hlen, vec_cons, Residues.vec_sub (hk.trans htail.symm)]
      congr 1
      rw [vec_tail]
      rfl

end Decide

end Lib.PartialRounds
