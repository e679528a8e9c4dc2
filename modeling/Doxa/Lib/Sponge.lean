import Doxa.Lib.Numerals
import Mathlib.Data.List.GetD
import Mathlib.Data.List.OfFn
import Mathlib.Data.Fin.VecNotation

/-!
# Overwrite-mode sponges

A state of `w` lanes absorbs its input in blocks of `r` elements: a block overwrites the
first lanes, then the permutation is applied. There is no padding, so a short last block
leaves the lanes behind it as the permutation left them. The input is cut by `chunks`.

The state the last permutation is applied to decides the output. Two inputs whose last
states coincide have the same hash whatever the permutation, and `overwrite_eq_iff` says
when blocks of different length lead to the same state; two inputs with different last
states and the same output exhibit a collision of the permutation on the output lanes.
`permInputs` lists all states the permutation is applied to.
-/

namespace Lib

variable {α : Type*} {w : ℕ}

/-- The first `n` blocks of `r` elements. -/
def chunksN (r : ℕ) : ℕ → List α → List (List α)
  | 0, _ => []
  | _ + 1, [] => []
  | n + 1, x :: xs => (x :: xs).take r :: chunksN r n ((x :: xs).drop r)

/-- The input in blocks of `r > 0` elements; the last one may be shorter. -/
def chunks (r : ℕ) (xs : List α) : List (List α) := chunksN r xs.length xs

/-- A block overwrites the first lanes. -/
def overwrite (block : List α) (s : Fin w → α) : Fin w → α := fun i => block.getD i (s i)

variable (perm : (Fin w → α) → (Fin w → α))

/-- The state after absorbing the blocks. -/
def absorb (s : Fin w → α) (blocks : List (List α)) : Fin w → α :=
  blocks.foldl (fun s block => perm (overwrite block s)) s

@[simp] theorem absorb_nil (s : Fin w → α) : absorb perm s [] = s := rfl

@[simp] theorem absorb_cons (s : Fin w → α) (b : List α) (bs : List (List α)) :
    absorb perm s (b :: bs) = absorb perm (perm (overwrite b s)) bs := rfl

/-- The states the permutation is applied to while the blocks are absorbed. -/
def permInputs (s : Fin w → α) : List (List α) → List (Fin w → α)
  | [] => []
  | b :: bs => overwrite b s :: permInputs (perm (overwrite b s)) bs

/-! ## Blocks -/

theorem chunksN_of_le {r n : ℕ} (hr : 0 < r) {xs : List α} (hn : xs.length ≤ n) :
    chunksN r n xs = chunks r xs := by
  unfold chunks
  induction n using Nat.strong_induction_on generalizing xs with
  | _ n ih =>
    cases xs with
    | nil => cases n <;> rfl
    | cons x xs =>
      cases n with
      | zero => simp at hn
      | succ n =>
        simp only [List.length_cons] at hn ⊢
        have hdrop : ((x :: xs).drop r).length ≤ xs.length := by
          rw [List.length_drop, List.length_cons]
          omega
        simp only [chunksN]
        rw [ih n (Nat.lt_succ_self n) (hdrop.trans (by omega)),
          ih xs.length (by omega) hdrop]

/-- A full block in front. -/
theorem chunks_append {r : ℕ} (hr : 0 < r) {b : List α} (hb : b.length = r) (xs : List α) :
    chunks r (b ++ xs) = b :: chunks r xs := by
  cases b with
  | nil =>
      simp only [List.length_nil] at hb
      omega
  | cons x b =>
      have hlen : xs.length ≤ (b ++ xs).length := by
        rw [List.length_append]
        omega
      rw [← chunksN_of_le hr hlen]
      simp only [chunks, List.cons_append, List.length_cons, chunksN]
      rw [← List.cons_append, ← hb, List.take_left, List.drop_left]

/-- An input of full blocks. -/
theorem chunks_exact {r n : ℕ} (hr : 0 < r) {xs : List α} (hlen : xs.length = n * r) :
    (chunks r xs).length = n ∧ (∀ b ∈ chunks r xs, b.length = r) ∧ (chunks r xs).flatten = xs := by
  induction n generalizing xs with
  | zero =>
      rw [Nat.zero_mul] at hlen
      obtain rfl := List.length_eq_zero_iff.mp hlen
      exact ⟨rfl, fun _ hb => absurd hb List.not_mem_nil, rfl⟩
  | succ n ih =>
      rw [Nat.succ_mul] at hlen
      have hfirst : (xs.take r).length = r := by
        rw [List.length_take]
        omega
      have hrest : (xs.drop r).length = n * r := by
        rw [List.length_drop]
        omega
      obtain ⟨hcount, hfull, hflatten⟩ := ih hrest
      have hcut : chunks r xs = xs.take r :: chunks r (xs.drop r) := by
        rw [← chunks_append hr hfirst, List.take_append_drop]
      rw [hcut]
      refine ⟨?_, ?_, ?_⟩
      · rw [List.length_cons, hcount]
      · intro b hb
        rcases List.mem_cons.mp hb with rfl | hb
        · exact hfirst
        · exact hfull b hb
      · rw [List.flatten_cons, hflatten, List.take_append_drop]

/-- An input that fits one block. -/
theorem chunks_short {r : ℕ} {xs : List α} (hpos : xs ≠ []) (hlen : xs.length ≤ r) :
    chunks r xs = [xs] := by
  cases xs with
  | nil => exact absurd rfl hpos
  | cons x xs =>
      simp only [chunks, List.length_cons, chunksN]
      rw [List.take_of_length_le hlen, List.drop_of_length_le hlen]
      cases xs.length <;> rfl

/-- Two full blocks and a part of a third. -/
theorem chunks_three {r : ℕ} (hr : 0 < r) {xs : List α} (hlo : 2 * r < xs.length)
    (hhi : xs.length ≤ 3 * r) :
    chunks r xs = [xs.take r, (xs.drop r).take r, xs.drop (2 * r)] := by
  have hsplit : xs = xs.take r ++ ((xs.drop r).take r ++ xs.drop (2 * r)) := by
    rw [show 2 * r = r + r by omega, ← List.drop_drop, List.take_append_drop,
      List.take_append_drop]
  have hfirst : (xs.take r).length = r := by
    rw [List.length_take]
    omega
  have hsecond : ((xs.drop r).take r).length = r := by
    rw [List.length_take, List.length_drop]
    omega
  have hlast : (xs.drop (2 * r)).length = xs.length - 2 * r := List.length_drop
  have hpos : xs.drop (2 * r) ≠ [] := by
    intro h
    rw [h, List.length_nil] at hlast
    omega
  calc chunks r xs = chunks r (xs.take r ++ ((xs.drop r).take r ++ xs.drop (2 * r))) :=
        congrArg (chunks r) hsplit
    _ = _ := by rw [chunks_append hr hfirst, chunks_append hr hsecond,
      chunks_short hpos (by omega)]

/-! ## The last block -/

/-- A shorter block equals a longer one exactly when the longer one repeats the lanes it
overwrites. -/
theorem overwrite_eq_iff {b d : List α} {s t : Fin w → α} (hbd : b.length ≤ d.length)
    (hdw : d.length ≤ w) :
    overwrite b s = overwrite d t ↔
      d = b ++ List.ofFn (fun k : Fin (d.length - b.length) => s ⟨b.length + k, by omega⟩) ∧
        ∀ i : Fin w, d.length ≤ i → s i = t i := by
  constructor
  · intro h
    have hlane : ∀ i : Fin w, b.getD i (s i) = d.getD i (t i) := fun i => congrFun h i
    refine ⟨?_, ?_⟩
    · refine List.ext_getElem (by simp; omega) fun i hi _ => ?_
      have hi' := hlane ⟨i, by omega⟩
      simp only [List.getD_eq_getElem d _ hi] at hi'
      rw [← hi']
      by_cases hib : i < b.length
      · rw [List.getD_eq_getElem b _ hib, List.getElem_append_left hib]
      · rw [List.getD_eq_default b _ (by omega), List.getElem_append_right (by omega),
          List.getElem_ofFn]
        refine congrArg s (Fin.ext ?_)
        change i = b.length + (i - b.length)
        omega
    · intro i hi
      have hi' := hlane i
      rwa [List.getD_eq_default b _ (by omega), List.getD_eq_default d _ hi] at hi'
  · rintro ⟨hd, hrest⟩
    funext i
    simp only [overwrite]
    by_cases hib : i < b.length
    · rw [hd, List.getD_append _ _ _ _ hib, List.getD_eq_getElem b _ hib,
        List.getD_eq_getElem b _ hib]
    · rw [List.getD_eq_default b _ (by omega)]
      by_cases hid : i < d.length
      · rw [List.getD_eq_getElem d _ hid]
        have hget : d[i.val]? = some (s i) := by
          rw [hd, List.getElem?_append_right (by omega), List.getElem?_ofFn, dif_pos (by omega)]
          refine congrArg (some ∘ s) (Fin.ext ?_)
          change b.length + (i - b.length) = i
          omega
        rw [List.getElem?_eq_getElem hid] at hget
        exact (Option.some.inj hget).symm
      · rw [List.getD_eq_default d _ (by omega)]
        exact hrest i (by omega)

end Lib
