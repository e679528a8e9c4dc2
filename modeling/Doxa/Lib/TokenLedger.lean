import Mathlib.Algebra.BigOperators.Fin
import Mathlib.Algebra.BigOperators.Ring.Finset
import Mathlib.Algebra.Order.BigOperators.Group.Finset

/-!
# Balances and payments

Accounts of several tokens as a table of numbers. A transfer takes its amount from one
holder and gives it to another; a list of payments is made one after the other, each only
if the balance suffices. A holder whose balance covers the total of a list can make all its
payments, and loses at most that total.
-/

namespace Lib

open Function

/-! ## Sums over a table -/

section Sums

variable {κ α : Type*} [Fintype κ] [DecidableEq κ]

/-- Changing one entry changes a sum over the table by the difference of the two values. -/
theorem sum_update (f : α → ℕ) (d : κ → α) (k : κ) (x : α) :
    ∑ j, f (update d k x j) + f (d k) = ∑ j, f (d j) + f x := by
  have hrest : ∑ j ∈ Finset.univ.erase k, f (update d k x j) =
      ∑ j ∈ Finset.univ.erase k, f (d j) := by
    refine Finset.sum_congr rfl fun j hj => ?_
    rw [update_of_ne (Finset.ne_of_mem_erase hj)]
  rw [← Finset.add_sum_erase _ _ (Finset.mem_univ k), ← Finset.add_sum_erase Finset.univ
    (fun j => f (d j)) (Finset.mem_univ k), hrest, update_self]
  omega

/-- Two different entries fit into the sum. -/
theorem add_le_sum (f : κ → ℕ) {j k : κ} (h : j ≠ k) : f j + f k ≤ ∑ i, f i := by
  rw [← Finset.add_sum_erase _ _ (Finset.mem_univ j)]
  have hk : k ∈ Finset.univ.erase j := Finset.mem_erase.mpr ⟨h.symm, Finset.mem_univ k⟩
  have hle : f k ≤ ∑ i ∈ Finset.univ.erase j, f i :=
    Finset.single_le_sum (fun i _ => Nat.zero_le (f i)) hk
  omega

end Sums

/-! ## Transfers -/

/-- The balance of each holder in each token. -/
abbrev Balances (T H : Type*) := T → H → ℕ

section Transfers

variable {T H : Type*} [DecidableEq T] [DecidableEq H]

/-- `amt` of token `t` leaves `src` and arrives at `dst`. -/
def move (b : Balances T H) (t : T) (src dst : H) (amt : ℕ) : Balances T H :=
  let taken := update (b t) src (b t src - amt)
  update b t (update taken dst (taken dst + amt))

variable {b : Balances T H} {t t' : T} {src dst h : H} {amt : ℕ}

theorem move_token_ne (ht : t' ≠ t) : move b t src dst amt t' = b t' := update_of_ne ht _ _

theorem move_src (hne : src ≠ dst) : move b t src dst amt t src = b t src - amt := by
  rw [move, update_self, update_of_ne hne, update_self]

theorem move_dst (hne : src ≠ dst) : move b t src dst amt t dst = b t dst + amt := by
  rw [move, update_self, update_self, update_of_ne hne.symm]

theorem move_self (hamt : amt ≤ b t src) : move b t src src amt t src = b t src := by
  rw [move, update_self, update_self, update_self]
  omega

theorem move_other (hsrc : h ≠ src) (hdst : h ≠ dst) : move b t src dst amt t h = b t h := by
  rw [move, update_self, update_of_ne hdst, update_of_ne hsrc]

variable (b t t' dst amt) in
/-- Nobody but the payer loses. -/
theorem le_move_of_ne (hsrc : h ≠ src) : b t' h ≤ move b t src dst amt t' h := by
  by_cases ht : t' = t
  · subst ht
    by_cases hdst : h = dst
    · subst hdst
      rw [move_dst hsrc.symm]
      exact Nat.le_add_right _ _
    · rw [move_other hsrc hdst]
  · rw [move_token_ne ht]

variable (dst) in
/-- The payer loses at most the amount. -/
theorem le_move_src (hamt : amt ≤ b t src) : b t src ≤ move b t src dst amt t src + amt := by
  by_cases hne : src = dst
  · subst hne
    rw [move_self hamt]
    exact Nat.le_add_right _ _
  · rw [move_src hne]
    omega

/-- All there is of a token. -/
def supply [Fintype H] (b : Balances T H) (t : T) : ℕ := ∑ h, b t h

theorem supply_move [Fintype H] (hamt : amt ≤ b t src) (t' : T) :
    supply (move b t src dst amt) t' = supply b t' := by
  by_cases ht : t' = t
  · subst ht
    have htake := sum_update (fun x : ℕ => x) (b t') src (b t' src - amt)
    have hgive := sum_update (fun x : ℕ => x) (update (b t') src (b t' src - amt)) dst
      (update (b t') src (b t' src - amt) dst + amt)
    simp only [supply, move, update_self]
    omega
  · rw [supply, move_token_ne ht, supply]

end Transfers

/-! ## Payments -/

section Payments

variable {T H : Type*} [DecidableEq T] [DecidableEq H]

/-- `src` makes the payments in order and stops at the first it cannot make. -/
def payAll (src : H) : List (T × H × ℕ) → Balances T H → Option (Balances T H)
  | [], b => some b
  | p :: ps, b =>
    if p.2.2 ≤ b p.1 src then payAll src ps (move b p.1 src p.2.1 p.2.2) else none

/-- What the payments cost in one token. -/
def total (t : T) (ps : List (T × H × ℕ)) : ℕ := (ps.map fun p => if p.1 = t then p.2.2 else 0).sum

/-- What one holder is paid in one token. -/
def received (t : T) (h : H) (ps : List (T × H × ℕ)) : ℕ :=
  (ps.map fun p => if p.1 = t ∧ p.2.1 = h then p.2.2 else 0).sum

variable {src : H} {ps : List (T × H × ℕ)} {b b' : Balances T H}

omit [DecidableEq H] in
theorem total_cons (t : T) (p : T × H × ℕ) (ps : List (T × H × ℕ)) :
    total t (p :: ps) = (if p.1 = t then p.2.2 else 0) + total t ps := List.sum_cons

theorem received_cons (t : T) (h : H) (p : T × H × ℕ) (ps : List (T × H × ℕ)) :
    received t h (p :: ps) = (if p.1 = t ∧ p.2.1 = h then p.2.2 else 0) + received t h ps :=
  List.sum_cons

/-- A balance that covers the total of every token covers every payment. -/
theorem payAll_isSome (h : ∀ t, total t ps ≤ b t src) : ∃ b', payAll src ps b = some b' := by
  induction ps generalizing b with
  | nil => exact ⟨b, rfl⟩
  | cons p ps ih =>
      have hp : p.2.2 ≤ b p.1 src := by
        have := h p.1
        rw [total_cons, if_pos rfl] at this
        omega
      rw [payAll, if_pos hp]
      apply ih
      intro t
      have ht := h t
      rw [total_cons] at ht
      by_cases heq : p.1 = t
      · subst heq
        rw [if_pos rfl] at ht
        have := le_move_src p.2.1 hp
        omega
      · rw [if_neg heq] at ht
        rw [move_token_ne (Ne.symm heq)]
        omega

/-- The payer loses at most the total. -/
theorem payAll_src (h : payAll src ps b = some b') (t : T) : b t src ≤ b' t src + total t ps := by
  induction ps generalizing b with
  | nil =>
      obtain rfl := Option.some.inj h
      exact Nat.le_add_right _ _
  | cons p ps ih =>
      rw [payAll] at h
      split at h
      · rename_i hp
        have hrest := ih h
        rw [total_cons]
        by_cases heq : p.1 = t
        · subst heq
          rw [if_pos rfl]
          have := le_move_src p.2.1 hp
          omega
        · rw [move_token_ne (Ne.symm heq)] at hrest
          omega
      · cases h

/-- Every other holder gets exactly what the payments give it. -/
theorem payAll_received (h : payAll src ps b = some b') (t : T) {holder : H} (hne : holder ≠ src) :
    b' t holder = b t holder + received t holder ps := by
  induction ps generalizing b with
  | nil =>
      obtain rfl := Option.some.inj h
      rfl
  | cons p ps ih =>
      rw [payAll] at h
      split at h
      · rw [ih h, received_cons]
        by_cases heq : p.1 = t ∧ p.2.1 = holder
        · obtain ⟨rfl, rfl⟩ := heq
          rw [if_pos ⟨rfl, rfl⟩, move_dst hne.symm]
          omega
        · rw [if_neg heq]
          have hsame : move b p.1 src p.2.1 p.2.2 t holder = b t holder := by
            by_cases ht : p.1 = t
            · subst ht
              exact move_other hne fun hh => heq ⟨rfl, hh.symm⟩
            · rw [move_token_ne (Ne.symm ht)]
          omega
      · cases h

theorem supply_payAll [Fintype H] (h : payAll src ps b = some b') (t : T) :
    supply b' t = supply b t := by
  induction ps generalizing b with
  | nil =>
      obtain rfl := Option.some.inj h
      rfl
  | cons p ps ih =>
      rw [payAll] at h
      split at h
      · rename_i hp
        rw [ih h, supply_move hp]
      · cases h

/-- If the whole list can be paid, so can every part from its beginning. -/
theorem payAll_take (h : payAll src ps b = some b') (k : ℕ) :
    (payAll src (ps.take k) b).isSome = true := by
  induction ps generalizing b k with
  | nil => rw [List.take_nil]; rfl
  | cons p ps ih =>
      cases k with
      | zero => rfl
      | succ k =>
          rw [payAll] at h
          split at h
          · rename_i hp
            rw [List.take_succ_cons, payAll, if_pos hp]
            exact ih h k
          · cases h

end Payments

end Lib
