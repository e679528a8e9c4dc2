import Doxa.Lib.Numerals
import Mathlib.Data.List.Forall2
import Mathlib.Data.List.Induction

/-!
# Counted loops and runs of a partial machine

The proof rules for imperative code written as state passing. A counted loop
`for i in 0..n` is `forLoop`, or `tryLoop` when its body can abort; both come with the
invariant rule, indexed by the number of rounds done.

A machine is a step function `step : op → σ → Except ε σ`. An operation that fails is
undone, so a run (`run`) keeps the state at a failing operation. `runLog` also records
what the successful operations did, in order; an invariant may relate the state to that
record. All rules reduce a statement about every run to one about every successful step.
A step is usually a chain of guards (`revertIf`) in front of an update; `bind_eq_ok` and
`revertIf_bind_eq_ok` take such a chain apart.
-/

namespace Lib

/-! ## Loops -/

/-- `for i in 0..n { s = body i s }`. -/
def forLoop {σ : Type*} (body : ℕ → σ → σ) : ℕ → σ → σ
  | 0, s => s
  | n + 1, s => body n (forLoop body n s)

@[simp] theorem forLoop_zero {σ : Type*} (body : ℕ → σ → σ) (s : σ) :
    forLoop body 0 s = s := rfl

@[simp] theorem forLoop_succ {σ : Type*} (body : ℕ → σ → σ) (n : ℕ) (s : σ) :
    forLoop body (n + 1) s = body n (forLoop body n s) := rfl

/-- The invariant rule of `forLoop`. -/
theorem forLoop_inv {σ : Type*} {body : ℕ → σ → σ} {n : ℕ} {s : σ} (I : ℕ → σ → Prop)
    (h0 : I 0 s) (hstep : ∀ i, i < n → ∀ t, I i t → I (i + 1) (body i t)) :
    I n (forLoop body n s) := by
  induction n with
  | zero => exact h0
  | succ n ih =>
      refine hstep n (Nat.lt_succ_self n) _ (ih ?_)
      intro i hi
      exact hstep i (Nat.lt_succ_of_lt hi)

/-- A loop whose rounds each add some points to a set adds all of them. -/
theorem forLoop_mark {α : Type*} {body : ℕ → (α → Bool) → (α → Bool)} {P : ℕ → α → Prop}
    (hbody : ∀ i f x, body i f x = true ↔ f x = true ∨ P i x) (n : ℕ) (f : α → Bool) (x : α) :
    forLoop body n f x = true ↔ f x = true ∨ ∃ i, i < n ∧ P i x := by
  induction n with
  | zero => simp
  | succ n ih =>
      rw [forLoop_succ, hbody, ih, or_assoc]
      exact or_congr_right Nat.exists_lt_succ_right.symm

/-- `for i in 0..n { s = body i s? }`: the first failing round aborts the loop. -/
def tryLoop {ε σ : Type*} (body : ℕ → σ → Except ε σ) : ℕ → σ → Except ε σ
  | 0, s => .ok s
  | n + 1, s =>
    match tryLoop body n s with
    | .error e => .error e
    | .ok t => body n t

/-- The invariant rule of `tryLoop`, for a loop that ends. -/
theorem tryLoop_inv {ε σ : Type*} {body : ℕ → σ → Except ε σ} {n : ℕ} {s s' : σ}
    (I : ℕ → σ → Prop) (h0 : I 0 s)
    (hstep : ∀ i, i < n → ∀ t t', I i t → body i t = .ok t' → I (i + 1) t')
    (h : tryLoop body n s = .ok s') : I n s' := by
  induction n generalizing s' with
  | zero =>
      cases h
      exact h0
  | succ n ih =>
      simp only [tryLoop] at h
      split at h
      · cases h
      · rename_i t ht
        refine hstep n (Nat.lt_succ_self n) t s' (ih ?_ ht) h
        intro i hi
        exact hstep i (Nat.lt_succ_of_lt hi)

/-- A loop all of whose rounds succeed ends. -/
theorem tryLoop_ok {ε σ : Type*} {body : ℕ → σ → Except ε σ} {n : ℕ} {s : σ}
    (I : ℕ → σ → Prop) (h0 : I 0 s)
    (hstep : ∀ i, i < n → ∀ t, I i t → ∃ t', body i t = .ok t' ∧ I (i + 1) t') :
    ∃ s', tryLoop body n s = .ok s' ∧ I n s' := by
  induction n with
  | zero => exact ⟨s, rfl, h0⟩
  | succ n ih =>
      obtain ⟨t, ht, hI⟩ := ih fun i hi => hstep i (Nat.lt_succ_of_lt hi)
      obtain ⟨t', ht', hI'⟩ := hstep n (Nat.lt_succ_self n) t hI
      refine ⟨t', ?_, hI'⟩
      simp only [tryLoop, ht]
      exact ht'

/-- A loop that checks and changes nothing ends where it began, and every round
passed. -/
theorem tryLoop_check {ε σ : Type*} {body : ℕ → σ → Except ε σ} {n : ℕ} {s s' : σ}
    (hbody : ∀ i t t', body i t = .ok t' → t' = t) (h : tryLoop body n s = .ok s') :
    s' = s ∧ ∀ i, i < n → body i s = .ok s := by
  have hinv := tryLoop_inv (fun k t => t = s ∧ ∀ i, i < k → body i s = .ok s)
    ⟨rfl, fun i hi => absurd hi (Nat.not_lt_zero i)⟩ ?_ h
  · exact hinv
  · rintro i - t t' ⟨rfl, hpast⟩ ht
    obtain rfl := hbody i t t' ht
    refine ⟨rfl, fun j hj => ?_⟩
    rcases Nat.lt_succ_iff_lt_or_eq.mp hj with hj | rfl
    · exact hpast j hj
    · exact ht

/-! ## Guards -/

/-- `if (p) revert e;` -/
def revertIf {ε : Type*} (p : Prop) [Decidable p] (e : ε) : Except ε Unit :=
  if p then .error e else .ok ()

@[simp] theorem revertIf_eq_ok {ε : Type*} {p : Prop} [Decidable p] {e : ε} {u : Unit} :
    revertIf p e = .ok u ↔ ¬p := by
  unfold revertIf
  split <;> simp [*]

theorem revertIf_of_not {ε : Type*} {p : Prop} [Decidable p] {e : ε} (h : ¬p) :
    revertIf p e = .ok () := if_neg h

/-- A sequence succeeds when both parts do. -/
theorem bind_eq_ok {ε : Type*} {α β : Type} {x : Except ε α} {f : α → Except ε β} {b : β} :
    (x >>= f) = .ok b ↔ ∃ a, x = .ok a ∧ f a = .ok b := by
  cases x with
  | error e => simp [bind, Except.bind]
  | ok a => simp [bind, Except.bind]

theorem ok_bind {ε : Type*} {α β : Type} (a : α) (f : α → Except ε β) :
    (Except.ok a >>= f) = f a := rfl

theorem error_bind {ε : Type*} {α β : Type} (e : ε) (f : α → Except ε β) :
    (Except.error e >>= f) = .error e := rfl

/-- A sequence fails when one of its parts does. -/
theorem bind_eq_error {ε : Type*} {α β : Type} {x : Except ε α} {f : α → Except ε β} {e : ε} :
    (x >>= f) = .error e ↔ x = .error e ∨ ∃ a, x = .ok a ∧ f a = .error e := by
  cases x with
  | error e => simp [bind, Except.bind]
  | ok a => simp [bind, Except.bind]

theorem revertIf_eq_error {ε : Type*} {p : Prop} [Decidable p] {e e' : ε} :
    revertIf p e = .error e' ↔ p ∧ e = e' := by
  unfold revertIf
  split <;> simp [*]

theorem revertIf_bind_eq_ok {ε : Type*} {β : Type} {p : Prop} [Decidable p] {e : ε}
    {x : Except ε β} {b : β} : (revertIf p e >>= fun _ => x) = .ok b ↔ ¬p ∧ x = .ok b := by
  simp [bind_eq_ok]

theorem pure_eq_ok {ε α : Type*} {a b : α} : (pure a : Except ε α) = .ok b ↔ a = b := by
  simp [pure, Except.pure]

/-- A list of calls succeeds when each of them does. -/
theorem mapM_eq_ok {ε : Type*} {α : Type*} {β : Type} {f : α → Except ε β} {xs : List α}
    {ys : List β} : xs.mapM f = .ok ys ↔ List.Forall₂ (fun x y => f x = .ok y) xs ys := by
  induction xs generalizing ys with
  | nil => rw [List.mapM_nil, pure_eq_ok, List.forall₂_nil_left_iff, eq_comm]
  | cons x xs ih =>
      rw [List.mapM_cons, bind_eq_ok]
      simp only [bind_eq_ok, ih, pure_eq_ok]
      constructor
      · rintro ⟨y, hy, ys', hys', rfl⟩
        exact .cons hy hys'
      · rintro (_ | ⟨hy, hys'⟩)
        exact ⟨_, hy, _, hys', rfl⟩

theorem mapM_ok {ε : Type*} {α : Type*} {β : Type} {f : α → Except ε β} {xs : List α}
    (h : ∀ x ∈ xs, ∃ y, f x = .ok y) : ∃ ys, xs.mapM f = .ok ys := by
  induction xs with
  | nil => exact ⟨[], rfl⟩
  | cons x xs ih =>
      obtain ⟨y, hy⟩ := h x List.mem_cons_self
      obtain ⟨ys, hys⟩ := ih fun x' hx' => h x' (List.mem_cons_of_mem x hx')
      refine ⟨y :: ys, mapM_eq_ok.mpr (.cons hy (mapM_eq_ok.mp hys))⟩

/-- What the results have in common with the arguments. -/
theorem map_eq_of_mapM {ε : Type*} {α γ : Type*} {β : Type} {f : α → Except ε β} {xs : List α}
    {ys : List β} (h : xs.mapM f = .ok ys) {g : β → γ} {g' : α → γ}
    (hg : ∀ x y, f x = .ok y → g y = g' x) : ys.map g = xs.map g' := by
  have hall := mapM_eq_ok.mp h
  clear h
  induction hall with
  | nil => rfl
  | cons hxy _ ih => rw [List.map_cons, List.map_cons, hg _ _ hxy, ih]

theorem mapM_congr {ε : Type*} {α : Type*} {β : Type} {f g : α → Except ε β} {xs : List α}
    (h : ∀ x ∈ xs, f x = g x) : xs.mapM f = xs.mapM g := by
  induction xs with
  | nil => rfl
  | cons x xs ih =>
      rw [List.mapM_cons, List.mapM_cons, h x List.mem_cons_self,
        ih fun y hy => h y (List.mem_cons_of_mem x hy)]

theorem exists_of_mem_left {α β : Type*} {R : α → β → Prop} {xs : List α} {ys : List β}
    (h : List.Forall₂ R xs ys) {x : α} (hx : x ∈ xs) : ∃ y ∈ ys, R x y := by
  induction h with
  | nil => cases hx
  | cons hxy _ ih =>
      rcases List.mem_cons.mp hx with rfl | hx
      · exact ⟨_, List.mem_cons_self, hxy⟩
      · obtain ⟨y, hy, hR⟩ := ih hx
        exact ⟨y, List.mem_cons_of_mem _ hy, hR⟩

theorem exists_of_mem_right {α β : Type*} {R : α → β → Prop} {xs : List α} {ys : List β}
    (h : List.Forall₂ R xs ys) {y : β} (hy : y ∈ ys) : ∃ x ∈ xs, R x y :=
  exists_of_mem_left h.flip hy

/-! ## One error that does not occur -/

/-- The result is not the error `e`. -/
def Avoids {ε : Type*} {α : Type*} (e : ε) (x : Except ε α) : Prop := x ≠ .error e

namespace Avoids

variable {ε : Type*} {e e' : ε}

theorem ok {α : Type*} (a : α) : Avoids e (.ok a) := fun h => by cases h

theorem error {α : Type*} (h : e' ≠ e) : Avoids e (.error e' : Except ε α) := fun h' =>
  h (Except.error.inj h')

theorem bind {α β : Type} {x : Except ε α} {f : α → Except ε β} (hx : Avoids e x)
    (hf : ∀ a, x = .ok a → Avoids e (f a)) : Avoids e (x >>= f) := by
  intro h
  rcases bind_eq_error.mp h with h | ⟨a, ha, h⟩
  · exact hx h
  · exact hf a ha h

theorem revertIf {p : Prop} [Decidable p] (h : e' ≠ e) : Avoids e (revertIf p e') := fun h' =>
  h (revertIf_eq_error.mp h').2

theorem mapM {α β : Type} {f : α → Except ε β} {xs : List α} (h : ∀ x ∈ xs, Avoids e (f x)) :
    Avoids e (xs.mapM f) := by
  induction xs with
  | nil => exact ok []
  | cons x xs ih =>
    rw [List.mapM_cons]
    refine (h x List.mem_cons_self).bind fun y _ => ?_
    exact (ih fun x' hx' => h x' (List.mem_cons_of_mem x hx')).bind fun ys _ => ok _

/-- The calls keep `I`, and do not end in `e` where it holds. -/
theorem foldlM {α σ : Type} {f : σ → α → Except ε σ} {I : σ → Prop} {xs : List α}
    (h : ∀ s x, I s → Avoids e (f s x)) (hI : ∀ s x s', I s → f s x = .ok s' → I s') {s : σ} (hs : I s) :
    Avoids e (xs.foldlM f s) := by
  induction xs generalizing s with
  | nil => exact ok s
  | cons x xs ih =>
    rw [List.foldlM_cons]
    exact (h s x hs).bind fun s' hs' => ih (hI s x s' hs hs')

end Avoids

/-! ## Runs -/

variable {ε σ op ρ : Type*}

/-- One operation of a run: a failing operation leaves the state as it was. -/
def attempt (step : op → σ → Except ε σ) (s : σ) (o : op) : σ :=
  match step o s with
  | .ok s' => s'
  | .error _ => s

theorem attempt_ok {step : op → σ → Except ε σ} {s s' : σ} {o : op} (h : step o s = .ok s') :
    attempt step s o = s' := by
  simp only [attempt, h]

theorem attempt_error {step : op → σ → Except ε σ} {s : σ} {o : op} {e : ε}
    (h : step o s = .error e) : attempt step s o = s := by
  simp only [attempt, h]

/-- The state after a sequence of operations. -/
def run (step : op → σ → Except ε σ) (s : σ) (ops : List op) : σ :=
  ops.foldl (attempt step) s

@[simp] theorem run_nil (step : op → σ → Except ε σ) (s : σ) : run step s [] = s := rfl

@[simp] theorem run_cons (step : op → σ → Except ε σ) (s : σ) (o : op) (ops : List op) :
    run step s (o :: ops) = run step (attempt step s o) ops := rfl

@[simp] theorem run_append (step : op → σ → Except ε σ) (s : σ) (xs ys : List op) :
    run step s (xs ++ ys) = run step (run step s xs) ys := by
  simp only [run, List.foldl_append]

theorem run_concat (step : op → σ → Except ε σ) (s : σ) (xs : List op) (o : op) :
    run step s (xs ++ [o]) = attempt step (run step s xs) o := by
  simp only [run, List.foldl_append, List.foldl_cons, List.foldl_nil]

/-- A property that every successful step keeps is kept by every run. -/
theorem run_inv {step : op → σ → Except ε σ} {s : σ} (ops : List op) (I : σ → Prop) (h0 : I s)
    (hstep : ∀ o ∈ ops, ∀ t t', I t → step o t = .ok t' → I t') : I (run step s ops) := by
  induction ops using List.reverseRecOn with
  | nil => exact h0
  | append_singleton ops o ih =>
      have hI := ih fun o' ho' => hstep o' (List.mem_append_left _ ho')
      rw [run_concat]
      unfold attempt
      split
      · rename_i t' ht'
        exact hstep o (List.mem_append_right _ (List.mem_singleton_self o)) _ _ hI ht'
      · exact hI

/-- Every operation of the run meets `P` in the state before it. -/
def Along (step : op → σ → Except ε σ) (P : σ → op → Prop) : σ → List op → Prop
  | _, [] => True
  | s, o :: ops => P s o ∧ Along step P (attempt step s o) ops

theorem along_append {step : op → σ → Except ε σ} {P : σ → op → Prop} {s : σ} {xs ys : List op} :
    Along step P s (xs ++ ys) ↔ Along step P s xs ∧ Along step P (run step s xs) ys := by
  induction xs generalizing s with
  | nil => exact ⟨fun h => ⟨trivial, h⟩, And.right⟩
  | cons o xs ih => rw [List.cons_append, Along, ih, Along, run_cons, and_assoc]

theorem Along.and {step : op → σ → Except ε σ} {P Q : σ → op → Prop} {s : σ} {ops : List op}
    (hP : Along step P s ops) (hQ : Along step Q s ops) :
    Along step (fun t o => P t o ∧ Q t o) s ops := by
  induction ops generalizing s with
  | nil => trivial
  | cons o ops ih => exact ⟨⟨hP.1, hQ.1⟩, ih hP.2 hQ.2⟩

/-- A property that every successful step keeps, where `P` holds before it, is kept by every run
along which `P` holds. -/
theorem run_inv_along {step : op → σ → Except ε σ} {P : σ → op → Prop} {s : σ} {ops : List op}
    (I : σ → Prop) (h0 : I s) (hP : Along step P s ops)
    (hstep : ∀ o ∈ ops, ∀ t t', I t → P t o → step o t = .ok t' → I t') :
    I (run step s ops) := by
  induction ops generalizing s with
  | nil => exact h0
  | cons o ops ih =>
      obtain ⟨ho, hrest⟩ := hP
      refine ih ?_ hrest fun o' ho' => hstep o' (List.mem_cons_of_mem o ho')
      unfold attempt
      split
      · rename_i t' ht'
        exact hstep o List.mem_cons_self s t' h0 ho ht'
      · exact h0

/-- One operation of a run together with the record of what succeeded. -/
def attemptLog (step : op → σ → Except ε σ) (record : op → List ρ) (c : σ × List ρ) (o : op) :
    σ × List ρ :=
  match step o c.1 with
  | .ok s' => (s', c.2 ++ record o)
  | .error _ => c

theorem attemptLog_ok {step : op → σ → Except ε σ} {record : op → List ρ} {s s' : σ} {o : op}
    {l : List ρ} (h : step o s = .ok s') :
    attemptLog step record (s, l) o = (s', l ++ record o) := by
  simp only [attemptLog, h]

/-- The state after a sequence of operations, with the record of the successful ones. -/
def runLog (step : op → σ → Except ε σ) (record : op → List ρ) (s : σ) (ops : List op) :
    σ × List ρ :=
  ops.foldl (attemptLog step record) (s, [])

theorem runLog_concat (step : op → σ → Except ε σ) (record : op → List ρ) (s : σ) (xs : List op)
    (o : op) : runLog step record s (xs ++ [o]) =
      attemptLog step record (runLog step record s xs) o := by
  simp only [runLog, List.foldl_append, List.foldl_cons, List.foldl_nil]

/-- The record does not influence the state. -/
theorem runLog_fst (step : op → σ → Except ε σ) (record : op → List ρ) (s : σ) (ops : List op) :
    (runLog step record s ops).1 = run step s ops := by
  induction ops using List.reverseRecOn with
  | nil => rfl
  | append_singleton ops o ih =>
      rw [runLog_concat, run_concat, ← ih]
      unfold attemptLog attempt
      split <;> rfl

/-- A relation between the state and the record that every successful step keeps, when
it appends what it did, holds after every run. -/
theorem runLog_inv (step : op → σ → Except ε σ) (record : op → List ρ) (s : σ) (ops : List op)
    (I : σ → List ρ → Prop) (h0 : I s [])
    (hstep : ∀ o ∈ ops, ∀ t t' l, I t l → step o t = .ok t' → I t' (l ++ record o)) :
    I (runLog step record s ops).1 (runLog step record s ops).2 := by
  induction ops using List.reverseRecOn with
  | nil => exact h0
  | append_singleton ops o ih =>
      have hI := ih fun o' ho' => hstep o' (List.mem_append_left _ ho')
      rw [runLog_concat]
      unfold attemptLog
      split
      · rename_i t' ht'
        exact hstep o (List.mem_append_right _ (List.mem_singleton_self o)) _ _ _ hI ht'
      · exact hI

/-- What is recorded in a run is recorded by its operations. -/
theorem mem_runLog {step : op → σ → Except ε σ} {record : op → List ρ} {s : σ} {ops : List op}
    {x : ρ} (h : x ∈ (runLog step record s ops).2) : ∃ o ∈ ops, x ∈ record o := by
  refine runLog_inv step record s ops (fun _ l => ∀ x ∈ l, ∃ o ∈ ops, x ∈ record o) ?_ ?_ x h
  · intro x hx
    cases hx
  · intro o ho t t' l hl _ x hx
    rcases List.mem_append.mp hx with hx | hx
    · exact hl x hx
    · exact ⟨o, ho, hx⟩

/-- A property of all that is recorded is one of the operations that succeed. -/
theorem along_of_runLog {step : op → σ → Except ε σ} {record : op → List ρ} {P : ρ → Prop} {s : σ}
    {ops : List op} (h : ∀ x ∈ (runLog step record s ops).2, P x) :
    Along step (fun t o => ∀ t', step o t = .ok t' → ∀ x ∈ record o, P x) s ops := by
  induction ops using List.reverseRecOn with
  | nil => trivial
  | append_singleton ops o ih =>
      rw [runLog_concat] at h
      rw [along_append]
      refine ⟨ih fun x hx => h x ?_, fun t' ht x hx => h x ?_, trivial⟩
      · unfold attemptLog
        split
        · exact List.mem_append_left _ hx
        · exact hx
      · rw [← runLog_fst step record] at ht
        simp only [attemptLog, ht]
        exact List.mem_append_right _ hx

/-- A property of all beginnings of a run. -/
theorem forall_prefix_concat {P : List op → Prop} {ops : List op} {o : op} :
    (∀ pre, pre <+: ops ++ [o] → P pre) ↔ (∀ pre, pre <+: ops → P pre) ∧ P (ops ++ [o]) := by
  constructor
  · intro hall
    exact ⟨fun pre hpre => hall pre (hpre.trans (List.prefix_append _ _)),
      hall _ (List.prefix_refl _)⟩
  · rintro ⟨hall, hlast⟩ pre hpre
    rcases List.prefix_concat_iff.mp hpre with rfl | hpre
    · exact hlast
    · exact hall pre hpre

/-- A reflexive and transitive relation that holds across every successful step holds
across every run. -/
theorem run_rel {step : op → σ → Except ε σ} {s : σ} (ops : List op) (R : σ → σ → Prop)
    (hrefl : ∀ t, R t t) (htrans : ∀ a b c, R a b → R b c → R a c)
    (hstep : ∀ o t t', step o t = .ok t' → R t t') : R s (run step s ops) :=
  run_inv ops (R s) (hrefl s) fun o _ t t' hR ht => htrans _ _ _ hR (hstep o t t' ht)

end Lib
