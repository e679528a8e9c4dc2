import Mathlib.Data.List.Basic
import Mathlib.Tactic.Basic

/-!
# Programs whose effects stay when they fail

A `Program` works on a state, returns a value or fails, and its state after a failure is the
one it had reached: nothing is undone. `Triple P x Q E` says that from a state with `P` the
program ends in a state with `Q` for the value returned, or fails in a state with `E` for the
error. There is one rule for each construct; a loop over a list has an invariant in the
elements done.
-/

namespace Lib

def Program (ε σ α : Type) : Type := σ → Except ε α × σ

namespace Program

variable {ε σ α β : Type}

instance instMonadProgram : Monad (Program ε σ) where
  pure a := fun s => (.ok a, s)
  bind x f := fun s =>
    match x s with
    | (.ok a, s') => f a s'
    | (.error e, s') => (.error e, s')

/-- The program fails. -/
def fail (e : ε) : Program ε σ α := fun s => (.error e, s)

def ofExcept (x : Except ε α) : Program ε σ α := fun s => (x, s)

/-- A value read off the state. -/
def read (f : σ → α) : Program ε σ α := fun s => (.ok (f s), s)

/-- One change of the state; when it fails the state stays. -/
def change (f : σ → Except ε σ) : Program ε σ Unit := fun s =>
  match f s with
  | .ok s' => (.ok (), s')
  | .error e => (.error e, s)

def forEach (body : α → Program ε σ Unit) : List α → Program ε σ Unit
  | [] => pure ()
  | x :: xs => do
    body x
    forEach body xs

@[simp] theorem pure_apply (a : α) (s : σ) : (pure a : Program ε σ α) s = (.ok a, s) := rfl

theorem bind_apply (x : Program ε σ α) (f : α → Program ε σ β) (s : σ) :
    (x >>= f) s = match x s with
      | (.ok a, s') => f a s'
      | (.error e, s') => (.error e, s') := rfl

@[simp] theorem pure_bind (a : α) (f : α → Program ε σ β) :
    ((pure a : Program ε σ α) >>= f) = f a := rfl

@[simp] theorem fail_bind (e : ε) (f : α → Program ε σ β) :
    ((fail e : Program ε σ α) >>= f) = fail e := rfl

theorem read_bind (f : σ → α) (g : α → Program ε σ β) (s : σ) :
    (read f >>= g) s = g (f s) s := rfl

theorem bind_ok {x : Program ε σ α} {f : α → Program ε σ β} {s s' : σ} {a : α}
    (h : x s = (.ok a, s')) : (x >>= f) s = f a s' := by
  rw [bind_apply, h]

theorem bind_error {x : Program ε σ α} {f : α → Program ε σ β} {s s' : σ} {e : ε}
    (h : x s = (.error e, s')) : (x >>= f) s = (.error e, s') := by
  rw [bind_apply, h]

theorem forEach_map {γ : Type} (body : β → Program ε σ Unit) (f : γ → β) (xs : List γ) :
    forEach body (xs.map f) = forEach (fun x => body (f x)) xs := by
  induction xs with
  | nil => rfl
  | cons x xs ih => rw [List.map_cons, forEach, forEach, ih]

/-- A loop whose body does nothing in this state. -/
theorem forEach_skip {body : β → Program ε σ Unit} {xs : List β} {s : σ}
    (h : ∀ x ∈ xs, body x s = (.ok (), s)) : forEach body xs s = (.ok (), s) := by
  induction xs with
  | nil => rfl
  | cons x xs ih =>
    rw [forEach, bind_ok (h x List.mem_cons_self)]
    exact ih fun y hy => h y (List.mem_cons_of_mem x hy)

/-- A loop over the elements of one kind is one over all elements, when the others do nothing. -/
theorem forEach_filter {body : β → Program ε σ Unit} {p : β → Bool}
    (h : ∀ x, p x = false → body x = pure ()) (xs : List β) :
    forEach body (xs.filter p) = forEach body xs := by
  induction xs with
  | nil => rfl
  | cons x xs ih =>
    cases hx : p x with
    | true => rw [List.filter_cons_of_pos hx, forEach, forEach, ih]
    | false =>
      rw [List.filter_cons_of_neg (Bool.eq_false_iff.mp hx), ih, forEach, h x hx]
      rfl

/-- A loop over what is left of a list. -/
theorem forEach_filterMap {γ : Type} (body : β → Program ε σ Unit) (f : γ → Option β)
    (xs : List γ) : forEach body (xs.filterMap f) =
      forEach (fun x => (f x).elim (pure ()) body) xs := by
  induction xs with
  | nil => rfl
  | cons x xs ih =>
    cases hx : f x with
    | none =>
      rw [List.filterMap_cons_none hx, ih, forEach, hx]
      rfl
    | some y =>
      rw [List.filterMap_cons_some hx, forEach, forEach, ih, hx]
      rfl

/-! ## Triples -/

structure Triple (P : σ → Prop) (x : Program ε σ α) (Q : α → σ → Prop) (E : ε → σ → Prop) :
    Prop where
  ok : ∀ s, P s → ∀ a s', x s = (.ok a, s') → Q a s'
  error : ∀ s, P s → ∀ e s', x s = (.error e, s') → E e s'

variable {P P' : σ → Prop} {Q Q' : α → σ → Prop} {E E' : ε → σ → Prop} {x : Program ε σ α}

theorem Triple.conseq (h : Triple P x Q E) (hP : ∀ s, P' s → P s) (hQ : ∀ a s, Q a s → Q' a s)
    (hE : ∀ e s, E e s → E' e s) : Triple P' x Q' E' :=
  ⟨fun s hs a s' hrun => hQ a s' (h.ok s (hP s hs) a s' hrun),
    fun s hs e s' hrun => hE e s' (h.error s (hP s hs) e s' hrun)⟩

/-- Two triples of one program. -/
theorem Triple.and (h : Triple P x Q E) (h' : Triple P' x Q' E') :
    Triple (fun s => P s ∧ P' s) x (fun a s => Q a s ∧ Q' a s) (fun e s => E e s ∧ E' e s) :=
  ⟨fun s hs a s' hrun => ⟨h.ok s hs.1 a s' hrun, h'.ok s hs.2 a s' hrun⟩,
    fun s hs e s' hrun => ⟨h.error s hs.1 e s' hrun, h'.error s hs.2 e s' hrun⟩⟩

theorem triple_absurd (h : ∀ s, ¬ P s) : Triple P x Q E :=
  ⟨fun s hs => absurd hs (h s), fun s hs => absurd hs (h s)⟩

theorem triple_pure {a : α} (h : ∀ s, P s → Q a s) : Triple P (pure a : Program ε σ α) Q E := by
  constructor
  · intro s hs b s' hrun
    cases hrun
    exact h s hs
  · intro s hs e s' hrun
    cases hrun

theorem triple_fail {e : ε} (h : ∀ s, P s → E e s) : Triple P (fail e : Program ε σ α) Q E := by
  constructor
  · intro s hs b s' hrun
    cases hrun
  · intro s hs e s' hrun
    cases hrun
    exact h s hs

theorem triple_ofExcept {y : Except ε α} (hok : ∀ a, y = .ok a → ∀ s, P s → Q a s)
    (herror : ∀ e, y = .error e → ∀ s, P s → E e s) :
    Triple P (ofExcept y : Program ε σ α) Q E := by
  constructor
  · intro s hs a s' hrun
    cases hrun
    exact hok a rfl s hs
  · intro s hs e s' hrun
    cases hrun
    exact herror e rfl s hs

theorem triple_read {f : σ → α} (h : ∀ s, P s → Q (f s) s) :
    Triple P (read f : Program ε σ α) Q E := by
  constructor
  · intro s hs a s' hrun
    cases hrun
    exact h s hs
  · intro s hs e s' hrun
    cases hrun

theorem triple_change {f : σ → Except ε σ} {Q : Unit → σ → Prop}
    (hok : ∀ s s', P s → f s = .ok s' → Q () s') (herror : ∀ s e, P s → f s = .error e → E e s) :
    Triple P (change f) Q E := by
  constructor
  · intro s hs a s' hrun
    unfold change at hrun
    split at hrun
    · rename_i t ht
      cases hrun
      exact hok s s' hs ht
    · cases hrun
  · intro s hs e s' hrun
    unfold change at hrun
    split at hrun
    · cases hrun
    · rename_i e' he
      cases hrun
      exact herror s e hs he

theorem triple_bind {R : β → σ → Prop} {f : α → Program ε σ β}
    (hx : Triple P x Q E) (hf : ∀ a, Triple (Q a) (f a) R E) : Triple P (x >>= f) R E := by
  constructor
  · intro s hs b s' hrun
    cases hx' : x s with
    | mk result t =>
      cases result with
      | ok a =>
        rw [bind_ok hx'] at hrun
        exact (hf a).ok t (hx.ok s hs a t hx') b s' hrun
      | error e =>
        rw [bind_error hx'] at hrun
        cases hrun
  · intro s hs e s' hrun
    cases hx' : x s with
    | mk result t =>
      cases result with
      | ok a =>
        rw [bind_ok hx'] at hrun
        exact (hf a).error t (hx.ok s hs a t hx') e s' hrun
      | error e' =>
        rw [bind_error hx'] at hrun
        cases hrun
        exact hx.error s hs e s' hx'

/-- The invariant is about the elements done. -/
theorem triple_forEach (body : β → Program ε σ Unit) (xs : List β) (I : List β → σ → Prop)
    (h : ∀ done x rest, xs = done ++ x :: rest →
      Triple (I done) (body x) (fun _ => I (done ++ [x])) E) :
    Triple (I []) (forEach body xs) (fun _ => I xs) E := by
  -- from any point of the list on
  have hrest : ∀ rest done, xs = done ++ rest →
      Triple (I done) (forEach body rest) (fun _ => I xs) E := by
    intro rest
    induction rest with
    | nil =>
      intro done hxs
      refine triple_pure fun s hs => ?_
      rw [hxs, List.append_nil]
      exact hs
    | cons x rest ih =>
      intro done hxs
      refine triple_bind (h done x rest hxs) fun _ => ih (done ++ [x]) ?_
      rw [hxs, List.append_assoc]
      rfl
  exact hrest xs [] rfl

end Program

end Lib
