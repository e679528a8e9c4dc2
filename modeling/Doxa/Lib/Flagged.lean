import Doxa.Lib.Numerals
import Mathlib.Algebra.BigOperators.Fin
import Mathlib.Algebra.Order.Ring.Nat
import Mathlib.Data.Fin.VecNotation
import Mathlib.Data.Nat.ModEq
import Mathlib.Tactic.Linarith
import Mathlib.Tactic.Ring

/-!
# Machine arithmetic with a sticky flag

A step returns its value together with a flag that says whether the side condition of the
step held; the flag of a sequence is the conjunction of the flags of its steps. The value
never depends on a flag: a program of this monad computes what the machine computes, with
every wrap-around, and its flag says whether any step of the run went out of range.
`Ensures` is the postcondition of a run without such a step.

The steps are the additions and multiplications of fixed-width words. A word may hold
several lanes of `b` bits; `addLanes` and `mulLanes` also require that no lane carries into
the next one, and then work on every lane by itself.
-/

namespace Lib

/-- A value and whether every step so far met its condition. -/
structure Flagged (α : Type*) where
  value : α
  safe : Bool

namespace Flagged

instance instMonad : Monad Flagged where
  pure a := ⟨a, true⟩
  bind x f := ⟨(f x.value).value, x.safe && (f x.value).safe⟩

/-- The run met every condition, and its value satisfies `Q`. -/
def Ensures {α : Type*} (x : Flagged α) (Q : α → Prop) : Prop := x.safe = true ∧ Q x.value

/-- A step that only checks a condition. -/
def require (p : Prop) [Decidable p] : Flagged Unit := ⟨(), decide p⟩

section Rules

variable {α β γ : Type} {Q R : α → Prop}

theorem bind_assoc (x : Flagged α) (f : α → Flagged β) (g : β → Flagged γ) :
    x >>= f >>= g = x >>= fun a => f a >>= g := by
  show (⟨_, _⟩ : Flagged γ) = ⟨_, _⟩
  rw [Flagged.mk.injEq]
  exact ⟨rfl, Bool.and_assoc _ _ _⟩

theorem ensures_pure {a : α} (h : Q a) : (pure a : Flagged α).Ensures Q := ⟨rfl, h⟩

theorem Ensures.mono {x : Flagged α} (hx : x.Ensures Q) (h : ∀ a, Q a → R a) : x.Ensures R :=
  ⟨hx.1, h _ hx.2⟩

theorem Ensures.bind {x : Flagged α} {f : α → Flagged β} {S : β → Prop} (hx : x.Ensures Q)
    (hf : ∀ a, Q a → (f a).Ensures S) : (x >>= f).Ensures S := by
  obtain ⟨hsafe, hpost⟩ := hf _ hx.2
  refine ⟨?_, hpost⟩
  show (x.safe && (f x.value).safe) = true
  rw [hx.1, hsafe]
  rfl

theorem ensures_require {p : Prop} [Decidable p] {f : Unit → Flagged β} {S : β → Prop} (hp : p)
    (hf : (f ()).Ensures S) : (require p >>= f).Ensures S :=
  Ensures.bind (Q := fun _ => True) ⟨decide_eq_true hp, trivial⟩ fun _ _ => hf

end Rules

/-- Independent computations, one for each component of a vector. -/
def ofFn {α : Type} {n : ℕ} (f : Fin n → Flagged α) : Flagged (Vector α n) :=
  ⟨Vector.ofFn fun i => (f i).value, decide (∀ i, (f i).safe = true)⟩

@[simp] theorem get_ofFn {α : Type} {n : ℕ} (f : Fin n → α) (i : Fin n) :
    (Vector.ofFn f).get i = f i := by
  have hget : (Vector.ofFn f).get i = (Vector.ofFn f)[i.val] := rfl
  rw [hget, Vector.getElem_ofFn]

theorem ensures_ofFn {α : Type} {n : ℕ} {f : Fin n → Flagged α} {Q : Fin n → α → Prop}
    (hf : ∀ i, (f i).Ensures (Q i)) : (ofFn f).Ensures fun v => ∀ i : Fin n, Q i (v.get i) := by
  refine ⟨decide_eq_true fun i => (hf i).1, fun i => ?_⟩
  show Q i ((Vector.ofFn fun i => (f i).value).get i)
  rw [get_ofFn]
  exact (hf i).2

/-! ## Words -/

section Word

variable {n : ℕ}

/-- Addition that must not leave the word. -/
def add (x y : BitVec n) : Flagged (BitVec n) := ⟨x + y, decide (x.toNat + y.toNat < 2 ^ n)⟩

/-- Multiplication that must not leave the word. -/
def mul (x y : BitVec n) : Flagged (BitVec n) := ⟨x * y, decide (x.toNat * y.toNat < 2 ^ n)⟩

theorem ensures_add {x y : BitVec n} (h : x.toNat + y.toNat < 2 ^ n) :
    (add x y).Ensures fun z => z.toNat = x.toNat + y.toNat := by
  refine ⟨decide_eq_true h, ?_⟩
  show (x + y).toNat = _
  rw [BitVec.toNat_add, Nat.mod_eq_of_lt h]

theorem ensures_mul {x y : BitVec n} (h : x.toNat * y.toNat < 2 ^ n) :
    (mul x y).Ensures fun z => z.toNat = x.toNat * y.toNat := by
  refine ⟨decide_eq_true h, ?_⟩
  show (x * y).toNat = _
  rw [BitVec.toNat_mul, Nat.mod_eq_of_lt h]

/-- The products of the pairs are added to `acc` one after the other. -/
def mulAdd (acc : BitVec n) : List (BitVec n × BitVec n) → Flagged (BitVec n)
  | [] => pure acc
  | t :: ts => do
      let p ← mul t.1 t.2
      let acc ← add acc p
      mulAdd acc ts

/-- A sum of products that starts with the first product. -/
def dot : List (BitVec n × BitVec n) → Flagged (BitVec n)
  | [] => pure 0
  | t :: ts => do
      let acc ← mul t.1 t.2
      mulAdd acc ts

/-- The exact sum of products. -/
def products (ts : List (BitVec n × BitVec n)) : ℕ := (ts.map fun t => t.1.toNat * t.2.toNat).sum

theorem products_cons (t : BitVec n × BitVec n) (ts : List (BitVec n × BitVec n)) :
    products (t :: ts) = t.1.toNat * t.2.toNat + products ts := by
  simp [products]

theorem ensures_mulAdd {acc : BitVec n} {ts : List (BitVec n × BitVec n)}
    (h : acc.toNat + products ts < 2 ^ n) :
    (mulAdd acc ts).Ensures fun z => z.toNat = acc.toNat + products ts := by
  induction ts generalizing acc with
  | nil => exact ensures_pure rfl
  | cons t ts ih =>
    rw [products_cons] at h ⊢
    refine (ensures_mul (by omega)).bind fun p hp => ?_
    refine (ensures_add (by omega)).bind fun s hs => ?_
    refine (ih (by omega)).mono fun z hz => ?_
    omega

theorem ensures_dot {ts : List (BitVec n × BitVec n)} (h : products ts < 2 ^ n) :
    (dot ts).Ensures fun z => z.toNat = products ts := by
  cases ts with
  | nil => exact ensures_pure (by simp [products])
  | cons t ts =>
    rw [products_cons] at h ⊢
    refine (ensures_mul (by omega)).bind fun p hp => ?_
    refine (ensures_mulAdd (by omega)).mono fun z hz => ?_
    omega

end Word

/-! ## Lanes -/

/-- Lane `i` of a number whose lanes have `b` bits. -/
def lane (b i x : ℕ) : ℕ := x / 2 ^ (b * i) % 2 ^ b

theorem lane_lt (b i x : ℕ) : lane b i x < 2 ^ b := Nat.mod_lt _ (by positivity)

/-- The lanes below `i + 1` are those below `i` and lane `i`. -/
theorem mod_lane (b i x : ℕ) :
    x % 2 ^ (b * (i + 1)) = x % 2 ^ (b * i) + 2 ^ (b * i) * lane b i x := by
  rw [Nat.mul_succ, pow_add, Nat.mod_mul, lane]

section Lanes

variable {b i x y : ℕ}

theorem mod_add_mod_lt (h : ∀ j < i, lane b j x + lane b j y < 2 ^ b) :
    x % 2 ^ (b * i) + y % 2 ^ (b * i) < 2 ^ (b * i) := by
  induction i with
  | zero => simp [Nat.mod_one]
  | succ i ih =>
    have hlow := ih fun j hj => h j (hj.trans (Nat.lt_succ_self i))
    have htop := h i (Nat.lt_succ_self i)
    calc x % 2 ^ (b * (i + 1)) + y % 2 ^ (b * (i + 1))
        = x % 2 ^ (b * i) + y % 2 ^ (b * i) + 2 ^ (b * i) * (lane b i x + lane b i y) := by
          rw [mod_lane, mod_lane]
          ring
      _ < 2 ^ (b * i) + 2 ^ (b * i) * (lane b i x + lane b i y) := Nat.add_lt_add_right hlow _
      _ = 2 ^ (b * i) * (lane b i x + lane b i y + 1) := by ring
      _ ≤ 2 ^ (b * i) * 2 ^ b := Nat.mul_le_mul_left _ htop
      _ = 2 ^ (b * (i + 1)) := by rw [Nat.mul_succ, pow_add]

theorem lane_add (h : ∀ j ≤ i, lane b j x + lane b j y < 2 ^ b) :
    lane b i (x + y) = lane b i x + lane b i y := by
  have hlow := mod_add_mod_lt fun j hj => h j (Nat.le_of_lt hj)
  have hdiv : (x + y) / 2 ^ (b * i) = x / 2 ^ (b * i) + y / 2 ^ (b * i) :=
    Nat.add_div_eq_of_add_mod_lt hlow
  rw [lane, hdiv, Nat.add_mod]
  exact Nat.mod_eq_of_lt (h i le_rfl)

theorem mod_mul_lt (h : ∀ j < i, lane b j x * y < 2 ^ b) :
    x % 2 ^ (b * i) * y < 2 ^ (b * i) := by
  induction i with
  | zero => simp [Nat.mod_one]
  | succ i ih =>
    have hlow := ih fun j hj => h j (hj.trans (Nat.lt_succ_self i))
    have htop := h i (Nat.lt_succ_self i)
    calc x % 2 ^ (b * (i + 1)) * y
        = x % 2 ^ (b * i) * y + 2 ^ (b * i) * (lane b i x * y) := by
          rw [mod_lane]
          ring
      _ < 2 ^ (b * i) + 2 ^ (b * i) * (lane b i x * y) := Nat.add_lt_add_right hlow _
      _ = 2 ^ (b * i) * (lane b i x * y + 1) := by ring
      _ ≤ 2 ^ (b * i) * 2 ^ b := Nat.mul_le_mul_left _ htop
      _ = 2 ^ (b * (i + 1)) := by rw [Nat.mul_succ, pow_add]

theorem lane_mul (h : ∀ j ≤ i, lane b j x * y < 2 ^ b) : lane b i (x * y) = lane b i x * y := by
  have hlow := mod_mul_lt fun j hj => h j (Nat.le_of_lt hj)
  have hsplit : x * y = x % 2 ^ (b * i) * y + 2 ^ (b * i) * (x / 2 ^ (b * i) * y) := by
    calc x * y = (x % 2 ^ (b * i) + 2 ^ (b * i) * (x / 2 ^ (b * i))) * y := by
          rw [Nat.mod_add_div]
      _ = _ := by ring
  have hdiv : x * y / 2 ^ (b * i) = x / 2 ^ (b * i) * y := by
    rw [hsplit, Nat.add_mul_div_left _ _ (by positivity), Nat.div_eq_of_lt hlow, Nat.zero_add]
  rw [lane, hdiv, ← Nat.mod_mul_mod]
  exact Nat.mod_eq_of_lt (h i le_rfl)

end Lanes

section Packed

variable {n : ℕ} (b k : ℕ)

/-- Addition in which none of the first `k` lanes carries. -/
def addLanes (x y : BitVec n) : Flagged (BitVec n) :=
  ⟨x + y, decide (x.toNat + y.toNat < 2 ^ n ∧
    ∀ i < k, lane b i x.toNat + lane b i y.toNat < 2 ^ b)⟩

/-- Multiplication by a scalar in which none of the first `k` lanes carries. -/
def mulLanes (x y : BitVec n) : Flagged (BitVec n) :=
  ⟨x * y, decide (x.toNat * y.toNat < 2 ^ n ∧ ∀ i < k, lane b i x.toNat * y.toNat < 2 ^ b)⟩

def mulAddLanes (acc : BitVec n) : List (BitVec n × BitVec n) → Flagged (BitVec n)
  | [] => pure acc
  | t :: ts => do
      let p ← mulLanes b k t.1 t.2
      let acc ← addLanes b k acc p
      mulAddLanes acc ts

def dotLanes : List (BitVec n × BitVec n) → Flagged (BitVec n)
  | [] => pure 0
  | t :: ts => do
      let acc ← mulLanes b k t.1 t.2
      mulAddLanes b k acc ts

/-- The exact sum of products in lane `i`. -/
def laneProducts (i : ℕ) (ts : List (BitVec n × BitVec n)) : ℕ :=
  (ts.map fun t => lane b i t.1.toNat * t.2.toNat).sum

variable {b k}

theorem laneProducts_cons (i : ℕ) (t : BitVec n × BitVec n) (ts : List (BitVec n × BitVec n)) :
    laneProducts b i (t :: ts) = lane b i t.1.toNat * t.2.toNat + laneProducts b i ts := by
  simp [laneProducts]

theorem ensures_addLanes {x y : BitVec n} (h : x.toNat + y.toNat < 2 ^ n)
    (hl : ∀ i < k, lane b i x.toNat + lane b i y.toNat < 2 ^ b) :
    (addLanes b k x y).Ensures fun z => z.toNat = x.toNat + y.toNat ∧
      ∀ i < k, lane b i z.toNat = lane b i x.toNat + lane b i y.toNat := by
  have hsum : (x + y).toNat = x.toNat + y.toNat := by
    rw [BitVec.toNat_add, Nat.mod_eq_of_lt h]
  refine ⟨decide_eq_true ⟨h, hl⟩, hsum, fun i hi => ?_⟩
  show lane b i (x + y).toNat = _
  rw [hsum]
  exact lane_add fun j hj => hl j (hj.trans_lt hi)

theorem ensures_mulLanes {x y : BitVec n} (h : x.toNat * y.toNat < 2 ^ n)
    (hl : ∀ i < k, lane b i x.toNat * y.toNat < 2 ^ b) :
    (mulLanes b k x y).Ensures fun z => z.toNat = x.toNat * y.toNat ∧
      ∀ i < k, lane b i z.toNat = lane b i x.toNat * y.toNat := by
  have hprod : (x * y).toNat = x.toNat * y.toNat := by
    rw [BitVec.toNat_mul, Nat.mod_eq_of_lt h]
  refine ⟨decide_eq_true ⟨h, hl⟩, hprod, fun i hi => ?_⟩
  show lane b i (x * y).toNat = _
  rw [hprod]
  exact lane_mul fun j hj => hl j (hj.trans_lt hi)

theorem ensures_mulAddLanes {acc : BitVec n} {ts : List (BitVec n × BitVec n)}
    (h : acc.toNat + products ts < 2 ^ n)
    (hl : ∀ i < k, lane b i acc.toNat + laneProducts b i ts < 2 ^ b) :
    (mulAddLanes b k acc ts).Ensures fun z =>
      ∀ i < k, lane b i z.toNat = lane b i acc.toNat + laneProducts b i ts := by
  induction ts generalizing acc with
  | nil => exact ensures_pure fun _ _ => rfl
  | cons t ts ih =>
    rw [products_cons] at h
    simp only [laneProducts_cons] at hl ⊢
    refine (ensures_mulLanes (by omega) fun i hi => ?_).bind fun p hp => ?_
    · have := hl i hi
      omega
    obtain ⟨hp, hpl⟩ := hp
    refine (ensures_addLanes (by omega) fun i hi => ?_).bind fun s hs => ?_
    · have := hl i hi
      rw [hpl i hi]
      omega
    obtain ⟨hs, hsl⟩ := hs
    refine (ih (by omega) fun i hi => ?_).mono fun z hz i hi => ?_
    · rw [hsl i hi, hpl i hi, Nat.add_assoc]
      exact hl i hi
    · rw [hz i hi, hsl i hi, hpl i hi, Nat.add_assoc]

theorem ensures_dotLanes {ts : List (BitVec n × BitVec n)} (h : products ts < 2 ^ n)
    (hl : ∀ i < k, laneProducts b i ts < 2 ^ b) :
    (dotLanes b k ts).Ensures fun z => ∀ i < k, lane b i z.toNat = laneProducts b i ts := by
  cases ts with
  | nil => exact ensures_pure fun i _ => by simp [laneProducts, lane]
  | cons t ts =>
    rw [products_cons] at h
    simp only [laneProducts_cons] at hl ⊢
    refine (ensures_mulLanes (by omega) fun i hi => ?_).bind fun p hp => ?_
    · have := hl i hi
      omega
    obtain ⟨hp, hpl⟩ := hp
    refine (ensures_mulAddLanes (by omega) fun i hi => ?_).mono fun z hz i hi => ?_
    · rw [hpl i hi]
      exact hl i hi
    · rw [hz i hi, hpl i hi]

end Packed

end Flagged

end Lib
