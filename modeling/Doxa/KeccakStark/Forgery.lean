import Doxa.KeccakStark.Trace

/-!
# Rows that are not made of bits

No constraint makes the columns of `C`, `A'` and of the bits of `A''` hold bits. Written in signs
`1 - 2 b`, the constraints on a row are products and sums: a column of `C'` is the product of
three of `C`, a limb of the input a sum over products of `A'`, `C` and `C'`, and where at most
one of three neighbours in `B` differs from zero, a sign of `A''` is half of that of `B`. With
most signs zero, a few positions of each lane suffice to reach every input, and other positions,
where `C` and `C'` are zero, to reach every value of the lanes `(x, 0)` of the output.
-/

namespace Doxa.KeccakStark

open Lib Lib.Keccak Circuit

/-! ## Rows from their columns -/

/-- The columns of a row behind those of its input. -/
structure Columns where
  c : Fin 5 → Fin 64 → F
  cPrime : Fin 5 → Fin 64 → F
  aPrime : Fin 5 → Fin 5 → Fin 64 → F
  aPrimePrime : Fin 5 → Fin 5 → Fin 2 → F
  bits : Fin 64 → F
  output : Fin 2 → F

namespace Columns

variable (cols : Columns) (base : Row F)

/-- The row with these columns and the other ones of `base`. -/
def row : Row F :=
  let row := writeCells (fun p => regC p.1 p.2) (fun _ p => cols.c p.1 p.2) cellsXZ base
  let row := writeCells (fun p => regCPrime p.1 p.2) (fun _ p => cols.cPrime p.1 p.2) cellsXZ row
  let row := writeCells (fun p => regAPrime p.1 p.2.1 p.2.2)
    (fun _ p => cols.aPrime p.1 p.2.1 p.2.2) cellsXYZ row
  let row := writeCells (fun p => regAPrimePrime p.1 p.2.1 + p.2.2.val)
    (fun _ p => cols.aPrimePrime p.1 p.2.1 p.2.2) cellsLimbs row
  let row := writeCells regAPrimePrime00Bit (fun _ => cols.bits) (List.finRange 64) row
  let row := Function.update row (regAPrimePrimePrime 0 0) (cols.output 0)
  Function.update row (regAPrimePrimePrime 0 0 + 1) (cols.output 1)

structure RowSpec (l : Row F) : Prop where
  base : ∀ k < START_C, l k = base k
  c : ∀ x z, l (regC x z) = cols.c x z
  cPrime : ∀ x z, l (regCPrime x z) = cols.cPrime x z
  aPrime : ∀ x y z, l (regAPrime x y z) = cols.aPrime x y z
  aPrimePrime : ∀ x y, l (regAPrimePrime x y) = cols.aPrimePrime x y 0 ∧
    l (regAPrimePrime x y + 1) = cols.aPrimePrime x y 1
  bits : ∀ z, l (regAPrimePrime00Bit z) = cols.bits z
  output : l (regAPrimePrimePrime 0 0) = cols.output 0 ∧
    l (regAPrimePrimePrime 0 0 + 1) = cols.output 1

theorem row_spec : cols.RowSpec base (cols.row base) := by
  let r₂ := writeCells (fun p => regC p.1 p.2) (fun _ p => cols.c p.1 p.2) cellsXZ base
  let r₃ := writeCells (fun p => regCPrime p.1 p.2) (fun _ p => cols.cPrime p.1 p.2) cellsXZ r₂
  let r₄ := writeCells (fun p => regAPrime p.1 p.2.1 p.2.2)
    (fun _ p => cols.aPrime p.1 p.2.1 p.2.2) cellsXYZ r₃
  let r₅ := writeCells (fun p => regAPrimePrime p.1 p.2.1 + p.2.2.val)
    (fun _ p => cols.aPrimePrime p.1 p.2.1 p.2.2) cellsLimbs r₄
  let r₆ := writeCells regAPrimePrime00Bit (fun _ => cols.bits) (List.finRange 64) r₅
  obtain ⟨hTA, hAC, hC, hCP, hAP, hAPP, hbits⟩ := starts
  have hreg : regAPrimePrimePrime 0 0 = REG_A_PRIME_PRIME_PRIME_0_0_LO := if_pos ⟨rfl, rfl⟩
  have hrow : cols.row base = Function.update (Function.update r₆ (regAPrimePrimePrime 0 0)
    (cols.output 0)) (regAPrimePrimePrime 0 0 + 1) (cols.output 1) := rfl
  have h₆ : ∀ k < REG_A_PRIME_PRIME_PRIME_0_0_LO, cols.row base k = r₆ k := fun k hk =>
    (Function.update_of_ne (by omega) _ _).trans (Function.update_of_ne (by omega) _ _)
  have h₅ : ∀ k < START_A_PRIME_PRIME_0_0_BITS, cols.row base k = r₅ k := fun k hk =>
    (h₆ k (hk.trans hbits)).trans (writeCells_of_forall_ne fun i _ => by
      have := (regAPrimePrime00Bit_mem i).1
      omega)
  have h₄ : ∀ k < START_A_PRIME_PRIME, cols.row base k = r₄ k := fun k hk =>
    (h₅ k (hk.trans hAPP)).trans (writeCells_of_forall_ne fun p _ => by
      have := (regAPrimePrime_mem p.1 p.2.1).1
      omega)
  have h₃ : ∀ k < START_A_PRIME, cols.row base k = r₃ k := fun k hk =>
    (h₄ k (hk.trans hAP)).trans (writeCells_of_forall_ne fun p _ => by
      have := (regAPrime_mem p.1 p.2.1 p.2.2).1
      omega)
  have h₂ : ∀ k < START_C_PRIME, cols.row base k = r₂ k := fun k hk =>
    (h₃ k (hk.trans hCP)).trans (writeCells_of_forall_ne fun p _ => by
      have := (regCPrime_mem p.1 p.2).1
      omega)
  have hbit : Function.Injective regAPrimePrime00Bit := by
    intro z z' hz
    simp only [regAPrimePrime00Bit] at hz
    exact Fin.ext (by omega)
  refine ⟨fun k hk => (h₂ k (hk.trans hC)).trans (writeCells_of_forall_ne fun p _ => ?_),
    fun x z => (h₂ _ (regC_mem x z).2).trans ?_, fun x z => (h₃ _ (regCPrime_mem x z).2).trans ?_,
    fun x y z => (h₄ _ (regAPrime_mem x y z).2).trans ?_, fun x y => ⟨?_, ?_⟩,
    fun z => (h₆ _ (regAPrimePrime00Bit_mem z).2).trans ?_, ?_, ?_⟩
  · have := (regC_mem p.1 p.2).1
    omega
  · exact writeCells_apply (i := (x, z)) regC_injective (fun _ _ _ => rfl)
      (List.pair_mem_product.mpr ⟨List.mem_finRange x, List.mem_finRange z⟩)
  · exact writeCells_apply (i := (x, z)) regCPrime_injective (fun _ _ _ => rfl)
      (List.pair_mem_product.mpr ⟨List.mem_finRange x, List.mem_finRange z⟩)
  · exact writeCells_apply (i := (x, y, z)) regAPrime_injective (fun _ _ _ => rfl)
      (mem_cellsXYZ x y z)
  · exact (h₅ _ (Nat.lt_of_succ_lt (regAPrimePrime_mem x y).2)).trans (writeCells_apply
      (i := (x, y, 0)) regAPrimePrime_injective (fun _ _ _ => rfl) (mem_cellsLimbs x y 0))
  · exact (h₅ _ (regAPrimePrime_mem x y).2).trans (writeCells_apply
      (i := (x, y, 1)) regAPrimePrime_injective (fun _ _ _ => rfl) (mem_cellsLimbs x y 1))
  · exact writeCells_apply hbit (fun _ _ _ => rfl) (List.mem_finRange z)
  · rw [hrow, Function.update_of_ne (Nat.succ_ne_self _).symm, Function.update_self]
  · rw [hrow, Function.update_self]

end Columns

/-! ## Signs -/

def half : F := 9223372034707292161

theorem two_mul_half : (2 : F) * half = 1 := by decide

/-- The element whose sign is `s`. -/
def ofSign (s : F) : F := (1 - s) * half

theorem xorGen_ofSign (s n : F) : xorGen (ofSign s) n = ofSign (s * (1 - 2 * n)) := by
  unfold xorGen ofSign
  linear_combination -n * two_mul_half

theorem xorGen_ofSign_ofSign (s t : F) : xorGen (ofSign s) (ofSign t) = ofSign (s * t) := by
  rw [xorGen_ofSign]
  unfold ofSign
  linear_combination s * (1 - t) * half * two_mul_half

/-- Where both neighbours have the sign zero, a sign is halved; the sign zero stays. -/
theorem chi_ofSign {s₀ s₁ s₂ : F} (h : s₀ = 0 ∨ (s₁ = 0 ∧ s₂ = 0)) :
    xorGen (ofSign s₀) (andnGen (ofSign s₁) (ofSign s₂)) = ofSign (s₀ * half) := by
  rw [xorGen_ofSign]
  rcases h with rfl | ⟨rfl, rfl⟩
  · rw [zero_mul, zero_mul]
  · have hquarter : (1 : F) - 2 * andnGen (ofSign 0) (ofSign 0) = half := by decide
    rw [hquarter]

theorem sum_ofSign (s : Fin 32 → F) :
    ∑ z, ofSign (s z) * 2 ^ z.val = (2 ^ 32 - 1 - ∑ z, s z * 2 ^ z.val) * half := by
  have hones : ∑ z : Fin 32, (2 : F) ^ z.val = 2 ^ 32 - 1 := by
    rw [Fin.sum_univ_eq_sum_range fun i => (2 : F) ^ i]
    have hgeom := geom_sum_mul (2 : F) 32
    rw [show (2 : F) - 1 = 1 by ring, mul_one] at hgeom
    exact hgeom
  rw [← hones, ← Finset.sum_sub_distrib, Finset.sum_mul]
  refine Finset.sum_congr rfl fun z _ => ?_
  unfold ofSign
  ring

/-! ## The signs of the row -/

/-- The unknowns of a forged row, for each limb. -/
structure Spikes where
  p : Fin 5 → Fin 2 → F
  q : Fin 5 → Fin 2 → F
  u : Fin 5 → Fin 5 → Fin 2 → F
  v : Fin 5 → Fin 5 → Fin 2 → F
  t : Fin 5 → Fin 2 → F

def limbOf (z : Fin 64) : Fin 2 := ⟨z.val / 32, by omega⟩

def limbPos (b : Fin 2) (w : Fin 32) : Fin 64 := ⟨32 * b.val + w.val, by omega⟩

/-- The limb `b` that the bits add up to. -/
def limbSum (bit : Fin 64 → F) (b : Fin 2) : F := ∑ w : Fin 32, bit (limbPos b w) * 2 ^ w.val

theorem computed_eq_limbSum (bit : Fin 64 → F) :
    computedLo bit = limbSum bit 0 ∧ computedHi bit = limbSum bit 1 := by
  have hlo : ∀ w, limbPos 0 w = lo w := fun w => Fin.ext (by simp [limbPos, lo])
  have hhi : ∀ w, limbPos 1 w = hi w := fun w => Fin.ext (by simp [limbPos, hi])
  simp only [limbSum, hlo, hhi, computedLo_eq, computedHi_eq, and_self]

theorem limbOf_limbPos (b : Fin 2) (w : Fin 32) : limbOf (limbPos b w) = b :=
  Fin.ext (by simp only [limbOf, limbPos]; omega)

theorem limbPos_mod (b : Fin 2) (w : Fin 32) : (limbPos b w).val % 32 = w.val := by
  simp only [limbPos]
  omega

theorem limbSum_ofSign (sign : Fin 64 → F) (b : Fin 2) :
    limbSum (fun z => ofSign (sign z)) b = (2 ^ 32 - 1 - limbSum sign b) * half :=
  sum_ofSign fun w => sign (limbPos b w)

/-- Signs at two positions of a limb. -/
theorem limbSum_two {sign : Fin 64 → F} {b : Fin 2} {a c : F}
    (h : ∀ w, sign (limbPos b w) = if w.val = 1 then a else if w.val = 5 then c else 0) :
    limbSum sign b = 2 * a + 32 * c := by
  have hterm : ∀ w : Fin 32, sign (limbPos b w) * 2 ^ w.val =
      (if w = ⟨1, by decide⟩ then a * 2 else 0) + if w = ⟨5, by decide⟩ then c * 32 else 0 := by
    intro w
    simp only [h, Fin.ext_iff]
    by_cases h1 : w.val = 1
    · rw [if_pos h1, if_pos h1, if_neg (by omega), h1]
      ring
    · by_cases h5 : w.val = 5
      · rw [if_neg h1, if_pos h5, if_neg h1, if_pos h5, h5]
        ring
      · rw [if_neg h1, if_neg h5, if_neg h1, if_neg h5]
        ring
  rw [limbSum, Finset.sum_congr rfl fun w _ => hterm w, Finset.sum_add_distrib,
    Finset.sum_ite_eq', Finset.sum_ite_eq', if_pos (Finset.mem_univ _), if_pos (Finset.mem_univ _)]
  ring

/-- The position in the limbs of lane `(x, 0)` of the output that is set freely. -/
def freePosition : Fin 5 → ℕ := ![2, 0, 3, 4, 6]

namespace Spikes

variable (s : Spikes)

/-- The signs of `C`. -/
def cSign (x : Fin 5) (z : Fin 64) : F :=
  if z.val % 32 = 0 then s.p (x + 4) (limbOf z)
  else if z.val % 32 = 1 then 1
  else if z.val % 32 = 4 then s.q (x + 4) (limbOf z)
  else if z.val % 32 = 5 then -1
  else 0

/-- The signs of `C'`. -/
def cPrimeSign (x : Fin 5) (z : Fin 64) : F :=
  if z.val % 32 = 1 then s.p x (limbOf z)
  else if z.val % 32 = 5 then s.q x (limbOf z)
  else 0

/-- The signs of `A'` that reach the input. -/
def inputSign (x y : Fin 5) (z : Fin 64) : F :=
  if z.val % 32 = 1 then s.u x y (limbOf z)
  else if z.val % 32 = 5 then s.v x y (limbOf z)
  else 0

/-- The signs of the lanes `(x, x)` of `A'` that reach the output. -/
def outputSign (x : Fin 5) (z : Fin 64) : F :=
  if (z + R x x).val % 32 = freePosition x then s.t x (limbOf (z + R x x)) else 0

/-- The signs of `A'`; what a lane `(x, x)` has for the output, its neighbour takes back. -/
def aPrimeSign (x y : Fin 5) (z : Fin 64) : F :=
  s.inputSign x y z + if y = x then s.outputSign x z
    else if y = x + 1 then -s.outputSign x z else 0

/-- The signs of `B` in the row `y = 0`. -/
def bSign (x : Fin 5) (z : Fin 64) : F := s.aPrimeSign x x (z - R x x)

/-- `C'` is the product of three of `C`. -/
theorem cSign_mul (x : Fin 5) (z : Fin 64) :
    s.cSign x z * (s.cSign (x + 4) z * s.cSign (x + 1) (z + 63)) = s.cPrimeSign x z := by
  have hx : x + 1 + 4 = x := by
    revert x
    decide
  have hbefore : z.val % 32 ≠ 0 → (z + 63).val = z.val - 1 := by
    revert z
    decide
  have hwrap : z.val % 32 = 0 → (z + 63).val % 32 = 31 := by
    revert z
    decide
  have hlimb : z.val % 32 ≠ 0 → limbOf (z + 63) = limbOf z := by
    intro h
    have hval := hbefore h
    exact Fin.ext (by simp only [limbOf, hval]; omega)
  by_cases h0 : z.val % 32 = 0
  · have hzero : s.cSign (x + 1) (z + 63) = 0 := by simp [cSign, hwrap h0]
    rw [hzero, mul_zero, mul_zero, cPrimeSign, if_neg (by omega), if_neg (by omega)]
  have hval := hbefore h0
  by_cases h1 : z.val % 32 = 1
  · have hnext : s.cSign (x + 1) (z + 63) = s.p x (limbOf z) := by
      rw [cSign, if_pos (by omega), hx, hlimb h0]
    have hone : ∀ x, s.cSign x z = 1 := fun x => by rw [cSign, if_neg h0, if_pos h1]
    rw [hone, hone, hnext, one_mul, one_mul, cPrimeSign, if_pos h1]
  by_cases h4 : z.val % 32 = 4
  · have hzero : s.cSign (x + 1) (z + 63) = 0 := by
      rw [cSign, if_neg (by omega), if_neg (by omega), if_neg (by omega), if_neg (by omega)]
    rw [hzero, mul_zero, mul_zero, cPrimeSign, if_neg h1, if_neg (by omega)]
  by_cases h5 : z.val % 32 = 5
  · have hnext : s.cSign (x + 1) (z + 63) = s.q x (limbOf z) := by
      rw [cSign, if_neg (by omega), if_neg (by omega), if_pos (by omega), hx, hlimb h0]
    have hone : ∀ x, s.cSign x z = -1 := fun x => by
      rw [cSign, if_neg h0, if_neg h1, if_neg h4, if_pos h5]
    rw [hone, hone, hnext, cPrimeSign, if_neg h1, if_pos h5]
    ring
  · rw [cSign, if_neg h0, if_neg h1, if_neg h4, if_neg h5, zero_mul, cPrimeSign, if_neg h1,
      if_neg h5]

/-- At the positions of the input the lanes have no sign for the output. -/
theorem outputSign_of_input (x : Fin 5) {z : Fin 64} (hz : z.val % 32 = 1 ∨ z.val % 32 = 5) :
    s.outputSign x z = 0 := by
  have hfree : ∀ (x : Fin 5) (z : Fin 64), z.val % 32 = 1 ∨ z.val % 32 = 5 →
      (z + R x x).val % 32 ≠ freePosition x := by decide
  rw [outputSign, if_neg (hfree x z hz)]

theorem aPrimeSign_of_input (x y : Fin 5) {z : Fin 64} (hz : z.val % 32 = 1 ∨ z.val % 32 = 5) :
    s.aPrimeSign x y z = s.inputSign x y z := by
  rw [aPrimeSign, s.outputSign_of_input x hz, neg_zero, ite_self, ite_self, add_zero]

/-- The signs of the input: products of those of `A'`, `C` and `C'`. -/
theorem limbSum_input (x y : Fin 5) (b : Fin 2) :
    limbSum (fun z => s.aPrimeSign x y z * (s.cSign x z * s.cPrimeSign x z)) b =
      2 * (s.u x y b * s.p x b) + 32 * (s.v x y b * -s.q x b) := by
  refine limbSum_two fun w => ?_
  have hmod := limbPos_mod b w
  by_cases h1 : w.val = 1
  · rw [if_pos h1, s.aPrimeSign_of_input x y (.inl (hmod.trans h1)), inputSign, cSign, cPrimeSign,
      hmod, limbOf_limbPos, if_pos h1, if_neg (by omega), if_pos h1, if_pos h1, one_mul]
  · rw [if_neg h1]
    by_cases h5 : w.val = 5
    · rw [if_pos h5, s.aPrimeSign_of_input x y (.inr (hmod.trans h5)), inputSign, cSign, cPrimeSign,
        hmod, limbOf_limbPos, if_neg h1, if_pos h5, if_neg (by omega), if_neg h1, if_neg (by omega),
        if_pos h5, if_neg h1, if_pos h5, neg_one_mul]
    · rw [if_neg h5, cPrimeSign, hmod, if_neg h1, if_neg h5, mul_zero, mul_zero]

/-- The signs of a column of `A'` add up to that of `C'`. -/
theorem sum_aPrimeSign (hu : ∀ x b, ∑ y, s.u x y b = s.p x b) (hv : ∀ x b, ∑ y, s.v x y b = s.q x b)
    (x : Fin 5) (z : Fin 64) : ∑ y, s.aPrimeSign x y z = s.cPrimeSign x z := by
  have hinput : ∑ y, s.inputSign x y z = s.cPrimeSign x z := by
    unfold inputSign cPrimeSign
    split
    · exact hu x _
    · split
      · exact hv x _
      · exact Finset.sum_const_zero
  have houtput : ∀ o : F, ∑ y, (if y = x then o else if y = x + 1 then -o else 0) = 0 := by
    intro o
    have hne : x + 1 ≠ x := (show ∀ x : Fin 5, x + 1 ≠ x by decide) x
    have hterm : ∀ y, (if y = x then o else if y = x + 1 then -o else 0) =
        (if y = x then o else 0) + if y = x + 1 then -o else 0 := by
      intro y
      by_cases hy : y = x
      · rw [if_pos hy, if_pos hy, if_neg fun h => hne (h.symm.trans hy), add_zero]
      · rw [if_neg hy, if_neg hy, zero_add]
    rw [Finset.sum_congr rfl fun y _ => hterm y, Finset.sum_add_distrib, Finset.sum_ite_eq',
      Finset.sum_ite_eq', if_pos (Finset.mem_univ _), if_pos (Finset.mem_univ _), add_neg_cancel]
  simp only [aPrimeSign, Finset.sum_add_distrib, hinput, houtput, add_zero]

/-- A lane of `B` with a sign that is not zero has neighbours with the sign zero. -/
theorem bSign_isolated (x : Fin 5) (z : Fin 64) :
    s.bSign x z = 0 ∨ (s.bSign (x + 1) z = 0 ∧ s.bSign (x + 2) z = 0) := by
  let hot : Fin 5 → Prop := fun x => (z - R x x).val % 32 = 1 ∨ (z - R x x).val % 32 = 5 ∨
    z.val % 32 = freePosition x
  have hcold : ∀ x, ¬hot x → s.bSign x z = 0 := by
    intro x hx
    rw [not_or, not_or] at hx
    obtain ⟨h1, h5, hfree⟩ := hx
    rw [bSign, aPrimeSign, if_pos rfl, inputSign, if_neg h1, if_neg h5, outputSign, sub_add_cancel,
      if_neg hfree, add_zero]
  have hisolated : ∀ (z : Fin 64) (x : Fin 5), ((z - R x x).val % 32 = 1 ∨
      (z - R x x).val % 32 = 5 ∨ z.val % 32 = freePosition x) →
      ¬((z - R (x + 1) (x + 1)).val % 32 = 1 ∨ (z - R (x + 1) (x + 1)).val % 32 = 5 ∨
        z.val % 32 = freePosition (x + 1)) ∧
      ¬((z - R (x + 2) (x + 2)).val % 32 = 1 ∨ (z - R (x + 2) (x + 2)).val % 32 = 5 ∨
        z.val % 32 = freePosition (x + 2)) := by decide
  by_cases hx : hot x
  · exact .inr ⟨hcold _ (hisolated z x hx).1, hcold _ (hisolated z x hx).2⟩
  · exact .inl (hcold x hx)

/-- The signs of a limb of the output, up to a factor. -/
theorem limbSum_bSign (x : Fin 5) (b : Fin 2) : limbSum (s.bSign x) b =
    limbSum (fun z => s.inputSign x x (z - R x x)) b + s.t x b * 2 ^ freePosition x := by
  have hlt : freePosition x < 32 := by
    revert x
    decide
  have hterm : ∀ w : Fin 32, s.bSign x (limbPos b w) * 2 ^ w.val =
      s.inputSign x x (limbPos b w - R x x) * 2 ^ w.val +
        if w = ⟨freePosition x, hlt⟩ then s.t x b * 2 ^ w.val else 0 := by
    intro w
    rw [bSign, aPrimeSign, if_pos rfl, outputSign, sub_add_cancel, limbPos_mod, limbOf_limbPos,
      add_mul, ite_mul, zero_mul]
    congr 1
    exact if_congr ⟨fun h => Fin.ext h, fun h => congrArg Fin.val h⟩ rfl rfl
  rw [limbSum, Finset.sum_congr rfl fun w _ => hterm w, Finset.sum_add_distrib, Finset.sum_ite_eq',
    if_pos (Finset.mem_univ _)]
  rfl

end Spikes

/-! ## Solving for the unknowns -/

theorem exists_squares (j : F) : ∃ p q : F, 2 * p ^ 2 - 32 * q ^ 2 = j ∧ p ≠ 0 := by
  by_cases hj : j = -2
  · refine ⟨3 * half ^ 2, -5 * half ^ 4, ?_, by decide⟩
    rw [hj]
    decide
  · have hfactor : 32 * half ^ 8 = 2 * half ^ 4 := by decide
    have height : 2 * half ^ 4 * 8 = 1 := by decide
    refine ⟨(2 + j) * half ^ 2, (j - 2) * half ^ 4, ?_, ?_⟩
    · linear_combination -(j - 2) ^ 2 * hfactor + j * height
    · exact mul_ne_zero (fun h => hj (by linear_combination h)) (by decide)

/-- One of five numbers is adjusted to their sum, the others to the quotients. -/
theorem exists_quotients {p q : F} (i : Fin 5 → F) (hp : p ≠ 0)
    (h : 2 * p ^ 2 - 32 * q ^ 2 = ∑ y, i y) : ∃ u v : Fin 5 → F,
      (∑ y, u y = p) ∧ (∑ y, v y = q) ∧ ∀ y, 2 * (u y * p) + 32 * (v y * -q) = i y := by
  have hdiv : ∀ y, 2 * (i y * half / p * p) = i y := fun y => by
    rw [div_mul_cancel₀ _ hp]
    linear_combination i y * two_mul_half
  have h0 : ¬(0 : Fin 5) = 4 := by decide
  have h1 : ¬(1 : Fin 5) = 4 := by decide
  have h2 : ¬(2 : Fin 5) = 4 := by decide
  have h3 : ¬(3 : Fin 5) = 4 := by decide
  let r := i 0 * half / p + i 1 * half / p + i 2 * half / p + i 3 * half / p
  refine ⟨fun y => if y = 4 then p - r else i y * half / p, fun y => if y = 4 then q else 0,
    ?_, ?_, fun y => ?_⟩
  · simp only [Fin.sum_univ_five, h0, h1, h2, h3, if_true, if_false]
    exact add_sub_cancel _ _
  · simp only [Fin.sum_univ_five, h0, h1, h2, h3, if_true, if_false, zero_add]
  · by_cases hy : y = 4
    · subst hy
      rw [Fin.sum_univ_five] at h
      simp only [if_true, r]
      linear_combination h - hdiv 0 - hdiv 1 - hdiv 2 - hdiv 3
    · simp only [if_neg hy]
      linear_combination hdiv y

/-- The unknowns for an input, given by the signs `i` of its limbs, and an output, given by the
signs `o` of limbs. -/
theorem exists_spikes (i : Fin 5 → Fin 5 → Fin 2 → F) (o : Fin 5 → Fin 2 → F) : ∃ s : Spikes,
    (∀ x b, ∑ y, s.u x y b = s.p x b) ∧ (∀ x b, ∑ y, s.v x y b = s.q x b) ∧
    (∀ x y b, 2 * (s.u x y b * s.p x b) + 32 * (s.v x y b * -s.q x b) = i x y b) ∧
    ∀ x b, limbSum (s.bSign x) b = o x b := by
  choose p q hpq hp using fun x b => exists_squares (∑ y, i x y b)
  choose u v hu hv huv using fun x b => exists_quotients (fun y => i x y b) (hp x b) (hpq x b)
  let spikes : (Fin 5 → Fin 2 → F) → Spikes :=
    fun t => ⟨p, q, fun x y b => u x b y, fun x y b => v x b y, t⟩
  let known : Fin 5 → Fin 2 → F := fun x b =>
    limbSum (fun z => (spikes fun _ _ => 0).inputSign x x (z - R x x)) b
  have hknown : ∀ t x b, limbSum ((spikes t).bSign x) b = known x b + t x b * 2 ^ freePosition x :=
    fun t x b => (spikes t).limbSum_bSign x b
  have hpow : ∀ x, (2 : F) ^ freePosition x ≠ 0 := fun x =>
    pow_ne_zero _ (show (2 : F) ≠ 0 by decide)
  refine ⟨spikes fun x b => (o x b - known x b) / 2 ^ freePosition x, hu, hv,
    fun x y b => huv x b y, fun x b => ?_⟩
  rw [hknown, div_mul_cancel₀ _ (hpow x)]
  exact add_sub_cancel _ _

/-! ## The row -/

/-- The columns with given signs; the bits of `A''` are those of `w`, and the output is `d`. -/
def Spikes.columns (s : Spikes) (w d : BitVec 64) : Columns :=
  let b := fun x y z => ofSign (s.aPrimeSign (x + 3 * y) x (z - R (x + 3 * y) x))
  let chi := fun x y z => xorGen (b x y z) (andnGen (b (x + 1) y z) (b (x + 2) y z))
  { c := fun x z => ofSign (s.cSign x z)
    cPrime := fun x z => ofSign (s.cPrimeSign x z)
    aPrime := fun x y z => ofSign (s.aPrimeSign x y z)
    aPrimePrime := fun x y => limbSum (chi x y)
    bits := fun z => fromBool (w.getLsbD z.val)
    output := fun limb => if limb = 0 then wordTarget (d.setWidth 32)
      else wordTarget ((d >>> 32).setWidth 32) }

/-- The limbs of a lane. -/
def laneLimb (w : BitVec 64) (b : Fin 2) : F :=
  if b = 0 then wordTarget (w.setWidth 32) else wordTarget ((w >>> 32).setWidth 32)

section Forged

variable {s : Spikes} {w d : BitVec 64} {base l : Row F} {r : ℕ}

theorem forged_inputBit (h : (s.columns w d).RowSpec base l) (x y : Fin 5) :
    inputBit l x y = fun z => ofSign (s.aPrimeSign x y z * (s.cSign x z * s.cPrimeSign x z)) := by
  funext z
  rw [inputBit, h.aPrime, h.c, h.cPrime, xor3Gen]
  simp only [Spikes.columns, xorGen_ofSign_ofSign]

/-- The bits of lane `(x, 0)` of `A''` have half the signs of `B`. -/
theorem forged_chiBit (h : (s.columns w d).RowSpec base l) (x : Fin 5) :
    chiBit l x 0 = fun z => ofSign (s.bSign x z * half) := by
  have hB : ∀ x z, l (regB x 0 z) = ofSign (s.bSign x z) := by
    intro x z
    have hreg : regB x 0 z = regAPrime x x (z - R x x) := by
      have hx : x + 3 * 0 = x := by rw [mul_zero, add_zero]
      rw [regB, hx]
    rw [hreg, h.aPrime]
    rfl
  funext z
  rw [chiBit, hB, hB, hB, chi_ofSign (s.bSign_isolated x z)]

theorem forged_aPrimePrime (h : (s.columns w d).RowSpec base l) (x y : Fin 5) :
    computedLo (chiBit l x y) = l (regAPrimePrime x y) ∧
      computedHi (chiBit l x y) = l (regAPrimePrime x y + 1) := by
  have hchi : limbSum (chiBit l x y) = (s.columns w d).aPrimePrime x y := by
    have hB : ∀ x y z, l (regB x y z) =
        ofSign (s.aPrimeSign (x + 3 * y) x (z - R (x + 3 * y) x)) := fun x y z => h.aPrime _ _ _
    funext b
    simp only [limbSum, chiBit, hB]
    rfl
  obtain ⟨hlo, hhi⟩ := computed_eq_limbSum (chiBit l x y)
  rw [hlo, hhi, hchi, (h.aPrimePrime x y).1, (h.aPrimePrime x y).2]
  exact ⟨rfl, rfl⟩

theorem forged_parityDiff (h : (s.columns w d).RowSpec base l) (x : Fin 5) (z : Fin 64)
    (hsum : ∑ y, s.aPrimeSign x y z = s.cPrimeSign x z) : parityDiff l x z = 2 := by
  have hlist : List.finRange 5 = [0, 1, 2, 3, 4] := by decide
  rw [Fin.sum_univ_five] at hsum
  rw [parityDiff, h.cPrime, hlist]
  simp only [List.map_cons, List.map_nil, h.aPrime, List.sum_cons, List.sum_nil, Spikes.columns,
    ofSign]
  linear_combination -half * hsum + 2 * two_mul_half

end Forged

/-- Whatever the input, the flag of a round and the lanes `(x, 0)` of the output are, some row
satisfies the constraints of the round. -/
theorem exists_forged {base : Row F} {r : ℕ} (hr : r < 24) (hstep : OneHot NUM_ROUNDS (flags base) r)
    (d : Fin 5 → BitVec 64) : ∃ l : Row F, RoundHolds l ∧ (∀ k < START_C, l k = base k) ∧
      ∀ x, LimbsAre l (regAPrimePrimePrime x 0) (d x) := by
  -- lane `(0, 0)` before the last step
  let w : Fin 5 → BitVec 64 := fun x => if x = 0 then d 0 ^^^ roundConstant r else d x
  obtain ⟨s, hu, hv, hin, hout⟩ := exists_spikes
    (fun x y b => 2 ^ 32 - 1 - 2 * base (regA x y + b.val))
    (fun x b => 2 * (2 ^ 32 - 1 - 2 * laneLimb (w x) b))
  let l := (s.columns (w 0) (d 0)).row base
  have hl : (s.columns (w 0) (d 0)).RowSpec base l := (s.columns (w 0) (d 0)).row_spec base
  have hinput : ∀ x y b, limbSum (inputBit l x y) b = base (regA x y + b.val) := by
    intro x y b
    rw [forged_inputBit hl, limbSum_ofSign, s.limbSum_input, hin]
    linear_combination base (regA x y + b.val) * two_mul_half
  have hchi : ∀ x b, limbSum (chiBit l x 0) b = laneLimb (w x) b := by
    intro x b
    have hhalf : limbSum (fun z => s.bSign x z * half) b = limbSum (s.bSign x) b * half := by
      rw [limbSum, limbSum, Finset.sum_mul]
      exact Finset.sum_congr rfl fun w _ => by ring
    rw [forged_chiBit hl, limbSum_ofSign, hhalf, hout]
    linear_combination (laneLimb (w x) b * (1 + 2 * half) - (2 ^ 32 - 1) * half) * two_mul_half
  have hlanes : ∀ x, LimbsAre l (regAPrimePrime x 0) (w x) := by
    intro x
    obtain ⟨hlo, hhi⟩ := forged_aPrimePrime hl x 0
    rw [(computed_eq_limbSum _).1, hchi] at hlo
    rw [(computed_eq_limbSum _).2, hchi] at hhi
    exact ⟨hlo.symm, hhi.symm⟩
  have hbits : ∀ z, l (regAPrimePrime00Bit z) = fromBool ((w 0).getLsbD z.val) := hl.bits
  have hxored : xoredBit l = fun z => fromBool ((d 0).getLsbD z.val) := by
    funext z
    have hflags : OneHot NUM_ROUNDS (flags l) r := fun j hj =>
      (hl.base (regStep j) (by
        have := starts
        unfold regStep
        unfold TIMESTAMP at this
        omega)).trans (hstep j hj)
    have hw : w 0 = d 0 ^^^ roundConstant r := if_pos rfl
    rw [xoredBit, hbits, rcBit_eq hr hflags, xorGen_fromBool, hw, BitVec.getLsbD_xor, Bool.xor_assoc,
      Bool.xor_self, Bool.xor_false]
  have hzero : LimbsAre l (regAPrimePrimePrime 0 0) (d 0) := ⟨hl.output.1, hl.output.2⟩
  have hA : ∀ x y, regA x y < START_C := fun x y => Nat.lt_of_succ_lt (regA_mem x y).2
  refine ⟨l, ⟨fun x z => ?_, fun x y => ?_, fun x y => ?_, fun x z => ?_,
    fun x y => (forged_aPrimePrime hl x y).1, fun x y => (forged_aPrimePrime hl x y).2, ?_, ?_, ?_,
    ?_⟩, hl.base, fun x => ?_⟩
  · rw [hl.cPrime, hl.c, hl.c, hl.c, xor3Gen]
    simp only [Spikes.columns, xorGen_ofSign_ofSign, s.cSign_mul]
  · rw [(computed_eq_limbSum _).1, hinput, hl.base _ (hA x y)]
    rfl
  · rw [(computed_eq_limbSum _).2, hinput, hl.base _ (regA_mem x y).2]
    rfl
  · rw [forged_parityDiff hl x z (s.sum_aPrimeSign hu hv x z)]
    ring
  · simp only [hbits, computedLo_fromBool, (hlanes 0).1]
  · simp only [hbits, computedHi_fromBool, (hlanes 0).2]
  · rw [hxored, computedLo_fromBool, hzero.1]
  · rw [hxored, computedHi_fromBool, hzero.2]
  · by_cases hx : x = 0
    · subst hx
      exact hzero
    · have hw : w x = d x := if_neg hx
      rw [regAPrimePrimePrime, if_neg fun h => hx h.1, ← hw]
      exact hlanes x

end Doxa.KeccakStark
