import Doxa.Circuit.DoubleAdd

/-!
# `compute_gate_witness`

The witness generator of the double-and-add gate computes on points with an explicit flag
for infinity. It panics where it would divide by zero, where a doubled accumulator has the
`x` of the point although that is not added, and for other last bits in the last gate.
-/

namespace Doxa.Circuit

open Lib WeierstrassCurve.Affine

/-! ## The steps of a gate -/

/-- The accumulators of a gate. -/
def doubleAddSteps (P A : PointEw) (sp sg : Fin 4 → Bool) : ℕ → PointEw
  | 0 => A
  | k + 1 => doubleAddStep P (doubleAddSteps P A sp sg k) (sp (Fin.ofNat 4 k)) (sg (Fin.ofNat 4 k))

/-- No step of the gate is exceptional. -/
def NonExceptional (P A : PointEw) (sp sg : Fin 4 → Bool) : Prop :=
  ∀ k : Fin 4, RegularStep P (doubleAddSteps P A sp sg k) (sp k) (sg k)

theorem doubleAddSteps_four (P A : PointEw) (sp sg : Fin 4 → Bool) :
    doubleAddSteps P A sp sg 4 = 16 • A +
      ∑ k : Fin 4, 2 ^ (3 - k.val) • ((sp k).toNat • P + (sg k).toNat • generator) := by
  have h0 : Fin.ofNat 4 0 = 0 := rfl
  have h1 : Fin.ofNat 4 1 = 1 := rfl
  have h2 : Fin.ofNat 4 2 = 2 := rfl
  have h3 : Fin.ofNat 4 3 = 3 := rfl
  simp only [doubleAddSteps, doubleAddStep, Fin.sum_univ_four, h0, h1, h2, h3]
  show _ = 16 • A + (2 ^ 3 • _ + 2 ^ 2 • _ + 2 ^ 1 • _ + 2 ^ 0 • _)
  generalize (sp 0).toNat • P = p0, (sp 1).toNat • P = p1, (sp 2).toNat • P = p2,
    (sp 3).toNat • P = p3, (sg 0).toNat • generator = g0, (sg 1).toNat • generator = g1,
    (sg 2).toNat • generator = g2, (sg 3).toNat • generator = g3
  abel

/-- The inputs of a gate that is not the last one. -/
structure DoubleAdd4xTargets.HasInputs (t : DoubleAdd4xTargets) (p accin : LocalPointEw)
    (sp sg : Fin 4 → Bool) : Prop where
  p : t.p = p
  accin : t.accin = accin
  sp : ∀ k, t.sp k = ((sp k).toNat : F)
  sg : ∀ k, t.sg k = ((sg k).toNat : F)
  lgs : t.lgs = 0

section Outputs

variable {t : DoubleAdd4xTargets} {p accin : LocalPointEw} {P A : PointEw} {sp sg : Fin 4 → Bool}

theorem DoubleAdd4xTargets.HasInputs.chain_iff (h : t.HasInputs p accin sp sg) (k : Fin 4) :
    DoubleAccChain (t.accDbl k) t.p (t.second k) (t.accOut k) (t.lambda k) (t.sp k) (t.sg k) ↔
      DoubleAccChain (t.accDbl k) p generatorPoint (t.accOut k) (t.lambda k) ((sp k).toNat : F)
        ((sg k).toNat : F) := by
  have hsecond : t.second k = generatorPoint := by
    unfold DoubleAdd4xTargets.second
    rw [h.lgs, lastPoint_zero, ite_self]
  rw [h.p, h.sp, h.sg, hsecond]

/-- The parts of the gate when it is not the last one. -/
theorem DoubleAdd4xTargets.satisfied_iff (hlgs : t.lgs = 0) : t.Satisfied ↔ ∀ k : Fin 4,
    P2DoubleOfP1 1 (t.accIn k) (t.accDbl k) ∧
      DoubleAccChain (t.accDbl k) t.p (t.second k) (t.accOut k) (t.lambda k) (t.sp k) (t.sg k) := by
  constructor
  · intro h k
    exact ⟨h.double hlgs k, h.chain k⟩
  · intro h
    refine ⟨(h 0).1, (h 1).1, (h 2).1, ?_, ?_, ?_, (h 0).2, (h 1).2, (h 2).2, (h 3).2⟩
    · rw [hlgs, zero_mul]
    · rw [hlgs, sub_zero]
      exact (h 3).1
    · rw [hlgs]
      exact ⟨assertEqual_zero _ _, assertEqual_zero _ _⟩

/-- The accumulator before step `k` of a satisfied gate. -/
theorem DoubleAdd4xTargets.Satisfied.steps_hold (h : t.Satisfied) (hin : t.HasInputs p accin sp sg)
    (hp : p.Holds P) (hacc : accin.Holds A) (hreg : NonExceptional P A sp sg) (k : Fin 4) :
    (t.accIn k).Holds (doubleAddSteps P A sp sg k) ∧
      (t.accOut k).Holds (doubleAddSteps P A sp sg (k + 1)) := by
  have hstep : ∀ k : Fin 4, (t.accIn k).Holds (doubleAddSteps P A sp sg k) →
      (t.accOut k).Holds (doubleAddSteps P A sp sg (k + 1)) := by
    intro k hk
    have hout := (gateStep_holds (hreg k) hk hp (h.double hin.lgs k)
      ((hin.chain_iff k).mp (h.chain k))).2
    have hk4 : Fin.ofNat 4 k = k := Fin.ofNat_val_eq_self k
    rw [doubleAddSteps, hk4]
    exact hout
  have h0 : (t.accIn 0).Holds (doubleAddSteps P A sp sg 0) := by
    show t.accin.Holds A
    rwa [hin.accin]
  have h1 := hstep 0 h0
  have h2 := hstep 1 h1
  have h3 := hstep 2 h2
  have h4 := hstep 3 h3
  match k with
  | 0 => exact ⟨h0, h1⟩
  | 1 => exact ⟨h1, h2⟩
  | 2 => exact ⟨h2, h3⟩
  | 3 => exact ⟨h3, h4⟩

/-- The wires of a gate from the values of its steps. -/
def DoubleAdd4xTargets.ofSteps (p accin : LocalPointEw) (sp sg : Fin 4 → F) (lgs : F)
    (dbl out : Fin 4 → LocalPointEw) (lambda : Fin 4 → QuinticExtension) : DoubleAdd4xTargets where
  p := p
  accin := accin
  acco4 := out 3
  sp := sp
  sg := sg
  lgs := lgs
  acco1 := out 0
  acco2 := out 1
  acco3 := out 2
  accdblin := dbl 0
  accdblo1 := dbl 1
  accdblo2 := dbl 2
  accdblo3 := dbl 3
  lambda1 := lambda 0
  lambda2 := lambda 1
  lambda3 := lambda 2
  lambda4 := lambda 3

/-- The points of the steps, with the slopes of the first additions, satisfy the gate. -/
theorem ofSteps_satisfied {dbl out : Fin 4 → LocalPointEw} {lambda : Fin 4 → QuinticExtension}
    (hp : p.Holds P) (hacc : accin.Holds A) (hreg : NonExceptional P A sp sg)
    (hdbl : ∀ k : Fin 4, (dbl k).Holds (doubleAddSteps P A sp sg k + doubleAddSteps P A sp sg k))
    (hout : ∀ k : Fin 4, (out k).Holds (doubleAddSteps P A sp sg (k + 1)))
    (hlambda : ∀ k, sp k = true → sg k = true →
      lambda k * (p.x - (dbl k).x) = p.y - (dbl k).y) :
    (DoubleAdd4xTargets.ofSteps p accin (fun k => ((sp k).toNat : F))
      (fun k => ((sg k).toNat : F)) 0 dbl out lambda).Satisfied := by
  have hin : (DoubleAdd4xTargets.ofSteps p accin (fun k => ((sp k).toNat : F))
      (fun k => ((sg k).toNat : F)) 0 dbl out lambda).HasInputs p accin sp sg :=
    ⟨rfl, rfl, fun _ => rfl, fun _ => rfl, rfl⟩
  have hstep : ∀ k : Fin 4, ∀ acc : LocalPointEw, acc.Holds (doubleAddSteps P A sp sg k) →
      P2DoubleOfP1 1 acc (dbl k) ∧ DoubleAccChain (dbl k) p generatorPoint (out k) (lambda k)
        ((sp k).toNat : F) ((sg k).toNat : F) := by
    intro k acc hk
    have hk4 : Fin.ofNat 4 k = k := Fin.ofNat_val_eq_self k
    have houtk := hout k
    rw [doubleAddSteps, hk4] at houtk
    exact ⟨(p2Double_iff hk (hreg k).double).mpr (hdbl k),
      gateStep_chain (hreg k) hp (hdbl k) (hlambda k) houtk⟩
  refine (DoubleAdd4xTargets.satisfied_iff rfl).mpr fun k => ?_
  rw [hin.chain_iff]
  match k with
  | 0 => exact hstep 0 accin hacc
  | 1 => exact hstep 1 (out 0) (hout 0)
  | 2 => exact hstep 2 (out 1) (hout 1)
  | 3 => exact hstep 3 (out 2) (hout 2)

/-- The outputs of a gate are the points of its steps. -/
theorem outputs_iff (hp : p.Holds P) (hacc : accin.Holds A) (hreg : NonExceptional P A sp sg)
    (outs : Fin 4 → LocalPointEw) :
    (∃ t : DoubleAdd4xTargets, t.HasInputs p accin sp sg ∧ t.accOut = outs ∧ t.Satisfied) ↔
      ∀ k : Fin 4, (outs k).Holds (doubleAddSteps P A sp sg (k + 1)) := by
  constructor
  · rintro ⟨t, hin, rfl, ht⟩ k
    exact (ht.steps_hold hin hp hacc hreg k).2
  · intro hout
    have hins : ∀ k : Fin 4, ∃ acc : LocalPointEw, acc.Holds (doubleAddSteps P A sp sg k) := by
      intro k
      match k with
      | 0 => exact ⟨accin, hacc⟩
      | 1 => exact ⟨outs 0, hout 0⟩
      | 2 => exact ⟨outs 1, hout 1⟩
      | 3 => exact ⟨outs 2, hout 2⟩
    choose ins hins using hins
    choose dbl hdbl _ using fun k => p2Double_exists (hins k) (hreg k).double
    refine ⟨.ofSteps p accin _ _ 0 dbl outs fun k => slope (dbl k) p,
      ⟨rfl, rfl, fun _ => rfl, fun _ => rfl, rfl⟩, ?_, ofSteps_satisfied hp hacc hreg hdbl hout
        fun k hsp _ => slope_mul (((hdbl k).xCoord_ne_iff hp).mp ((hreg k).first hsp))⟩
    funext k
    match k with
    | 0 | 1 | 2 | 3 => rfl

end Outputs

/-! ## The generator -/

/-- A point as the code keeps it: coordinates and a flag for infinity. -/
structure EwPoint where
  x : QuinticExtension
  y : QuinticExtension
  atInf : Bool
  deriving DecidableEq

namespace EwPoint

def neutral : EwPoint := ⟨0, 0, true⟩

/-- Panics where the tangent is vertical. -/
def double (p : EwPoint) : Option EwPoint :=
  let num := p.x * p.x * 3 + ECGFP5_CAP_A
  let den := p.y * 2
  if den = 0 then none
  else
    let lambda := num / den
    let x3 := lambda * lambda - p.x - p.x
    some ⟨x3, lambda * (p.x - x3) - p.y, false⟩

/-- The points have different `x`. -/
def addIncomplete (p q : EwPoint) : EwPoint :=
  let lambda := (q.y - p.y) / (q.x - p.x)
  let x3 := lambda * lambda - p.x - q.x
  ⟨x3, lambda * (p.x - x3) - p.y, false⟩

def add (p q : EwPoint) : Option EwPoint :=
  if p.atInf then some q
  else if q.atInf then some p
  else if p.x = q.x then
    if p.y = q.y then p.double else some neutral
  else some (p.addIncomplete q)

/-- Panics for points with one `x`. -/
def tangent (p q : EwPoint) : Option QuinticExtension :=
  if p.x = q.x then none else some ((q.y - p.y) / (q.x - p.x))

def toLocal (p : EwPoint) : LocalPointEw := ⟨p.x, p.y⟩

def ofLocal (p : LocalPointEw) : EwPoint := ⟨p.x, p.y, false⟩

end EwPoint

/-- One step of `compute_gate_witness`: the doubled accumulator, the new one and the slope. -/
def gateWitnessStep (p : EwPoint) (isLast : Bool) (acc : EwPoint) (spi sgi : F) (index : Fin 4) :
    Option (EwPoint × EwPoint × QuinticExtension) := do
  let accdbl ← if isLast && index = 3 then some acc else acc.double
  let p2 := EwPoint.ofLocal (if isLast && index = 3 then offsetNeg319 else generatorPoint)
  let lambda ← accdbl.tangent p
  let acco ← match decide (spi = 1), decide (sgi = 1) with
    | false, false => some accdbl
    | true, false => accdbl.add p
    | false, true => accdbl.add p2
    | true, true => accdbl.add p >>= fun sum => sum.add p2
  some (accdbl, acco, lambda)

structure DoubleAdd4xGateWitness where
  accdblin : EwPoint
  acco1 : EwPoint
  accdblo1 : EwPoint
  acco2 : EwPoint
  accdblo2 : EwPoint
  acco3 : EwPoint
  accdblo3 : EwPoint
  acco4 : EwPoint
  lambda1 : QuinticExtension
  lambda2 : QuinticExtension
  lambda3 : QuinticExtension
  lambda4 : QuinticExtension

def computeGateWitness (sp sg : Fin 4 → F) (p accin : EwPoint) (isLast : Bool) :
    Option DoubleAdd4xGateWitness := do
  if isLast ∧ ¬ (sp 3 = 0 ∧ sg 3 = 1) then none
  else
    let (accdblin, acco1, lambda1) ← gateWitnessStep p isLast accin (sp 0) (sg 0) 0
    let (accdblo1, acco2, lambda2) ← gateWitnessStep p isLast acco1 (sp 1) (sg 1) 1
    let (accdblo2, acco3, lambda3) ← gateWitnessStep p isLast acco2 (sp 2) (sg 2) 2
    let (accdblo3, acco4, lambda4) ← gateWitnessStep p isLast acco3 (sp 3) (sg 3) 3
    some { accdblin, acco1, accdblo1, acco2, accdblo2, acco3, accdblo3, acco4, lambda1, lambda2,
           lambda3, lambda4 }

/-- `set_dbladd4x_gate_witness`: the wires that are assigned. -/
def DoubleAdd4xGateWitness.targets (w : DoubleAdd4xGateWitness) (p accin : EwPoint)
    (sp sg : Fin 4 → F) (lgs : Bool) : DoubleAdd4xTargets :=
  .ofSteps p.toLocal accin.toLocal sp sg (if lgs then 1 else 0)
    ![w.accdblin.toLocal, w.accdblo1.toLocal, w.accdblo2.toLocal, w.accdblo3.toLocal]
    ![w.acco1.toLocal, w.acco2.toLocal, w.acco3.toLocal, w.acco4.toLocal]
    ![w.lambda1, w.lambda2, w.lambda3, w.lambda4]

section Spec

variable {a b p accin : LocalPointEw} {A B P : PointEw} {sp sg : Bool}

theorem EwPoint.double_ofLocal (h : a.Holds A) (hA : YNonzero A) :
    ∃ d : LocalPointEw, (EwPoint.ofLocal a).double = some (.ofLocal d) ∧ d.Holds (A + A) := by
  have hy : a.y ≠ 0 := by
    obtain ⟨h, rfl⟩ := h
    exact hA
  have hden : a.y * 2 ≠ 0 := mul_ne_zero hy ecgfp5.two_ne_zero
  obtain ⟨lambda, hdef⟩ : ∃ l, (a.x * a.x * 3 + ECGFP5_CAP_A) / (a.y * 2) = l := ⟨_, rfl⟩
  have hlambda : lambda * (a.y * 2) = a.x * a.x * 3 + ECGFP5_CAP_A := by
    rw [← hdef, div_mul_cancel₀ _ hden]
  let d : LocalPointEw := ⟨lambda * lambda - a.x - a.x,
    lambda * (a.x - (lambda * lambda - a.x - a.x)) - a.y⟩
  have hdouble : P2DoubleOfP1 1 a d := by
    refine ⟨assertEqual_of_eq ?_, assertEqual_of_eq ?_⟩
    · show (lambda * lambda - a.x - a.x + a.x + a.x) * (a.y * 2) ^ 2 = _
      linear_combination (lambda * (a.y * 2) + (a.x * a.x * 3 + ECGFP5_CAP_A)) * hlambda
    · show (lambda * (a.x - (lambda * lambda - a.x - a.x)) - a.y + a.y) * _ = _
      linear_combination (3 * a.x * (a.y * 2) ^ 2 - (lambda * (a.y * 2)) ^ 2 -
        lambda * (a.y * 2) * (a.x * a.x * 3 + ECGFP5_CAP_A) -
        (a.x * a.x * 3 + ECGFP5_CAP_A) ^ 2) * hlambda
  refine ⟨d, ?_, (p2Double_iff h hA).mp hdouble⟩
  simp only [EwPoint.double, EwPoint.ofLocal, if_neg hden, hdef, d]

theorem EwPoint.add_ofLocal (hx : a.x ≠ b.x) : (EwPoint.ofLocal a).add (.ofLocal b) =
    some (.ofLocal (slopeSum a b (slope a b))) := by
  have hincomplete : (EwPoint.ofLocal a).addIncomplete (.ofLocal b) =
      .ofLocal (slopeSum a b (slope a b)) := by
    simp only [addIncomplete, ofLocal, slopeSum, slope, pow_two]
  have hx' : (EwPoint.ofLocal a).x ≠ (EwPoint.ofLocal b).x := hx
  have ha : (EwPoint.ofLocal a).atInf = false := rfl
  have hb : (EwPoint.ofLocal b).atInf = false := rfl
  rw [← hincomplete, EwPoint.add, ha, hb, if_neg Bool.false_ne_true, if_neg Bool.false_ne_true,
    if_neg hx']

/-- A step without exceptional operation fails exactly where the tangent is undefined. -/
theorem gateWitnessStep_spec (hreg : RegularStep P A sp sg) (ha : a.Holds A) (hp : p.Holds P)
    (k : Fin 4) :
    (xCoord (A + A) = xCoord P → gateWitnessStep (.ofLocal p) false (.ofLocal a) (sp.toNat : F)
      (sg.toNat : F) k = none) ∧
    (xCoord (A + A) ≠ xCoord P → ∃ d o : LocalPointEw,
      gateWitnessStep (.ofLocal p) false (.ofLocal a) (sp.toNat : F) (sg.toNat : F) k =
        some (.ofLocal d, .ofLocal o, slope d p) ∧
      d.Holds (A + A) ∧ o.Holds (doubleAddStep P A sp sg) ∧ d.x ≠ p.x) := by
  obtain ⟨d, hd, hdbl⟩ := EwPoint.double_ofLocal ha hreg.double
  have hstep : ∀ lambda, (EwPoint.ofLocal d).tangent (.ofLocal p) = lambda →
      gateWitnessStep (.ofLocal p) false (.ofLocal a) (sp.toNat : F) (sg.toNat : F) k =
        lambda >>= fun l => (match sp, sg with
          | false, false => some (.ofLocal d)
          | true, false => (EwPoint.ofLocal d).add (.ofLocal p)
          | false, true => (EwPoint.ofLocal d).add (.ofLocal generatorPoint)
          | true, true => (EwPoint.ofLocal d).add (.ofLocal p) >>= fun sum =>
              sum.add (.ofLocal generatorPoint)) >>= fun o => some (.ofLocal d, o, l) := by
    rintro _ rfl
    unfold gateWitnessStep
    simp only [Bool.false_and, Bool.false_eq_true, if_false, hd, bit_eq_one]
    cases sp <;> cases sg <;> rfl
  constructor
  · intro hx
    have hnone : (EwPoint.ofLocal d).tangent (.ofLocal p) = none := by
      rw [hdbl.xCoord_eq, hp.xCoord_eq] at hx
      exact if_pos (Option.some.inj hx)
    rw [hstep _ hnone]
    rfl
  · intro hx
    have hne := (hdbl.xCoord_ne_iff hp).mp hx
    have hsome : (EwPoint.ofLocal d).tangent (.ofLocal p) = some (slope d p) := if_neg hne
    have hsum := slopeSum_holds hdbl hp hne (slope_mul hne)
    rw [hstep _ hsome]
    cases sp <;> cases sg
    · refine ⟨d, d, rfl, hdbl, ?_, hne⟩
      simpa [doubleAddStep] using hdbl
    · have hx2 := hreg.second rfl
      rw [Bool.toNat_false, zero_nsmul, add_zero] at hx2
      have hne2 := (hdbl.xCoord_ne_iff generatorPoint_holds).mp hx2
      have hsum2 := slopeSum_holds hdbl generatorPoint_holds hne2 (slope_mul hne2)
      refine ⟨d, slopeSum d generatorPoint (slope d generatorPoint), ?_, hdbl, ?_, hne⟩
      · simp only [EwPoint.add_ofLocal hne2, Option.bind_eq_bind, Option.bind_some]
      · simpa [doubleAddStep] using hsum2
    · refine ⟨d, slopeSum d p (slope d p), ?_, hdbl, ?_, hne⟩
      · simp only [EwPoint.add_ofLocal hne, Option.bind_eq_bind, Option.bind_some]
      · simpa [doubleAddStep] using hsum
    · have hx2 := hreg.second rfl
      rw [Bool.toNat_true, one_nsmul] at hx2
      have hne2 := (hsum.xCoord_ne_iff generatorPoint_holds).mp hx2
      have hsum2 := slopeSum_holds hsum generatorPoint_holds hne2 (slope_mul hne2)
      refine ⟨d, slopeSum (slopeSum d p (slope d p)) generatorPoint
        (slope (slopeSum d p (slope d p)) generatorPoint), ?_, hdbl, ?_, hne⟩
      · simp only [EwPoint.add_ofLocal hne, EwPoint.add_ofLocal hne2, Option.bind_eq_bind,
          Option.bind_some]
      · simpa [doubleAddStep] using hsum2

end Spec

section Gate

variable {p accin : LocalPointEw} {P A : PointEw} {sp sg : Fin 4 → Bool}

/-- The doubled accumulators of all steps have another `x` than the point. -/
def TangentsDefined (P A : PointEw) (sp sg : Fin 4 → Bool) : Prop :=
  ∀ k : Fin 4, xCoord (doubleAddSteps P A sp sg k + doubleAddSteps P A sp sg k) ≠ xCoord P

/-- The generator returns the points of the steps, unless some tangent is undefined. -/
theorem computeGateWitness_spec (hp : p.Holds P) (hacc : accin.Holds A)
    (hreg : NonExceptional P A sp sg) :
    (¬ TangentsDefined P A sp sg → computeGateWitness (fun k => ((sp k).toNat : F))
      (fun k => ((sg k).toNat : F)) (.ofLocal p) (.ofLocal accin) false = none) ∧
    (TangentsDefined P A sp sg → ∃ dbl out : Fin 4 → LocalPointEw,
      (computeGateWitness (fun k => ((sp k).toNat : F)) (fun k => ((sg k).toNat : F)) (.ofLocal p)
        (.ofLocal accin) false).map (fun w => w.targets (.ofLocal p) (.ofLocal accin)
          (fun k => ((sp k).toNat : F)) (fun k => ((sg k).toNat : F)) false) =
        some (.ofSteps p accin (fun k => ((sp k).toNat : F)) (fun k => ((sg k).toNat : F)) 0 dbl out
          fun k => slope (dbl k) p) ∧
      (∀ k : Fin 4, (dbl k).Holds (doubleAddSteps P A sp sg k + doubleAddSteps P A sp sg k)) ∧
      (∀ k : Fin 4, (out k).Holds (doubleAddSteps P A sp sg (k + 1))) ∧
      ∀ k : Fin 4, (dbl k).x ≠ p.x) := by
  have hguard : ¬ ((false : Bool) = true ∧
      ¬ (((sp 3).toNat : F) = 0 ∧ ((sg 3).toNat : F) = 1)) := fun h => Bool.false_ne_true h.1
  by_cases h0 : xCoord (doubleAddSteps P A sp sg (0 : Fin 4) + doubleAddSteps P A sp sg (0 : Fin 4)) =
    xCoord P
  · refine ⟨fun _ => ?_, fun h => absurd h0 (h 0)⟩
    simp only [computeGateWitness, if_neg hguard, (gateWitnessStep_spec (hreg 0) hacc hp 0).1 h0]
    rfl
  obtain ⟨d0, o0, e0, hd0, ho0, hx0⟩ := (gateWitnessStep_spec (hreg 0) hacc hp 0).2 h0
  have hs1 : o0.Holds (doubleAddSteps P A sp sg (1 : Fin 4)) := ho0
  by_cases h1 : xCoord (doubleAddSteps P A sp sg (1 : Fin 4) + doubleAddSteps P A sp sg (1 : Fin 4)) =
    xCoord P
  · refine ⟨fun _ => ?_, fun h => absurd h1 (h 1)⟩
    simp only [computeGateWitness, if_neg hguard, e0, Option.bind_eq_bind, Option.bind_some,
      (gateWitnessStep_spec (hreg 1) hs1 hp 1).1 h1]
    rfl
  obtain ⟨d1, o1, e1, hd1, ho1, hx1⟩ := (gateWitnessStep_spec (hreg 1) hs1 hp 1).2 h1
  have hs2 : o1.Holds (doubleAddSteps P A sp sg (2 : Fin 4)) := ho1
  by_cases h2 : xCoord (doubleAddSteps P A sp sg (2 : Fin 4) + doubleAddSteps P A sp sg (2 : Fin 4)) =
    xCoord P
  · refine ⟨fun _ => ?_, fun h => absurd h2 (h 2)⟩
    simp only [computeGateWitness, if_neg hguard, e0, e1, Option.bind_eq_bind, Option.bind_some,
      (gateWitnessStep_spec (hreg 2) hs2 hp 2).1 h2]
    rfl
  obtain ⟨d2, o2, e2, hd2, ho2, hx2⟩ := (gateWitnessStep_spec (hreg 2) hs2 hp 2).2 h2
  have hs3 : o2.Holds (doubleAddSteps P A sp sg (3 : Fin 4)) := ho2
  by_cases h3 : xCoord (doubleAddSteps P A sp sg (3 : Fin 4) + doubleAddSteps P A sp sg (3 : Fin 4)) =
    xCoord P
  · refine ⟨fun _ => ?_, fun h => absurd h3 (h 3)⟩
    simp only [computeGateWitness, if_neg hguard, e0, e1, e2, Option.bind_eq_bind, Option.bind_some,
      (gateWitnessStep_spec (hreg 3) hs3 hp 3).1 h3]
    rfl
  obtain ⟨d3, o3, e3, hd3, ho3, hx3⟩ := (gateWitnessStep_spec (hreg 3) hs3 hp 3).2 h3
  have hdefined : TangentsDefined P A sp sg := by
    intro k
    match k with
    | 0 => exact h0
    | 1 => exact h1
    | 2 => exact h2
    | 3 => exact h3
  refine ⟨fun h => absurd hdefined h, fun _ => ⟨![d0, d1, d2, d3], ![o0, o1, o2, o3], ?_, ?_, ?_, ?_⟩⟩
  · simp only [computeGateWitness, if_neg hguard, e0, e1, e2, e3, Option.bind_eq_bind,
      Option.bind_some, Option.map_some]
    rfl
  · intro k
    match k with
    | 0 => exact hd0
    | 1 => exact hd1
    | 2 => exact hd2
    | 3 => exact hd3
  · intro k
    match k with
    | 0 => exact ho0
    | 1 => exact ho1
    | 2 => exact ho2
    | 3 => exact ho3
  · intro k
    match k with
    | 0 => exact hx0
    | 1 => exact hx1
    | 2 => exact hx2
    | 3 => exact hx3

/-- The constraints of a gate without exceptional step hold for the outputs of four steps of
double-and-add and for no others, and the generator's values satisfy them. -/
theorem double_add_gate_correct (hp : p.Holds P) (hacc : accin.Holds A)
    (hreg : NonExceptional P A sp sg) :
    (∀ outs : Fin 4 → LocalPointEw,
      (∃ w : ℕ → F, (wireTargets w).HasInputs p accin sp sg ∧ (wireTargets w).accOut = outs ∧
        AllZero (DoubleAdd4x.evalUnfiltered w)) ↔
      ∀ k : Fin 4, (outs k).Holds (doubleAddSteps P A sp sg (k + 1))) ∧
    doubleAddSteps P A sp sg 4 = 16 • A +
      ∑ k : Fin 4, 2 ^ (3 - k.val) • ((sp k).toNat • P + (sg k).toNat • generator) ∧
    ((computeGateWitness (fun k => ((sp k).toNat : F)) (fun k => ((sg k).toNat : F)) (.ofLocal p)
      (.ofLocal accin) false).isSome = true ↔ TangentsDefined P A sp sg) ∧
    ∀ v, computeGateWitness (fun k => ((sp k).toNat : F)) (fun k => ((sg k).toNat : F)) (.ofLocal p)
      (.ofLocal accin) false = some v →
      AllZero (DoubleAdd4x.evalUnfiltered (v.targets (.ofLocal p) (.ofLocal accin)
        (fun k => ((sp k).toNat : F)) (fun k => ((sg k).toNat : F)) false).wires) := by
  obtain ⟨hundefined, hdefined⟩ := computeGateWitness_spec hp hacc hreg
  refine ⟨fun outs => ?_, doubleAddSteps_four P A sp sg, ⟨fun h => ?_, fun h => ?_⟩, fun v hv => ?_⟩
  · rw [← outputs_iff hp hacc hreg outs]
    constructor
    · rintro ⟨w, hin, hout, hw⟩
      exact ⟨wireTargets w, hin, hout, (doubleAdd4x_allZero_iff w).mp hw⟩
    · rintro ⟨t, ht⟩
      refine ⟨t.wires, ?_⟩
      rwa [doubleAdd4x_allZero_iff, wireTargets_wires]
  · by_contra hnot
    rw [hundefined hnot] at h
    exact absurd h (by simp)
  · obtain ⟨dbl, out, hsome, -⟩ := hdefined h
    have hmap := congrArg Option.isSome hsome
    rwa [Option.isSome_map] at hmap
  · have htangents : TangentsDefined P A sp sg := by
      by_contra hnot
      rw [hundefined hnot] at hv
      exact absurd hv (by simp)
    obtain ⟨dbl, out, hsome, hdbl, hout, hx⟩ := hdefined htangents
    rw [hv, Option.map_some] at hsome
    rw [doubleAdd4x_allZero_iff, wireTargets_wires, Option.some.inj hsome]
    exact ofSteps_satisfied hp hacc hreg hdbl hout fun k _ _ => slope_mul (hx k)

end Gate

/-! ## A gate without exceptional step -/

/-- Both bits are set in the last step only. -/
def lastBit (k : Fin 4) : Bool := k = 3

theorem lastBit_steps {k : ℕ} (hk : k < 4) :
    doubleAddSteps generator offsetPoint.point lastBit lastBit k = (offsetDouble k).point := by
  induction k with
  | zero => rfl
  | succ k ih =>
    have hbits : ∀ k < 3, lastBit (Fin.ofNat 4 k) = false := by decide
    have hbit := hbits k (Nat.lt_of_succ_lt_succ hk)
    rw [doubleAddSteps, ih (by omega), hbit, doubleAddStep, Bool.toNat_false, zero_nsmul,
      add_zero, add_zero, ← DoubleOdd.OddPoint.double_point_eq, ← offsetDouble_succ]

theorem lastBit_nonExceptional : NonExceptional generator offsetPoint.point lastBit lastBit := by
  intro k
  rw [lastBit_steps k.isLt]
  have hdbl : (ofOdd (offsetDouble (k + 1))).Holds
      ((offsetDouble k).point + (offsetDouble k).point) := by
    rw [← DoubleOdd.OddPoint.double_point_eq, ← offsetDouble_succ]
    exact ⟨(offsetDouble (k + 1)).onCurve, rfl⟩
  have hx : k = 3 → (ofOdd (offsetDouble (k + 1))).x ≠ generatorPoint.x := by
    rintro rfl
    decide +kernel
  refine ⟨(offsetDouble k).y_ne_zero, fun h => ?_, fun h => ?_⟩
  · exact (hdbl.xCoord_ne_iff generatorPoint_holds).mpr (hx (of_decide_eq_true h))
  · have h3 := of_decide_eq_true h
    have hsum := slopeSum_holds hdbl generatorPoint_holds (hx h3) (slope_mul (hx h3))
    rw [show lastBit k = true from h, Bool.toNat_true, one_nsmul]
    refine (hsum.xCoord_ne_iff generatorPoint_holds).mpr ?_
    subst h3
    decide +kernel

/-- The gate adds the generator twice to sixteen times the offset. -/
theorem last_step_gate : NonExceptional generator offsetPoint.point lastBit lastBit ∧
    doubleAddSteps generator offsetPoint.point lastBit lastBit 4 = 16 • offsetPoint.point +
      ∑ k : Fin 4, 2 ^ (3 - k.val) •
        ((lastBit k).toNat • generator + (lastBit k).toNat • generator) :=
  ⟨lastBit_nonExceptional,
    (double_add_gate_correct generatorPoint_holds offset_holds lastBit_nonExceptional).2.1⟩

end Doxa.Circuit
