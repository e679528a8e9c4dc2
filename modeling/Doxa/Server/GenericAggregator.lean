import Doxa.Lib.Codec
import Doxa.Lib.Sponge
import Doxa.Server.Batches

/-!
# The recursive aggregator

`GenericAggregator` combines `arity ^ depth` proofs of one circuit into one proof, level by
level: a circuit of a level verifies `arity` proofs of the level below and registers their
public inputs one after the other. The proving system is a parameter; it may refuse any
witness, and its proofs carry the values the witness gives to the registered targets.
Whatever values a proof brings are set on the targets allocated for it, and no target ever
changes its value.
-/

namespace Doxa.Server

open Lib Circuit

/-! ## Circuits of a level -/

abbrev Target := ℕ

/-- `ProofWithPublicInputs`, the proof itself flattened. -/
structure ProofWithPis where
  proof : List F
  publicInputs : List F

/-- `ProofWithPublicInputsTarget`. -/
structure ProofTarget where
  proof : List Target
  publicInputs : List Target

/-- What `CommonCircuitData` fixes of a proof. -/
structure CommonCircuitData where
  proofElements : ℕ
  numPublicInputs : ℕ

/-- The circuit under construction. -/
structure CircuitBuilder where
  numTargets : ℕ
  constants : List (Target × F)
  verified : List (ProofTarget × List Target)
  publicInputs : List Target

namespace CircuitBuilder

def new : CircuitBuilder := ⟨0, [], [], []⟩

variable (b : CircuitBuilder)

def addVirtualTargets (n : ℕ) : List Target × CircuitBuilder :=
  (List.range' b.numTargets n, { b with numTargets := b.numTargets + n })

def addVirtualProofWithPis (common : CommonCircuitData) : ProofTarget × CircuitBuilder :=
  let (proof, b) := b.addVirtualTargets common.proofElements
  let (publicInputs, b) := b.addVirtualTargets common.numPublicInputs
  (⟨proof, publicInputs⟩, b)

/-- `(0..n).map(|_| builder.add_virtual_proof_with_pis(common))`. -/
def addVirtualProofs (common : CommonCircuitData) : ℕ → List ProofTarget × CircuitBuilder
  | 0 => ([], b)
  | n + 1 =>
    let (targets, b) := addVirtualProofs common n
    let (target, b) := addVirtualProofWithPis b common
    (targets ++ [target], b)

def constantVerifierData (verifier : List F) : List Target × CircuitBuilder :=
  let (targets, b) := b.addVirtualTargets verifier.length
  (targets, { b with constants := b.constants ++ targets.zip verifier })

def verifyProof (target : ProofTarget) (verifier : List Target) : CircuitBuilder :=
  { b with verified := b.verified ++ [(target, verifier)] }

def registerPublicInput (target : Target) : CircuitBuilder :=
  { b with publicInputs := b.publicInputs ++ [target] }

end CircuitBuilder

open CircuitBuilder

/-- `setup_level_builder`. -/
def setupLevelBuilder (inner : CommonCircuitData) (verifier : List F) (arity : ℕ) :
    CircuitBuilder × List ProofTarget × List Target :=
  let (proofTargets, b) := CircuitBuilder.new.addVirtualProofs inner arity
  let (verifierTarget, b) := b.constantVerifierData verifier
  let b := proofTargets.foldl (fun b target => b.verifyProof target verifierTarget) b
  let b := proofTargets.foldl (fun b target => target.publicInputs.foldl registerPublicInput b) b
  (b, proofTargets, verifierTarget)

/-! ## Witnesses and the prover -/

inductive AggregatorError
  | wrongCount (expected got : ℕ)
  | setTwice (target : Target)
  | lengthMismatch
  | indexOutOfBounds
  | noRoot
  | proveFailed

abbrev PartialWitness := Target → Option F

namespace PartialWitness

variable (w : PartialWitness)

/-- A target keeps its value; setting another one is an error. -/
def setTarget (target : Target) (value : F) : Except AggregatorError PartialWitness :=
  match w target with
  | none => .ok (Function.update w target (some value))
  | some old => if value ≠ old then .error (.setTwice target) else .ok w

/-- The targets and the values pair up, or the call panics. -/
def setTargets (w : PartialWitness) : List Target → List F → Except AggregatorError PartialWitness
  | [], [] => .ok w
  | target :: targets, value :: values => do
    let w ← w.setTarget target value
    setTargets w targets values
  | _, _ => .error .lengthMismatch

def setProofWithPisTarget (target : ProofTarget) (proof : ProofWithPis) :
    Except AggregatorError PartialWitness := do
  let w ← w.setTargets target.publicInputs proof.publicInputs
  w.setTargets target.proof proof.proof

/-- `set_proof_with_pis_target(&proof_targets[i], proof)` for the proofs of a group. -/
def setProofs (w : PartialWitness) :
    List ProofTarget → List ProofWithPis → Except AggregatorError PartialWitness
  | _, [] => .ok w
  | target :: targets, proof :: proofs => do
    let w ← w.setProofWithPisTarget target proof
    setProofs w targets proofs
  | [], _ :: _ => .error .indexOutOfBounds

end PartialWitness

/-- `CircuitData`, as far as the aggregator reads it. -/
structure CircuitData where
  common : CommonCircuitData
  verifierOnly : List F

/-- The proving system. -/
structure ProvingSystem where
  build : CircuitBuilder → CircuitData
  prove : CircuitBuilder → PartialWitness → Except AggregatorError ProofWithPis
  build_publicInputs : ∀ b, (build b).common.numPublicInputs = b.publicInputs.length
  prove_publicInputs : ∀ b w p, prove b w = .ok p →
    p.publicInputs.map some = b.publicInputs.map w

/-! ## The aggregator -/

structure LevelCircuit where
  builder : CircuitBuilder
  circuitData : CircuitData
  proofTargets : List ProofTarget
  verifierTarget : List Target

structure GenericAggregator where
  arity : ℕ
  depth : ℕ
  leafCommon : CommonCircuitData
  leafVerifier : List F
  levels : List LevelCircuit

variable (sys : ProvingSystem)

def levelCircuit (inner : CommonCircuitData) (verifier : List F) (arity : ℕ) : LevelCircuit :=
  let (builder, proofTargets, verifierTarget) := setupLevelBuilder inner verifier arity
  ⟨builder, sys.build builder, proofTargets, verifierTarget⟩

/-- `GenericAggregator::new`, after the configuration is validated. -/
def GenericAggregator.new (arity depth : ℕ) (leafCommon : CommonCircuitData)
    (leafVerifier : List F) : GenericAggregator where
  arity := arity
  depth := depth
  leafCommon := leafCommon
  leafVerifier := leafVerifier
  levels :=
    let first := levelCircuit sys leafCommon leafVerifier arity
    forLoop (fun i levels =>
      let inner := (levels.getD i first).circuitData
      levels ++ [levelCircuit sys inner.common inner.verifierOnly arity]) (depth - 1) [first]

/-- One proof of a level, for a group of proofs of the level below. -/
def proveGroup (level : LevelCircuit) (verifier : List F) (group : List ProofWithPis) :
    Except AggregatorError ProofWithPis := do
  let w ← PartialWitness.setTargets (fun _ => none) level.verifierTarget verifier
  let w ← w.setProofs level.proofTargets group
  sys.prove level.builder w

/-- All proofs of a level. -/
def proveLevel (arity : ℕ) (level : LevelCircuit) (verifier : List F)
    (current : List ProofWithPis) : Except AggregatorError (List ProofWithPis) :=
  (chunks arity current).mapM (proveGroup sys level verifier)

namespace GenericAggregator

variable (agg : GenericAggregator)

/-- `self.levels[i]`. -/
def level (i : ℕ) : Except AggregatorError LevelCircuit :=
  agg.levels[i]?.elim (.error .indexOutOfBounds) .ok

def aggregate (proofs : List ProofWithPis) : Except AggregatorError ProofWithPis := do
  revertIf (proofs.length ≠ agg.arity ^ agg.depth)
    (.wrongCount (agg.arity ^ agg.depth) proofs.length)
  let first ← agg.level 0
  let current ← proveLevel sys agg.arity first agg.leafVerifier proofs
  let current ← tryLoop (fun i current => do
    let level ← agg.level (i + 1)
    let inner ← agg.level i
    proveLevel sys agg.arity level inner.circuitData.verifierOnly current) (agg.depth - 1) current
  current.head?.elim (.error .noRoot) .ok

end GenericAggregator

/-- Slot `s` of the super circuit, which splits the public inputs of the aggregated proof into
`slots` equal parts. -/
def superSlot (common : CommonCircuitData) (slots : ℕ) (publicInputs : List F) (s : ℕ) : List F :=
  let piSize := common.numPublicInputs / slots
  slice publicInputs (s * piSize) piSize

/-! ## What a level does -/

namespace CircuitBuilder

theorem addVirtualProofs_spec (b : CircuitBuilder) (common : CommonCircuitData) (n : ℕ) :
    (b.addVirtualProofs common n).1.length = n ∧
      (b.addVirtualProofs common n).2.publicInputs = b.publicInputs ∧
      ∀ target ∈ (b.addVirtualProofs common n).1,
        target.publicInputs.length = common.numPublicInputs := by
  induction n with
  | zero => exact ⟨rfl, rfl, fun _ h => absurd h List.not_mem_nil⟩
  | succ n ih =>
    obtain ⟨hlength, hpublic, htargets⟩ := ih
    refine ⟨?_, hpublic, ?_⟩
    · simp only [addVirtualProofs, List.length_append, hlength, List.length_singleton]
    · intro target htarget
      rcases List.mem_append.mp htarget with h | h
      · exact htargets target h
      · obtain rfl := List.mem_singleton.mp h
        exact List.length_range'

theorem foldl_verifyProof (targets : List ProofTarget) (verifier : List Target)
    (b : CircuitBuilder) :
    (targets.foldl (fun b target => b.verifyProof target verifier) b).publicInputs =
      b.publicInputs := by
  induction targets generalizing b with
  | nil => rfl
  | cons target targets ih => exact ih _

theorem foldl_registerPublicInput (targets : List Target) (b : CircuitBuilder) :
    (targets.foldl registerPublicInput b).publicInputs = b.publicInputs ++ targets := by
  induction targets generalizing b with
  | nil => exact (List.append_nil _).symm
  | cons target targets ih =>
    rw [List.foldl_cons, ih, registerPublicInput, List.append_assoc, List.singleton_append]

theorem foldl_registerProofs (targets : List ProofTarget) (b : CircuitBuilder) :
    (targets.foldl (fun b target => target.publicInputs.foldl registerPublicInput b) b).publicInputs =
      b.publicInputs ++ targets.flatMap ProofTarget.publicInputs := by
  induction targets generalizing b with
  | nil => exact (List.append_nil _).symm
  | cons target targets ih =>
    rw [List.foldl_cons, ih, foldl_registerPublicInput, List.append_assoc, List.flatMap_cons]

end CircuitBuilder

/-- A circuit of a level registers the public inputs of its `arity` children in order. -/
structure LevelCircuit.Merges (level : LevelCircuit) (inner : CommonCircuitData) (arity : ℕ) :
    Prop where
  built : level.circuitData = sys.build level.builder
  children : level.proofTargets.length = arity
  child : ∀ target ∈ level.proofTargets, target.publicInputs.length = inner.numPublicInputs
  registered : level.builder.publicInputs = level.proofTargets.flatMap ProofTarget.publicInputs

theorem levelCircuit_merges (inner : CommonCircuitData) (verifier : List F) (arity : ℕ) :
    (levelCircuit sys inner verifier arity).Merges sys inner arity := by
  obtain ⟨hlength, hpublic, htargets⟩ :=
    CircuitBuilder.new.addVirtualProofs_spec inner arity
  refine ⟨rfl, hlength, htargets, ?_⟩
  refine (foldl_registerProofs _ _).trans ?_
  rw [foldl_verifyProof]
  exact congrArg (· ++ _) hpublic

namespace PartialWitness

variable {w w' : PartialWitness}

/-- The values of `w` are those of `w'`. -/
def Extends (w w' : PartialWitness) : Prop :=
  ∀ target value, w target = some value → w' target = some value

theorem Extends.refl (w : PartialWitness) : w.Extends w := fun _ _ h => h

theorem Extends.trans {w'' : PartialWitness} (h : w.Extends w') (h' : w'.Extends w'') :
    w.Extends w'' := fun t v hv => h' t v (h t v hv)

theorem Extends.map {targets : List Target} {values : List F} (h : w.Extends w')
    (hw : targets.map w = values.map some) : targets.map w' = values.map some := by
  induction targets generalizing values with
  | nil => exact hw
  | cons target targets ih =>
    cases values with
    | nil => cases hw
    | cons value values =>
      obtain ⟨hvalue, hvalues⟩ := List.cons.inj hw
      rw [List.map_cons, List.map_cons, h target value hvalue, ih hvalues]

theorem setTarget_ok {target : Target} {value : F} (h : w.setTarget target value = .ok w') :
    w.Extends w' ∧ w' target = some value := by
  unfold setTarget at h
  split at h
  · rename_i hnone
    cases h
    refine ⟨fun t v hv => ?_, Function.update_self ..⟩
    have hne : t ≠ target := fun heq => by rw [heq, hnone] at hv; cases hv
    rw [Function.update_of_ne hne, hv]
  · rename_i old hold
    split at h
    · cases h
    · rename_i heq
      cases h
      exact ⟨.refl w, by rw [hold, not_ne_iff.mp heq]⟩

theorem setTargets_ok {targets : List Target} {values : List F}
    (h : w.setTargets targets values = .ok w') :
    w.Extends w' ∧ targets.map w' = values.map some := by
  induction targets generalizing w values with
  | nil =>
    cases values with
    | nil =>
      cases h
      exact ⟨.refl _, rfl⟩
    | cons value values => cases h
  | cons target targets ih =>
    cases values with
    | nil => cases h
    | cons value values =>
      obtain ⟨w₁, hfirst, hrest⟩ := bind_eq_ok.mp h
      obtain ⟨hext, hvalue⟩ := setTarget_ok hfirst
      obtain ⟨hext', hvalues⟩ := ih hrest
      refine ⟨hext.trans hext', ?_⟩
      rw [List.map_cons, List.map_cons, hext' target value hvalue, hvalues]

theorem setProofs_ok {targets : List ProofTarget} {proofs : List ProofWithPis}
    (hlength : proofs.length = targets.length) (h : w.setProofs targets proofs = .ok w') :
    w.Extends w' ∧
      List.Forall₂ (fun target proof => target.publicInputs.map w' = proof.publicInputs.map some)
        targets proofs := by
  induction targets generalizing w proofs with
  | nil =>
    obtain rfl := List.length_eq_zero_iff.mp hlength
    cases h
    exact ⟨.refl _, .nil⟩
  | cons target targets ih =>
    cases proofs with
    | nil => cases hlength
    | cons proof proofs =>
      obtain ⟨w₁, hfirst, hrest⟩ := bind_eq_ok.mp h
      obtain ⟨w₂, hpis, hproof⟩ := bind_eq_ok.mp hfirst
      obtain ⟨hext, hvalues⟩ := setTargets_ok hpis
      obtain ⟨hext', -⟩ := setTargets_ok hproof
      obtain ⟨hext'', hrest⟩ := ih (Nat.succ.inj hlength) hrest
      exact ⟨(hext.trans hext').trans hext'', .cons ((hext'.trans hext'').map hvalues) hrest⟩

end PartialWitness

/-! ## Order -/

section Order

variable {sys} {level : LevelCircuit} {inner : CommonCircuitData} {arity : ℕ} {verifier : List F}

/-- The proof of a group carries the public inputs of the group in order. -/
theorem proveGroup_ok (hlevel : level.Merges sys inner arity) {group : List ProofWithPis}
    {p : ProofWithPis} (hlength : group.length = arity)
    (h : proveGroup sys level verifier group = .ok p) :
    p.publicInputs = group.flatMap ProofWithPis.publicInputs ∧
      p.publicInputs.length = level.circuitData.common.numPublicInputs ∧
      ∀ q ∈ group, q.publicInputs.length = inner.numPublicInputs := by
  obtain ⟨w, -, h⟩ := bind_eq_ok.mp h
  obtain ⟨w', hset, hprove⟩ := bind_eq_ok.mp h
  obtain ⟨-, hvalues⟩ := PartialWitness.setProofs_ok (hlength.trans hlevel.children.symm) hset
  have hpis := sys.prove_publicInputs _ _ _ hprove
  have hmerged : ∀ (targets : List ProofTarget) (proofs : List ProofWithPis),
      List.Forall₂ (fun target proof => target.publicInputs.map w' = proof.publicInputs.map some)
        targets proofs →
      (targets.flatMap ProofTarget.publicInputs).map w' =
        (proofs.flatMap ProofWithPis.publicInputs).map some := by
    intro targets proofs hall
    induction hall with
    | nil => rfl
    | cons hfirst _ ih =>
      rw [List.flatMap_cons, List.map_append, hfirst, ih, List.flatMap_cons, List.map_append]
  refine ⟨?_, ?_, ?_⟩
  · rw [hlevel.registered, hmerged _ _ hvalues] at hpis
    exact (List.map_injective_iff.mpr (Option.some_injective F)) hpis
  · have hcount := congrArg List.length hpis
    rw [List.length_map, List.length_map] at hcount
    rw [hcount, hlevel.built, sys.build_publicInputs]
  · intro q hq
    obtain ⟨target, htarget, hvalue⟩ := exists_of_mem_right hvalues hq
    have hcount := congrArg List.length hvalue
    rw [List.length_map, List.length_map] at hcount
    rw [← hcount, hlevel.child target htarget]

/-- The proofs of a level carry the public inputs of the level below in order. -/
theorem proveLevel_ok (hlevel : level.Merges sys inner arity) (harity : 0 < arity) {n : ℕ}
    {current next : List ProofWithPis} (hlength : current.length = n * arity)
    (h : proveLevel sys arity level verifier current = .ok next) :
    next.length = n ∧
      next.flatMap ProofWithPis.publicInputs = current.flatMap ProofWithPis.publicInputs ∧
      (∀ p ∈ next, p.publicInputs.length = level.circuitData.common.numPublicInputs) ∧
      ∀ q ∈ current, q.publicInputs.length = inner.numPublicInputs := by
  obtain ⟨hcount, hfull, hflatten⟩ := chunks_exact harity hlength
  have hall := mapM_eq_ok.mp h
  refine ⟨hall.length_eq.symm.trans hcount, ?_, ?_, ?_⟩
  · have hmerged : ∀ (groups : List (List ProofWithPis)) (ps : List ProofWithPis),
        List.Forall₂ (fun group p => proveGroup sys level verifier group = .ok p) groups ps →
        (∀ group ∈ groups, group.length = arity) →
        ps.flatMap ProofWithPis.publicInputs =
          groups.flatten.flatMap ProofWithPis.publicInputs := by
      intro groups ps hall hfull
      induction hall with
      | nil => rfl
      | cons hfirst _ ih =>
        rw [List.flatMap_cons, List.flatten_cons, List.flatMap_append,
          (proveGroup_ok hlevel (hfull _ List.mem_cons_self) hfirst).1,
          ih fun group hmem => hfull group (List.mem_cons_of_mem _ hmem)]
    rw [hmerged _ _ hall hfull, hflatten]
  · intro p hp
    obtain ⟨group, hmem, hgroup⟩ := exists_of_mem_right hall hp
    exact (proveGroup_ok hlevel (hfull group hmem) hgroup).2.1
  · intro q hq
    rw [← hflatten] at hq
    obtain ⟨group, hmem, hq⟩ := List.mem_flatten.mp hq
    obtain ⟨p, -, hgroup⟩ := exists_of_mem_left hall hmem
    exact (proveGroup_ok hlevel (hfull group hmem) hgroup).2.2 q hq

variable (sys) in
/-- The levels of an aggregator: the first one is for leaf proofs, and every level merges. -/
theorem new_levels (arity : ℕ) {depth : ℕ} (hdepth : 0 < depth) (leafCommon : CommonCircuitData)
    (leafVerifier : List F) :
    (GenericAggregator.new sys arity depth leafCommon leafVerifier).levels.length = depth ∧
      (GenericAggregator.new sys arity depth leafCommon leafVerifier).levels[0]? =
        some (levelCircuit sys leafCommon leafVerifier arity) ∧
      ∀ level ∈ (GenericAggregator.new sys arity depth leafCommon leafVerifier).levels,
        ∃ inner, level.Merges sys inner arity := by
  obtain ⟨d, rfl⟩ : ∃ d, depth = d + 1 := ⟨depth - 1, by omega⟩
  refine forLoop_inv (fun k (levels : List LevelCircuit) => levels.length = k + 1 ∧
    levels[0]? = some (levelCircuit sys leafCommon leafVerifier arity) ∧
    ∀ level ∈ levels, ∃ inner, level.Merges sys inner arity) ?_ ?_
  · refine ⟨rfl, rfl, fun level hlevel => ?_⟩
    obtain rfl := List.mem_singleton.mp hlevel
    exact ⟨_, levelCircuit_merges sys _ _ _⟩
  · rintro i - levels ⟨hlength, hfirst, hmerges⟩
    refine ⟨?_, ?_, ?_⟩
    · rw [List.length_append, hlength, List.length_singleton]
    · rw [List.getElem?_append_left (by omega), hfirst]
    · intro level hlevel
      rcases List.mem_append.mp hlevel with hlevel | hlevel
      · exact hmerges level hlevel
      · obtain rfl := List.mem_singleton.mp hlevel
        exact ⟨_, levelCircuit_merges sys _ _ _⟩

theorem level_ok {agg : GenericAggregator} {i : ℕ} {level : LevelCircuit}
    (h : agg.level i = .ok level) : agg.levels[i]? = some level := by
  unfold GenericAggregator.level at h
  cases hi : agg.levels[i]? with
  | none => rw [hi] at h; cases h
  | some l => rw [hi] at h; cases h; rfl

/-- What holds of the proofs `current` after level `i`. -/
structure AfterLevel (agg : GenericAggregator) (proofs : List ProofWithPis) (i : ℕ)
    (current : List ProofWithPis) : Prop where
  count : current.length = agg.arity ^ (agg.depth - 1 - i)
  order : current.flatMap ProofWithPis.publicInputs = proofs.flatMap ProofWithPis.publicInputs
  width : ∃ level, agg.levels[i]? = some level ∧
    ∀ p ∈ current, p.publicInputs.length = level.circuitData.common.numPublicInputs

theorem AfterLevel.of_proveLevel {agg : GenericAggregator} {proofs current next : List ProofWithPis}
    {i : ℕ} (hi : agg.levels[i]? = some level) (hlevel : level.Merges sys inner agg.arity)
    (harity : 0 < agg.arity)
    (hlength : current.length = agg.arity ^ (agg.depth - 1 - i) * agg.arity)
    (horder : current.flatMap ProofWithPis.publicInputs = proofs.flatMap ProofWithPis.publicInputs)
    (h : proveLevel sys agg.arity level verifier current = .ok next) :
    AfterLevel agg proofs i next := by
  obtain ⟨hcount, hnext, hwidth, -⟩ := proveLevel_ok hlevel harity hlength h
  exact ⟨hcount, hnext.trans horder, level, hi, hwidth⟩

/-- The slots of a list of records. -/
theorem superSlot_record {common : CommonCircuitData} {proofs : List ProofWithPis} {w s : ℕ}
    {p : ProofWithPis} (hwidth : ∀ p ∈ proofs, p.publicInputs.length = w)
    (hcommon : common.numPublicInputs = (proofs.flatMap ProofWithPis.publicInputs).length)
    (hp : proofs[s]? = some p) :
    superSlot common proofs.length (proofs.flatMap ProofWithPis.publicInputs) s =
      p.publicInputs := by
  have hpos : 0 < proofs.length := Nat.zero_lt_of_lt (List.getElem?_eq_some_iff.mp hp).1
  have hsize : common.numPublicInputs / proofs.length = w := by
    rw [hcommon, length_flatMap_record hwidth, Nat.mul_div_cancel_left w hpos]
  rw [superSlot, hsize]
  exact slice_flatMap_record hwidth hp

/-- The public inputs of an aggregated proof are those of the proofs it was made from, in the
order of submission, and the super circuit finds those of proof `s` in its slot `s`. -/
theorem aggregate_keeps_order (sys : ProvingSystem) {arity depth : ℕ} (harity : 1 ≤ arity)
    (hdepth : 1 ≤ depth) (leafCommon : CommonCircuitData) (leafVerifier : List F)
    {proofs : List ProofWithPis} (hlength : proofs.length = arity ^ depth) {root : ProofWithPis}
    (h : (GenericAggregator.new sys arity depth leafCommon leafVerifier).aggregate sys proofs =
      .ok root) :
    root.publicInputs = proofs.flatMap ProofWithPis.publicInputs ∧
      ∀ top, (GenericAggregator.new sys arity depth leafCommon leafVerifier).levels.getLast? =
          some top →
        ∀ s p, proofs[s]? = some p →
          superSlot top.circuitData.common (arity ^ depth) root.publicInputs s = p.publicInputs := by
  obtain ⟨hlevels, hfirst, hmerges⟩ := new_levels sys arity hdepth leafCommon leafVerifier
  obtain ⟨-, h⟩ := revertIf_bind_eq_ok.mp h
  obtain ⟨first, hlevel, h⟩ := bind_eq_ok.mp h
  obtain ⟨current, hcurrent, h⟩ := bind_eq_ok.mp h
  obtain ⟨final, hloop, hroot⟩ := bind_eq_ok.mp h
  obtain rfl : first = _ := Option.some.inj ((level_ok hlevel).symm.trans hfirst)
  -- every level divides the number of proofs by the arity
  have hfactor : ∀ i, i < depth → arity ^ (depth - 1 - i) * arity = arity ^ (depth - i) := by
    intro i hi
    rw [← pow_succ]
    congr 1
    omega
  have hleaf := levelCircuit_merges sys leafCommon leafVerifier arity
  have hleaves : proofs.length = arity ^ (depth - 1) * arity := by
    rw [hlength]
    exact (hfactor 0 hdepth).symm
  obtain ⟨-, -, -, hwidth⟩ := proveLevel_ok hleaf harity hleaves hcurrent
  have hafter : AfterLevel (.new sys arity depth leafCommon leafVerifier) proofs (depth - 1) final := by
    refine tryLoop_inv (AfterLevel (.new sys arity depth leafCommon leafVerifier) proofs) ?_ ?_ hloop
    · exact .of_proveLevel (level_ok hlevel) hleaf harity hleaves rfl hcurrent
    · intro i hi current next hI hbody
      obtain ⟨level, hget, hbody⟩ := bind_eq_ok.mp hbody
      obtain ⟨below, -, hbody⟩ := bind_eq_ok.mp hbody
      obtain ⟨inner, hlevel⟩ := hmerges level (List.mem_of_getElem? (level_ok hget))
      refine .of_proveLevel (level_ok hget) hlevel harity ?_ hI.order hbody
      refine hI.count.trans ?_
      change arity ^ (depth - 1 - i) = arity ^ (depth - 1 - (i + 1)) * arity
      rw [hfactor (i + 1) (by omega)]
      congr 1
      omega
  -- one proof is left
  have hone : final.length = 1 :=
    hafter.count.trans ((congrArg (arity ^ ·) (Nat.sub_self (depth - 1))).trans (pow_zero arity))
  obtain ⟨r, rfl⟩ := List.length_eq_one_iff.mp hone
  obtain rfl : r = root := Except.ok.inj hroot
  have horder : r.publicInputs = proofs.flatMap ProofWithPis.publicInputs := by
    rw [← hafter.order, List.flatMap_singleton]
  refine ⟨horder, fun top htop s p hp => ?_⟩
  obtain ⟨level, hget, hroot⟩ := hafter.width
  rw [List.getLast?_eq_getElem?, hlevels, hget] at htop
  obtain rfl := Option.some.inj htop
  have hcommon := hroot r List.mem_cons_self
  rw [horder] at hcommon ⊢
  rw [← hlength]
  exact superSlot_record hwidth hcommon.symm hp

end Order

/-- A proving system that reads the registered values off the witness. -/
def readOff : ProvingSystem where
  build b := ⟨⟨1, b.publicInputs.length⟩, [7]⟩
  prove b w :=
    if ∀ target ∈ b.publicInputs, (w target).isSome then
      .ok ⟨[0], b.publicInputs.map fun target => (w target).getD 0⟩
    else .error .proveFailed
  build_publicInputs _ := rfl
  prove_publicInputs := by
    intro b w p h
    split at h
    · rename_i hsome
      cases h
      rw [List.map_map]
      refine List.map_congr_left fun target htarget => ?_
      obtain ⟨value, hvalue⟩ := Option.isSome_iff_exists.mp (hsome target htarget)
      rw [Function.comp_apply, hvalue, Option.getD_some]
    · cases h

/-- Four proofs of two public inputs each, on two levels of arity two. -/
def fourProofs : List ProofWithPis :=
  [⟨[1], [10, 11]⟩, ⟨[2], [20, 21]⟩, ⟨[3], [30, 31]⟩, ⟨[4], [40, 41]⟩]

theorem four_keep_order :
    (⟨[0], [10, 11, 20, 21, 30, 31, 40, 41]⟩ : ProofWithPis).publicInputs =
      fourProofs.flatMap ProofWithPis.publicInputs ∧
    superSlot ⟨1, 8⟩ 4 [10, 11, 20, 21, 30, 31, 40, 41] 2 = [30, 31] := by
  have haggregate : (GenericAggregator.new readOff 2 2 ⟨1, 2⟩ [5]).aggregate readOff fourProofs =
      .ok ⟨[0], [10, 11, 20, 21, 30, 31, 40, 41]⟩ := by rfl
  have horder := aggregate_keeps_order readOff (by decide) (by decide) ⟨1, 2⟩ [5] rfl haggregate
  exact ⟨horder.1, horder.2 _ rfl 2 _ rfl⟩

end Doxa.Server
