import Doxa.Contract.ConfigTree

/-!
# The events of subpools

`assignSubpoolOwner` and `updateSubpoolRoot` each emit one event. An id can be assigned only when
the id before it is, so the first assignments come in the order 1, 2, 3, …, while an assigned id
may get a new owner at any time (`Assigns`). Only an assigned subpool is updated, and the last
update of a subpool is its root (`Tells`).
-/

namespace Doxa.Contract

open Lib Function

/-- `SubpoolOwnerAssigned` and `SubpoolRootUpdated`. -/
inductive SubpoolLog
  | assigned (subpoolId : BitVec 64) (owner : Address)
  | updated (subpoolId : BitVec 64) (newSubpoolRoot : U256)
  deriving DecidableEq, Repr

/-- The event of a successful call. -/
def subpoolLog (c : Call) : List SubpoolLog :=
  match c.op with
  | .assignSubpoolOwner subpoolId owner => [.assigned subpoolId owner]
  | .updateSubpoolRoot subpoolId newSubpoolRoot _ => [.updated subpoolId newSubpoolRoot]
  | _ => []

def assignedId : SubpoolLog → Option (BitVec 64)
  | .assigned id _ => some id
  | .updated _ _ => none

/-- The ids that are assigned, in order. -/
def assignedIds (L : List SubpoolLog) : List (BitVec 64) := L.filterMap assignedId

/-- The root an event gives to a subpool. -/
def updateOf (id : BitVec 64) : SubpoolLog → Option U256
  | .assigned _ _ => none
  | .updated j newSubpoolRoot => if j = id then some newSubpoolRoot else none

def lastUpdate (id : BitVec 64) (L : List SubpoolLog) : Option U256 :=
  L.reverse.findSome? (updateOf id)

/-- From `c` assigned ids to `c'`: an id that is assigned again, or the next one. -/
inductive Assigns : ℕ → List (BitVec 64) → ℕ → Prop
  | nil (c : ℕ) : Assigns c [] c
  | again {c c' : ℕ} {id : BitVec 64} {ids : List (BitVec 64)} :
      1 ≤ id.toNat → id.toNat ≤ c → Assigns c ids c' → Assigns c (id :: ids) c'
  | next {c c' : ℕ} {id : BitVec 64} {ids : List (BitVec 64)} :
      id.toNat = c + 1 → Assigns (c + 1) ids c' → Assigns c (id :: ids) c'

/-- The ids with an owner are `1` to `c`. -/
def Owned (s : ContractState) (c : ℕ) : Prop :=
  ∀ id, s.subpoolOwners id ≠ 0 ↔ 1 ≤ id.toNat ∧ id.toNat ≤ c

/-- What events tell about the states before and after them. -/
structure Tells (s : ContractState) (L : List SubpoolLog) (s' : ContractState) : Prop where
  roots : ∀ id, s'.subpoolRoots id = (lastUpdate id L).getD (s.subpoolRoots id)
  assigns : ∀ c, Owned s c → ∃ c', Owned s' c' ∧ Assigns c (assignedIds L) c'
  owned : ∀ id r, .updated id r ∈ L → s'.subpoolOwners id ≠ 0
  kept : ∀ id, s.subpoolOwners id ≠ 0 → s'.subpoolOwners id ≠ 0

/-! ## Lists of ids -/

section Assigns

variable {c c' c'' : ℕ} {ids ids' : List (BitVec 64)}

theorem Assigns.le (h : Assigns c ids c') : c ≤ c' := by
  induction h with
  | nil c => exact Nat.le_refl c
  | again _ _ _ ih => exact ih
  | next _ _ ih => exact Nat.le_of_succ_le ih

theorem Assigns.append (h : Assigns c ids c') (h' : Assigns c' ids' c'') :
    Assigns c (ids ++ ids') c'' := by
  induction h with
  | nil c => exact h'
  | again hpos hle _ ih => exact .again hpos hle (ih h')
  | next hid _ ih => exact .next hid (ih h')

theorem Assigns.mem (h : Assigns c ids c') : ∀ id ∈ ids, 1 ≤ id.toNat ∧ id.toNat ≤ c' := by
  induction h with
  | nil c =>
    intro id hid
    cases hid
  | again hpos hle hrest ih =>
    intro id hid
    rcases List.mem_cons.mp hid with rfl | hid
    · exact ⟨hpos, Nat.le_trans hle hrest.le⟩
    · exact ih id hid
  | next hnext hrest ih =>
    intro id hid
    rcases List.mem_cons.mp hid with rfl | hid
    · have hle := hrest.le
      omega
    · exact ih id hid

/-- The count is below what bounds the ids. -/
theorem Assigns.lt {bound : ℕ} (h : Assigns c ids c') (hids : ∀ id ∈ ids, id.toNat < bound)
    (hc : c < bound) : c' < bound := by
  induction h with
  | nil c => exact hc
  | again _ _ _ ih => exact ih (fun j hj => hids j (List.mem_cons_of_mem _ hj)) hc
  | next hnext _ ih =>
    have hlt := hids _ List.mem_cons_self
    exact ih (fun j hj => hids j (List.mem_cons_of_mem _ hj)) (by omega)

/-- Ids that are all assigned already. -/
theorem assigns_again (h : ∀ id ∈ ids, 1 ≤ id.toNat ∧ id.toNat ≤ c) : Assigns c ids c := by
  induction ids with
  | nil => exact .nil c
  | cons id ids ih =>
    obtain ⟨hpos, hle⟩ := h id List.mem_cons_self
    exact .again hpos hle (ih fun j hj => h j (List.mem_cons_of_mem id hj))

/-- Reading a beginning again. -/
theorem Assigns.reread (h : Assigns c ids c') (h' : Assigns c' ids' c'') :
    Assigns c' (ids ++ ids') c'' :=
  (assigns_again h.mem).append h'

end Assigns

/-! ## The events of a run -/

section Runs

variable {env : Env} {s s' s'' : ContractState} {L L' : List SubpoolLog} {id : BitVec 64}

theorem lastUpdate_append : lastUpdate id (L ++ L') = (lastUpdate id L').or (lastUpdate id L) := by
  rw [lastUpdate, List.reverse_append, List.findSome?_append]
  rfl

theorem lastUpdate_singleton (x : SubpoolLog) : lastUpdate id [x] = updateOf id x := by
  unfold lastUpdate
  rw [List.reverse_singleton, List.findSome?_cons]
  cases updateOf id x with
  | none => rfl
  | some r => rfl

/-- A root comes from an update of the subpool. -/
theorem mem_of_lastUpdate {r : U256} (h : lastUpdate id L = some r) : .updated id r ∈ L := by
  obtain ⟨x, hx, hupdate⟩ := List.exists_of_findSome?_eq_some h
  cases x with
  | assigned j owner => cases hupdate
  | updated j newSubpoolRoot =>
    simp only [updateOf] at hupdate
    split at hupdate
    · rename_i hj
      cases hupdate
      subst hj
      exact List.mem_reverse.mp hx
    · cases hupdate

theorem Tells.refl (s : ContractState) : Tells s [] s where
  roots := fun _ => rfl
  assigns := fun c hc => ⟨c, hc, .nil c⟩
  owned := fun _ _ hmem => absurd hmem List.not_mem_nil
  kept := fun _ h => h

theorem Tells.trans (h : Tells s L s') (h' : Tells s' L' s'') : Tells s (L ++ L') s'' where
  roots := by
    intro id
    rw [h'.roots, h.roots, lastUpdate_append]
    cases lastUpdate id L' with
    | none => rfl
    | some r => rfl
  assigns := by
    intro c hc
    obtain ⟨c', hc', hfirst⟩ := h.assigns c hc
    obtain ⟨c'', hc'', hsecond⟩ := h'.assigns c' hc'
    refine ⟨c'', hc'', ?_⟩
    rw [assignedIds, List.filterMap_append]
    exact hfirst.append hsecond
  owned := by
    intro id r hmem
    rcases List.mem_append.mp hmem with hmem | hmem
    · exact h'.kept id (h.owned id r hmem)
    · exact h'.owned id r hmem
  kept := fun id hid => h'.kept id (h.kept id hid)

/-- A call that is not about subpools. -/
theorem Tells.same (h : SameConfig s s') : Tells s [] s' where
  roots := fun id => congrFun h.subpoolRoots id
  assigns := by
    intro c hc
    refine ⟨c, ?_, .nil c⟩
    unfold Owned
    rw [h.subpoolOwners]
    exact hc
  owned := fun _ _ hmem => absurd hmem List.not_mem_nil
  kept := by
    rw [h.subpoolOwners]
    exact fun _ hid => hid

theorem assignSubpoolOwner_ok {ctx : Ctx} {owner : Address}
    (h : assignSubpoolOwner ctx id owner s = .ok s') :
    id ≠ 0 ∧ owner ≠ 0 ∧ (id = 1 ∨ s.subpoolOwners (id - 1) ≠ 0) ∧
      s' = { s with subpoolOwners := update s.subpoolOwners id owner } := by
  simp only [assignSubpoolOwner, onlyOperator, revertIf_bind_eq_ok, pure_eq_ok] at h
  obtain ⟨-, hid, howner, horder, rfl⟩ := h
  refine ⟨hid, howner, ?_, rfl⟩
  by_contra hnot
  rw [not_or, not_not] at hnot
  exact horder hnot

/-- An id in order is an assigned one or the next. -/
theorem Owned.next {c : ℕ} (hc : Owned s c) (hid : id ≠ 0)
    (horder : id = 1 ∨ s.subpoolOwners (id - 1) ≠ 0) :
    1 ≤ id.toNat ∧ id.toNat ≤ c + 1 := by
  have hpos : 1 ≤ id.toNat := by
    rcases Nat.eq_zero_or_pos id.toNat with h0 | hpos
    · exact absurd (BitVec.eq_of_toNat_eq h0) hid
    · exact hpos
  refine ⟨hpos, ?_⟩
  rcases horder with rfl | hprev
  · exact Nat.le_add_left 1 c
  · have hsub : (id - 1).toNat = id.toNat - 1 := by
      rw [BitVec.toNat_sub_of_le]
      · rfl
      · exact hpos
    have hle := ((hc _).mp hprev).2
    omega

theorem Tells.assigned {owner : Address} (hid : id ≠ 0) (howner : owner ≠ 0)
    (horder : id = 1 ∨ s.subpoolOwners (id - 1) ≠ 0) :
    Tells s [.assigned id owner]
      { s with subpoolOwners := update s.subpoolOwners id owner } where
  roots := fun _ => rfl
  assigns := by
    intro c hc
    obtain ⟨hpos, hle⟩ := hc.next hid horder
    rcases Nat.lt_or_ge c id.toNat with hnew | hold
    · have hnext : id.toNat = c + 1 := by omega
      refine ⟨c + 1, fun j => ?_, .next hnext (.nil _)⟩
      by_cases hj : j = id
      · subst hj
        simp only [update_self, ne_eq, howner, not_false_eq_true, hpos, hle, and_self]
      · have hne : j.toNat ≠ c + 1 := fun h => hj (BitVec.eq_of_toNat_eq (h.trans hnext.symm))
        simp only [update_of_ne hj]
        rw [hc j]
        omega
    · refine ⟨c, fun j => ?_, .again hpos hold (.nil _)⟩
      by_cases hj : j = id
      · subst hj
        simp only [update_self, ne_eq, howner, not_false_eq_true, hpos, hold, and_self]
      · simp only [update_of_ne hj]
        exact hc j
  owned := by
    intro j r hmem
    cases List.mem_singleton.mp hmem
  kept := by
    intro j hj
    by_cases hid : j = id
    · subst hid
      simpa only [update_self] using howner
    · simpa only [update_of_ne hid] using hj

theorem Tells.updated {r root : U256} (howner : s.subpoolOwners id ≠ 0) :
    Tells s [.updated id r]
      { s with subpoolRoots := update s.subpoolRoots id r, mainPoolConfigRoot := root } where
  roots := by
    intro j
    rw [lastUpdate_singleton]
    by_cases hj : j = id
    · subst hj
      simp only [update_self, updateOf, if_true, Option.getD_some]
    · simp only [update_of_ne hj, updateOf, if_neg (Ne.symm hj), Option.getD_none]
  assigns := fun c hc => ⟨c, hc, .nil c⟩
  owned := by
    intro j r' hmem
    cases List.mem_singleton.mp hmem
    exact howner
  kept := fun _ h => h

theorem step_tells {c : Call} (h : step env c s = .ok s') : Tells s (subpoolLog c) s' := by
  obtain ⟨ctx, op⟩ := c
  have hcases := step_configTree h
  cases op with
  | assignSubpoolOwner id owner =>
    obtain ⟨hid, howner, horder, rfl⟩ := assignSubpoolOwner_ok h
    exact .assigned hid howner horder
  | updateSubpoolRoot id r siblings =>
    obtain ⟨howner, -, -, rfl⟩ := updateSubpoolRoot_ok h
    exact .updated howner
  | _ =>
    rcases hcases with hsame | ⟨_, _, hop, -⟩ | ⟨_, _, _, hop, -⟩
    · exact .same hsame
    · cases hop
    · cases hop

/-- The events of a run. -/
theorem run_tells (s : ContractState) (calls : List Call) :
    Tells s (runLog (step env) subpoolLog s calls).2 (runLog (step env) subpoolLog s calls).1 := by
  refine runLog_inv (step env) subpoolLog s calls (fun t l => Tells s l t) (.refl s) ?_
  intro c _ t t' l ht hstep
  exact ht.trans (step_tells hstep)

/-- The number of assigned ids. -/
theorem Owned.unique {c c' : ℕ} (h : Owned s c) (h' : Owned s c') (hc : c < 2 ^ 64)
    (hc' : c' < 2 ^ 64) : c = c' := by
  have hle : ∀ a b, Owned s a → Owned s b → b < 2 ^ 64 → b ≤ a := by
    intro a b ha hb hlt
    rcases Nat.eq_zero_or_pos b with rfl | hpos
    · exact Nat.zero_le a
    · have hval : (BitVec.ofNat 64 b).toNat = b := Nat.mod_eq_of_lt hlt
      have hown := (hb (BitVec.ofNat 64 b)).mpr (by omega)
      have hrange := (ha _).mp hown
      omega
  exact Nat.le_antisymm (hle c' c h' h hc) (hle c c' h h' hc')

theorem Tells.assigns_of {c c' : ℕ} (h : Tells s L s') (hc : Owned s c) (hc' : Owned s' c')
    (hbound : c' < 2 ^ 64) (hids : ∀ id ∈ assignedIds L, id.toNat < 2 ^ 64) (hcbound : c < 2 ^ 64) :
    Assigns c (assignedIds L) c' := by
  obtain ⟨d, hd, hassigns⟩ := h.assigns c hc
  rwa [hd.unique hc' (hassigns.lt hids hcbound) hbound] at hassigns

theorem owned_deployed (h : Deployed env s) : Owned s 0 := by
  obtain ⟨_, _, _, _, _, _, _, h⟩ := h.deployed
  simp only [constructor, revertIf_bind_eq_ok, pure_eq_ok] at h
  obtain ⟨-, -, -, -, -, -, rfl⟩ := h
  intro id
  dsimp only
  constructor
  · intro h
    exact absurd rfl h
  · rintro ⟨h1, h2⟩
    omega

end Runs

end Doxa.Contract
