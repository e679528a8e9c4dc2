import Mathlib.Algebra.BigOperators.Group.List.Basic
import Mathlib.Algebra.GroupWithZero.Nat
import Mathlib.Data.List.Nodup

/-!
# Tables with a unique column

A table of a database as the list of its rows in the order of their insertion, with one
column in which no two rows agree. An insertion numbers its row; with a key that is taken
it is refused, or ignored. A total over the rows changes with a row by the difference of
its two values.
-/

namespace Lib

/-- Rows that differ in the column `key`, and the next serial number. -/
structure Table (α : Type*) {κ : Type*} (key : α → κ) where
  rows : List α
  serial : ℕ
  unique : (rows.map key).Nodup

namespace Table

variable {α κ : Type*} [DecidableEq κ] {key : α → κ}

/-- `SELECT .. WHERE key = k`. -/
def find (t : Table α key) (k : κ) : Option α := t.rows.find? fun r => key r = k

/-- `INSERT`, of the row with the next serial number. -/
def insert (t : Table α key) (row : ℕ → α) : Option (Table α key) :=
  if h : key (row t.serial) ∈ t.rows.map key then none
  else some
    { rows := t.rows ++ [row t.serial]
      serial := t.serial + 1
      unique := by
        rw [List.map_append, List.map_singleton, ← List.concat_eq_append]
        exact t.unique.concat h }

/-- `INSERT .. ON CONFLICT (key) DO NOTHING`. -/
def insertOrIgnore (t : Table α key) (row : ℕ → α) : Table α key := (t.insert row).getD t

/-- `UPDATE .. WHERE key = k`, which leaves the key as it is. -/
def update (t : Table α key) (k : κ) (f : α → α) (hf : ∀ r, key (f r) = key r) : Table α key where
  rows := t.rows.map fun r => if key r = k then f r else r
  serial := t.serial
  unique := by
    have hkeys : (t.rows.map fun r => if key r = k then f r else r).map key = t.rows.map key := by
      rw [List.map_map]
      refine List.map_congr_left fun r _ => ?_
      rw [Function.comp_apply]
      split
      · exact hf r
      · rfl
    rw [hkeys]
    exact t.unique

/-- The sum of a column. -/
def total (t : Table α key) (g : α → ℕ) : ℕ := (t.rows.map g).sum

variable {t t' : Table α key} {k k' : κ} {r : α} {row : ℕ → α} {f : α → α} {g : α → ℕ}
  {hf : ∀ r, key (f r) = key r}

/-! ## Rows -/

theorem find_eq_some : t.find k = some r ↔ r ∈ t.rows ∧ key r = k := by
  constructor
  · intro h
    exact ⟨List.mem_of_find?_eq_some h, by simpa using List.find?_some h⟩
  · rintro ⟨hmem, rfl⟩
    cases h : t.find (key r) with
    | none =>
        rw [find, List.find?_eq_none] at h
        exact absurd (decide_eq_true rfl) (h r hmem)
    | some r' =>
        have hkey : key r' = key r := by simpa using List.find?_some h
        exact congrArg some (List.inj_on_of_nodup_map t.unique (List.mem_of_find?_eq_some h) hmem hkey)

theorem find_eq_none : t.find k = none ↔ ∀ r ∈ t.rows, key r ≠ k := by
  rw [find, List.find?_eq_none]
  simp only [decide_eq_true_eq]

theorem find_of_mem (h : r ∈ t.rows) : t.find (key r) = some r := find_eq_some.mpr ⟨h, rfl⟩

theorem mem_of_find (h : t.find k = some r) : r ∈ t.rows := (find_eq_some.mp h).1

theorem key_of_find (h : t.find k = some r) : key r = k := (find_eq_some.mp h).2

theorem find_isSome : (t.find k).isSome ↔ k ∈ t.rows.map key := by
  rw [Option.isSome_iff_exists, List.mem_map]
  simp only [find_eq_some]

/-- Rows that were found by their keys have these keys. -/
theorem map_key_of_forall₂ {ks : List κ} {rs : List α}
    (h : List.Forall₂ (fun k r => t.find k = some r) ks rs) : rs.map key = ks := by
  induction h with
  | nil => rfl
  | cons hr _ ih => rw [List.map_cons, key_of_find hr, ih]

theorem filterMap_find_of_forall₂ {ks : List κ} {rs : List α}
    (h : List.Forall₂ (fun k r => t.find k = some r) ks rs) : ks.filterMap t.find = rs := by
  induction h with
  | nil => rfl
  | cons hr _ ih => rw [List.filterMap_cons_some hr, ih]

/-! ## Insertions -/

theorem insert_eq_some (h : t.insert row = some t') :
    t.find (key (row t.serial)) = none ∧ t'.rows = t.rows ++ [row t.serial] := by
  unfold insert at h
  split at h
  · cases h
  · rename_i hkey
    cases h
    refine ⟨find_eq_none.mpr fun r hr heq => ?_, rfl⟩
    exact hkey (heq ▸ List.mem_map_of_mem hr)

theorem serial_insert (h : t.insert row = some t') : t'.serial = t.serial + 1 := by
  unfold insert at h
  split at h
  · cases h
  · cases h
    rfl

theorem insert_ok (h : t.find (key (row t.serial)) = none) : ∃ t', t.insert row = some t' := by
  have hkey : key (row t.serial) ∉ t.rows.map key := by
    rw [← find_isSome, h]
    exact Bool.false_ne_true
  unfold insert
  rw [dif_neg hkey]
  exact ⟨_, rfl⟩

theorem insert_taken (h : t.find (key (row t.serial)) = some r) : t.insert row = none := by
  have hkey : key (row t.serial) ∈ t.rows.map key := find_isSome.mp (by rw [h]; rfl)
  unfold insert
  rw [dif_pos hkey]

theorem find_insert (h : t.insert row = some t') :
    t'.find k = if key (row t.serial) = k then some (row t.serial) else t.find k := by
  obtain ⟨hfresh, hrows⟩ := insert_eq_some h
  rw [find, hrows, List.find?_append]
  split
  · rename_i hk
    rw [← hk, show t.rows.find? (fun r => key r = key (row t.serial)) = none from hfresh]
    simp
  · rename_i hk
    simp [hk, find]

theorem total_insert (h : t.insert row = some t') : t'.total g = t.total g + g (row t.serial) := by
  rw [total, (insert_eq_some h).2, List.map_append, List.sum_append, List.map_singleton,
    List.sum_singleton, total]

theorem insertOrIgnore_taken (h : t.find (key (row t.serial)) = some r) : t.insertOrIgnore row = t := by
  rw [insertOrIgnore, insert_taken h, Option.getD_none]

/-- An ignored insertion changes nothing, another one adds the row. -/
theorem insertOrIgnore_cases (t : Table α key) (row : ℕ → α) :
    (t.insertOrIgnore row = t ∧ (t.find (key (row t.serial))).isSome) ∨
      t.insert row = some (t.insertOrIgnore row) := by
  cases h : t.find (key (row t.serial)) with
  | some r => exact .inl ⟨insertOrIgnore_taken h, rfl⟩
  | none =>
      obtain ⟨t', ht'⟩ := insert_ok h
      rw [insertOrIgnore, ht', Option.getD_some]
      exact .inr rfl

/-- What is in the table stays. -/
theorem find_insertOrIgnore (h : t.find k = some r) : (t.insertOrIgnore row).find k = some r := by
  rcases insertOrIgnore_cases t row with ⟨heq, -⟩ | hins
  · rw [heq, h]
  · rw [find_insert hins]
    split
    · rename_i hk
      rw [← hk, (insert_eq_some hins).1] at h
      cases h
    · exact h

/-! ## Updates -/

theorem find_update : (t.update k f hf).find k' = (t.find k').map fun r => if key r = k then f r else r := by
  cases h : t.find k' with
  | none =>
      rw [find_eq_none] at h
      rw [Option.map_none, find_eq_none]
      intro r hr
      obtain ⟨r₀, hr₀, rfl⟩ := List.mem_map.mp hr
      have hne := h r₀ hr₀
      split
      · rwa [hf]
      · exact hne
  | some r =>
      rw [Option.map_some, find_eq_some]
      refine ⟨List.mem_map_of_mem (mem_of_find h), ?_⟩
      split
      · rw [hf, key_of_find h]
      · exact key_of_find h

theorem find_update_self (h : t.find k = some r) : (t.update k f hf).find k = some (f r) := by
  rw [find_update, h, Option.map_some, if_pos (key_of_find h)]

theorem find_update_ne (h : k' ≠ k) : (t.update k f hf).find k' = t.find k' := by
  rw [find_update]
  cases hfind : t.find k' with
  | none => rfl
  | some r =>
      rw [Option.map_some, if_neg]
      rwa [key_of_find hfind]

theorem sum_map_update {rows : List α} (hnodup : (rows.map key).Nodup) (hr : r ∈ rows) :
    ((rows.map fun x => if key x = key r then f x else x).map g).sum + g r =
      (rows.map g).sum + g (f r) := by
  induction rows with
  | nil => cases hr
  | cons x rows ih =>
      rw [List.map_cons, List.nodup_cons] at hnodup
      obtain ⟨hx, hnodup⟩ := hnodup
      simp only [List.map_cons, List.sum_cons]
      rcases List.mem_cons.mp hr with rfl | hr
      · have hrest : ∀ y ∈ rows, (if key y = key r then f y else y) = id y := by
          intro y hy
          refine if_neg fun heq => hx ?_
          rw [← heq]
          exact List.mem_map_of_mem hy
        rw [if_pos rfl, List.map_congr_left hrest, List.map_id]
        omega
      · have hne : key x ≠ key r := fun heq => hx (heq ▸ List.mem_map_of_mem hr)
        rw [if_neg hne]
        have hih := ih hnodup hr
        omega

theorem total_update (hf : ∀ r, key (f r) = key r) (h : t.find k = some r) :
    (t.update k f hf).total g + g r = t.total g + g (f r) := by
  obtain ⟨hmem, rfl⟩ := find_eq_some.mp h
  exact sum_map_update t.unique hmem

end Table

end Lib
