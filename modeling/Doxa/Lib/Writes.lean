import Mathlib.Data.List.Induction
import Mathlib.Logic.Function.Basic

/-!
# Lists of writes to a map

A map with optional values is a function to `Option`. Writing a list of entries one after
the other leaves each key with the value of the last entry that has it. A loop may also
compute what it writes from the map itself; where it does not read what it writes, every
value comes from the map as it was before the loop.
-/

namespace Lib

variable {κ α ν : Type*} [DecidableEq κ]

/-- `for x in xs { map.insert(key(x), value(x)) }`. -/
def writeAll (key : α → κ) (value : α → ν) (f : κ → Option ν) (xs : List α) : κ → Option ν :=
  xs.foldl (fun f x => Function.update f (key x) (some (value x))) f

variable {key : α → κ} {value : α → ν} {f : κ → Option ν} {xs : List α} {k : κ}

theorem writeAll_concat (xs : List α) (x : α) : writeAll key value f (xs ++ [x]) =
    Function.update (writeAll key value f xs) (key x) (some (value x)) := by
  simp only [writeAll, List.foldl_append, List.foldl_cons, List.foldl_nil]

/-- A key that is not written keeps its value. -/
theorem writeAll_of_forall_ne (h : ∀ x ∈ xs, key x ≠ k) : writeAll key value f xs k = f k := by
  induction xs using List.reverseRecOn with
  | nil => rfl
  | append_singleton xs x ih =>
      have hx : k ≠ key x := (h x (List.mem_append_right _ (List.mem_singleton_self x))).symm
      rw [writeAll_concat, Function.update_of_ne hx]
      exact ih fun y hy => h y (List.mem_append_left _ hy)

/-- A key that is written has the value of one of its entries. -/
theorem writeAll_of_exists (h : ∃ x ∈ xs, key x = k) :
    ∃ x ∈ xs, key x = k ∧ writeAll key value f xs k = some (value x) := by
  induction xs using List.reverseRecOn with
  | nil =>
      obtain ⟨x, hx, -⟩ := h
      cases hx
  | append_singleton xs x ih =>
      by_cases hx : key x = k
      · refine ⟨x, List.mem_append_right _ (List.mem_singleton_self x), hx, ?_⟩
        rw [writeAll_concat, hx, Function.update_self]
      · have hrest : ∃ y ∈ xs, key y = k := by
          obtain ⟨y, hy, hk⟩ := h
          rcases List.mem_append.mp hy with hy | hy
          · exact ⟨y, hy, hk⟩
          · rw [List.mem_singleton] at hy
            subst hy
            exact absurd hk hx
        obtain ⟨y, hy, hk, hvalue⟩ := ih hrest
        refine ⟨y, List.mem_append_left _ hy, hk, ?_⟩
        rw [writeAll_concat, Function.update_of_ne (Ne.symm hx)]
        exact hvalue

/-- All entries carry one value. -/
theorem writeAll_const (xs : List κ) (v : ν) (k : κ) :
    writeAll id (fun _ => v) f xs k = if k ∈ xs then some v else f k := by
  split
  · rename_i hk
    have hwritten : ∃ x ∈ xs, id x = k ∧ writeAll id (fun _ => v) f xs k = some v :=
      writeAll_of_exists ⟨k, hk, rfl⟩
    obtain ⟨_, _, _, hvalue⟩ := hwritten
    exact hvalue
  · rename_i hk
    refine writeAll_of_forall_ne fun x hx hxk => hk ?_
    exact hxk ▸ hx

/-! ## One entry of a table -/

/-- A table with rows of its own, after a write at row `i` and key `k`. -/
theorem update_row {ι ν : Type*} [DecidableEq ι] (f : ι → κ → ν) (i j : ι) (k q : κ) (v : ν) :
    Function.update f i (Function.update (f i) k v) j q =
      if j = i ∧ q = k then v else f j q := by
  by_cases hj : j = i
  · subst hj
    rw [Function.update_self]
    by_cases hq : q = k
    · rw [hq, Function.update_self, if_pos ⟨rfl, rfl⟩]
    · rw [Function.update_of_ne hq, if_neg fun hboth => hq hboth.2]
  · rw [Function.update_of_ne hj, if_neg fun hboth => hj hboth.1]

/-! ## Loops that read what they write to -/

section Cells

variable {ι V : Type*}

/-- `for i in xs { row[col(i)] = f(row, i) }`. -/
def writeCells (col : ι → κ) (f : (κ → V) → ι → V) (xs : List ι) (row : κ → V) : κ → V :=
  xs.foldl (fun row i => Function.update row (col i) (f row i)) row

variable {col : ι → κ} {f : (κ → V) → ι → V} {cells : List ι} {row : κ → V}

theorem writeCells_concat (cells : List ι) (i : ι) : writeCells col f (cells ++ [i]) row =
    Function.update (writeCells col f cells row) (col i) (f (writeCells col f cells row) i) := by
  simp only [writeCells, List.foldl_append, List.foldl_cons, List.foldl_nil]

theorem writeCells_of_forall_ne {k : κ} (h : ∀ i ∈ cells, col i ≠ k) :
    writeCells col f cells row k = row k := by
  induction cells using List.reverseRecOn with
  | nil => rfl
  | append_singleton cells i ih =>
      have hi : k ≠ col i := (h i (List.mem_append_right _ (List.mem_singleton_self i))).symm
      rw [writeCells_concat, Function.update_of_ne hi]
      exact ih fun j hj => h j (List.mem_append_left _ hj)

/-- A cell has the value that is computed from the row before the loop. -/
theorem writeCells_apply (hcol : Function.Injective col)
    (hread : ∀ row', (∀ k, (∀ i, col i ≠ k) → row' k = row k) → ∀ i, f row' i = f row i) {i : ι}
    (hi : i ∈ cells) : writeCells col f cells row (col i) = f row i := by
  induction cells using List.reverseRecOn with
  | nil => cases hi
  | append_singleton cells j ih =>
      rw [writeCells_concat]
      by_cases hij : i = j
      · subst hij
        rw [Function.update_self]
        exact hread _ (fun k hk => writeCells_of_forall_ne fun j _ => hk j) i
      · rw [Function.update_of_ne fun hcols => hij (hcol hcols)]
        exact ih ((List.mem_append.mp hi).resolve_right fun hj => hij (List.mem_singleton.mp hj))

end Cells

end Lib
