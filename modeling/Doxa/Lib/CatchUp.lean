import Doxa.Lib.Program
import Mathlib.Data.List.Induction

/-!
# Catching up with a log

A log holds entries block by block. A reader takes a range of blocks page by page and gets the
entries of the whole range or fails (`readPages_cases`). A follower keeps a state and the last
block it has finished: an attempt starts at the block after it, and only an attempt that ends
moves the position, so that a failed one is made again from the same block, to an end that may
lie further on.

When the reading of a range takes a state at any block not before its start to the end of the
range, and changes nothing when it fails, then every attempt that reads its range leaves the
state of its last block, whatever failed before it (`follow_reads`).
-/

namespace Lib

variable {ε σ α ι : Type}

/-! ## Ranges and pages -/

/-- The entries of the blocks of a range, each with its block. -/
def blocksIn (log : ℕ → List α) (fromBlock toBlock : ℕ) : List (ℕ × α) :=
  (List.range' fromBlock (toBlock + 1 - fromBlock)).flatMap fun n => (log n).map fun x => (n, x)

theorem blocksIn_of_lt (log : ℕ → List α) {a b : ℕ} (h : b < a) : blocksIn log a b = [] := by
  unfold blocksIn
  rw [Nat.sub_eq_zero_of_le h]
  rfl

theorem blocksIn_append (log : ℕ → List α) {a b c : ℕ} (hab : a ≤ b + 1) (hbc : b ≤ c) :
    blocksIn log a b ++ blocksIn log (b + 1) c = blocksIn log a c := by
  unfold blocksIn
  have hstart : a + (b + 1 - a) = b + 1 := by omega
  have hlength : b + 1 - a + (c + 1 - (b + 1)) = c + 1 - a := by omega
  rw [← List.flatMap_append, ← hlength, ← List.range'_append_1, hstart]

/-- A log that has nothing before `first`. -/
theorem blocksIn_first {log : ℕ → List α} {first : ℕ} (h : ∀ n < first, log n = []) (last : ℕ) :
    blocksIn log first last = blocksIn log 0 last := by
  have hnone : ∀ b < first, blocksIn log 0 b = [] := by
    intro b hb
    unfold blocksIn
    rw [List.flatMap_eq_nil_iff]
    intro n hn
    have hlt := (List.mem_range'_1.mp hn).2
    rw [h n (by omega), List.map_nil]
  cases first with
  | zero => rfl
  | succ b =>
    rcases Nat.lt_or_ge last (b + 1) with hlast | hlast
    · rw [blocksIn_of_lt log hlast, hnone last hlast]
    · rw [← blocksIn_append log (Nat.zero_le (b + 1)) (Nat.le_of_succ_le hlast),
        hnone b (Nat.lt_succ_self b), List.nil_append]

/-- The entries without their blocks. -/
theorem blocksIn_snd (log : ℕ → List α) (a b : ℕ) :
    (blocksIn log a b).map Prod.snd = (List.range' a (b + 1 - a)).flatMap log := by
  unfold blocksIn
  rw [List.map_flatMap]
  refine List.flatMap_congr fun n _ => ?_
  rw [List.map_map]
  exact List.map_id _

theorem blocksIn_map_snd (log : ℕ → List α) (n : ℕ) :
    (blocksIn log 0 n).map Prod.snd = (List.range (n + 1)).flatMap log := by
  rw [blocksIn_snd, List.range_eq_range', Nat.sub_zero]

theorem mem_blocksIn {log : ℕ → List α} {a b : ℕ} {x : ℕ × α} (h : x ∈ blocksIn log a b) :
    x.2 ∈ log x.1 := by
  obtain ⟨n, -, hx⟩ := List.mem_flatMap.mp h
  obtain ⟨y, hy, rfl⟩ := List.mem_map.mp hx
  exact hy

/-- The entries of one kind. -/
theorem blocksIn_filter (log : ℕ → List α) (p : α → Bool) (a b : ℕ) :
    blocksIn (fun n => (log n).filter p) a b = (blocksIn log a b).filter fun x => p x.2 := by
  unfold blocksIn
  rw [List.filter_flatMap]
  refine List.flatMap_congr fun n _ => ?_
  rw [List.filter_map]
  rfl

/-- A loop over the entries of one kind is one over all entries, when the others change
nothing. -/
theorem foldl_filter {β : Type} {p : α → Bool} {f : σ → β × α → σ} (hf : ∀ s x, p x.2 = false → f s x = s)
    (L : List (β × α)) (s : σ) : (L.filter fun x => p x.2).foldl f s = L.foldl f s := by
  rw [List.foldl_filter]
  refine congrArg (fun g => L.foldl g s) (funext fun s => funext fun x => ?_)
  cases hx : p x.2 with
  | true => rw [if_pos rfl]
  | false => rw [if_neg Bool.false_ne_true, hf s x hx]

/-- Pages of `size` blocks up to `last`; `fuel` counts the blocks left. -/
def readPages (size : ℕ) (page : ℕ → ℕ → Program ε σ (List (ℕ × α))) (last : ℕ) :
    ℕ → ℕ → Program ε σ (List (ℕ × α))
  | 0, _ => pure []
  | fuel + 1, start =>
    if start ≤ last then do
      let stop := min (start + size - 1) last
      let entries ← page start stop
      let rest ← readPages size page last fuel (stop + 1)
      return entries ++ rest
    else return []

/-- Every page is returned, or some page fails and nothing else has happened. -/
theorem readPages_cases {size : ℕ} (hsize : 0 < size) (log : ℕ → List α)
    {page : ℕ → ℕ → Program ε σ (List (ℕ × α))} {e : ε}
    (hpage : ∀ a b, page a b = pure (blocksIn log a b) ∨ page a b = Program.fail e) (last : ℕ)
    {fuel start : ℕ} (hfuel : last + 1 - start ≤ fuel) :
    readPages size page last fuel start = pure (blocksIn log start last) ∨
      readPages size page last fuel start = Program.fail e := by
  induction fuel generalizing start with
  | zero =>
    rw [blocksIn_of_lt log (by omega : last < start)]
    exact .inl rfl
  | succ fuel ih =>
    rw [readPages]
    split
    · rename_i hle
      generalize hstop : min (start + size - 1) last = stop
      dsimp only
      rcases hpage start stop with heq | heq
      · rw [heq, Program.pure_bind]
        rcases @ih (stop + 1) (by omega) with hrest | hrest
        · rw [hrest, Program.pure_bind, blocksIn_append log (by omega) (by omega)]
          exact .inl rfl
        · rw [hrest, Program.fail_bind]
          exact .inr rfl
      · rw [heq, Program.fail_bind]
        exact .inr rfl
    · rw [blocksIn_of_lt log (by omega : last < start)]
      exact .inl rfl

/-- A reader whose pages are all returned reads the range. -/
theorem readPages_ok {size : ℕ} (hsize : 0 < size) (log : ℕ → List α)
    {page : ℕ → ℕ → Program ε σ (List (ℕ × α))} (hpage : ∀ a b, page a b = pure (blocksIn log a b))
    (last : ℕ) {fuel start : ℕ} (hfuel : last + 1 - start ≤ fuel) :
    readPages size page last fuel start = pure (blocksIn log start last) := by
  induction fuel generalizing start with
  | zero =>
    rw [blocksIn_of_lt log (by omega : last < start)]
    rfl
  | succ fuel ih =>
    rw [readPages]
    split
    · rename_i hle
      generalize hstop : min (start + size - 1) last = stop
      dsimp only
      rw [hpage, Program.pure_bind, @ih (stop + 1) (by omega), Program.pure_bind,
        blocksIn_append log (by omega) (by omega)]
    · rw [blocksIn_of_lt log (by omega : last < start)]

/-! ## Followers -/

structure Follower (σ : Type) where
  /-- The last block that was finished. -/
  position : ℕ
  state : σ

/-- One attempt: the head of the log, what else the reading depends on, and whether the work
before it and after it in the attempt succeeds. -/
structure Attempt (ι : Type) where
  head : ℕ
  input : ι
  before : Bool
  after : Bool

section Attempts

variable (read : ι → ℕ → ℕ → Program ε σ Unit)

/-- Whether the range was read, and the follower after the attempt. -/
def Follower.attempt (f : Follower σ) (a : Attempt ι) : Bool × Follower σ :=
  if a.head ≤ f.position then (false, f)
  else if a.before = false then (false, f)
  else
    match read a.input (f.position + 1) a.head f.state with
    | (.ok _, s) => (true, ⟨if a.after then a.head else f.position, s⟩)
    | (.error _, s) => (false, ⟨f.position, s⟩)

def Follower.follow (f : Follower σ) (attempts : List (Attempt ι)) : Follower σ :=
  attempts.foldl (fun f a => (f.attempt read a).2) f

theorem Follower.follow_concat (f : Follower σ) (attempts : List (Attempt ι)) (a : Attempt ι) :
    f.follow read (attempts ++ [a]) = ((f.follow read attempts).attempt read a).2 := by
  unfold Follower.follow
  rw [List.foldl_append, List.foldl_cons, List.foldl_nil]

/-- No head is behind an earlier one. -/
def HeadsFrom (first : ℕ) (attempts : List (Attempt ι)) : Prop :=
  (first :: attempts.map Attempt.head).Pairwise (· ≤ ·)

variable {read} {P : ℕ → σ → Prop}

/-- The state is that of a block between the position and `head`. -/
def Follower.Within (P : ℕ → σ → Prop) (head : ℕ) (f : Follower σ) : Prop :=
  ∃ n, f.position ≤ n ∧ n ≤ head ∧ P n f.state

/-- One attempt, with a head that is not behind. -/
theorem attempt_within {f : Follower σ} {head : ℕ} (h : f.Within P head) {a : Attempt ι}
    (hhead : head ≤ a.head)
    (hok : ∀ m n, f.position ≤ m → m ≤ n → ∀ s s', P m s →
      read a.input (f.position + 1) n s = (.ok (), s') → P n s')
    (herror : ∀ m n, f.position ≤ m → m ≤ n → ∀ s s' e, P m s →
      read a.input (f.position + 1) n s = (.error e, s') → s' = s) :
    (f.attempt read a).2.Within P a.head ∧
      ((f.attempt read a).1 = true → P a.head (f.attempt read a).2.state) := by
  obtain ⟨n, hpos, hn, hat⟩ := h
  unfold Follower.attempt
  split
  · exact ⟨⟨n, hpos, Nat.le_trans hn hhead, hat⟩, fun hread => Bool.noConfusion hread⟩
  · rename_i hnew
    split
    · exact ⟨⟨n, hpos, Nat.le_trans hn hhead, hat⟩, fun hread => Bool.noConfusion hread⟩
    · split
      · rename_i s hrun
        have hend := hok n a.head hpos (Nat.le_trans hn hhead) f.state s hat hrun
        refine ⟨⟨a.head, ?_, Nat.le_refl _, hend⟩, fun _ => hend⟩
        dsimp only
        split
        · exact Nat.le_refl _
        · omega
      · rename_i e s hrun
        rw [herror n a.head hpos (Nat.le_trans hn hhead) f.state s e hat hrun]
        exact ⟨⟨n, hpos, Nat.le_trans hn hhead, hat⟩, fun hread => Bool.noConfusion hread⟩

/-- After any attempts the state is that of a block not behind the position. -/
theorem follow_within {f : Follower σ} {attempts : List (Attempt ι)} (h : P f.position f.state)
    (hheads : HeadsFrom f.position attempts)
    (hok : ∀ i k m n, f.position ≤ k → k ≤ m → m ≤ n → ∀ s s', P m s →
      read i (k + 1) n s = (.ok (), s') → P n s')
    (herror : ∀ i k m n, f.position ≤ k → k ≤ m → m ≤ n → ∀ s s' e, P m s →
      read i (k + 1) n s = (.error e, s') → s' = s) :
    f.position ≤ (f.follow read attempts).position ∧
      (f.follow read attempts).Within P
        ((f.position :: attempts.map Attempt.head).getLast (List.cons_ne_nil _ _)) := by
  induction attempts using List.reverseRecOn with
  | nil => exact ⟨Nat.le_refl _, f.position, Nat.le_refl _, Nat.le_refl _, h⟩
  | append_singleton attempts a ih =>
    unfold HeadsFrom at hheads
    rw [List.map_append, List.map_singleton, ← List.cons_append, List.pairwise_append] at hheads
    obtain ⟨hinit, -, hlast⟩ := hheads
    obtain ⟨hpos, hwithin⟩ := ih hinit
    have hhead := hlast _ (List.getLast_mem (List.cons_ne_nil f.position (attempts.map Attempt.head)))
      a.head (List.mem_singleton_self _)
    have hend : (f.position :: (attempts ++ [a]).map Attempt.head).getLast
        (List.cons_ne_nil _ _) = a.head := by
      simp
    rw [Follower.follow_concat, hend]
    refine ⟨?_, (attempt_within hwithin hhead (fun m n hm => hok a.input _ m n hpos hm)
      (fun m n hm => herror a.input _ m n hpos hm)).1⟩
    unfold Follower.attempt
    split
    · exact hpos
    · split
      · exact hpos
      · split
        · dsimp only
          split
          · omega
          · exact hpos
        · exact hpos

/-- An attempt that reads its range leaves the state of its last block. -/
theorem follow_reads {f : Follower σ} {attempts : List (Attempt ι)} {a : Attempt ι}
    (h : P f.position f.state) (hheads : HeadsFrom f.position (attempts ++ [a]))
    (hok : ∀ i k m n, f.position ≤ k → k ≤ m → m ≤ n → ∀ s s', P m s →
      read i (k + 1) n s = (.ok (), s') → P n s')
    (herror : ∀ i k m n, f.position ≤ k → k ≤ m → m ≤ n → ∀ s s' e, P m s →
      read i (k + 1) n s = (.error e, s') → s' = s)
    (hread : ((f.follow read attempts).attempt read a).1 = true) :
    P a.head ((f.follow read attempts).attempt read a).2.state := by
  have hsplit := hheads
  unfold HeadsFrom at hsplit
  rw [List.map_append, List.map_singleton, ← List.cons_append, List.pairwise_append] at hsplit
  obtain ⟨hinit, -, hlast⟩ := hsplit
  obtain ⟨hpos, hwithin⟩ := follow_within h hinit hok herror
  have hhead := hlast _ (List.getLast_mem (List.cons_ne_nil f.position (attempts.map Attempt.head)))
    a.head (List.mem_singleton_self _)
  exact (attempt_within hwithin hhead (fun m n hm => hok a.input _ m n hpos hm)
    (fun m n hm => herror a.input _ m n hpos hm)).2 hread

end Attempts

end Lib
