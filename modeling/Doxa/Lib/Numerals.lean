import Mathlib.Data.Nat.Cast.Defs

/-!
# Small numerals

A numeral of a type with a cast from `ℕ` carries a proof that it is at least two, and an
index of `Fin n` one that `n` is not zero. The proofs for the small numbers have a name
here, so a numeral elaborates to one and the same term in every module.
-/

namespace Lib

instance (priority := high) atLeastTwo_two : Nat.AtLeastTwo 2 := ⟨by decide⟩
instance (priority := high) atLeastTwo_three : Nat.AtLeastTwo 3 := ⟨by decide⟩
instance (priority := high) atLeastTwo_four : Nat.AtLeastTwo 4 := ⟨by decide⟩
instance (priority := high) atLeastTwo_five : Nat.AtLeastTwo 5 := ⟨by decide⟩
instance (priority := high) atLeastTwo_seven : Nat.AtLeastTwo 7 := ⟨by decide⟩
instance (priority := high) atLeastTwo_nine : Nat.AtLeastTwo 9 := ⟨by decide⟩
instance (priority := high) atLeastTwo_ten : Nat.AtLeastTwo 10 := ⟨by decide⟩
instance (priority := high) atLeastTwo_twelve : Nat.AtLeastTwo 12 := ⟨by decide⟩
instance (priority := high) atLeastTwo_fifteen : Nat.AtLeastTwo 15 := ⟨by decide⟩
instance (priority := high) atLeastTwo_byteBase : Nat.AtLeastTwo 256 := ⟨by decide⟩
instance (priority := high) atLeastTwo_maxU32 : Nat.AtLeastTwo 4294967295 := ⟨by decide⟩
instance (priority := high) atLeastTwo_half : Nat.AtLeastTwo 9223372034707292161 := ⟨by decide⟩

instance (priority := high) neZero_succ (n : ℕ) : @NeZero ℕ Zero.ofOfNat0 (n + 1) :=
  ⟨n.succ_ne_zero⟩
instance (priority := high) neZero_two : @NeZero ℕ Zero.ofOfNat0 2 := ⟨by decide⟩
instance (priority := high) neZero_four : @NeZero ℕ Zero.ofOfNat0 4 := ⟨by decide⟩
instance (priority := high) neZero_five : @NeZero ℕ Zero.ofOfNat0 5 := ⟨by decide⟩
instance (priority := high) neZero_seven : @NeZero ℕ Zero.ofOfNat0 7 := ⟨by decide⟩
instance (priority := high) neZero_eight : @NeZero ℕ Zero.ofOfNat0 8 := ⟨by decide⟩
instance (priority := high) neZero_twelve : @NeZero ℕ Zero.ofOfNat0 12 := ⟨by decide⟩
instance (priority := high) neZero_sixtyFour : @NeZero ℕ Zero.ofOfNat0 64 := ⟨by decide⟩
instance (priority := high) neZero_eighty : @NeZero ℕ Zero.ofOfNat0 80 := ⟨by decide⟩

end Lib
