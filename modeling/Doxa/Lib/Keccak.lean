import Doxa.Lib.Positional

/-!
# Keccak-256

The sponge over 25 lanes of 64 bits with the rate of 17 lanes, on bytes: the message is
padded with `0x01 0x00 … 0x80` to a multiple of 136 bytes, every block is added to the first
lanes before the permutation is applied, and the digest is the first four lanes. Lanes are
read and written with the least significant byte first. The permutation is a parameter.
-/

namespace Lib.Keccak

abbrev Lanes := Fin 25 → BitVec 64

/-- The bytes of a block. -/
def RATE : ℕ := 136

/-- The `n` bytes that end a message; where one byte is missing it has both marks. -/
def padding (n : ℕ) : List (BitVec 8) :=
  if n = 1 then [0x81] else 0x01 :: (List.replicate (n - 2) 0 ++ [0x80])

def pad (message : List (BitVec 8)) : List (BitVec 8) :=
  message ++ padding (RATE - message.length % RATE)

/-- The lane with the bytes `b 0, …, b 7`. -/
def lane (b : ℕ → BitVec 8) : BitVec 64 := BitVec.ofNat 64 (littleEndian 8 (fun k => (b k).toNat) 8)

/-- A block enters the first 17 lanes. -/
def absorbBlock (b : ℕ → BitVec 8) (s : Lanes) : Lanes :=
  fun i => if i.val < 17 then s i ^^^ lane (fun k => b (8 * i.val + k)) else s i

/-- Byte `k` of the output. -/
def outputByte (s : Lanes) (k : Fin 32) : BitVec 8 :=
  (s ⟨k.val / 8, by omega⟩ >>> (8 * (k.val % 8))).setWidth 8

variable (keccakf : Lanes → Lanes)

/-- The state after `n` blocks of a padded message. -/
def absorbed (padded : List (BitVec 8)) (n : ℕ) : Lanes :=
  forLoop (fun i s => keccakf (absorbBlock (fun k => padded.getD (RATE * i + k) 0) s)) n
    fun _ => 0#64

def keccak256 (message : List (BitVec 8)) : List (BitVec 8) :=
  List.ofFn (outputByte (absorbed keccakf (pad message) ((pad message).length / RATE)))

theorem absorbed_zero (padded : List (BitVec 8)) : absorbed keccakf padded 0 = fun _ => 0#64 := rfl

theorem absorbed_succ (padded : List (BitVec 8)) (n : ℕ) :
    absorbed keccakf padded (n + 1) =
      keccakf (absorbBlock (fun k => padded.getD (RATE * n + k) 0) (absorbed keccakf padded n)) :=
  rfl

theorem padding_length {n : ℕ} (hn : 0 < n) : (padding n).length = n := by
  unfold padding
  split
  · rename_i hone
    rw [hone, List.length_singleton]
  · rw [List.length_cons, List.length_append, List.length_replicate, List.length_singleton]
    omega

/-- A padded message has one block more than the message has full ones. -/
theorem pad_length (message : List (BitVec 8)) :
    (pad message).length = RATE * (message.length / RATE + 1) := by
  have hmod : message.length % RATE < RATE := Nat.mod_lt _ (by decide)
  have hdiv := Nat.div_add_mod message.length RATE
  rw [pad, List.length_append, padding_length (Nat.sub_pos_of_lt hmod), Nat.mul_succ]
  omega

end Lib.Keccak
