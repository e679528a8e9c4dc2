import Doxa.Lib.Execution

/-!
# Words, calldata and the preimage layout of `DoxaContract`

The words of the contract are `uint256` and `bytes32`, both read as 256-bit vectors. A
`bytes calldata` argument is its length together with the bytes from its first position
on: the reads of the contract are not bounded by the length, so the positions from the
length on hold whatever else the caller put into the calldata (zero past its end). Only
the first `length` bytes enter the Keccak hash.

The offsets of the two batch preimages and the decoding of Goldilocks values are those of
`DoxaContract.sol`: a field element is `[lo_u32_BE, hi_u32_BE]`, and `glHashToU256` turns
four of them into the little-endian packing the tree works with.
-/

namespace Doxa.Contract

open Lib

abbrev U256 := BitVec 256

abbrev Bytes32 := BitVec 256

abbrev Address := BitVec 160

/-- A `bytes calldata` argument, seen from its first byte. -/
structure Bytes where
  length : ℕ
  byte : ℕ → BitVec 8

/-- The bytes of the argument itself, which is what `keccak256` reads. -/
def Bytes.content (data : Bytes) : List (BitVec 8) := (List.range data.length).map data.byte

/-- `calldataload(add(data.offset, off))`: 32 bytes, the first one most significant. -/
def calldataload (data : Bytes) (off : ℕ) : U256 :=
  forLoop (fun i w => (w <<< 8) ||| (data.byte (off + i)).setWidth 256) 32 0

def cdB32 (data : Bytes) (off : ℕ) : Bytes32 := calldataload data off

/-- The 8 bytes at `off` are not all zero. -/
def cdBool (data : Bytes) (off : ℕ) : Bool := calldataload data off >>> 192 != 0

theorem calldataload_zero {data : Bytes} {off : ℕ} (h : ∀ k < 32, data.byte (off + k) = 0) :
    calldataload data off = 0 := by
  refine forLoop_inv (fun _ w => w = 0) rfl ?_
  rintro i hi w rfl
  rw [h i hi]
  rfl

theorem cdBool_zero {data : Bytes} {off : ℕ} (h : ∀ k < 32, data.byte (off + k) = 0) :
    cdBool data off = false := by
  rw [cdBool, calldataload_zero h]
  decide

/-- The low half of one Goldilocks element. -/
def cdGLU64 (data : Bytes) (off : ℕ) : U256 := calldataload data off >>> 224

/-- Eight Goldilocks elements, each giving 32 bits, the first one least significant. -/
def cdGLU256 (data : Bytes) (off : ℕ) : U256 :=
  forLoop (fun i v => v ||| (cdGLU64 data (off + 8 * i) <<< (32 * i))) 8 0

/-- Five Goldilocks elements, each giving 32 bits, the first one least significant. -/
def cdGLAddress (data : Bytes) (off : ℕ) : Address :=
  (forLoop (fun i v => v ||| (cdGLU64 data (off + 8 * i) <<< (32 * i))) 5 0).setWidth 160

/-- Word `7 - i` of the preimage encoding becomes word `i` of the packing. -/
def glHashToU256 (w : Bytes32) : U256 :=
  (w >>> 224) |||
  (((w >>> 192) &&& 0xFFFFFFFF) <<< 32) |||
  (((w >>> 160) &&& 0xFFFFFFFF) <<< 64) |||
  (((w >>> 128) &&& 0xFFFFFFFF) <<< 96) |||
  (((w >>> 96) &&& 0xFFFFFFFF) <<< 128) |||
  (((w >>> 64) &&& 0xFFFFFFFF) <<< 160) |||
  (((w >>> 32) &&& 0xFFFFFFFF) <<< 192) |||
  ((w &&& 0xFFFFFFFF) <<< 224)

/-- The eight big-endian 32-bit words of a digest. -/
def keccakToPublicInputs (hash : Bytes32) : List U256 :=
  [224, 192, 160, 128, 96, 64, 32, 0].map fun k => (hash >>> k) &&& 0xFFFFFFFF

/-! ## The preimage layout -/

def PRIV_TX_BATCH_SIZE : ℕ := 64
def BRIDGE_TX_HALF_SIZE : ℕ := 256
def NOTE_BATCH : ℕ := 7
def BATCH_SUBTREE_DEPTH : ℕ := 9
def MAX_TREE_DEPTH : ℕ := 32

def TX_HEADER_SIZE : ℕ := 96
def TX_SLOT_SIZE : ℕ := 8 + 32 + 32 + NOTE_BATCH * 32 + NOTE_BATCH * 32
def TX_ACCIN_NULL_OFF : ℕ := 8
def TX_NOTE_IN_OFF : ℕ := 8 + 32 + 32

def W_SLOT_SIZE : ℕ := 8 + 32 + 32 + NOTE_BATCH * 8 + NOTE_BATCH * 64 + 40
def D_SLOT_SIZE : ℕ := 8 + 32 + 32 + 32 + 40 + 64 + 8
def D_SECTION_OFF : ℕ := 96 + BRIDGE_TX_HALF_SIZE * W_SLOT_SIZE
def W_ACCIN_NULL_OFF : ℕ := 8
def D_ACCIN_NULL_OFF : ℕ := 8
def D_NOTE_COMM_OFF : ℕ := 72
def W_ASSET_ID_OFF : ℕ := W_ACCIN_NULL_OFF + 32 + 32
def W_AMT_OFF : ℕ := W_ASSET_ID_OFF + NOTE_BATCH * 8
def W_ETH_ADDR_OFF : ℕ := W_AMT_OFF + NOTE_BATCH * 64
def D_ETH_ADDR_OFF : ℕ := D_NOTE_COMM_OFF + 32
def D_AMT_OFF : ℕ := D_ETH_ADDR_OFF + 40
def D_ASSET_ID_OFF : ℕ := D_AMT_OFF + 64

/-- The comments of the source give the sizes and offsets as numbers. -/
example : TX_SLOT_SIZE = 520 ∧ W_SLOT_SIZE = 616 ∧ D_SLOT_SIZE = 216 ∧ D_SECTION_OFF = 157792 ∧
    W_ETH_ADDR_OFF = 576 ∧ D_ASSET_ID_OFF = 208 := by decide

end Doxa.Contract
