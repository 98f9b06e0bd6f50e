import DataAvailability.Codec

namespace DataAvailability.Types

open Codec

structure BatchKey where
  number : UInt64
  hash : Hash
deriving DecidableEq, Repr

structure OffChainData where
  key : Hash
  value : Bytes
  batchNum : UInt64
deriving DecidableEq, Repr

structure Batch where
  l2Data : Bytes
  forcedGER : Hash
  forcedTimestamp : UInt64
  coinbase : Address
  forcedBlockHashL1 : Hash
deriving DecidableEq, Repr

structure SequenceBanana where
  batches : List Batch
  oldAccInputHash : Hash
  l1InfoRoot : Hash
  maxSequenceTimestamp : UInt64
deriving DecidableEq, Repr

structure SignedSequenceBanana where
  sequence : SequenceBanana
  signature : Bytes
deriving DecidableEq, Repr

/-- The six values `HashToSign` hands to `solsha3.SoliditySHA3` for a batch, with their Go
types, in the order of its types list `bytes32, bytes32, bytes32, uint64, address, bytes32`;
`timestamp` holds a `types.ArgUint64`. -/
structure AccInputValues where
  oldAccInputHash : Bytes
  currentTransactionsHash : Bytes
  globalExitRoot : Hash
  timestamp : UInt64
  coinbase : Address
  forcedBlockHashL1 : Hash
deriving DecidableEq, Repr

/-- Keccak-256 as `crypto.Keccak256Hash` returns it; `crypto.Keccak256` returns its bytes, and
`solsha3` hashes its packing with the same function. -/
structure Hashing where
  keccak256 : Bytes → Hash

def rightPad32 (b : Bytes) : Bytes := b ++ List.replicate (32 - b.length) 0

/-- How `solsha3` packs a value of the named type `types.ArgUint64` at `uint64`: as
`uint64(0)`, whatever it holds. -/
def packArgUint64 (_ : UInt64) : Bytes := List.replicate 8 0

def AccInputValues.pack (v : AccInputValues) : Bytes :=
  rightPad32 v.oldAccInputHash ++ rightPad32 v.currentTransactionsHash ++ v.globalExitRoot.bytes ++
    packArgUint64 v.timestamp ++ v.coinbase.bytes ++ v.forcedBlockHashL1.bytes

def Hashing.soliditySHA3 (H : Hashing) (v : AccInputValues) : Bytes := (H.keccak256 v.pack).bytes

variable (H : Hashing)

def SequenceBanana.values (s : SequenceBanana) (currentHash : Bytes) (b : Batch) :
    AccInputValues :=
  if b.forcedTimestamp > 0 then
    ⟨currentHash, (H.keccak256 b.l2Data).bytes, b.forcedGER, b.forcedTimestamp, b.coinbase,
      b.forcedBlockHashL1⟩
  else
    ⟨currentHash, (H.keccak256 b.l2Data).bytes, s.l1InfoRoot, s.maxSequenceTimestamp, b.coinbase,
      FixedBytes.zero 32⟩

def SequenceBanana.hashToSign (s : SequenceBanana) : Bytes :=
  s.batches.foldl (fun currentHash b => H.soliditySHA3 (s.values H currentHash b))
    s.oldAccInputHash.bytes

def SequenceBanana.offChainData (s : SequenceBanana) : List OffChainData :=
  s.batches.map fun b => ⟨H.keccak256 b.l2Data, b.l2Data, 0⟩

def SignedSequenceBanana.offChainData (s : SignedSequenceBanana) : List OffChainData :=
  s.sequence.offChainData H

theorem length_hashToSign (s : SequenceBanana) : (s.hashToSign H).length = 32 := by
  have step : ∀ (bs : List Batch) (c : Bytes), c.length = 32 →
      (bs.foldl (fun c b => H.soliditySHA3 (s.values H c b)) c).length = 32 := by
    intro bs
    induction bs with
    | nil => exact fun _ h => h
    | cons b bs ih => exact fun _ _ => ih _ (FixedBytes.length_eq _)
  exact step _ _ s.oldAccInputHash.length_eq

end DataAvailability.Types
