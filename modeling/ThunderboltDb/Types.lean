import Mathlib

/-!
# Shared engine types

Transaction ids, the fixed durability faults of the serial WAL and the error type of the engine, with
the variants that the modelled functions return.
-/

namespace ThunderboltDb

/-- `TxnId`: a 64-bit transaction id. -/
abbrev TxnId := UInt64

/-- `DurabilityStage`, the stages the serial WAL reports. -/
inductive DurabilityStage where
  | positionalWrite
  | positionalWriteZero
  | positionalWriteOverflow
  | positionalWriteInvariant
  | syncData
  | frontierDrift
  | abandoned
  | descriptorPoison
  deriving DecidableEq, Repr

def DurabilityStage.text : DurabilityStage → String
  | .positionalWrite => "positional-write"
  | .positionalWriteZero => "positional-write-zero"
  | .positionalWriteOverflow => "positional-write-overflow"
  | .positionalWriteInvariant => "positional-write-invariant"
  | .syncData => "sync-data"
  | .frontierDrift => "frontier-drift"
  | .abandoned => "abandoned"
  | .descriptorPoison => "descriptor-poison"

/-- `DurabilityFault` of the serial WAL backend, whose segment id is always 0. -/
structure DurabilityFault where
  stage : DurabilityStage
  rawOsError : Option ℤ
  groupFirstRecord : ℕ
  deriving DecidableEq, Repr

def DurabilityFault.text (f : DurabilityFault) : String :=
  let stage := f.stage.text
  let raw := match f.rawOsError with
    | none => "None"
    | some e => s!"Some({e})"
  let first := f.groupFirstRecord
  s!"backend=serial-wal stage={stage} raw_os_error={raw} segment_id=0 group_first_record={first}"

/-- `EngineError`, restricted to the variants the modelled functions construct. -/
inductive EngineError where
  | notLeader
  | proposalFailed (message : String)
  | applyFailed (message : String)
  | durability (message : String)
  | durabilityFault (fault : DurabilityFault)
  deriving DecidableEq, Repr

end ThunderboltDb
