import GolemKernel.Sentinel.Audit
import GolemKernel.Sentinel.Monitor

/-!
# The migration buffer

The first half of `src/safemode/sentinel_config.rs`: the record that Safe Mode leaves at a fixed physical address for the next
boot, its checksum, and how it is laid out in memory.
-/

namespace GolemKernel

namespace SafeMode

open Text Sentinel

/-- `MIGRATION_BUFFER_ADDR`. -/
def migrationBufferAddr : Nat := 0x44000000

/-- `MIGRATION_BUFFER_SIZE`. -/
def migrationBufferSize : Nat := 4096

/-- `MIGRATION_MAGIC`. -/
def migrationMagic : UInt64 := 0x474C4D4D49475231

/-- `MIGRATION_VERSION`. -/
def migrationVersion : UInt32 := 1

structure MigrationBuffer where
  magic : UInt64
  version : UInt32
  dirty : Bool
  reserved : Vector UInt8 3
  repetition : F32
  selfReferential : F32
  tokenVelocity : F32
  toolRetry : F32
  soft : F32
  medium : F32
  hard : F32
  window : UInt32
  timestamp : UInt64
  checksum : Vector UInt8 32
  deriving DecidableEq

/-- `hex_nibble`. -/
def hexNibble (c : UInt8) : UInt8 :=
  if 48 ≤ c ∧ c ≤ 57 then c - 48
  else if 97 ≤ c ∧ c ≤ 102 then c - 97 + 10
  else if 65 ≤ c ∧ c ≤ 70 then c - 65 + 10
  else 0

/-- `hex64_to_bytes`. -/
def hex64ToBytes (hex : Text) : Vector UInt8 32 :=
  let b := asBytes hex
  Vector.ofFn fun i => (hexNibble (b.getD (2 * i) 48) <<< 4) ||| hexNibble (b.getD (2 * i + 1) 48)

/-- `bytes_to_hex`. -/
def bytesToHex (b : List UInt8) : Text := b.flatMap fun byte => hexPadded 2 byte.toNat

namespace MigrationBuffer

def fromThresholds (t : Thresholds) (dirty : Bool) (timestamp : UInt64) : MigrationBuffer where
  magic := migrationMagic
  version := migrationVersion
  dirty
  reserved := Vector.replicate 3 0
  repetition := t.repetition
  selfReferential := t.selfReferential
  tokenVelocity := t.tokenVelocity
  toolRetry := t.toolRetry
  soft := t.soft
  medium := t.medium
  hard := t.hard
  window := UInt32.ofNat t.window
  timestamp
  checksum := Vector.replicate 32 0

def toThresholds (b : MigrationBuffer) : Thresholds where
  repetition := b.repetition
  selfReferential := b.selfReferential
  tokenVelocity := b.tokenVelocity
  toolRetry := b.toolRetry
  soft := b.soft
  medium := b.medium
  hard := b.hard
  window := b.window.toNat

def checksumPayload (b : MigrationBuffer) : List UInt8 :=
  Bytes.u64 b.magic ++ Bytes.u32 b.version ++ [b.dirty.toUInt8] ++ Bytes.u32 b.repetition.bits ++ Bytes.u32 b.selfReferential.bits ++
    Bytes.u32 b.tokenVelocity.bits ++ Bytes.u32 b.toolRetry.bits ++ Bytes.u32 b.soft.bits ++ Bytes.u32 b.medium.bits ++
    Bytes.u32 b.hard.bits ++ Bytes.u32 b.window ++ Bytes.u64 b.timestamp

def computeChecksum (b : MigrationBuffer) : Vector UInt8 32 := hex64ToBytes (sha256Hex b.checksumPayload)

/-- `seal`. -/
def sealed (b : MigrationBuffer) : MigrationBuffer := { b with checksum := b.computeChecksum }

def sealedFromThresholds (t : Thresholds) (dirty : Bool) (timestamp : UInt64) : MigrationBuffer :=
  (fromThresholds t dirty timestamp).sealed

def isValid (b : MigrationBuffer) : Bool :=
  b.magic == migrationMagic && b.version == migrationVersion && b.checksum == b.computeChecksum

/-! ## In memory -/

/-- The bytes of the record: its fields in the declared order, without padding. -/
def toBytes (b : MigrationBuffer) : List UInt8 :=
  Bytes.u64 b.magic ++ (Bytes.u32 b.version ++ (b.dirty.toUInt8 :: (b.reserved.toList ++ (Bytes.u32 b.repetition.bits ++
    (Bytes.u32 b.selfReferential.bits ++ (Bytes.u32 b.tokenVelocity.bits ++ (Bytes.u32 b.toolRetry.bits ++
    (Bytes.u32 b.soft.bits ++ (Bytes.u32 b.medium.bits ++ (Bytes.u32 b.hard.bits ++ (Bytes.u32 b.window ++
    (Bytes.u64 b.timestamp ++ (b.checksum.toList ++ [])))))))))))))

/-- The record that bytes stand for. A byte other than 0 is taken for `true`. -/
def reader : Bytes.Reader MigrationBuffer := do
  let magic ← Bytes.getU64
  let version ← Bytes.getU32
  let dirty ← Bytes.getU8
  let reserved ← Bytes.getArray 3
  let repetition ← Bytes.getU32
  let selfReferential ← Bytes.getU32
  let tokenVelocity ← Bytes.getU32
  let toolRetry ← Bytes.getU32
  let soft ← Bytes.getU32
  let medium ← Bytes.getU32
  let hard ← Bytes.getU32
  let window ← Bytes.getU32
  let timestamp ← Bytes.getU64
  let checksum ← Bytes.getArray 32
  return { magic, version, dirty := dirty != 0, reserved, repetition := ⟨repetition⟩, selfReferential := ⟨selfReferential⟩,
           tokenVelocity := ⟨tokenVelocity⟩, toolRetry := ⟨toolRetry⟩, soft := ⟨soft⟩, medium := ⟨medium⟩, hard := ⟨hard⟩,
           window, timestamp, checksum }

/-- `write_to_fixed_address`. -/
def writeToFixedAddress (b : MigrationBuffer) (mem : Bytes.Memory) : Bytes.Memory := mem.write migrationBufferAddr b.toBytes

end MigrationBuffer

/-- `read_migration_buffer`. -/
def readMigrationBuffer (mem : Bytes.Memory) : MigrationBuffer :=
  (MigrationBuffer.reader.run (mem.read migrationBufferAddr 88)).1

end SafeMode

end GolemKernel
