import GolemKernel.SafeMode.MigrationBuffer

/-!
# The boot-time migration

`src/sentinel/migration.rs`: `run` reads the buffer at its fixed address, decides what to do about it, and applies a staged
configuration to the monitor. The globals it works on are the statics `AUDIT` and `MONITOR` and physical memory.
-/

namespace GolemKernel

namespace Sentinel

open Text SafeMode

inductive MigrationError where
  | unsupportedVersion (found expected : UInt32)
  | checksumMismatch
  | applyFailed
  deriving DecidableEq, Repr

inductive Decision where
  | noBuffer
  | noChange
  | apply (thresholds : Thresholds)
  | reject (error : MigrationError) (why : Text)
  deriving DecidableEq

/-- The statics of the subsystem, and memory. -/
structure SentinelGlobals where
  audit : AuditTrail
  monitor : Monitor
  mem : Bytes.Memory

/-- The statics as an image has them, with the memory that a boot finds. -/
def SentinelGlobals.boot (mem : Bytes.Memory) : SentinelGlobals := ⟨.new, .new, mem⟩

/-- `ACTOR`. -/
def actor : Text := "safe-mode"

/-- `ACTION_APPLY`. -/
def actionApply : Text := "migration_apply"

/-- `ACTION_NOOP`. -/
def actionNoop : Text := "migration_noop"

/-- `ACTION_REJECT`. -/
def actionReject : Text := "migration_reject"

/-- `decide`. -/
def decideBuffer (buf : MigrationBuffer) : Decision :=
  if buf.magic ≠ migrationMagic then .noBuffer
  else if buf.version ≠ migrationVersion then .reject (.unsupportedVersion buf.version migrationVersion) "version"
  else if buf.computeChecksum ≠ buf.checksum then .reject .checksumMismatch "checksum"
  else if !buf.dirty then .noChange
  else .apply buf.toThresholds

/-- `checksum_hex`. -/
def checksumHex (buf : MigrationBuffer) : Text := buf.checksum.toList.flatMap fun b => hexPadded 2 b.toNat

/-- `thresholds_eq`. -/
def thresholdsEq (a b : Thresholds) : Bool :=
  a.repetition.bits == b.repetition.bits && a.selfReferential.bits == b.selfReferential.bits &&
    a.tokenVelocity.bits == b.tokenVelocity.bits && a.toolRetry.bits == b.toolRetry.bits && a.soft.bits == b.soft.bits &&
    a.medium.bits == b.medium.bits && a.hard.bits == b.hard.bits && a.window == b.window

namespace SentinelGlobals

/-- `AUDIT.record`, for an entry of the migration. -/
def record (g : SentinelGlobals) (buf : MigrationBuffer) (action target : Text) : SentinelGlobals :=
  { g with audit := (g.audit.record buf.timestamp actor action target).2 }

/-- `audit_reject`. -/
def auditReject (g : SentinelGlobals) (buf : MigrationBuffer) (why : Text) : SentinelGlobals :=
  g.record buf actionReject (why ++ " checksum=" ++ checksumHex buf)

/-- `migration::run`. -/
def run (g : SentinelGlobals) : Except MigrationError Unit × SentinelGlobals :=
  let buf := readMigrationBuffer g.mem
  match decideBuffer buf with
  | .noBuffer => (.ok (), g)
  | .noChange => (.ok (), g.record buf actionNoop (checksumHex buf))
  | .apply desired =>
    let g := { g with monitor := g.monitor.setThresholds desired }
    if !thresholdsEq g.monitor.thresholds desired then (.error .applyFailed, g.auditReject buf "apply")
    else
      let g := g.record buf actionApply (checksumHex buf)
      let cleared := { buf with dirty := false }.sealed
      (.ok (), { g with mem := cleared.writeToFixedAddress g.mem })
  | .reject err why => (.error err, g.auditReject buf why)

end SentinelGlobals

end Sentinel

end GolemKernel
