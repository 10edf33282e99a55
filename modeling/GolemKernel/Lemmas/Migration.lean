import GolemKernel.Sentinel.Migration

/-!
# What the migration does with a page

The buffer survives its way through memory (`readMigrationBuffer_write`), a sealed buffer is valid, and `run` is described by one
lemma for each kind of page: without the magic, valid and clean, valid and dirty, or neither.
-/

namespace GolemKernel

namespace SafeMode

open Sentinel

namespace MigrationBuffer

variable (b : MigrationBuffer)

/-- The buffer has 88 bytes. -/
theorem length_toBytes : b.toBytes.length = 88 := by
  simp [toBytes]

theorem toUInt8_ne_zero (d : Bool) : (d.toUInt8 != 0) = d := by
  cases d <;> rfl

/-- Reading the bytes of a buffer gives the buffer. -/
theorem reader_toBytes : reader.run b.toBytes = (b, []) := by
  simp only [reader, toBytes, Bytes.run_bind, Bytes.run_pure, Bytes.getU64_append, Bytes.getU32_append, Bytes.getU8_cons,
    Bytes.getArray_append, toUInt8_ne_zero]

/-- The checksum does not cover itself. -/
theorem computeChecksum_sealed : b.sealed.computeChecksum = b.computeChecksum := by
  rw [computeChecksum, computeChecksum]
  simp only [checksumPayload, sealed]

/-- A buffer is valid if it has the magic, the version and its own checksum. -/
theorem isValid_iff : b.isValid = true ↔
    b.magic = migrationMagic ∧ b.version = migrationVersion ∧ b.computeChecksum = b.checksum := by
  simp only [isValid, Bool.and_eq_true, beq_iff_eq, and_assoc, eq_comm (a := b.checksum)]

/-- Sealing makes a buffer with the right magic and version valid. -/
theorem isValid_sealed (hmagic : b.magic = migrationMagic) (hversion : b.version = migrationVersion) : b.sealed.isValid = true := by
  rw [isValid_iff, computeChecksum_sealed]
  simp only [sealed]
  exact ⟨hmagic, hversion, trivial⟩

/-- A sealed buffer is valid. -/
theorem isValid_sealedFromThresholds (t : Thresholds) (dirty : Bool) (timestamp : UInt64) :
    (sealedFromThresholds t dirty timestamp).isValid = true := by
  rw [sealedFromThresholds]
  exact isValid_sealed _ rfl rfl

/-- A window that fits in 32 bits is packed without loss. -/
theorem toThresholds_sealedFromThresholds {t : Thresholds} (h : t.window < 2 ^ 32) (dirty : Bool) (timestamp : UInt64) :
    (sealedFromThresholds t dirty timestamp).toThresholds = t := by
  have hwindow : (UInt32.ofNat t.window).toNat = t.window := UInt32.toNat_ofNat_of_lt h
  cases t
  simp only [sealedFromThresholds, sealed, fromThresholds, toThresholds] at hwindow ⊢
  rw [hwindow]

end MigrationBuffer

/-- What was written to the page is read back. -/
theorem readMigrationBuffer_write (b : MigrationBuffer) (mem : Bytes.Memory) :
    readMigrationBuffer (b.writeToFixedAddress mem) = b := by
  rw [readMigrationBuffer, MigrationBuffer.writeToFixedAddress, ← b.length_toBytes, Bytes.Memory.read_write, b.reader_toBytes]

/-- A store that misses the buffer's page is not read. -/
theorem readMigrationBuffer_write_of_disjoint {mem : Bytes.Memory} {addr : Nat} {bs : List UInt8}
    (h : addr + bs.length ≤ migrationBufferAddr ∨ migrationBufferAddr + migrationBufferSize ≤ addr) :
    readMigrationBuffer (mem.write addr bs) = readMigrationBuffer mem := by
  have hdisjoint : migrationBufferAddr + 88 ≤ addr ∨ addr + bs.length ≤ migrationBufferAddr := by
    simp only [migrationBufferAddr, migrationBufferSize] at h ⊢
    omega
  rw [readMigrationBuffer, mem.read_write_of_disjoint hdisjoint, readMigrationBuffer]

end SafeMode

namespace Sentinel

open SafeMode

/-- Thresholds are equal to themselves. -/
theorem thresholdsEq_self (t : Thresholds) : thresholdsEq t t = true := by
  simp [thresholdsEq]

namespace SentinelGlobals

variable {g : SentinelGlobals}

/-- Without the magic nothing happens. -/
theorem run_of_no_magic (h : (readMigrationBuffer g.mem).magic ≠ migrationMagic) : g.run = (.ok (), g) := by
  have hdecide : decideBuffer (readMigrationBuffer g.mem) = .noBuffer := if_pos h
  simp only [run, hdecide]

/-- A valid buffer is applied if it is dirty. -/
theorem decideBuffer_of_valid {b : MigrationBuffer} (h : b.isValid = true) :
    decideBuffer b = if b.dirty then .apply b.toThresholds else .noChange := by
  obtain ⟨hmagic, hversion, hsum⟩ := b.isValid_iff.mp h
  rw [decideBuffer, if_neg (not_not.mpr hmagic), if_neg (not_not.mpr hversion), if_neg (not_not.mpr hsum)]
  cases b.dirty <;> rfl

/-- A valid and clean buffer changes nothing but the audit trail. -/
theorem run_of_clean (hvalid : (readMigrationBuffer g.mem).isValid = true) (hclean : (readMigrationBuffer g.mem).dirty = false) :
    ∃ audit, g.run = (.ok (), { g with audit }) := by
  have hdecide := decideBuffer_of_valid hvalid
  rw [hclean, if_neg Bool.false_ne_true] at hdecide
  simp only [run, hdecide]
  exact ⟨_, rfl⟩

/-- A staged configuration is applied, and the page is left clean. -/
theorem run_of_dirty (hvalid : (readMigrationBuffer g.mem).isValid = true) (hdirty : (readMigrationBuffer g.mem).dirty = true) :
    ∃ audit, g.run = (.ok (), ⟨audit, g.monitor.setThresholds (readMigrationBuffer g.mem).toThresholds,
      ({ readMigrationBuffer g.mem with dirty := false }).sealed.writeToFixedAddress g.mem⟩) := by
  have hdecide := decideBuffer_of_valid hvalid
  rw [hdirty, if_pos rfl] at hdecide
  simp only [run, hdecide, Monitor.setThresholds, Monitor.thresholds, thresholdsEq_self, Bool.not_true, Bool.false_eq_true, if_false]
  exact ⟨_, rfl⟩

/-- A buffer that is not valid is refused if it has the magic, and otherwise taken for none. -/
theorem decideBuffer_of_invalid {b : MigrationBuffer} (h : b.isValid = false) :
    b.magic ≠ migrationMagic ∧ decideBuffer b = .noBuffer ∨ ∃ e why, decideBuffer b = .reject e why := by
  by_cases hmagic : b.magic = migrationMagic
  · right
    rw [decideBuffer, if_neg (not_not.mpr hmagic)]
    by_cases hversion : b.version = migrationVersion
    · rw [if_neg (not_not.mpr hversion)]
      by_cases hsum : b.computeChecksum = b.checksum
      · rw [b.isValid_iff.mpr ⟨hmagic, hversion, hsum⟩] at h
        exact nomatch h
      · exact ⟨_, _, if_pos hsum⟩
    · exact ⟨_, _, if_pos hversion⟩
  · exact .inl ⟨hmagic, if_pos hmagic⟩

/-- A page that has the magic and is not valid is refused, and nothing but the audit trail changes. -/
theorem run_of_invalid (hmagic : (readMigrationBuffer g.mem).magic = migrationMagic)
    (hinvalid : (readMigrationBuffer g.mem).isValid = false) : ∃ e audit, g.run = (.error e, { g with audit }) := by
  obtain ⟨hne, -⟩ | ⟨e, why, hdecide⟩ := decideBuffer_of_invalid hinvalid
  · exact absurd hmagic hne
  · simp only [run, hdecide]
    exact ⟨_, _, rfl⟩

/-- All that `run` can do: nothing without the magic, refuse a page that is not valid, find nothing staged, or apply what is staged. -/
theorem run_cases (g : SentinelGlobals) :
    ((readMigrationBuffer g.mem).magic ≠ migrationMagic ∧ (readMigrationBuffer g.mem).isValid = false ∧ g.run = (.ok (), g)) ∨
    ((readMigrationBuffer g.mem).magic = migrationMagic ∧ (readMigrationBuffer g.mem).isValid = false ∧
      ∃ e audit, g.run = (.error e, { g with audit })) ∨
    ((readMigrationBuffer g.mem).isValid = true ∧ (readMigrationBuffer g.mem).dirty = false ∧
      ∃ audit, g.run = (.ok (), { g with audit })) ∨
    ((readMigrationBuffer g.mem).isValid = true ∧ (readMigrationBuffer g.mem).dirty = true ∧
      ∃ audit, g.run = (.ok (), ⟨audit, g.monitor.setThresholds (readMigrationBuffer g.mem).toThresholds,
        ({ readMigrationBuffer g.mem with dirty := false }).sealed.writeToFixedAddress g.mem⟩)) := by
  cases hvalid : (readMigrationBuffer g.mem).isValid with
  | false =>
    by_cases hmagic : (readMigrationBuffer g.mem).magic = migrationMagic
    · exact .inr (.inl ⟨hmagic, rfl, run_of_invalid hmagic hvalid⟩)
    · exact .inl ⟨hmagic, rfl, run_of_no_magic hmagic⟩
  | true =>
    cases hdirty : (readMigrationBuffer g.mem).dirty with
    | false => exact .inr (.inr (.inl ⟨rfl, rfl, run_of_clean hvalid hdirty⟩))
    | true => exact .inr (.inr (.inr ⟨rfl, rfl, run_of_dirty hvalid hdirty⟩))

/-- `run` succeeds on a page without the magic and on a valid one. -/
theorem run_ok_iff :
    g.run.1 = .ok () ↔ (readMigrationBuffer g.mem).magic ≠ migrationMagic ∨ (readMigrationBuffer g.mem).isValid = true := by
  rcases g.run_cases with ⟨hmagic, -, hrun⟩ | ⟨hmagic, hvalid, e, audit, hrun⟩ | ⟨hvalid, -, audit, hrun⟩ | ⟨hvalid, -, audit, hrun⟩
  · simp [hrun, hmagic]
  · simp [hrun, hmagic, hvalid]
  · simp [hrun, hvalid]
  · simp [hrun, hvalid]

/-- `run` sets the thresholds of a valid and dirty page, and no others. -/
theorem thresholds_run :
    g.run.2.monitor.thresholds =
      if (readMigrationBuffer g.mem).isValid && (readMigrationBuffer g.mem).dirty then (readMigrationBuffer g.mem).toThresholds
      else g.monitor.thresholds := by
  rcases g.run_cases with ⟨-, hvalid, hrun⟩ | ⟨-, hvalid, e, audit, hrun⟩ | ⟨hvalid, hdirty, audit, hrun⟩ |
    ⟨hvalid, hdirty, audit, hrun⟩
  · rw [hrun, hvalid]
    rfl
  · rw [hrun, hvalid]
    rfl
  · rw [hrun, hvalid, hdirty]
    rfl
  · rw [hrun, hvalid, hdirty]
    rfl

end SentinelGlobals

end Sentinel

end GolemKernel
