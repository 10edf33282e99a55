import GolemKernel.Lemmas.Migration

/-!
# What the migration guarantees

`migration_run_outcome` says what one `run` does on any page and any state of the monitor and the audit trail, and that once it
has succeeded it has nothing more to do (`Settled`).
-/

namespace GolemKernel

namespace Sentinel

open Text SafeMode

namespace SentinelGlobals

variable {g : SentinelGlobals}

/-! ## The audit trail -/

/-- There is no buffer exactly if there is no magic. -/
theorem decideBuffer_eq_noBuffer_iff {b : MigrationBuffer} : decideBuffer b = .noBuffer ↔ b.magic ≠ migrationMagic := by
  unfold decideBuffer
  split_ifs <;> simp_all

/-- A page without the magic is not worth an entry; every other page gets one. -/
theorem audit_run (g : SentinelGlobals) :
    ((readMigrationBuffer g.mem).magic ≠ migrationMagic → g.run.2.audit = g.audit) ∧
      ((readMigrationBuffer g.mem).magic = migrationMagic → ∃ e, g.run.2.audit.entries = g.audit.entries ++ [e]) := by
  refine ⟨fun hmagic => by rw [run_of_no_magic hmagic], fun hmagic => ?_⟩
  have hbuffer : decideBuffer (readMigrationBuffer g.mem) ≠ .noBuffer := fun h => decideBuffer_eq_noBuffer_iff.mp h hmagic
  unfold run
  dsimp only
  cases hdecide : decideBuffer (readMigrationBuffer g.mem) with
  | noBuffer => exact absurd hdecide hbuffer
  | noChange => exact ⟨_, rfl⟩
  | apply desired =>
    dsimp only
    split
    · exact ⟨_, rfl⟩
    · exact ⟨_, rfl⟩
  | reject err why => exact ⟨_, rfl⟩

/-! ## The page and the monitor -/

/-- Only a valid and dirty page changes the monitor or memory. -/
theorem run_unchanged (h : ¬((readMigrationBuffer g.mem).isValid = true ∧ (readMigrationBuffer g.mem).dirty = true)) :
    g.run.2.monitor = g.monitor ∧ g.run.2.mem = g.mem := by
  rcases g.run_cases with ⟨-, -, hrun⟩ | ⟨-, -, e, audit, hrun⟩ | ⟨-, -, audit, hrun⟩ | ⟨hvalid, hdirty, -⟩
  · rw [hrun]
    exact ⟨rfl, rfl⟩
  · rw [hrun]
    exact ⟨rfl, rfl⟩
  · rw [hrun]
    exact ⟨rfl, rfl⟩
  · exact absurd ⟨hvalid, hdirty⟩ h

/-- What was set is read back. -/
theorem run_ne_applyFailed (g : SentinelGlobals) : g.run.1 ≠ .error .applyFailed := by
  intro h
  unfold run at h
  dsimp only at h
  cases hdecide : decideBuffer (readMigrationBuffer g.mem) with
  | noBuffer => simp [hdecide] at h
  | noChange => simp [hdecide] at h
  | apply desired => simp [hdecide, Monitor.setThresholds, Monitor.thresholds, thresholdsEq_self] at h
  | reject err why =>
    simp only [hdecide, Except.error.injEq] at h
    subst h
    unfold decideBuffer at hdecide
    split_ifs at hdecide <;> simp_all

/-- A page that `run` has nothing to do about: nothing is staged on it. -/
def Settled (mem : Bytes.Memory) : Prop :=
  (readMigrationBuffer mem).magic ≠ migrationMagic ∨
    (readMigrationBuffer mem).isValid = true ∧ (readMigrationBuffer mem).dirty = false

/-- After a success nothing is staged any more. -/
theorem settled_of_run_ok (hok : g.run.1 = .ok ()) : Settled g.run.2.mem := by
  rcases run_ok_iff.mp hok with hmagic | hvalid
  · rw [run_of_no_magic hmagic]
    exact .inl hmagic
  · cases hdirty : (readMigrationBuffer g.mem).dirty with
    | false =>
      obtain ⟨audit, hrun⟩ := run_of_clean hvalid hdirty
      rw [hrun]
      exact .inr ⟨hvalid, hdirty⟩
    | true =>
      obtain ⟨audit, hrun⟩ := run_of_dirty hvalid hdirty
      obtain ⟨hmagic, hversion, -⟩ := (readMigrationBuffer g.mem).isValid_iff.mp hvalid
      rw [hrun]
      refine .inr ?_
      rw [readMigrationBuffer_write]
      exact ⟨MigrationBuffer.isValid_sealed _ hmagic hversion, rfl⟩

/-- On such a page `run` succeeds and changes neither the page nor the monitor. -/
theorem run_of_settled (h : Settled g.mem) : g.run.1 = .ok () ∧ g.run.2.monitor = g.monitor ∧ g.run.2.mem = g.mem := by
  refine ⟨run_ok_iff.mpr (h.imp id And.left), run_unchanged ?_⟩
  rintro ⟨hvalid, hdirty⟩
  rcases h with hmagic | ⟨-, hclean⟩
  · exact hmagic ((readMigrationBuffer g.mem).isValid_iff.mp hvalid).1
  · rw [hclean] at hdirty
    cases hdirty

/-- The globals after `n` more runs. -/
def runs (g : SentinelGlobals) : Nat → SentinelGlobals
  | 0 => g
  | n + 1 => (g.runs n).run.2

/-- From a settled page on, no boot changes the page or the monitor. -/
theorem runs_of_settled (h : Settled g.mem) (n : Nat) :
    (g.runs n).run.1 = .ok () ∧ (g.runs n).monitor = g.monitor ∧ (g.runs n).mem = g.mem := by
  induction n with
  | zero => exact ⟨(run_of_settled h).1, rfl, rfl⟩
  | succ n ih =>
    obtain ⟨-, hmonitor, hmem⟩ := ih
    have hsettled : Settled (g.runs n).mem := by rwa [hmem]
    obtain ⟨-, hmonitor', hmem'⟩ := run_of_settled hsettled
    rw [runs]
    refine ⟨?_, hmonitor'.trans hmonitor, hmem'.trans hmem⟩
    exact (run_of_settled (by rwa [hmem'])).1

/-- What one `run` does, whatever the page, the monitor and the audit trail are. It succeeds on a page without the magic and on a valid
one, and never fails to apply. A valid and dirty page gives the monitor its thresholds and is itself left clean, valid and otherwise
as it was, with all other memory; any other page changes neither the monitor nor memory, so that a failure changes neither. The audit
trail gains one entry for a page with the magic. After a success all further runs succeed and change neither the page nor the
thresholds. -/
theorem migration_run_outcome (g : SentinelGlobals) :
    (g.run.1 = .ok () ↔ (readMigrationBuffer g.mem).magic ≠ migrationMagic ∨ (readMigrationBuffer g.mem).isValid = true) ∧
    g.run.1 ≠ .error .applyFailed ∧
    ((readMigrationBuffer g.mem).isValid = true → (readMigrationBuffer g.mem).dirty = true →
      g.run.2.monitor.thresholds = (readMigrationBuffer g.mem).toThresholds ∧
      (readMigrationBuffer g.run.2.mem).isValid = true ∧
      readMigrationBuffer g.run.2.mem = { readMigrationBuffer g.mem with
        dirty := false, checksum := (readMigrationBuffer g.run.2.mem).checksum } ∧
      ∀ a, a < migrationBufferAddr ∨ migrationBufferAddr + 88 ≤ a → g.run.2.mem a = g.mem a) ∧
    (¬((readMigrationBuffer g.mem).isValid = true ∧ (readMigrationBuffer g.mem).dirty = true) →
      g.run.2.monitor.thresholds = g.monitor.thresholds ∧ g.run.2.mem = g.mem) ∧
    (∀ err, g.run.1 = .error err → g.run.2.monitor.thresholds = g.monitor.thresholds ∧ g.run.2.mem = g.mem) ∧
    ((readMigrationBuffer g.mem).magic ≠ migrationMagic → g.run.2.audit = g.audit) ∧
    ((readMigrationBuffer g.mem).magic = migrationMagic → ∃ e, g.run.2.audit.entries = g.audit.entries ++ [e]) ∧
    (g.run.1 = .ok () → ∀ n, (g.run.2.runs n).run.1 = .ok () ∧
      (g.run.2.runs n).monitor.thresholds = g.run.2.monitor.thresholds ∧ (g.run.2.runs n).mem = g.run.2.mem) := by
  have hunchanged : ¬((readMigrationBuffer g.mem).isValid = true ∧ (readMigrationBuffer g.mem).dirty = true) →
      g.run.2.monitor.thresholds = g.monitor.thresholds ∧ g.run.2.mem = g.mem := by
    intro h
    obtain ⟨hmonitor, hmem⟩ := run_unchanged h
    exact ⟨by rw [hmonitor], hmem⟩
  refine ⟨run_ok_iff, ?_, ?_, hunchanged, ?_, (audit_run g).1, (audit_run g).2, ?_⟩
  · exact run_ne_applyFailed g
  · intro hvalid hdirty
    obtain ⟨audit, hrun⟩ := run_of_dirty hvalid hdirty
    obtain ⟨hmagic, hversion, -⟩ := (readMigrationBuffer g.mem).isValid_iff.mp hvalid
    rw [hrun, readMigrationBuffer_write]
    refine ⟨rfl, MigrationBuffer.isValid_sealed _ hmagic hversion, rfl, ?_⟩
    intro a ha
    refine if_neg ?_
    rw [MigrationBuffer.length_toBytes]
    omega
  · intro err herr
    refine hunchanged ?_
    rintro ⟨hvalid, -⟩
    rw [run_ok_iff.mpr (.inr hvalid)] at herr
    cases herr
  · intro hok n
    obtain ⟨hruns, hmonitor, hmem⟩ := runs_of_settled (settled_of_run_ok hok) n
    exact ⟨hruns, by rw [hmonitor], hmem⟩

end SentinelGlobals

end Sentinel

end GolemKernel
