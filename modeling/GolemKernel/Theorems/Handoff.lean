import GolemKernel.Lemmas.Session

/-!
# From Safe Mode to the next boot

A session is fed lines, and each buffer it produces is written to the migration page (`Console`). Whatever the lines are, the page
then holds the configuration of the last save, sealed and dirty (`Staged`). `session_reaches_monitor` is what the next
`migration::run` makes of it, and `saved_config_in_effect_iff` what becomes of it over any number of boots, each of which starts
with a new monitor. `run` authenticates a page and does not look at the values on it, so the rules for a configuration hold after it
exactly when they hold of what a valid and dirty page carries (`boot_config_valid_iff`).
-/

namespace GolemKernel

namespace SafeMode

open Text Sentinel

/-- A session, the memory its buffers are written to, and `session.working()` as it was when the last one was produced. -/
structure Console where
  session : ConfigSession
  mem : Bytes.Memory
  saved : Option Thresholds

namespace Console

def start (current : Thresholds) (mem : Bytes.Memory) : Console := ⟨.new current, mem, none⟩

/-- What an answer leaves: its buffer is written to the page. -/
def store (c : Console) (out : Response × ConfigSession) : Console :=
  match out.1.buffer with
  | some b => ⟨out.2, b.writeToFixedAddress c.mem, some out.2.working⟩
  | none => { c with session := out.2 }

/-- All lines, one after another. -/
def run (core : FloatText) (c : Console) (inputs : List (Text × UInt64)) : Console := (c.session.answers core inputs).foldl store c

/-- The page holds the configuration that was saved last. -/
structure Staged (core : FloatText) (c : Console) : Prop where
  armed : c.session.Armed core
  page : ∀ t, c.saved = some t →
    validateConfig core t = .ok () ∧ ∃ timestamp, readMigrationBuffer c.mem = .sealedFromThresholds t true timestamp

variable {core : FloatText} {c : Console}

@[simp] theorem session_store (c : Console) (out : Response × ConfigSession) : (c.store out).session = out.2 := by
  unfold store
  split <;> rfl

/-- The console on the first line, and then on the others. -/
theorem run_cons (c : Console) (input : Text × UInt64) (inputs : List (Text × UInt64)) :
    c.run core (input :: inputs) = (c.store (c.session.handleLine core input.1 input.2)).run core inputs := by
  rw [run, run, session_store]
  rfl

/-- Nothing has been saved at the start. -/
theorem staged_start (core : FloatText) (current : Thresholds) (mem : Bytes.Memory) : (start current mem).Staged core :=
  ⟨ConfigSession.armed_new core current, fun _ h => nomatch h⟩

/-- A line keeps the page in step with the last save. -/
theorem Staged.store (h : c.Staged core) (input : Text × UInt64) :
    (c.store (c.session.handleLine core input.1 input.2)).Staged core := by
  have hline := ConfigSession.handleLine_spec h.armed input.1 input.2
  unfold Console.store
  split
  · rename_i b hbuffer
    obtain ⟨rfl, hvalid⟩ := hline.buffer b hbuffer
    refine ⟨hline.armed, fun t ht => ?_⟩
    obtain rfl := Option.some.inj ht
    exact ⟨hvalid, input.2, readMigrationBuffer_write _ _⟩
  · exact ⟨hline.armed, h.page⟩

/-- So do all lines. -/
theorem Staged.run (h : c.Staged core) (inputs : List (Text × UInt64)) : (c.run core inputs).Staged core := by
  induction inputs generalizing c with
  | nil => exact h
  | cons input inputs ih =>
    rw [run_cons]
    exact ih (h.store input)

end Console

/-! ## The next boot -/

section

variable {t : Thresholds} {timestamp : UInt64}

/-- Clearing the flag of a sealed buffer and sealing it again gives the buffer of the same configuration, clean. -/
theorem MigrationBuffer.clear_sealedFromThresholds :
    ({ MigrationBuffer.sealedFromThresholds t true timestamp with dirty := false }).sealed =
      .sealedFromThresholds t false timestamp := by
  simp only [sealedFromThresholds, sealed, fromThresholds, computeChecksum, checksumPayload]

/-- The migration applies a staged configuration and leaves it on the page, clean. -/
theorem run_of_staged {g : SentinelGlobals} {core : FloatText} (hvalid : validateConfig core t = .ok ())
    (hpage : readMigrationBuffer g.mem = .sealedFromThresholds t true timestamp) :
    ∃ audit, g.run = (.ok (), ⟨audit, g.monitor.setThresholds t,
      (MigrationBuffer.sealedFromThresholds t false timestamp).writeToFixedAddress g.mem⟩) := by
  have hwindow : t.window < 2 ^ 32 := by
    have := (window_of_validateConfig hvalid).2
    simp only [maxWindow] at this
    omega
  obtain ⟨audit, hrun⟩ := SentinelGlobals.run_of_dirty (g := g)
    (by rw [hpage]; exact MigrationBuffer.isValid_sealedFromThresholds t true timestamp) (by rw [hpage]; rfl)
  rw [hpage, MigrationBuffer.toThresholds_sealedFromThresholds hwindow, MigrationBuffer.clear_sealedFromThresholds] at hrun
  exact ⟨audit, hrun⟩

end

/-- For every starting configuration, every sequence of lines and timestamps, and any prior state of the page, the audit trail and
the monitor: if a line produced a buffer, the next migration succeeds, the monitor then has the configuration of the last save bit
for bit, that configuration is valid, and the page holds a valid buffer that is clean and otherwise has the fields it had. -/
theorem session_reaches_monitor (core : FloatText) (current : Thresholds) (inputs : List (Text × UInt64)) (mem : Bytes.Memory)
    (audit : AuditTrail) (monitor : Monitor) (hsaved : ((Console.start current mem).run core inputs).saved.isSome) :
    ∃ c, ((Console.start current mem).run core inputs).saved = some c ∧ validateConfig core c = .ok () ∧
      ∃ g', SentinelGlobals.run ⟨audit, monitor, ((Console.start current mem).run core inputs).mem⟩ = (.ok (), g') ∧
        g'.monitor.thresholds = c ∧
        (readMigrationBuffer g'.mem).isValid = true ∧ (readMigrationBuffer g'.mem).dirty = false ∧
        readMigrationBuffer g'.mem = { readMigrationBuffer ((Console.start current mem).run core inputs).mem with
          dirty := false, checksum := (readMigrationBuffer g'.mem).checksum } := by
  obtain ⟨c, hc⟩ := Option.isSome_iff_exists.mp hsaved
  obtain ⟨hvalid, timestamp, hpage⟩ := ((Console.staged_start core current mem).run inputs).page c hc
  obtain ⟨audit', hrun⟩ := run_of_staged (g := ⟨audit, monitor, ((Console.start current mem).run core inputs).mem⟩) hvalid hpage
  refine ⟨c, hc, hvalid, _, hrun, rfl, ?_⟩
  rw [readMigrationBuffer_write, hpage]
  exact ⟨MigrationBuffer.isValid_sealedFromThresholds c false timestamp, rfl, rfl⟩

/-- An operator who sets the window and saves. -/
def saveWindow : List (Text × UInt64) := [("set window 32", 1), ("save", 2), ("yes", 3)]

theorem saveWindow_saved : ((Console.start .defaultConfig fun _ => 0).run noFloats saveWindow).saved =
    some { Thresholds.defaultConfig with window := 32 } := by
  decide +kernel

theorem session_reaches_monitor_window :
    ∃ g', SentinelGlobals.run ⟨.new, .new, ((Console.start .defaultConfig fun _ => 0).run noFloats saveWindow).mem⟩ = (.ok (), g') ∧
      g'.monitor.thresholds = { Thresholds.defaultConfig with window := 32 } := by
  obtain ⟨c, hc, -, g', hrun, hmonitor, -⟩ := session_reaches_monitor noFloats .defaultConfig saveWindow (fun _ => 0) .new .new
    (by rw [saveWindow_saved]; rfl)
  obtain rfl := Option.some.inj (saveWindow_saved.symm.trans hc)
  exact ⟨g', hrun, hmonitor⟩

/-! ## Boot after boot -/

/-- What `migration::run` returned in the last of `n` successive boots, and what it left. Each boot starts with the statics of the
image and with the memory of the boot before. -/
def boots (mem : Bytes.Memory) : Nat → Except MigrationError Unit × SentinelGlobals
  | 0 => (.ok (), .boot mem)
  | n + 1 => (SentinelGlobals.boot (boots mem n).2.mem).run

section

variable {t : Thresholds} {timestamp : UInt64} {mem : Bytes.Memory}

/-- A boot that finds a clean page leaves it as it is and the monitor at its defaults. -/
theorem boot_of_clean (hpage : readMigrationBuffer mem = .sealedFromThresholds t false timestamp) :
    (SentinelGlobals.boot mem).run.1 = .ok () ∧ (SentinelGlobals.boot mem).run.2.monitor.thresholds = .defaultConfig ∧
      (SentinelGlobals.boot mem).run.2.mem = mem := by
  obtain ⟨audit, hrun⟩ : ∃ audit, (SentinelGlobals.boot mem).run = (.ok (), { SentinelGlobals.boot mem with audit }) := by
    refine SentinelGlobals.run_of_clean ?_ ?_
    · rw [SentinelGlobals.boot, hpage]
      exact MigrationBuffer.isValid_sealedFromThresholds t false timestamp
    · rw [SentinelGlobals.boot, hpage]
      rfl
  rw [hrun]
  exact ⟨rfl, rfl, rfl⟩

/-- The first boot applies a staged configuration; the page is clean from then on. -/
theorem boots_of_staged {core : FloatText} (hvalid : validateConfig core t = .ok ())
    (hpage : readMigrationBuffer mem = .sealedFromThresholds t true timestamp) (n : Nat) :
    (boots mem (n + 1)).1 = .ok () ∧ (boots mem (n + 1)).2.monitor.thresholds = (if n = 0 then t else .defaultConfig) ∧
      readMigrationBuffer (boots mem (n + 1)).2.mem = .sealedFromThresholds t false timestamp := by
  induction n with
  | zero =>
    obtain ⟨audit, hrun⟩ := run_of_staged (g := .boot mem) hvalid hpage
    have hboot : boots mem 1 = _ := hrun
    rw [hboot]
    exact ⟨rfl, rfl, readMigrationBuffer_write _ _⟩
  | succ n ih =>
    obtain ⟨hok, hdefault, hmem⟩ := boot_of_clean ih.2.2
    rw [boots, hmem, if_neg (Nat.succ_ne_zero n)]
    exact ⟨hok, hdefault, ih.2.2⟩

end

/-- For every configuration that a session saved and every number of boots since: the last boot's migration succeeded and left the
monitor with that configuration if and only if it was the first boot, or the configuration is the default one. -/
theorem saved_config_in_effect_iff (core : FloatText) (current c : Thresholds) (inputs : List (Text × UInt64)) (mem : Bytes.Memory)
    (hsaved : ((Console.start current mem).run core inputs).saved = some c) (n : Nat) (hn : 1 ≤ n) :
    (boots ((Console.start current mem).run core inputs).mem n).1 = .ok () ∧
        (boots ((Console.start current mem).run core inputs).mem n).2.monitor.thresholds = c ↔
      n = 1 ∨ c = .defaultConfig := by
  obtain ⟨hvalid, timestamp, hpage⟩ := ((Console.staged_start core current mem).run inputs).page c hsaved
  obtain ⟨n, rfl⟩ := Nat.exists_eq_add_of_le' hn
  obtain ⟨hok, hthresholds, -⟩ := boots_of_staged hvalid hpage n
  rw [hthresholds]
  rcases Nat.eq_zero_or_pos n with rfl | hpos
  · exact ⟨fun _ => .inl rfl, fun _ => ⟨hok, rfl⟩⟩
  · rw [if_neg (Nat.ne_of_gt hpos)]
    refine ⟨fun h => .inr h.2.symm, fun h => ⟨hok, ?_⟩⟩
    rcases h with h | h
    · exact absurd h (by omega)
    · exact h.symm

theorem saved_config_in_effect_first :
    (boots ((Console.start .defaultConfig fun _ => 0).run noFloats saveWindow).mem 1).1 = .ok () ∧
      (boots ((Console.start .defaultConfig fun _ => 0).run noFloats saveWindow).mem 1).2.monitor.thresholds =
        { Thresholds.defaultConfig with window := 32 } :=
  (saved_config_in_effect_iff noFloats .defaultConfig _ saveWindow (fun _ => 0) saveWindow_saved 1 (Nat.le_refl 1)).mpr (.inl rfl)

/-- A window of 32 is saved; the first boot has it, and the second boot has the default again. -/
theorem second_boot_forgets_window :
    ((Console.start .defaultConfig fun _ => 0).run noFloats saveWindow).saved =
        some { Thresholds.defaultConfig with window := 32 } ∧
      (boots ((Console.start .defaultConfig fun _ => 0).run noFloats saveWindow).mem 2).2.monitor.thresholds = .defaultConfig ∧
      ¬(boots ((Console.start .defaultConfig fun _ => 0).run noFloats saveWindow).mem 2).2.monitor.thresholds =
        { Thresholds.defaultConfig with window := 32 } := by
  obtain ⟨hvalid, timestamp, hpage⟩ :=
    ((Console.staged_start noFloats .defaultConfig fun _ => 0).run saveWindow).page _ saveWindow_saved
  have hdefault := (boots_of_staged hvalid hpage 1).2.1
  rw [if_neg (by decide)] at hdefault
  refine ⟨saveWindow_saved, hdefault, ?_⟩
  rw [hdefault]
  decide

/-! ## The configuration that a boot comes up with -/

/-- For every page, every audit trail and every monitor that satisfies the rules for a configuration: after `run` the monitor satisfies
them if and only if the configuration of the page does, in case the page is valid and dirty. -/
theorem boot_config_valid_iff (core : FloatText) (g : SentinelGlobals)
    (hbefore : validateConfig core g.monitor.thresholds = .ok ()) :
    validateConfig core g.run.2.monitor.thresholds = .ok () ↔
      ((readMigrationBuffer g.mem).isValid = true → (readMigrationBuffer g.mem).dirty = true →
        validateConfig core (readMigrationBuffer g.mem).toThresholds = .ok ()) := by
  rw [SentinelGlobals.thresholds_run]
  cases hvalid : (readMigrationBuffer g.mem).isValid with
  | false => simpa using hbefore
  | true =>
    cases hdirty : (readMigrationBuffer g.mem).dirty with
    | false => simpa using hbefore
    | true => simp

/-- Memory that is zero but for a page that stages a configuration. -/
def stagedMemory (t : Thresholds) : Bytes.Memory := (MigrationBuffer.sealedFromThresholds t true 0).writeToFixedAddress fun _ => 0

/-- The staged page is read as the sealed buffer. -/
theorem readMigrationBuffer_stagedMemory (t : Thresholds) :
    readMigrationBuffer (stagedMemory t) = .sealedFromThresholds t true 0 := readMigrationBuffer_write _ _

theorem boot_config_valid_window :
    validateConfig noFloats (SentinelGlobals.boot (stagedMemory { Thresholds.defaultConfig with window := 32 })).run.2.monitor.thresholds =
      .ok () := by
  refine (boot_config_valid_iff noFloats (.boot (stagedMemory _)) rfl).mpr ?_
  intro _ _
  rw [SentinelGlobals.boot, readMigrationBuffer_stagedMemory, MigrationBuffer.toThresholds_sealedFromThresholds (by decide)]
  rfl

/-- A page that stages a window of 0, with the right checksum: the migration succeeds and the monitor has it. -/
theorem window_zero_boots :
    validateConfig noFloats (SentinelGlobals.boot (stagedMemory { Thresholds.defaultConfig with window := 0 })).monitor.thresholds =
        .ok () ∧
      (SentinelGlobals.boot (stagedMemory { Thresholds.defaultConfig with window := 0 })).run.1 = .ok () ∧
      ¬validateConfig noFloats
        (SentinelGlobals.boot (stagedMemory { Thresholds.defaultConfig with window := 0 })).run.2.monitor.thresholds = .ok () := by
  have hpage := readMigrationBuffer_stagedMemory { Thresholds.defaultConfig with window := 0 }
  have hvalid := MigrationBuffer.isValid_sealedFromThresholds { Thresholds.defaultConfig with window := 0 } true 0
  obtain ⟨audit, hrun⟩ := SentinelGlobals.run_of_dirty (g := .boot (stagedMemory { Thresholds.defaultConfig with window := 0 }))
    (by rw [SentinelGlobals.boot, hpage]; exact hvalid) (by rw [SentinelGlobals.boot, hpage]; rfl)
  rw [hrun]
  refine ⟨rfl, rfl, ?_⟩
  rw [SentinelGlobals.boot, hpage, MigrationBuffer.toThresholds_sealedFromThresholds (by decide)]
  exact (nomatch ·)

end SafeMode

end GolemKernel
