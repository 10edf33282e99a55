import GolemKernel.Lemmas.Session
import GolemKernel.SafeMode.Terminal

/-!
# What a commit at the terminal leaves for the next boot

A commit publishes the working copy in the block (`readBlock_runLines`) and touches nothing else, so the migration page is as it
was before Safe Mode (`readMigrationBuffer_runLines`). The migration reads the page and not the block;
`terminal_commit_reaches_iff` says when the thresholds of the next boot are the committed ones all the same.
-/

namespace GolemKernel

namespace SafeMode

namespace Terminal

open Text Sentinel

/-! ## The block -/

/-- The block is 56 bytes long. -/
theorem MigrationBlock.length_toBytes (b : MigrationBlock) : b.toBytes.length = 56 := by
  simp [MigrationBlock.toBytes]

/-- What is written of a block is read back. -/
theorem MigrationBlock.reader_toBytes (b : MigrationBlock) : MigrationBlock.reader.run b.toBytes = (b, []) := by
  simp only [MigrationBlock.reader, MigrationBlock.toBytes, Bytes.run_bind, Bytes.run_pure, Bytes.getU64_append, Bytes.getU32_append]

/-- The block in memory is the one written last. -/
theorem readBlock_write (blockAddr : Nat) (b : MigrationBlock) (mem : Bytes.Memory) :
    readBlock blockAddr (mem.write blockAddr b.toBytes) = b := by
  rw [readBlock, ← b.length_toBytes, Bytes.Memory.read_write, b.reader_toBytes]

/-! ## Lines -/

/-- A line that commits. -/
def isCommit (line : List UInt8) : Bool :=
  let cmd := (splitFirstToken line).1
  cmd = ascii "commit" || cmd = ascii "save"

/-- The configurations that the commits among the lines publish, in order. -/
def commits (blockAddr : Nat) (s : State) : List (List UInt8) → List SentinelConfig
  | [] => []
  | line :: lines =>
    let later := commits blockAddr (dispatch blockAddr line s).2 lines
    if isCommit line then s.config :: later else later

variable {blockAddr : Nat} {s : State}

/-- A line that commits writes the block. -/
theorem dispatch_commit {line : List UInt8} (h : isCommit line = true) :
    (dispatch blockAddr line s).2.mem = (commit blockAddr s.config s.mem).2 := by
  simp only [isCommit, Bool.or_eq_true, decide_eq_true_eq] at h
  unfold dispatch
  dsimp only
  -- neither word is one of the commands before
  rcases h with h | h <;>
    (rw [h, if_neg (by decide), if_neg (by decide), if_neg (by decide), if_neg (by decide), if_neg (by decide), if_pos (by decide)]
     rfl)

/-- Any other line leaves memory alone. -/
theorem dispatch_not_commit {line : List UInt8} (h : isCommit line = false) : (dispatch blockAddr line s).2.mem = s.mem := by
  simp only [isCommit, Bool.or_eq_false_iff, decide_eq_false_iff_not] at h
  unfold dispatch
  dsimp only
  split_ifs with _ _ _ _ _ hcommit
  · rfl
  · rfl
  · rfl
  · rfl
  · rfl
  · exact absurd hcommit (not_or.mpr h)
  · rfl
  · rfl

/-- The block has the configuration of the last commit, or the one it had. -/
theorem readBlock_runLines (lines : List (List UInt8)) (s : State) :
    (readBlock blockAddr (runLines blockAddr s lines).mem).config =
      (commits blockAddr s lines).getLast?.getD (readBlock blockAddr s.mem).config := by
  induction lines generalizing s with
  | nil => rfl
  | cons line lines ih =>
    have hrun : runLines blockAddr s (line :: lines) = runLines blockAddr (dispatch blockAddr line s).2 lines := rfl
    rw [hrun, ih, commits]
    cases hline : isCommit line with
    | false => rw [dispatch_not_commit hline, if_neg Bool.false_ne_true]
    | true =>
      rw [dispatch_commit hline, commit, readBlock_write, if_pos rfl, List.getLast?_cons]
      rfl

/-- A block that does not overlap the page leaves the page alone. -/
theorem readMigrationBuffer_runLines
    (hblock : blockAddr + 56 ≤ migrationBufferAddr ∨ migrationBufferAddr + migrationBufferSize ≤ blockAddr)
    (lines : List (List UInt8)) (s : State) :
    readMigrationBuffer (runLines blockAddr s lines).mem = readMigrationBuffer s.mem := by
  induction lines generalizing s with
  | nil => rfl
  | cons line lines ih =>
    refine (ih _).trans ?_
    cases hline : isCommit line with
    | false => rw [dispatch_not_commit hline]
    | true =>
      rw [dispatch_commit hline, commit]
      exact readMigrationBuffer_write_of_disjoint (by rwa [MigrationBlock.length_toBytes])

/-! ## The next boot -/

/-- The configuration, as thresholds of the monitor. -/
def SentinelConfig.asThresholds (c : SentinelConfig) : Thresholds where
  repetition := c.repetition
  selfReferential := c.selfReferential
  tokenVelocity := c.tokenVelocity
  toolRetry := c.toolRetry
  soft := c.soft
  medium := c.medium
  hard := c.hard
  window := c.window.toNat

/-- What a boot makes of a page: the migration succeeds on a page without the magic and on a valid one, and the monitor gets the
configuration of a valid and dirty page and keeps its defaults otherwise. -/
theorem boot_thresholds_iff (mem : Bytes.Memory) (t : Thresholds) :
    (SentinelGlobals.boot mem).run.1 = .ok () ∧ (SentinelGlobals.boot mem).run.2.monitor.thresholds = t ↔
      ((readMigrationBuffer mem).magic ≠ SafeMode.migrationMagic ∨
          (readMigrationBuffer mem).isValid = true ∧ (readMigrationBuffer mem).dirty = false) ∧ .defaultConfig = t ∨
        (readMigrationBuffer mem).isValid = true ∧ (readMigrationBuffer mem).dirty = true ∧
          (readMigrationBuffer mem).toThresholds = t := by
  have hmem : (SentinelGlobals.boot mem).mem = mem := rfl
  have hnew : (SentinelGlobals.boot mem).monitor.thresholds = .defaultConfig := rfl
  rw [SentinelGlobals.run_ok_iff, SentinelGlobals.thresholds_run, hmem, hnew]
  cases hvalid : (readMigrationBuffer mem).isValid with
  | false => simp
  | true =>
    cases hdirty : (readMigrationBuffer mem).dirty with
    | false => simp
    | true => simp [((readMigrationBuffer mem).isValid_iff.mp hvalid).1]

/-- For every sequence of lines with a commit, on every memory whose image keeps the block off the reserved page: the next boot's
migration succeeds and gives the monitor the configuration of the block if and only if the page that Safe Mode found says so by
itself: it stages nothing and the last commit published the defaults, or it stages what the last commit published. -/
theorem terminal_commit_reaches_iff (blockAddr : Nat)
    (hblock : blockAddr + 56 ≤ migrationBufferAddr ∨ migrationBufferAddr + migrationBufferSize ≤ blockAddr) (mem : Bytes.Memory)
    (lines : List (List UInt8)) (c : SentinelConfig) (hlast : (commits blockAddr (start mem) lines).getLast? = some c) :
    (SentinelGlobals.boot (runLines blockAddr (start mem) lines).mem).run.1 = .ok () ∧
        (SentinelGlobals.boot (runLines blockAddr (start mem) lines).mem).run.2.monitor.thresholds =
          (readBlock blockAddr (runLines blockAddr (start mem) lines).mem).config.asThresholds ↔
      ((readMigrationBuffer mem).magic ≠ SafeMode.migrationMagic ∨
          (readMigrationBuffer mem).isValid = true ∧ (readMigrationBuffer mem).dirty = false) ∧ c.asThresholds = .defaultConfig ∨
        (readMigrationBuffer mem).isValid = true ∧ (readMigrationBuffer mem).dirty = true ∧
          (readMigrationBuffer mem).toThresholds = c.asThresholds := by
  rw [boot_thresholds_iff, readMigrationBuffer_runLines hblock, readBlock_runLines, hlast, eq_comm (a := Thresholds.defaultConfig)]
  rfl

/-- Memory that is zero but for the block of the image. -/
def freshMemory : Bytes.Memory := Bytes.Memory.write (fun _ => 0) 0x200000 MigrationBlock.empty.toBytes

/-- Its page has no magic. -/
theorem freshMemory_magic : (readMigrationBuffer freshMemory).magic ≠ SafeMode.migrationMagic := by
  rw [freshMemory, readMigrationBuffer_write_of_disjoint (by rw [MigrationBlock.length_toBytes]; decide)]
  decide

/-- An operator who sets the window and commits. -/
def commitWindow : List (List UInt8) := [ascii "set window 32", ascii "commit"]

theorem commits_commitWindow (blockAddr : Nat) (mem : Bytes.Memory) :
    commits blockAddr (start mem) commitWindow = [{ SentinelConfig.default with window := 32 }] := rfl

/-- The same memory with a page that already stages a window of 32. -/
def windowStaged : Bytes.Memory :=
  (MigrationBuffer.sealedFromThresholds { Thresholds.defaultConfig with window := 32 } true 0).writeToFixedAddress freshMemory

/-- The window is committed at the terminal on a page that stages it, and the next boot has it. -/
theorem terminal_commit_reaches_staged :
    (SentinelGlobals.boot (runLines 0x200000 (start windowStaged) commitWindow).mem).run.1 = .ok () ∧
      (SentinelGlobals.boot (runLines 0x200000 (start windowStaged) commitWindow).mem).run.2.monitor.thresholds =
        (readBlock 0x200000 (runLines 0x200000 (start windowStaged) commitWindow).mem).config.asThresholds := by
  refine (terminal_commit_reaches_iff 0x200000 (by decide) windowStaged commitWindow { SentinelConfig.default with window := 32 }
    rfl).mpr (.inr ?_)
  have hwindow : { Thresholds.defaultConfig with window := 32 }.window < 2 ^ 32 := by decide
  rw [windowStaged, readMigrationBuffer_write]
  exact ⟨MigrationBuffer.isValid_sealedFromThresholds _ true 0, rfl,
    MigrationBuffer.toThresholds_sealedFromThresholds hwindow true 0⟩

/-- A window of 32 is committed; the migration of the next boot succeeds and the monitor keeps its window of 16. -/
theorem committed_window_is_lost :
    (readBlock 0x200000 (runLines 0x200000 (start freshMemory) commitWindow).mem).config =
        { SentinelConfig.default with window := 32 } ∧
      (SentinelGlobals.boot (runLines 0x200000 (start freshMemory) commitWindow).mem).run.1 = .ok () ∧
      (SentinelGlobals.boot (runLines 0x200000 (start freshMemory) commitWindow).mem).run.2.monitor.thresholds = .defaultConfig ∧
      ¬(SentinelGlobals.boot (runLines 0x200000 (start freshMemory) commitWindow).mem).run.2.monitor.thresholds =
        (readBlock 0x200000 (runLines 0x200000 (start freshMemory) commitWindow).mem).config.asThresholds := by
  have hblock : (readBlock 0x200000 (runLines 0x200000 (start freshMemory) commitWindow).mem).config =
      { SentinelConfig.default with window := 32 } := by
    rw [readBlock_runLines, commits_commitWindow]
    rfl
  have hmagic : (readMigrationBuffer (runLines 0x200000 (start freshMemory) commitWindow).mem).magic ≠ SafeMode.migrationMagic := by
    rw [readMigrationBuffer_runLines (by decide)]
    exact freshMemory_magic
  obtain ⟨hok, hdefault⟩ := (boot_thresholds_iff _ .defaultConfig).mpr (.inl ⟨.inl hmagic, rfl⟩)
  refine ⟨hblock, hok, hdefault, ?_⟩
  rw [hdefault, hblock]
  decide

/-! ## The rules for a configuration -/

/-- What `set` makes sure of: every threshold in range, and a window of at least 1. -/
def SentinelConfig.InRange (c : SentinelConfig) : Prop :=
  (∀ v ∈ thresholdValues c.asThresholds, outOfRange v = false) ∧ 1 ≤ c.window.toNat

/-- The defaults are in range. -/
theorem inRange_default : SentinelConfig.default.InRange := by
  refine ⟨?_, by decide⟩
  decide

/-- The check of `set` is that of the other front end. -/
theorem outOfRange_eq_false {v : F32} (hzero : F32.zero.le v = true) (hone : v.le .one = true) : outOfRange v = false := by
  rw [outOfRange, F32.isFinite_of_between hzero hone, F32.lt_eq_false_of_le hzero, F32.lt_eq_false_of_le hone]
  rfl

/-- A threshold in range keeps the working copy in range. -/
theorem inRange_fieldStore {field : List UInt8} {store : F32 → SentinelConfig → SentinelConfig} (h : fieldStore field = some store)
    {c : SentinelConfig} (hc : c.InRange) {v : F32} (hv : outOfRange v = false) : (store v c).InRange := by
  obtain ⟨hvalues, hwindow⟩ := hc
  simp only [thresholdValues, SentinelConfig.asThresholds, List.forall_mem_cons] at hvalues
  unfold fieldStore at h
  split_ifs at h
  all_goals
    obtain rfl := Option.some.inj h
    refine ⟨?_, hwindow⟩
    simp only [thresholdValues, SentinelConfig.asThresholds, List.forall_mem_cons, hv, hvalues, true_and]
    simp

/-- `set` stores nothing out of range. -/
theorem inRange_cmdSet {rest : List UInt8} {c : SentinelConfig} (hc : c.InRange) : (cmdSet rest c).2.InRange := by
  unfold cmdSet
  dsimp only
  split
  · exact hc
  · split
    · split
      · split
        · rename_i v _ hpos
          exact ⟨hc.1, UInt32.lt_iff_toNat_lt.mp hpos⟩
        · exact hc
      · exact hc
    · split
      · exact hc
      · rename_i value _
        split
        · exact hc
        · rename_i hbounds
          split
          · exact hc
          · rename_i store hstore
            simp only [Bool.not_eq_true', Bool.not_eq_false, Bool.and_eq_true] at hbounds
            exact inRange_fieldStore hstore hc (outOfRange_eq_false hbounds.1 hbounds.2)

/-- Every command keeps the working copy in range. -/
theorem inRange_dispatch {line : List UInt8} (hs : s.config.InRange) : (dispatch blockAddr line s).2.config.InRange := by
  unfold dispatch
  dsimp only
  split_ifs
  · exact hs
  · exact hs
  · exact hs
  · exact inRange_cmdSet hs
  · exact inRange_default
  · exact hs
  · exact hs
  · exact hs

/-- So everything that is committed is in range. -/
theorem inRange_commits (lines : List (List UInt8)) (hs : s.config.InRange) : ∀ c ∈ commits blockAddr s lines, c.InRange := by
  induction lines generalizing s with
  | nil => exact fun _ hc => nomatch hc
  | cons line lines ih =>
    intro c hc
    rw [commits] at hc
    split at hc
    · rcases List.mem_cons.mp hc with rfl | hc
      · exact hs
      · exact ih (inRange_dispatch hs) c hc
    · exact ih (inRange_dispatch hs) c hc

/-- For every sequence of lines and every configuration that a commit among them publishes: its thresholds are finite and between 0 and
1, its window is at least 1, and the other front end would accept it if and only if its tiers are ordered and its window is within the
bound. -/
theorem committed_config_valid_iff (core : FloatText) (blockAddr : Nat) (mem : Bytes.Memory) (lines : List (List UInt8))
    (c : SentinelConfig) (hc : c ∈ commits blockAddr (start mem) lines) :
    (∀ v ∈ thresholdValues c.asThresholds, outOfRange v = false) ∧ 1 ≤ c.window.toNat ∧
    (validateConfig core c.asThresholds = .ok () ↔
      (c.soft.le c.medium = true ∧ c.medium.le c.hard = true) ∧ c.window.toNat ≤ maxWindow) := by
  obtain ⟨hvalues, hwindow⟩ := inRange_commits lines inRange_default c hc
  refine ⟨hvalues, hwindow, ?_⟩
  rw [validateConfig_ok_iff]
  constructor
  · rintro ⟨htiers, hbounds, -⟩
    exact ⟨htiers, hbounds.2⟩
  · rintro ⟨htiers, hmax⟩
    exact ⟨htiers, ⟨hwindow, hmax⟩, hvalues⟩

/-- An operator who changes the window and a tier within the rules. -/
def commitEdited : List (List UInt8) := [ascii "set window 32", ascii "set hard 1.0", ascii "commit"]

theorem committed_config_valid_edited :
    validateConfig noFloats { SentinelConfig.default with window := 32, hard := .one }.asThresholds = .ok () := by
  have hcommits : commits 0x200000 (start freshMemory) commitEdited =
      [{ SentinelConfig.default with window := 32, hard := .one }] := by
    decide +kernel
  have hmem : { SentinelConfig.default with window := 32, hard := .one } ∈ commits 0x200000 (start freshMemory) commitEdited := by
    rw [hcommits]
    exact .head _
  exact (committed_config_valid_iff noFloats 0x200000 freshMemory commitEdited _ hmem).2.2.mpr (by decide)

/-- A soft tier above the medium one, and a window of 5000, are published by a commit; the other front end accepts neither. -/
theorem committed_config_refused :
    (∃ c, commits 0x200000 (start freshMemory) [ascii "set soft 0.95", ascii "commit"] = [c] ∧
      ¬validateConfig noFloats c.asThresholds = .ok ()) ∧
    ∃ c, commits 0x200000 (start freshMemory) [ascii "set window 5000", ascii "commit"] = [c] ∧
      ¬validateConfig noFloats c.asThresholds = .ok () := by
  refine ⟨⟨{ SentinelConfig.default with soft := ⟨0x3F733333⟩ }, by decide +kernel, ?_⟩,
    ⟨{ SentinelConfig.default with window := 5000 }, by decide +kernel, ?_⟩⟩
  · intro h
    exact absurd (validateConfig_ok_iff.mp h).1 (by decide)
  · intro h
    exact absurd (validateConfig_ok_iff.mp h).2.1 (by decide)

end Terminal

end SafeMode

end GolemKernel
