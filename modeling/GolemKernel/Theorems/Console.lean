import GolemKernel.Lemmas.Session
import GolemKernel.SafeMode.Console

/-!
# Line endings at the Safe Mode console

The console takes a carriage return and a line feed each as the end of a line, so the line feed of a pair ends an empty line. Without a
confirmation pending that line does nothing, and otherwise it cancels. So with pairs every line is taken as a command (`edited`), nothing
is ever saved, and the console ends at the first `exit` that comes when the configuration is the loaded one (`ExitsClean`). With a single
byte after each line a `yes` can follow what it confirms: such lines may save (`ConfirmsSave`) and leave (`Leaves`).
-/

namespace GolemKernel

namespace SafeMode

open Text Sentinel

/-! ## Lines -/

/-- A byte that is a printable character. -/
def Printable (byte : UInt8) : Prop := isControl (charOfByte byte) = false

instance (byte : UInt8) : Decidable (Printable byte) := inferInstanceAs (Decidable (_ = _))

/-- The characters of the bytes of a line. -/
def typed (line : List UInt8) : Text := line.map charOfByte

/-- The bytes of lines, each with an ending. -/
def withEnding (ending : List UInt8) (lines : List (List UInt8)) : List UInt8 := lines.flatMap (· ++ ending)

/-- The configurations written to the migration page, first to last. -/
def configurations (effects : List ConsoleEffect) : List Thresholds :=
  effects.filterMap fun
    | .page buffer => some buffer.toThresholds
    | .serial _ => none

/-- What is compared: the configurations that a console writes, and what it returns. -/
def observe (run : List ConsoleEffect × Option SafeModeOutcome) : List Thresholds × Option SafeModeOutcome :=
  (configurations run.1, run.2)

/-- The same for one line of a session, given what follows it. -/
def afterLine (out : Response × ConfigSession) (later : List Thresholds × Option SafeModeOutcome) :
    List Thresholds × Option SafeModeOutcome :=
  let saved := (out.1.buffer.map (·.toThresholds)).toList
  if out.1.action = .exit then (saved, some out.2.outcome) else (saved ++ later.1, later.2)

/-- Lines with the timestamp 0 each; what is compared does not depend on it. -/
def untimed (lines : List Text) : List (Text × UInt64) := lines.map (·, 0)

/-- The same for lines that are fed to a session one after another. -/
def sessionResult (core : FloatText) (s : ConfigSession) (lines : List Text) : List Thresholds × Option SafeModeOutcome :=
  (s.answers core (untimed lines)).foldr afterLine ([], none)

variable {core : FloatText}

/-- The timestamp does not matter to what a line does to a session, nor to the configuration it writes. -/
theorem handleLine_timestamp (core : FloatText) (s : ConfigSession) (line : Text) (ts ts' : UInt64) :
    (s.handleLine core line ts).2 = (s.handleLine core line ts').2 ∧
      (s.handleLine core line ts).1.action = (s.handleLine core line ts').1.action ∧
      (s.handleLine core line ts).1.buffer.map (·.toThresholds) = (s.handleLine core line ts').1.buffer.map (·.toThresholds) := by
  unfold ConfigSession.handleLine
  cases s.pending with
  | none => exact ⟨rfl, rfl, rfl⟩
  | exitConfirm => exact ⟨rfl, rfl, rfl⟩
  | saveConfirm =>
    simp only [ConfigSession.resolveSaveConfirm]
    split
    · exact ⟨rfl, rfl, rfl⟩
    · split <;> exact ⟨rfl, rfl, rfl⟩

/-- A printable byte is none of the bytes that the console treats apart. -/
theorem printable_ne {byte : UInt8} (h : Printable byte) : byte ≠ 13 ∧ byte ≠ 10 ∧ byte ≠ 0x08 ∧ byte ≠ 0x7f := by
  refine ⟨?_, ?_, ?_, ?_⟩ <;>
  · rintro rfl
    cases h

/-- Printable bytes are added to the line. -/
theorem consoleLoop_typed (s : ConfigSession) (acc : Text) (counter : UInt64) {line : List UInt8} (hline : ∀ b ∈ line, Printable b)
    (input : List UInt8) :
    observe (consoleLoop core s acc counter (line ++ input)) = observe (consoleLoop core s (acc ++ typed line) counter input) := by
  induction line generalizing acc with
  | nil => simp [typed]
  | cons b line ih =>
    obtain ⟨h13, h10, h8, h127⟩ := printable_ne (hline b (by simp))
    have hb : isControl (charOfByte b) = false := hline b (by simp)
    have hrest := ih (acc ++ [charOfByte b]) fun b hb => hline b (List.mem_cons_of_mem _ hb)
    rw [List.append_assoc] at hrest
    rw [List.cons_append, consoleLoop, if_neg (by simp [h13, h10]), if_neg (by simp [h8, h127]), hb, if_neg Bool.false_ne_true]
    exact hrest

@[simp] theorem configurations_writeStr (text : Text) (effects : List ConsoleEffect) :
    configurations (writeStr text :: effects) = configurations effects := rfl

@[simp] theorem configurations_page (buffer : MigrationBuffer) (effects : List ConsoleEffect) :
    configurations (.page buffer :: effects) = buffer.toThresholds :: configurations effects := rfl

/-- The configuration that a response writes. -/
theorem configurations_response (resp : Response) (effects : List ConsoleEffect) :
    configurations ([writeStr "\n", writeStr resp.text] ++ resp.buffer.toList.map .page ++ effects) =
      (resp.buffer.map (·.toThresholds)).toList ++ configurations effects := by
  cases hbuffer : resp.buffer <;> simp

/-- A byte that ends a line feeds the line to the session. -/
theorem consoleLoop_end (s : ConfigSession) (line : Text) (counter : UInt64) {ending : UInt8} (hending : ending = 13 ∨ ending = 10)
    (input : List UInt8) :
    observe (consoleLoop core s line counter (ending :: input)) =
      afterLine (s.handleLine core line 0) (observe (consoleLoop core (s.handleLine core line 0).2 [] (counter + 1) input)) := by
  obtain ⟨hsession, haction, hbuffer⟩ := handleLine_timestamp core s line 0 counter
  rw [consoleLoop, if_pos hending, afterLine, hsession, haction, hbuffer]
  by_cases hexit : (s.handleLine core line counter).1.action = .exit
  · rw [if_pos hexit, show monotonicNow counter = (counter, counter + 1) from rfl]
    dsimp only
    rw [if_pos hexit]
    refine Prod.ext ?_ rfl
    have hwritten := configurations_response (s.handleLine core line counter).1 []
    rwa [List.append_nil, show configurations [] = [] from rfl, List.append_nil] at hwritten
  · rw [if_neg hexit, show monotonicNow counter = (counter, counter + 1) from rfl]
    dsimp only
    rw [if_neg hexit]
    refine Prod.ext ?_ rfl
    exact configurations_response _ _

/-- The console on lines, each ended by one of the two bytes, is the session on these lines. -/
theorem observe_consoleLoop (core : FloatText) (s : ConfigSession) (counter : UInt64) {segments : List (List UInt8 × UInt8)}
    (hsegments : ∀ seg ∈ segments, (∀ b ∈ seg.1, Printable b) ∧ (seg.2 = 13 ∨ seg.2 = 10)) :
    observe (consoleLoop core s [] counter (segments.flatMap fun seg => seg.1 ++ [seg.2])) =
      sessionResult core s (segments.map fun seg => typed seg.1) := by
  induction segments generalizing s counter with
  | nil => rfl
  | cons seg segments ih =>
    obtain ⟨hline, hending⟩ := hsegments seg (by simp)
    rw [List.flatMap_cons, List.append_assoc, consoleLoop_typed s [] counter hline, List.nil_append, List.singleton_append,
      consoleLoop_end s _ counter hending, ih _ _ fun seg hseg => hsegments seg (List.mem_cons_of_mem _ hseg)]
    rfl

/-- The greeting of the console writes nothing to the page. -/
theorem observe_runSafeModeConsole (current : Thresholds) (counter : UInt64) (input : List UInt8) :
    observe (runSafeModeConsole core current counter input) = observe (consoleLoop core (.new current) [] counter input) := rfl

/-- Lines with one ending byte each: the session on these lines. -/
theorem observe_single {ending : UInt8} (hending : ending = 13 ∨ ending = 10) (current : Thresholds) (counter : UInt64)
    {lines : List (List UInt8)} (hlines : ∀ line ∈ lines, ∀ b ∈ line, Printable b) :
    observe (runSafeModeConsole core current counter (withEnding [ending] lines)) =
      sessionResult core (.new current) (lines.map typed) := by
  have hsegments : ∀ seg ∈ lines.map (·, ending), (∀ b ∈ seg.1, Printable b) ∧ (seg.2 = 13 ∨ seg.2 = 10) := by
    intro seg hseg
    obtain ⟨line, hline, rfl⟩ := List.mem_map.mp hseg
    exact ⟨hlines line hline, hending⟩
  have hrun := observe_consoleLoop core (.new current) counter hsegments
  rwa [List.flatMap_map, List.map_map] at hrun

/-- Lines with a pair of ending bytes each: the session on these lines with an empty line after each. -/
theorem observe_pair (current : Thresholds) (counter : UInt64) {lines : List (List UInt8)}
    (hlines : ∀ line ∈ lines, ∀ b ∈ line, Printable b) :
    observe (runSafeModeConsole core current counter (withEnding [13, 10] lines)) =
      sessionResult core (.new current) ((lines.map typed).flatMap fun line => [line, []]) := by
  have hsegments : ∀ seg ∈ lines.flatMap fun line => [(line, (13 : UInt8)), ([], 10)],
      (∀ b ∈ seg.1, Printable b) ∧ (seg.2 = 13 ∨ seg.2 = 10) := by
    intro seg hseg
    obtain ⟨line, hline, hmem⟩ := List.mem_flatMap.mp hseg
    rcases List.mem_cons.mp hmem with rfl | hmem
    · exact ⟨hlines line hline, .inl rfl⟩
    · rw [List.mem_singleton.mp hmem]
      exact ⟨by simp, .inr rfl⟩
  have hrun := observe_consoleLoop core (.new current) counter hsegments
  rw [List.flatMap_assoc, List.map_flatMap] at hrun
  rw [List.flatMap_map, observe_runSafeModeConsole]
  simpa [withEnding, typed] using hrun

/-! ## Every line a command -/

/-- What a line makes of a configuration: a `set` that is accepted changes it. -/
def edited (core : FloatText) (t : Thresholds) (line : Text) : Thresholds :=
  if firstWord line = "set" then
    let words := splitWhitespace (trim line)
    ((ConfigSession.new t).cmdSet core (words[1]?.map toAsciiLowercase) words[2]? words[3]?.isSome).2.working
  else t

/-- Some line asks to leave when the lines before it, each taken as a command, make the loaded configuration of the given one. -/
def ExitsClean (core : FloatText) (loaded t : Thresholds) (lines : List Text) : Prop :=
  ∃ before line after, lines = before ++ line :: after ∧ IsExit line ∧ before.foldl (edited core) t = loaded

/-- A line among lines, with those before and after it: the first, or one of the others. -/
theorem exists_line_cons {P : List Text → Text → List Text → Prop} {first : Text} {lines : List Text} :
    (∃ before line after, first :: lines = before ++ line :: after ∧ P before line after) ↔
      P [] first lines ∨ ∃ before line after, lines = before ++ line :: after ∧ P (first :: before) line after := by
  constructor
  · rintro ⟨before, line, after, hsplit, h⟩
    cases before with
    | nil =>
      obtain ⟨rfl, rfl⟩ := List.cons.inj hsplit
      exact .inl h
    | cons _ before =>
      obtain ⟨rfl, rfl⟩ := List.cons.inj hsplit
      exact .inr ⟨before, line, after, rfl, h⟩
  · rintro (h | ⟨before, line, after, rfl, h⟩)
    · exact ⟨[], first, lines, rfl, h⟩
    · exact ⟨first :: before, line, after, rfl, h⟩

/-- There is no line among none. -/
theorem not_exists_line_nil {P : List Text → Text → List Text → Prop} :
    ¬∃ before line after, [] = before ++ line :: after ∧ P before line after := by
  rintro ⟨before, line, after, hsplit, -⟩
  simp at hsplit

/-- The lines leave cleanly at the first of them or after it. -/
theorem exitsClean_cons {loaded t : Thresholds} {line : Text} {lines : List Text} :
    ExitsClean core loaded t (line :: lines) ↔ (IsExit line ∧ t = loaded) ∨ ExitsClean core loaded (edited core t line) lines :=
  exists_line_cons

namespace ConfigSession

/-- `set` does nothing but change the working configuration, and what it makes of it depends on nothing else of the session. -/
theorem cmdSet_eq (core : FloatText) (s : ConfigSession) (key value : Option Text) (extra : Bool) :
    ∃ text, s.cmdSet core key value extra =
      (.cont text, { s with working := ((new s.working).cmdSet core key value extra).2.working }) := by
  unfold cmdSet
  rw [show (new s.working).working = s.working from rfl]
  split
  · split
    · exact ⟨_, rfl⟩
    · split
      · exact ⟨_, rfl⟩
      · exact ⟨_, rfl⟩
  · exact ⟨_, rfl⟩

/-- An empty line does nothing but cancel. -/
theorem handleLine_nil (core : FloatText) (s : ConfigSession) (timestamp : UInt64) :
    ∃ text, s.handleLine core [] timestamp = (.cont text, { s with pending := .none }) := by
  unfold handleLine
  split
  · exact ⟨_, rfl⟩
  · exact ⟨_, rfl⟩
  · rename_i hnone
    refine ⟨[], ?_⟩
    rw [← hnone]
    rfl

/-- A line without a confirmation pending ends the session if it asks to leave and nothing has changed. -/
theorem handleLine_exit (core : FloatText) {s : ConfigSession} (hnone : s.pending = .none) (hclean : s.working = s.original) {line : Text}
    (hexit : IsExit line) (timestamp : UInt64) :
    s.handleLine core line timestamp = (⟨exitText s.committed, .exit, none⟩, s) := by
  rw [handleLine_isExit timestamp hnone hexit, cmdExit, isDirty_eq_false_iff.mpr hclean, if_neg Bool.false_ne_true]

/-- Any other line without a confirmation pending is taken as a command, and may ask for a confirmation. -/
theorem handleLine_stay (core : FloatText) {s : ConfigSession} (hnone : s.pending = .none) {line : Text}
    (hstay : ¬(IsExit line ∧ s.working = s.original)) (timestamp : UInt64) :
    ∃ text pending, s.handleLine core line timestamp =
      (.cont text, { s with working := edited core s.working line, pending := pending }) := by
  have hcommand : s.handleLine core line timestamp = s.command core (trim line) := by
    rw [handleLine]
    simp only [hnone]
  -- a word other than `set` leaves the configuration as it is
  have hsame : ∀ word : Text, firstWord line = word → word ≠ "set" → edited core s.working line = s.working := by
    intro word hword hne
    exact if_neg fun hset => hne (hword.symm.trans hset)
  rw [hcommand, command]
  dsimp only
  split_ifs with hempty hshow hhelp hset hsave hexit
  · rw [hsame [] (congrArg (fun text => (splitWhitespace text).headD []) (List.isEmpty_iff.mp hempty)) (by decide)]
    exact ⟨_, _, rfl⟩
  · rw [hsame _ hshow (by decide)]
    exact ⟨_, _, rfl⟩
  · rw [hsame _ hhelp (by decide)]
    exact ⟨_, _, rfl⟩
  · obtain ⟨text, hset'⟩ := cmdSet_eq core s ((splitWhitespace (trim line))[1]?.map toAsciiLowercase)
      (splitWhitespace (trim line))[2]? (splitWhitespace (trim line))[3]?.isSome
    rw [hset', edited, if_pos (show firstWord line = "set" from hset)]
    exact ⟨_, _, rfl⟩
  · rw [hsame _ hsave (by decide), cmdSave]
    split_ifs
    · exact ⟨_, _, rfl⟩
    · split
      · exact ⟨_, _, rfl⟩
      · exact ⟨_, _, rfl⟩
  · have hdirty : s.isDirty = true := thresholdsDiffer_iff.mpr fun hclean => hstay ⟨hexit, hclean⟩
    have hword : edited core s.working line = s.working := hexit.elim (hsame _ · (by decide)) (hsame _ · (by decide))
    rw [hword, cmdExit, if_pos hdirty]
    exact ⟨_, _, rfl⟩
  · rw [hsame _ rfl hset]
    exact ⟨_, _, rfl⟩

end ConfigSession

/-! ## Runs of a session -/

section

variable {s s' : ConfigSession} {line text : Text} {lines : List Text}

/-- What the session does with the first line, and then with the others. -/
theorem sessionResult_cons (core : FloatText) (s : ConfigSession) (line : Text) (lines : List Text) :
    sessionResult core s (line :: lines) =
      afterLine (s.handleLine core line 0) (sessionResult core (s.handleLine core line 0).2 lines) := rfl

/-- A line that neither saves nor leaves does not count. -/
theorem sessionResult_cont (h : s.handleLine core line 0 = (.cont text, s')) :
    sessionResult core s (line :: lines) = sessionResult core s' lines := by
  rw [sessionResult_cons, h]
  rfl

/-- Nothing after a line that leaves counts. -/
theorem sessionResult_exit (h : s.handleLine core line 0 = (⟨text, .exit, none⟩, s')) :
    sessionResult core s (line :: lines) = ([], some s'.outcome) := by
  rw [sessionResult_cons, h]
  rfl

/-- With an empty line after each, lines write nothing, and end the session if one of them leaves it with the loaded configuration. -/
theorem sessionResult_pairs (core : FloatText) {s : ConfigSession} (hnone : s.pending = .none) (lines : List Text) :
    (sessionResult core s (lines.flatMap fun line => [line, []])).1 = [] ∧
      ((sessionResult core s (lines.flatMap fun line => [line, []])).2.isSome = true ↔ ExitsClean core s.original s.working lines) := by
  induction lines generalizing s with
  | nil =>
    exact ⟨rfl, iff_of_false Bool.false_ne_true not_exists_line_nil⟩
  | cons line lines ih =>
    rw [List.flatMap_cons, List.cons_append, List.singleton_append, exitsClean_cons]
    by_cases hexit : IsExit line ∧ s.working = s.original
    · rw [sessionResult_exit (ConfigSession.handleLine_exit core hnone hexit.2 hexit.1 0)]
      exact ⟨rfl, iff_of_true rfl (.inl hexit)⟩
    · obtain ⟨text, pending, hline⟩ := ConfigSession.handleLine_stay core hnone hexit 0
      -- the empty line cancels what this line asked for
      obtain ⟨text', hempty⟩ := ConfigSession.handleLine_nil core
        { s with working := edited core s.working line, pending := pending } 0
      rw [sessionResult_cont hline, sessionResult_cont hempty, or_iff_right hexit]
      exact ih rfl

/-- A session that writes nothing ends without a save. -/
theorem sessionResult_unsaved (hcommitted : s.committed = false) (hwrites : (sessionResult core s lines).1 = [])
    (outcome : SafeModeOutcome) (hends : (sessionResult core s lines).2 = some outcome) : outcome = .exitedWithoutSave := by
  induction lines generalizing s with
  | nil => cases hends
  | cons line lines ih =>
    have hcont : ∀ {text s'}, s.handleLine core line 0 = (.cont text, s') → s'.committed = false → outcome = .exitedWithoutSave := by
      intro text s' hline hcommitted'
      rw [sessionResult_cont hline] at hwrites hends
      exact ih hcommitted' hwrites hends
    have hexit : ∀ {text s'}, s.handleLine core line 0 = (⟨text, .exit, none⟩, s') → s'.committed = false →
        outcome = .exitedWithoutSave := by
      intro text s' hline hcommitted'
      rw [sessionResult_exit hline, ConfigSession.outcome, hcommitted'] at hends
      exact (Option.some.inj hends).symm
    have hout := ConfigSession.outcome_handleLine core s line 0
    cases hres : s.handleLine core line 0 with
    | mk response session =>
      rw [hres] at hout
      cases hout with
      | quiet => exact hcont hres hcommitted
      | set => exact hcont hres hcommitted
      | askSave => exact hcont hres hcommitted
      | askExit => exact hcont hres hcommitted
      | saved =>
        rw [sessionResult_cons, hres] at hwrites
        cases hwrites
      | exit => exact hexit hres hcommitted
      | exitAnyway => exact hexit hres hcommitted

end

/-! ## Lines that save and lines that leave -/

/-- One of the lines is answered by leaving. -/
def ExitsAmong (core : FloatText) (s : ConfigSession) (lines : List Text) : Prop :=
  ∃ before line after, lines = before ++ line :: after ∧
    ((s.after core (untimed before)).handleLine core line 0).1.action = .exit

/-- One of the lines is answered by a buffer, and none before it by leaving. -/
def BufferAmong (core : FloatText) (s : ConfigSession) (lines : List Text) : Prop :=
  ∃ before line after, lines = before ++ line :: after ∧ ¬ExitsAmong core s before ∧
    ((s.after core (untimed before)).handleLine core line 0).1.buffer.isSome = true

section

variable {s : ConfigSession} {line : Text} {lines : List Text}

/-- The session is left by the first line or by one of the others. -/
theorem exitsAmong_cons : ExitsAmong core s (line :: lines) ↔
    (s.handleLine core line 0).1.action = .exit ∨ ExitsAmong core (s.handleLine core line 0).2 lines := exists_line_cons

/-- It is left among the first lines or among those after them. -/
theorem exitsAmong_append {more : List Text} : ExitsAmong core s (lines ++ more) ↔
    ExitsAmong core s lines ∨ ExitsAmong core (s.after core (untimed lines)) more := by
  induction lines generalizing s with
  | nil => exact (or_iff_right not_exists_line_nil).symm
  | cons line lines ih =>
    rw [List.cons_append, exitsAmong_cons, exitsAmong_cons, ih, or_assoc]
    rfl

/-- A buffer is written for the first line, or for a later one if the first does not leave. -/
theorem bufferAmong_cons : BufferAmong core s (line :: lines) ↔
    (s.handleLine core line 0).1.buffer.isSome = true ∨
      (s.handleLine core line 0).1.action ≠ .exit ∧ BufferAmong core (s.handleLine core line 0).2 lines := by
  refine exists_line_cons.trans (or_congr ?_ ?_)
  · exact and_iff_right not_exists_line_nil
  · simp only [exitsAmong_cons, not_or]
    constructor
    · rintro ⟨before, next, after, hsplit, ⟨hstay, hopen⟩, hbuffer⟩
      exact ⟨hstay, before, next, after, hsplit, hopen, hbuffer⟩
    · rintro ⟨hstay, before, next, after, hsplit, hopen, hbuffer⟩
      exact ⟨before, next, after, hsplit, ⟨hstay, hopen⟩, hbuffer⟩

/-- A session ends if one of its lines leaves it. -/
theorem sessionResult_ends_iff : (sessionResult core s lines).2.isSome = true ↔ ExitsAmong core s lines := by
  induction lines generalizing s with
  | nil => exact iff_of_false Bool.false_ne_true not_exists_line_nil
  | cons line lines ih =>
    rw [sessionResult_cons, afterLine, exitsAmong_cons]
    split
    · rename_i hexit
      exact iff_of_true rfl (.inl hexit)
    · rename_i hstay
      exact ih.trans (or_iff_right hstay).symm

/-- A session writes something if one of its lines has a buffer before it ends. -/
theorem sessionResult_writes_iff : (sessionResult core s lines).1 ≠ [] ↔ BufferAmong core s lines := by
  induction lines generalizing s with
  | nil => exact iff_of_false (not_not.mpr rfl) not_exists_line_nil
  | cons line lines ih =>
    rw [sessionResult_cons, afterLine, bufferAmong_cons, ← ih]
    cases hbuffer : (s.handleLine core line 0).1.buffer with
    | none => split <;> simp [*]
    | some buffer => split <;> simp

end

section

variable (core : FloatText) (current : Thresholds)

/-- The session after lines, with the given configuration loaded. -/
def sessionAfter (lines : List Text) : ConfigSession := (ConfigSession.new current).after core (untimed lines)

/-- One of the lines asks to leave when nothing is pending, and either nothing has changed or the next line says `yes`. -/
def Leaves (lines : List Text) : Prop :=
  ∃ before exit after, lines = before ++ exit :: after ∧ (sessionAfter core current before).pending = .none ∧ IsExit exit ∧
    ((sessionAfter core current before).working = (sessionAfter core current before).original ∨
      ∃ yes later, after = yes :: later ∧ trim yes = "yes")

/-- One of the lines asks for a save before the session is left, when nothing is pending and the configuration has changed and is valid,
and the next line says `yes`. -/
def ConfirmsSave (lines : List Text) : Prop :=
  ∃ before save after, lines = before ++ save :: after ∧ ¬Leaves core current before ∧
    (sessionAfter core current before).pending = .none ∧ firstWord save = "save" ∧
    (sessionAfter core current before).working ≠ (sessionAfter core current before).original ∧
    validateConfig core (sessionAfter core current before).working = .ok () ∧ ∃ yes later, after = yes :: later ∧ trim yes = "yes"

end

section

variable {current : Thresholds} {lines before : List Text}

/-- The lines before and the last, with timestamps and without. -/
theorem untimed_eq_concat {inputs : List (Text × UInt64)} {last : Text × UInt64} (h : untimed lines = inputs ++ [last]) :
    ∃ before, lines = before ++ [last.1] ∧ inputs = untimed before := by
  obtain ⟨before, after, rfl, rfl, hlast⟩ := List.map_eq_append_iff.mp h
  obtain ⟨line, rfl, rfl⟩ := List.map_eq_singleton_iff.mp hlast
  exact ⟨before, rfl, rfl⟩

/-- An exit is to be confirmed exactly after a line that asks to leave with changes. -/
theorem pending_exitConfirm_sessionAfter : (sessionAfter core current lines).pending = .exitConfirm ↔
    ∃ before exit, lines = before ++ [exit] ∧ (sessionAfter core current before).pending = .none ∧ IsExit exit ∧
      (sessionAfter core current before).working ≠ (sessionAfter core current before).original := by
  refine ConfigSession.pending_exitConfirm_iff.trans ⟨?_, ?_⟩
  · rintro ⟨inputs, last, heq, hasked⟩
    obtain ⟨before, rfl, rfl⟩ := untimed_eq_concat heq
    exact ⟨before, last.1, rfl, hasked⟩
  · rintro ⟨before, exit, rfl, hasked⟩
    exact ⟨untimed before, (exit, 0), List.map_append, hasked⟩

/-- A save is to be confirmed exactly after a line that asks to save valid changes. -/
theorem pending_saveConfirm_sessionAfter : (sessionAfter core current lines).pending = .saveConfirm ↔
    ∃ before save, lines = before ++ [save] ∧ (sessionAfter core current before).pending = .none ∧ firstWord save = "save" ∧
      (sessionAfter core current before).working ≠ (sessionAfter core current before).original ∧
      validateConfig core (sessionAfter core current before).working = .ok () := by
  refine ConfigSession.pending_saveConfirm_iff.trans ⟨?_, ?_⟩
  · rintro ⟨inputs, last, heq, hasked⟩
    obtain ⟨before, rfl, rfl⟩ := untimed_eq_concat heq
    exact ⟨before, last.1, rfl, hasked⟩
  · rintro ⟨before, save, rfl, hasked⟩
    exact ⟨untimed before, (save, 0), List.map_append, hasked⟩

/-- The session is left at one of the lines exactly if the lines leave it. -/
theorem exitsAmong_iff : ExitsAmong core (.new current) lines ↔ Leaves core current lines := by
  constructor
  · rintro ⟨before, line, after, rfl, hexit⟩
    rcases (ConfigSession.action_eq_exit_iff core _ line 0).mp hexit with ⟨hnone, hline, hclean⟩ | ⟨hpending, hyes⟩
    · exact ⟨before, line, after, rfl, hnone, hline, .inl (ConfigSession.isDirty_eq_false_iff.mp hclean)⟩
    · obtain ⟨prior, exit, rfl, hnone, hline, -⟩ := pending_exitConfirm_sessionAfter.mp hpending
      exact ⟨prior, exit, line :: after, List.append_assoc _ _ _, hnone, hline, .inr ⟨line, after, rfl, hyes⟩⟩
  · rintro ⟨before, exit, after, rfl, hnone, hline, hleaves⟩
    by_cases hclean : (sessionAfter core current before).working = (sessionAfter core current before).original
    · refine ⟨before, exit, after, rfl, (ConfigSession.action_eq_exit_iff core _ exit 0).mpr (.inl ?_)⟩
      exact ⟨hnone, hline, ConfigSession.isDirty_eq_false_iff.mpr hclean⟩
    · obtain ⟨yes, later, rfl, hyes⟩ := hleaves.resolve_left hclean
      have hpending : (sessionAfter core current (before ++ [exit])).pending = .exitConfirm :=
        pending_exitConfirm_sessionAfter.mpr ⟨before, exit, rfl, hnone, hline, hclean⟩
      exact ⟨before ++ [exit], yes, later, (List.append_assoc _ [exit] _).symm,
        (ConfigSession.action_eq_exit_iff core _ yes 0).mpr (.inr ⟨hpending, hyes⟩)⟩

/-- A line that asks for a save does not leave. -/
theorem action_save_ne_exit {s : ConfigSession} (hnone : s.pending = .none) {save : Text} (hword : firstWord save = "save") :
    (s.handleLine core save 0).1.action ≠ .exit := by
  intro hexit
  rcases (ConfigSession.action_eq_exit_iff core s save 0).mp hexit with ⟨-, hline, -⟩ | ⟨hpending, -⟩
  · rw [IsExit, hword] at hline
    exact absurd hline (by decide)
  · cases hnone.symm.trans hpending

/-- A buffer comes at one of the lines, before the session is left, exactly if the lines confirm a save. -/
theorem bufferAmong_iff : BufferAmong core (.new current) lines ↔ ConfirmsSave core current lines := by
  have hsaved : ∀ before line,
      ((sessionAfter core current before).handleLine core line 0).1.buffer.isSome = true ↔
        trim line = "yes" ∧ (sessionAfter core current before).pending = .saveConfirm := fun before line =>
    (ConfigSession.outcome_handleLine core _ line 0).buffer_iff.trans
      (ConfigSession.action_eq_saved_iff core current (untimed before) line 0)
  constructor
  · rintro ⟨before, line, after, rfl, hopen, hbuffer⟩
    obtain ⟨hyes, hpending⟩ := (hsaved before line).mp hbuffer
    obtain ⟨prior, save, rfl, hnone, hword, hdiffer, hvalid⟩ := pending_saveConfirm_sessionAfter.mp hpending
    have hopen' : ¬Leaves core current prior := fun hleaves => hopen (exitsAmong_append.mpr (.inl (exitsAmong_iff.mpr hleaves)))
    exact ⟨prior, save, line :: after, List.append_assoc _ _ _, hopen', hnone, hword, hdiffer, hvalid, line, after, rfl, hyes⟩
  · rintro ⟨before, save, after, rfl, hopen, hnone, hword, hdiffer, hvalid, yes, later, rfl, hyes⟩
    refine ⟨before ++ [save], yes, later, (List.append_assoc _ [save] _).symm, ?_, ?_⟩
    · rw [exitsAmong_append, exitsAmong_iff, exitsAmong_cons]
      rintro (hleaves | hexit | hnil)
      · exact hopen hleaves
      · exact action_save_ne_exit hnone hword hexit
      · exact not_exists_line_nil hnil
    · exact (hsaved _ yes).mpr ⟨hyes, pending_saveConfirm_sessionAfter.mpr ⟨before, save, rfl, hnone, hword, hdiffer, hvalid⟩⟩

/-- The session on lines writes nothing unless they confirm a save. -/
theorem sessionResult_eq_nil_iff : (sessionResult core (.new current) lines).1 = [] ↔ ¬ConfirmsSave core current lines := by
  rw [← bufferAmong_iff, ← sessionResult_writes_iff, not_not]

end

/-! ## The three endings -/

/-- For all thresholds and all lines of printable characters: the console writes the same configurations and ends the same way with any
of the three line endings if and only if no granted `save` is directly followed by `yes`, and the lines leave the session, by an `exit`
with nothing changed or one that is directly followed by `yes`, exactly if one of them asks to leave when the lines before it, each taken
as a command, give back the loaded configuration. -/
theorem line_endings_agree_iff (core : FloatText) (current : Thresholds) (lines : List (List UInt8))
    (hlines : ∀ line ∈ lines, ∀ b ∈ line, Printable b) (cr lf crlf : UInt64) :
    (observe (runSafeModeConsole core current cr (withEnding [13] lines)) =
        observe (runSafeModeConsole core current lf (withEnding [10] lines)) ∧
      observe (runSafeModeConsole core current crlf (withEnding [13, 10] lines)) =
        observe (runSafeModeConsole core current cr (withEnding [13] lines))) ↔
    ¬ConfirmsSave core current (lines.map typed) ∧
      (Leaves core current (lines.map typed) ↔ ExitsClean core current current (lines.map typed)) := by
  rw [observe_single (.inl rfl) current cr hlines, observe_single (.inr rfl) current lf hlines, observe_pair current crlf hlines,
    ← sessionResult_eq_nil_iff, ← exitsAmong_iff, ← sessionResult_ends_iff]
  obtain ⟨hwrites, hends⟩ := sessionResult_pairs core (show (ConfigSession.new current).pending = .none from rfl) (lines.map typed)
  constructor
  · rintro ⟨-, hagree⟩
    rw [← hagree]
    exact ⟨hwrites, hends⟩
  · rintro ⟨hwrites', hends'⟩
    refine ⟨rfl, Prod.ext (hwrites.trans hwrites'.symm) ?_⟩
    -- neither run saves, so they end the same way if both end
    have hpairs := sessionResult_unsaved rfl hwrites
    have hsingle := sessionResult_unsaved rfl hwrites'
    have hsome := hends.trans hends'.symm
    generalize (sessionResult core (.new current) ((lines.map typed).flatMap fun line => [line, []])).2 = pairs at hpairs hsome ⊢
    generalize (sessionResult core (.new current) (lines.map typed)).2 = single at hsingle hsome ⊢
    cases pairs with
    | none => exact (Option.not_isSome_iff_eq_none.mp fun h => Bool.false_ne_true (hsome.mpr h)).symm
    | some outcome =>
      obtain ⟨outcome', rfl⟩ := Option.isSome_iff_exists.mp (hsome.mp rfl)
      rw [hpairs outcome rfl, hsingle outcome' rfl]

/-- All bytes of all lines are printable if a check over them says so. -/
theorem printable_of_all {lines : List (List UInt8)} (h : lines.flatten.all (Printable ·) = true) :
    ∀ line ∈ lines, ∀ b ∈ line, Printable b := by
  intro line hline b hb
  exact of_decide_eq_true (List.all_eq_true.mp h b (List.mem_flatten.mpr ⟨line, hline, hb⟩))

/-- A window that is changed and changed back. -/
def restoreWindowLines : List (List UInt8) :=
  [("set window 32" : Text), ("set window 16" : Text), ("exit" : Text)].map asBytes

theorem line_endings_agree_iff_restored :
    observe (runSafeModeConsole noFloats .defaultConfig 0 (withEnding [13] restoreWindowLines)) =
        observe (runSafeModeConsole noFloats .defaultConfig 0 (withEnding [10] restoreWindowLines)) ∧
      observe (runSafeModeConsole noFloats .defaultConfig 0 (withEnding [13, 10] restoreWindowLines)) =
        observe (runSafeModeConsole noFloats .defaultConfig 0 (withEnding [13] restoreWindowLines)) := by
  have hprintable := printable_of_all (show restoreWindowLines.flatten.all (Printable ·) = true by decide +kernel)
  have hquiet : ¬ConfirmsSave noFloats .defaultConfig (restoreWindowLines.map typed) :=
    sessionResult_eq_nil_iff.mp (by decide +kernel)
  have hleaves : Leaves noFloats .defaultConfig (restoreWindowLines.map typed) :=
    ⟨["set window 32", "set window 16"], "exit", [], by decide +kernel, by decide +kernel, .inl (by decide +kernel),
      .inl (by decide +kernel)⟩
  have hclean : ExitsClean noFloats .defaultConfig .defaultConfig (restoreWindowLines.map typed) :=
    ⟨["set window 32", "set window 16"], "exit", [], by decide +kernel, .inl (by decide +kernel), by decide +kernel⟩
  exact (line_endings_agree_iff noFloats .defaultConfig restoreWindowLines hprintable 0 0 0).mpr ⟨hquiet, iff_of_true hleaves hclean⟩

/-- The bytes of a session that saves a window of 32. -/
def saveWindowLines : List (List UInt8) := [("set window 32" : Text), ("save" : Text), ("yes" : Text), ("exit" : Text)].map asBytes

theorem saveWindowLines_printable : ∀ line ∈ saveWindowLines, ∀ b ∈ line, Printable b :=
  printable_of_all (by decide +kernel)

/-- With a carriage return after each line the window is saved and the console ends; with a pair nothing is saved and it still waits. -/
theorem pair_cancels_save :
    (∀ line ∈ saveWindowLines, ∀ b ∈ line, Printable b) ∧
      observe (runSafeModeConsole noFloats .defaultConfig 0 (withEnding [13] saveWindowLines)) =
        ([{ Thresholds.defaultConfig with window := 32 }], some .exitedWithSave) ∧
      observe (runSafeModeConsole noFloats .defaultConfig 0 (withEnding [13, 10] saveWindowLines)) = ([], none) := by
  refine ⟨saveWindowLines_printable, ?_, ?_⟩
  · rw [observe_single (.inl rfl) _ _ saveWindowLines_printable]
    decide +kernel
  · rw [observe_pair _ _ saveWindowLines_printable]
    decide +kernel

end SafeMode

end GolemKernel
