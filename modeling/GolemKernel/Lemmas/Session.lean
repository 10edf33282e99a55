import GolemKernel.Lemmas.Migration
import GolemKernel.SafeMode.Session

/-!
# What lines do to a session

`Outcome` lists what a line can do to a session (`outcome_handleLine`). A save is asked for only when the configuration has changed
and is valid, and nothing but the next line is read before it is confirmed (`Armed`). So a buffer that a line produces is sealed
from a valid configuration and is dirty (`handleLine_spec`).

Lines fed to a session one after another have a transcript (`answers`), which all statements about whole sessions read. A confirmation
is pending exactly after the line that asked for it (`pending_saveConfirm_iff`, `pending_exitConfirm_iff`), so what the session does at a
line can be read off that line, the one before and the session before that.
-/

namespace GolemKernel

namespace SafeMode

open Text Sentinel

variable {core : FloatText}

/-- The thresholds other than the window. -/
def thresholdValues (t : Thresholds) : List F32 :=
  [t.repetition, t.selfReferential, t.tokenVelocity, t.toolRetry, t.soft, t.medium, t.hard]

/-- The rules for a configuration: ordered tiers, a window within its bounds, and all thresholds in range. -/
theorem validateConfig_ok_iff {t : Thresholds} :
    validateConfig core t = .ok () ↔
      (t.soft.le t.medium = true ∧ t.medium.le t.hard = true) ∧ (1 ≤ t.window ∧ t.window ≤ maxWindow) ∧
        ∀ v ∈ thresholdValues t, outOfRange v = false := by
  unfold validateConfig
  split
  · rename_i htiers
    refine iff_of_false (nomatch ·) ?_
    rintro ⟨⟨hsoft, hmedium⟩, -⟩
    simp [hsoft, hmedium] at htiers
  · rename_i htiers
    split
    · rename_i hwindow
      refine iff_of_false (nomatch ·) ?_
      rintro ⟨-, hbounds, -⟩
      omega
    · rename_i hwindow
      have htiers' : t.soft.le t.medium = true ∧ t.medium.le t.hard = true := by simpa using htiers
      have hbounds : 1 ≤ t.window ∧ t.window ≤ maxWindow := by omega
      dsimp only
      split
      · rename_i name v hfind
        refine iff_of_false (nomatch ·) ?_
        rintro ⟨-, -, hrange⟩
        have hbad : outOfRange v = true := by simpa using List.find?_some hfind
        have hmem : v ∈ thresholdValues t := by
          have := List.mem_map_of_mem (f := Prod.snd) (List.mem_of_find?_eq_some hfind)
          simpa [thresholdValues] using this
        rw [hrange v hmem] at hbad
        cases hbad
      · rename_i hfind
        refine iff_of_true rfl ⟨htiers', hbounds, ?_⟩
        simpa [thresholdValues] using List.find?_eq_none.mp hfind

/-- A valid configuration has a window that fits in 32 bits. -/
theorem window_of_validateConfig {t : Thresholds} (h : validateConfig core t = .ok ()) : 1 ≤ t.window ∧ t.window ≤ maxWindow :=
  (validateConfig_ok_iff.mp h).2.1

/-- Configurations differ if they are not equal: the comparison is bit for bit. -/
theorem thresholdsDiffer_iff {a b : Thresholds} : thresholdsDiffer a b = true ↔ a ≠ b := by
  obtain ⟨⟨_⟩, ⟨_⟩, ⟨_⟩, ⟨_⟩, ⟨_⟩, ⟨_⟩, ⟨_⟩, _⟩ := a
  obtain ⟨⟨_⟩, ⟨_⟩, ⟨_⟩, ⟨_⟩, ⟨_⟩, ⟨_⟩, ⟨_⟩, _⟩ := b
  simp only [thresholdsDiffer, Bool.or_eq_true, bne_iff_ne, ne_eq, Thresholds.mk.injEq, F32.mk.injEq]
  tauto

/-- The first word of a line. -/
def firstWord (line : Text) : Text := (splitWhitespace (trim line)).headD []

/-- A line that asks to leave. -/
def IsExit (line : Text) : Prop := firstWord line = "exit" ∨ firstWord line = "quit"

namespace ConfigSession

variable {s : ConfigSession}

/-- A session is not dirty if its working configuration is the one it compares with. -/
theorem isDirty_eq_false_iff : s.isDirty = false ↔ s.working = s.original := by
  rw [Bool.eq_false_iff, ne_eq, isDirty, thresholdsDiffer_iff, not_not]

/-- What a line can do to a session. -/
inductive Outcome (core : FloatText) (s : ConfigSession) (line : Text) (timestamp : UInt64) : Response × ConfigSession → Prop where
  /-- Nothing, but for a confirmation that was pending and no longer is. -/
  | quiet (text : Text) : Outcome core s line timestamp (.cont text, { s with pending := .none })
  | set (text key value : Text) (updated : Thresholds) (hnone : s.pending = .none)
      (hwords : splitWhitespace (trim line) = [("set" : Text), key, value])
      (happly : applySet core s.working (toAsciiLowercase key) value = .ok updated) :
      Outcome core s line timestamp (.cont text, { s with working := updated })
  | askSave (text : Text) (hnone : s.pending = .none) (hword : firstWord line = "save") (hdirty : s.isDirty = true)
      (hvalid : validateConfig core s.working = .ok ()) :
      Outcome core s line timestamp (.cont text, { s with pending := .saveConfirm })
  | askExit (text : Text) (hnone : s.pending = .none) (hword : IsExit line) (hdirty : s.isDirty = true) :
      Outcome core s line timestamp (.cont text, { s with pending := .exitConfirm })
  | saved (text : Text) (hpending : s.pending = .saveConfirm) (hyes : trim line = "yes")
      (hvalid : validateConfig core s.working = .ok ()) :
      Outcome core s line timestamp (⟨text, .saved, some (.sealedFromThresholds s.working s.isDirty timestamp)⟩,
        { s with original := s.working, pending := .none, committed := true })
  | exit (text : Text) (hnone : s.pending = .none) (hword : IsExit line) (hclean : s.isDirty = false) :
      Outcome core s line timestamp (⟨text, .exit, none⟩, s)
  | exitAnyway (text : Text) (hpending : s.pending = .exitConfirm) (hyes : trim line = "yes") :
      Outcome core s line timestamp (⟨text, .exit, none⟩, { s with pending := .none })

section

variable {line : Text} {timestamp : UInt64}

/-- An answer that leaves a session as it is. -/
theorem Outcome.same (hnone : s.pending = .none) (text : Text) : Outcome core s line timestamp (.cont text, s) := by
  have h : Outcome core s line timestamp (.cont text, { s with pending := .none }) := .quiet text
  rwa [← hnone] at h

/-- Three words and no fourth. -/
theorem eq_of_three_words {words : List Text} {first second third : Text} (hfirst : words.headD [] = first) (hne : first ≠ [])
    (hsecond : words[1]? = some second) (hthird : words[2]? = some third) (hmore : ¬words[3]?.isSome = true) :
    words = [first, second, third] := by
  match words with
  | [] => exact absurd hfirst.symm hne
  | [_] => cases hsecond
  | [_, _] => cases hthird
  | [_, _, _] =>
    cases hfirst
    cases hsecond
    cases hthird
    rfl
  | _ :: _ :: _ :: _ :: _ => exact absurd rfl hmore

/-- `set` changes the working configuration if it is accepted. -/
theorem outcome_cmdSet (hnone : s.pending = .none) (hword : firstWord line = "set") :
    Outcome core s line timestamp (s.cmdSet core ((splitWhitespace (trim line))[1]?.map toAsciiLowercase)
      (splitWhitespace (trim line))[2]? (splitWhitespace (trim line))[3]?.isSome) := by
  unfold cmdSet
  split
  · rename_i lower value hlower hvalue
    obtain ⟨key, hkey, rfl⟩ := Option.map_eq_some_iff.mp hlower
    split
    · exact .same hnone _
    · rename_i hextra
      split
      · rename_i updated happly
        exact .set _ key value updated hnone (eq_of_three_words hword (by decide) hkey hvalue hextra) happly
      · exact .same hnone _
  · exact .same hnone _

/-- `save` asks for a confirmation if the configuration has changed and is valid. -/
theorem outcome_cmdSave (hnone : s.pending = .none) (hword : firstWord line = "save") :
    Outcome core s line timestamp (s.cmdSave core) := by
  unfold cmdSave
  split
  · exact .same hnone _
  · rename_i hclean
    have hdirty : s.isDirty = true := by simpa using hclean
    split
    · exact .same hnone _
    · rename_i hvalid
      exact .askSave _ hnone hword hdirty hvalid

/-- `exit` leaves, or asks for a confirmation if the configuration has changed. -/
theorem outcome_cmdExit (hnone : s.pending = .none) (hword : IsExit line) :
    Outcome core s line timestamp s.cmdExit := by
  unfold cmdExit
  split
  · rename_i hdirty
    exact .askExit _ hnone hword hdirty
  · rename_i hdirty
    exact .exit _ hnone hword (by simpa using hdirty)

/-- The line after a granted `save` saves if it is `yes`. -/
theorem outcome_resolveSaveConfirm (hpending : s.pending = .saveConfirm) :
    Outcome core s line timestamp (s.resolveSaveConfirm core (trim line) timestamp) := by
  unfold resolveSaveConfirm
  dsimp only
  split
  · exact .quiet _
  · rename_i hyes
    split
    · exact .quiet _
    · rename_i hvalid
      exact .saved _ hpending (not_not.mp hyes) hvalid

/-- The line after an `exit` that asked for a confirmation leaves if it is `yes`. -/
theorem outcome_resolveExitConfirm (hpending : s.pending = .exitConfirm) :
    Outcome core s line timestamp (s.resolveExitConfirm (trim line)) := by
  unfold resolveExitConfirm
  dsimp only
  split
  · exact .quiet _
  · rename_i hyes
    exact .exitAnyway _ hpending (not_not.mp hyes)

/-- Every command has one of the outcomes. -/
theorem outcome_command (hnone : s.pending = .none) : Outcome core s line timestamp (s.command core (trim line)) := by
  unfold command
  dsimp only
  split_ifs with _ _ _ hset hsave hexit
  · exact .same hnone _
  · exact .same hnone _
  · exact .same hnone _
  · exact outcome_cmdSet hnone hset
  · exact outcome_cmdSave hnone hsave
  · exact outcome_cmdExit hnone hexit
  · exact .same hnone _

/-- Every line has one of the outcomes. -/
theorem outcome_handleLine (core : FloatText) (s : ConfigSession) (line : Text) (timestamp : UInt64) :
    Outcome core s line timestamp (s.handleLine core line timestamp) := by
  unfold handleLine
  dsimp only
  split
  · rename_i hpending
    exact outcome_resolveSaveConfirm hpending
  · rename_i hpending
    exact outcome_resolveExitConfirm hpending
  · rename_i hnone
    exact outcome_command hnone

end

section

variable {line : Text} {timestamp : UInt64} {out : Response × ConfigSession}

/-- What is pending after a line was asked for by that line. -/
theorem Outcome.pending (h : Outcome core s line timestamp out) :
    out.2.pending = .none ∨
    (out.2.pending = .saveConfirm ∧ s.pending = .none ∧ firstWord line = "save" ∧ s.isDirty = true ∧
      validateConfig core s.working = .ok ()) ∨
    (out.2.pending = .exitConfirm ∧ s.pending = .none ∧ IsExit line ∧ s.isDirty = true) := by
  cases h with
  | quiet => exact .inl rfl
  | set _ _ _ _ hnone => exact .inl hnone
  | askSave _ hnone hword hdirty hvalid => exact .inr (.inl ⟨rfl, hnone, hword, hdirty, hvalid⟩)
  | askExit _ hnone hword hdirty => exact .inr (.inr ⟨rfl, hnone, hword, hdirty⟩)
  | saved => exact .inl rfl
  | exit _ hnone => exact .inl hnone
  | exitAnyway => exact .inl rfl

/-- A buffer comes with a save and with nothing else. -/
theorem Outcome.buffer_iff (h : Outcome core s line timestamp out) : out.1.buffer.isSome = true ↔ out.1.action = .saved := by
  cases h <;> simp [Response.cont]

/-- A line that saves says `yes` to a pending save. -/
theorem Outcome.of_saved (h : Outcome core s line timestamp out) (hsaved : out.1.action = .saved) :
    trim line = "yes" ∧ s.pending = .saveConfirm := by
  cases h with
  | saved _ hpending hyes => exact ⟨hyes, hpending⟩
  | _ => cases hsaved

/-- A line that leaves asks to leave an unchanged configuration, or says `yes` to a pending exit. -/
theorem Outcome.of_exit (h : Outcome core s line timestamp out) (hexit : out.1.action = .exit) :
    (s.pending = .none ∧ IsExit line ∧ s.isDirty = false) ∨ (s.pending = .exitConfirm ∧ trim line = "yes") := by
  cases h with
  | exit _ hnone hword hclean => exact .inl ⟨hnone, hword, hclean⟩
  | exitAnyway _ hpending hyes => exact .inr ⟨hpending, hyes⟩
  | _ => cases hexit

/-- A line that changes the working configuration is an accepted `set`. -/
theorem Outcome.of_working (h : Outcome core s line timestamp out) (hne : out.2.working ≠ s.working) :
    s.pending = .none ∧ ∃ key value, splitWhitespace (trim line) = [("set" : Text), key, value] ∧
      applySet core s.working (toAsciiLowercase key) value = .ok out.2.working := by
  cases h with
  | set _ key value _ hnone hwords happly => exact ⟨hnone, key, value, hwords, happly⟩
  | _ => exact absurd rfl hne

end

/-- A line with a first word is not empty. -/
theorem isEmpty_trim_of_firstWord {line : Text} (hne : firstWord line ≠ []) : (trim line).isEmpty = false := by
  cases htrim : trim line with
  | nil => exact absurd (congrArg (fun text => (splitWhitespace text).headD []) htrim) hne
  | cons _ _ => rfl

/-- A save that is asked for with a changed and valid configuration is pending. -/
theorem pending_handleLine_save {line : Text} (timestamp : UInt64) (hnone : s.pending = .none) (hword : firstWord line = "save")
    (hdirty : s.isDirty = true) (hvalid : validateConfig core s.working = .ok ()) :
    (s.handleLine core line timestamp).2 = { s with pending := .saveConfirm } := by
  have hcmd : (splitWhitespace (trim line)).headD [] = "save" := hword
  have hline : (trim line).isEmpty = false := isEmpty_trim_of_firstWord (hword ▸ List.cons_ne_nil _ _)
  have hcommand : s.command core (trim line) = s.cmdSave core := by
    unfold command
    rw [hline, if_neg Bool.false_ne_true]
    dsimp only
    rw [hcmd, if_neg (by decide), if_neg (by decide), if_neg (by decide), if_pos rfl]
  rw [handleLine]
  simp only [hnone, hcommand, cmdSave, hdirty, hvalid, Bool.not_true, Bool.false_eq_true, if_false]

/-- A line that asks to leave is taken as `exit` if nothing is pending. -/
theorem handleLine_isExit {line : Text} (timestamp : UInt64) (hnone : s.pending = .none) (hexit : IsExit line) :
    s.handleLine core line timestamp = s.cmdExit := by
  have hcommand : ∀ word : Text, (splitWhitespace (trim line)).headD [] = word → word = "exit" ∨ word = "quit" →
      s.command core (trim line) = s.cmdExit := by
    rintro word hword (rfl | rfl)
    all_goals
      have hline : (trim line).isEmpty = false := isEmpty_trim_of_firstWord (Eq.trans_ne hword (List.cons_ne_nil _ _))
      rw [command, hline, if_neg Bool.false_ne_true]
      dsimp only
      rw [hword]
      rfl
  rw [handleLine]
  simp only [hnone, hcommand _ rfl hexit]

/-- What makes a line leave the session. -/
theorem action_eq_exit_iff (core : FloatText) (s : ConfigSession) (line : Text) (timestamp : UInt64) :
    (s.handleLine core line timestamp).1.action = .exit ↔
      (s.pending = .none ∧ IsExit line ∧ s.isDirty = false) ∨ (s.pending = .exitConfirm ∧ trim line = "yes") := by
  refine ⟨(outcome_handleLine core s line timestamp).of_exit, ?_⟩
  rintro (⟨hnone, hexit, hclean⟩ | ⟨hpending, hyes⟩)
  · rw [handleLine_isExit timestamp hnone hexit, cmdExit, hclean, if_neg Bool.false_ne_true]
  · rw [handleLine]
    simp only [hpending, resolveExitConfirm, hyes, ne_eq, not_true_eq_false, if_false]

/-- A pending save of a valid configuration is carried out on `yes`. -/
theorem action_handleLine_yes {line : Text} (timestamp : UInt64) (hpending : s.pending = .saveConfirm) (hyes : trim line = "yes")
    (hvalid : validateConfig core s.working = .ok ()) : (s.handleLine core line timestamp).1.action = .saved := by
  rw [handleLine]
  simp only [hpending, resolveSaveConfirm, hyes, ne_eq, not_true_eq_false, if_false, hvalid]

/-- A pending save is one of a changed and valid configuration. -/
def Armed (core : FloatText) (s : ConfigSession) : Prop :=
  s.pending = .saveConfirm → s.isDirty = true ∧ validateConfig core s.working = .ok ()

/-- A new session has nothing pending. -/
theorem armed_new (core : FloatText) (t : Thresholds) : (new t).Armed core := (nomatch ·)

/-- What a line leaves: the session stays armed, and a buffer is the sealed configuration, dirty and valid. -/
structure Handled (core : FloatText) (timestamp : UInt64) (out : Response × ConfigSession) : Prop where
  armed : out.2.Armed core
  buffer : ∀ b, out.1.buffer = some b →
    b = .sealedFromThresholds out.2.working true timestamp ∧ validateConfig core out.2.working = .ok ()

/-- Every line leaves an armed session so. -/
theorem handleLine_spec (h : s.Armed core) (line : Text) (timestamp : UInt64) :
    Handled core timestamp (s.handleLine core line timestamp) := by
  have hout := outcome_handleLine core s line timestamp
  cases hres : s.handleLine core line timestamp with
  | mk response session =>
    rw [hres] at hout
    cases hout with
    | quiet => exact ⟨(nomatch ·), fun _ hb => nomatch hb⟩
    | set text key value updated hnone =>
      refine ⟨?_, fun _ hb => nomatch hb⟩
      intro hpending
      rw [hnone] at hpending
      cases hpending
    | askSave text hnone hword hdirty hvalid => exact ⟨fun _ => ⟨hdirty, hvalid⟩, fun _ hb => nomatch hb⟩
    | askExit => exact ⟨(nomatch ·), fun _ hb => nomatch hb⟩
    | saved text hpending hyes hvalid =>
      refine ⟨(nomatch ·), ?_⟩
      intro b hb
      rw [← Option.some.inj hb, (h hpending).1]
      exact ⟨rfl, hvalid⟩
    | exit => exact ⟨h, fun _ hb => nomatch hb⟩
    | exitAnyway => exact ⟨(nomatch ·), fun _ hb => nomatch hb⟩

/-! ## Lines one after another -/

/-- Lines fed to a session, each with its timestamp: the answer to each, and the session after it. -/
def answers (core : FloatText) (s : ConfigSession) : List (Text × UInt64) → List (Response × ConfigSession)
  | [] => []
  | input :: inputs =>
    let out := s.handleLine core input.1 input.2
    out :: out.2.answers core inputs

/-- The session after lines. -/
def after (core : FloatText) (s : ConfigSession) (inputs : List (Text × UInt64)) : ConfigSession :=
  (s.answers core inputs).foldl (fun _ out => out.2) s

/-- The answers to more lines are those of the session that the first ones have left. -/
theorem answers_append (s : ConfigSession) (inputs more : List (Text × UInt64)) :
    s.answers core (inputs ++ more) = s.answers core inputs ++ (s.after core inputs).answers core more := by
  induction inputs generalizing s with
  | nil => rfl
  | cons input inputs ih => exact congrArg _ (ih _)

theorem after_append (s : ConfigSession) (inputs more : List (Text × UInt64)) :
    s.after core (inputs ++ more) = (s.after core inputs).after core more := by
  rw [after, answers_append, List.foldl_append]
  rfl

theorem after_concat (s : ConfigSession) (inputs : List (Text × UInt64)) (input : Text × UInt64) :
    s.after core (inputs ++ [input]) = ((s.after core inputs).handleLine core input.1 input.2).2 := after_append s inputs [input]

section

variable {current : Thresholds} {inputs before : List (Text × UInt64)} {input : Text × UInt64}

/-- What is pending was asked for by the line before. -/
theorem pending_after (core : FloatText) (current : Thresholds) (inputs : List (Text × UInt64)) :
    ((new current).after core inputs).pending = .none ∨ ∃ before prev, inputs = before ++ [prev] ∧
      ((new current).after core before).pending = .none ∧
      ((new current).after core before).working ≠ ((new current).after core before).original ∧
      (((new current).after core inputs).pending = .saveConfirm ∧ firstWord prev.1 = "save" ∧
          validateConfig core ((new current).after core before).working = .ok () ∨
        ((new current).after core inputs).pending = .exitConfirm ∧ IsExit prev.1) := by
  rcases List.eq_nil_or_concat inputs with rfl | ⟨before, prev, rfl⟩
  · exact .inl rfl
  · rw [List.concat_eq_append, after_concat]
    rcases (outcome_handleLine core _ prev.1 prev.2).pending with
      hnone | ⟨hsave, hnone, hword, hdirty, hvalid⟩ | ⟨hexit, hnone, hword, hdirty⟩
    · exact .inl hnone
    · exact .inr ⟨before, prev, rfl, hnone, thresholdsDiffer_iff.mp hdirty, .inl ⟨hsave, hword, hvalid⟩⟩
    · exact .inr ⟨before, prev, rfl, hnone, thresholdsDiffer_iff.mp hdirty, .inr ⟨hexit, hword⟩⟩

/-- A line that asks for a save and is granted it leaves a save pending, and nothing else. -/
theorem after_save (hnone : ((new current).after core before).pending = .none) (hword : firstWord input.1 = "save")
    (hdiffer : ((new current).after core before).working ≠ ((new current).after core before).original)
    (hvalid : validateConfig core ((new current).after core before).working = .ok ()) :
    (new current).after core (before ++ [input]) = { (new current).after core before with pending := .saveConfirm } := by
  rw [after_concat]
  exact pending_handleLine_save input.2 hnone hword (thresholdsDiffer_iff.mpr hdiffer) hvalid

/-- A save is pending exactly after a line that asked for one and was granted it. -/
theorem pending_saveConfirm_iff :
    ((new current).after core inputs).pending = .saveConfirm ↔
      ∃ before prev, inputs = before ++ [prev] ∧ ((new current).after core before).pending = .none ∧ firstWord prev.1 = "save" ∧
        ((new current).after core before).working ≠ ((new current).after core before).original ∧
        validateConfig core ((new current).after core before).working = .ok () := by
  constructor
  · intro hpending
    rcases pending_after core current inputs with hnone | ⟨before, prev, heq, hnone, hdiffer, ⟨-, hword, hvalid⟩ | ⟨hexit, -⟩⟩
    · cases hpending.symm.trans hnone
    · exact ⟨before, prev, heq, hnone, hword, hdiffer, hvalid⟩
    · cases hpending.symm.trans hexit
  · rintro ⟨before, prev, rfl, hnone, hword, hdiffer, hvalid⟩
    rw [after_save hnone hword hdiffer hvalid]

/-- An exit is pending exactly after a line that asked for one with a changed configuration. -/
theorem pending_exitConfirm_iff :
    ((new current).after core inputs).pending = .exitConfirm ↔
      ∃ before prev, inputs = before ++ [prev] ∧ ((new current).after core before).pending = .none ∧ IsExit prev.1 ∧
        ((new current).after core before).working ≠ ((new current).after core before).original := by
  constructor
  · intro hpending
    rcases pending_after core current inputs with hnone | ⟨before, prev, heq, hnone, hdiffer, ⟨hsave, -⟩ | ⟨-, hword⟩⟩
    · cases hpending.symm.trans hnone
    · cases hpending.symm.trans hsave
    · exact ⟨before, prev, heq, hnone, hword, hdiffer⟩
  · rintro ⟨before, prev, rfl, hnone, hword, hdiffer⟩
    have hdirty : ((new current).after core before).isDirty = true := thresholdsDiffer_iff.mpr hdiffer
    rw [after_concat, handleLine_isExit prev.2 hnone hword, cmdExit, if_pos hdirty]

/-- A pending save is one of a valid configuration. -/
theorem validateConfig_of_pending (h : ((new current).after core inputs).pending = .saveConfirm) :
    validateConfig core ((new current).after core inputs).working = .ok () := by
  obtain ⟨before, prev, rfl, hnone, hword, hdiffer, hvalid⟩ := pending_saveConfirm_iff.mp h
  rw [after_save hnone hword hdiffer hvalid]
  exact hvalid

/-- A line saves exactly if it says `yes` to a pending save. -/
theorem action_eq_saved_iff (core : FloatText) (current : Thresholds) (inputs : List (Text × UInt64)) (line : Text)
    (timestamp : UInt64) :
    (((new current).after core inputs).handleLine core line timestamp).1.action = .saved ↔
      trim line = "yes" ∧ ((new current).after core inputs).pending = .saveConfirm := by
  refine ⟨(outcome_handleLine core _ line timestamp).of_saved, ?_⟩
  rintro ⟨hyes, hpending⟩
  exact action_handleLine_yes timestamp hpending hyes (validateConfig_of_pending hpending)

end

end ConfigSession

end SafeMode

end GolemKernel
