import GolemKernel.Lemmas.Session

/-!
# The confirmation protocol of a session

Lines are fed to a session, and beside it runs a record of what was saved last (`Watched`). `confirmation_protocol` says what the
session does at a line in terms of that line, the one before and the sessions before these.
-/

namespace GolemKernel

namespace SafeMode

open Text Sentinel

/-! ## Fields -/

/-- The field that a key names: the bits of a threshold, or the window. -/
def fieldValue (key : Text) (t : Thresholds) : Nat :=
  if key = "repetition" then t.repetition.bits.toNat
  else if key = "self_referential" then t.selfReferential.bits.toNat
  else if key = "token_velocity" then t.tokenVelocity.bits.toNat
  else if key = "tool_retry" then t.toolRetry.bits.toNat
  else if key = "soft" then t.soft.bits.toNat
  else if key = "medium" then t.medium.bits.toNat
  else if key = "hard" then t.hard.bits.toNat
  else if key = "window" then t.window
  else 0

/-- A store goes to the field of its key and to no other. -/
theorem thresholdStore_spec {key : Text} {store : F32 → Thresholds → Thresholds} (h : thresholdStore key = some store) (v : F32)
    (t : Thresholds) : key ∈ validKeys ∧ ∀ other, other ≠ key → fieldValue other (store v t) = fieldValue other t := by
  unfold thresholdStore at h
  split_ifs at h with h1 h2 h3 h4 h5 h6 h7
  all_goals
    obtain rfl := Option.some.inj h
    subst key
    refine ⟨by decide, ?_⟩
    intro other hother
    simp only [fieldValue, hother, if_false]

/-- An accepted edit names a field and changes no other. -/
theorem applySet_spec {core : FloatText} {base updated : Thresholds} {key raw : Text} (h : applySet core base key raw = .ok updated) :
    key ∈ validKeys ∧ ∀ other, other ≠ key → fieldValue other updated = fieldValue other base := by
  unfold applySet at h
  split at h
  · rename_i hkey
    subst key
    refine ⟨by decide, ?_⟩
    intro other hother
    split at h
    · cases h
    · split at h
      · cases h
      · obtain rfl := Except.ok.inj h
        simp only [fieldValue, hother, if_false]
  · split at h
    · rename_i store hstore
      split at h
      · cases h
      · split at h
        · cases h
        · obtain rfl := Except.ok.inj h
          exact thresholdStore_spec hstore _ base
    · cases h

/-! ## Lines -/

/-- A session, and the configuration that was saved last, or loaded if none was. -/
structure Watched where
  session : ConfigSession
  baseline : Thresholds

namespace Watched

def start (current : Thresholds) : Watched := ⟨.new current, current⟩

/-- What is recorded of an answer. -/
def note (w : Watched) (out : Response × ConfigSession) : Watched :=
  ⟨out.2, if out.1.action = .saved then out.2.working else w.baseline⟩

/-- All lines, one after another. -/
def run (core : FloatText) (current : Thresholds) (inputs : List (Text × UInt64)) : Watched :=
  ((ConfigSession.new current).answers core inputs).foldl note (start current)

variable {core : FloatText} {current : Thresholds} {inputs : List (Text × UInt64)} {input : Text × UInt64}

/-- The last line is noted. -/
theorem run_concat : run core current (inputs ++ [input]) =
    (run core current inputs).note (((ConfigSession.new current).after core inputs).handleLine core input.1 input.2) := by
  rw [run, ConfigSession.answers_append, List.foldl_append]
  rfl

/-- The session that is watched is the session after the lines. -/
theorem session_run (core : FloatText) (current : Thresholds) (inputs : List (Text × UInt64)) :
    (run core current inputs).session = (ConfigSession.new current).after core inputs := by
  rcases List.eq_nil_or_concat inputs with rfl | ⟨before, prev, rfl⟩
  · rfl
  · rw [List.concat_eq_append, run_concat, ConfigSession.after_concat]
    rfl

/-- What was saved last is what the session compares with. -/
theorem baseline_run (core : FloatText) (current : Thresholds) (inputs : List (Text × UInt64)) :
    (run core current inputs).baseline = ((ConfigSession.new current).after core inputs).original := by
  induction inputs using List.reverseRecOn with
  | nil => rfl
  | append_singleton inputs input ih =>
    have hout := ConfigSession.outcome_handleLine core ((ConfigSession.new current).after core inputs) input.1 input.2
    rw [run_concat, ConfigSession.after_concat, note]
    dsimp only
    generalize ConfigSession.handleLine core ((ConfigSession.new current).after core inputs) input.1 input.2 = out at hout
    cases hout with
    | quiet => exact ih
    | set => exact ih
    | askSave => exact ih
    | askExit => exact ih
    | saved => rfl
    | exit => exact ih
    | exitAnyway => exact ih

end Watched

/-! ## The protocol -/

/-- For every loaded configuration, every sequence of lines and every next line. (1) A response carries a buffer exactly if its action
is `Saved`. (2) That is so exactly if the line trims to `yes` and the line before was handled with nothing pending, began with `save`,
and found a working configuration that differed from the one saved last and was valid. (3) A session is left only when the working
configuration is the one saved last, or at a `yes` right after an `exit` or `quit` that was handled with nothing pending. (4) Only a
`set` of a key and a value that is accepted, with nothing pending, changes the working configuration, and only in the field of that
key. -/
theorem confirmation_protocol (core : FloatText) (current : Thresholds) (inputs : List (Text × UInt64)) (line : Text)
    (timestamp : UInt64) :
    let w := Watched.run core current inputs
    let out := w.session.handleLine core line timestamp
    (out.1.buffer.isSome = true ↔ out.1.action = .saved) ∧
    (out.1.action = .saved ↔ trim line = "yes" ∧ ∃ before prev, inputs = before ++ [prev] ∧
      (Watched.run core current before).session.pending = .none ∧ firstWord prev.1 = "save" ∧
      (Watched.run core current before).session.working ≠ (Watched.run core current before).baseline ∧
      validateConfig core (Watched.run core current before).session.working = .ok ()) ∧
    (out.1.action = .exit → w.session.working = w.baseline ∨
      trim line = "yes" ∧ ∃ before prev, inputs = before ++ [prev] ∧
        (Watched.run core current before).session.pending = .none ∧ (firstWord prev.1 = "exit" ∨ firstWord prev.1 = "quit")) ∧
    (out.2.working ≠ w.session.working → w.session.pending = .none ∧ ∃ key value,
      splitWhitespace (trim line) = [("set" : Text), key, value] ∧
      applySet core w.session.working (toAsciiLowercase key) value = .ok out.2.working ∧ toAsciiLowercase key ∈ validKeys ∧
      ∀ other ∈ validKeys, other ≠ toAsciiLowercase key → fieldValue other out.2.working = fieldValue other w.session.working) := by
  intro w out
  have hout : ConfigSession.Outcome core w.session line timestamp out := ConfigSession.outcome_handleLine _ _ _ _
  have hsession : w.session = (ConfigSession.new current).after core inputs := Watched.session_run core current inputs
  refine ⟨hout.buffer_iff, ?_, ?_, ?_⟩
  · simp only [Watched.session_run, Watched.baseline_run, ← ConfigSession.pending_saveConfirm_iff]
    rw [show out = w.session.handleLine core line timestamp from rfl, hsession]
    exact ConfigSession.action_eq_saved_iff core current inputs line timestamp
  · intro hexit
    rcases hout.of_exit hexit with ⟨-, -, hclean⟩ | ⟨hpending, hyes⟩
    · refine .inl ((ConfigSession.isDirty_eq_false_iff.mp hclean).trans ?_)
      rw [hsession]
      exact (Watched.baseline_run core current inputs).symm
    · rw [hsession] at hpending
      obtain ⟨before, prev, heq, hnone, hword, -⟩ := ConfigSession.pending_exitConfirm_iff.mp hpending
      rw [← Watched.session_run] at hnone
      exact .inr ⟨hyes, before, prev, heq, hnone, hword⟩
  · intro hne
    obtain ⟨hnone, key, value, hwords, happly⟩ := hout.of_working hne
    obtain ⟨hkey, hothers⟩ := applySet_spec happly
    exact ⟨hnone, key, value, hwords, happly, hkey, fun other _ hother => hothers other hother⟩

end SafeMode

end GolemKernel
