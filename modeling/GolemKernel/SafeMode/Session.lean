import GolemKernel.SafeMode.MigrationBuffer

/-!
# The configuration session

The second half of `src/safemode/sentinel_config.rs`: the rules for a configuration, and the session that is driven by the lines an
operator types. How `core` reads and prints an `f32` is a parameter.
-/

namespace GolemKernel

namespace SafeMode

open Text Sentinel

/-- `core`'s floats as text: `f32::from_str`, and `{}`. -/
structure FloatText where
  parse : Text → Option F32
  display : F32 → Text

/-- A reading of floats that refuses every text. -/
def noFloats : FloatText := ⟨fun _ => none, fun _ => []⟩

/-! ## Rules -/

/-- `VALID_KEYS`. -/
def validKeys : List Text :=
  ["repetition", "self_referential", "token_velocity", "tool_retry", "soft", "medium", "hard", "window"].map String.toList

/-- `MAX_WINDOW`. -/
def maxWindow : Nat := 4096

/-- `!v.is_finite() || v < 0.0 || v > 1.0`. -/
def outOfRange (v : F32) : Bool := !v.isFinite || v.lt .zero || F32.one.lt v

/-- The field of a threshold other than `window` that a key of `set` names, as the store to it. -/
def thresholdStore (key : Text) : Option (F32 → Thresholds → Thresholds) :=
  if key = "repetition" then some fun v t => { t with repetition := v }
  else if key = "self_referential" then some fun v t => { t with selfReferential := v }
  else if key = "token_velocity" then some fun v t => { t with tokenVelocity := v }
  else if key = "tool_retry" then some fun v t => { t with toolRetry := v }
  else if key = "soft" then some fun v t => { t with soft := v }
  else if key = "medium" then some fun v t => { t with medium := v }
  else if key = "hard" then some fun v t => { t with hard := v }
  else none

section

variable (core : FloatText)

/-- `apply_set`. -/
def applySet (base : Thresholds) (key raw : Text) : Except Text Thresholds :=
  if key = "window" then
    match parseU32 raw with
    | none => .error ("'" ++ raw ++ "' is not a whole number")
    | some w =>
      if w.toNat < 1 ∨ maxWindow < w.toNat then
        .error ("window must be in 1..=" ++ decimal maxWindow ++ ", got " ++ decimal w.toNat)
      else .ok { base with window := w.toNat }
  else
    match thresholdStore key with
    | some store =>
      match core.parse raw with
      | none => .error ("'" ++ raw ++ "' is not a number")
      | some v => if outOfRange v then .error (key ++ " must be in 0.0..=1.0, got " ++ raw) else .ok (store v base)
    | none => .error ("unknown key '" ++ key ++ "'. valid keys: " ++ List.intercalate ", " validKeys)

/-- `validate_config`. -/
def validateConfig (t : Thresholds) : Except Text Unit :=
  if !(t.soft.le t.medium && t.medium.le t.hard) then
    .error ("control thresholds must satisfy soft <= medium <= hard (got soft=" ++ core.display t.soft ++ ", medium=" ++
      core.display t.medium ++ ", hard=" ++ core.display t.hard ++ ")")
  else if t.window < 1 ∨ maxWindow < t.window then
    .error ("window must be in 1..=" ++ decimal maxWindow ++ ", got " ++ decimal t.window)
  else
    let fields := [("repetition", t.repetition), ("self_referential", t.selfReferential), ("token_velocity", t.tokenVelocity),
      ("tool_retry", t.toolRetry), ("soft", t.soft), ("medium", t.medium), ("hard", t.hard)]
    match fields.find? fun (_, v) => outOfRange v with
    | some (name, v) => .error (name ++ " out of range 0.0..=1.0: " ++ core.display v)
    | none => .ok ()

end

/-- `thresholds_differ`. -/
def thresholdsDiffer (a b : Thresholds) : Bool :=
  a.repetition.bits != b.repetition.bits || a.selfReferential.bits != b.selfReferential.bits ||
    a.tokenVelocity.bits != b.tokenVelocity.bits || a.toolRetry.bits != b.toolRetry.bits || a.soft.bits != b.soft.bits ||
    a.medium.bits != b.medium.bits || a.hard.bits != b.hard.bits || a.window != b.window

/-! ## The session -/

inductive SessionAction where
  | cont
  | saved
  | exit
  deriving DecidableEq, Repr

structure Response where
  text : Text
  action : SessionAction
  buffer : Option MigrationBuffer

/-- `Response::cont`. -/
def Response.cont (text : Text) : Response := ⟨text, .cont, none⟩

inductive Pending where
  | none
  | saveConfirm
  | exitConfirm
  deriving DecidableEq, Repr

structure ConfigSession where
  original : Thresholds
  working : Thresholds
  pending : Pending
  committed : Bool

/-- `exit_text`. -/
def exitText (committed : Bool) : Text :=
  if committed then "exiting Safe Mode. the saved config will be migrated on the next main-OS boot.\n"
  else "exiting Safe Mode. no config was saved; the main OS will boot with its existing thresholds.\n"

/-- `render_help`. -/
def renderHelp : Text :=
  "Safe Mode — Sentinel configuration\n" ++
  "commands:\n" ++
  "  show                 show current working config\n" ++
  "  set <key> <value>    change one value (validated)\n" ++
  "  save                 seal config to the migration buffer (confirm)\n" ++
  "  exit                 leave Safe Mode (migration on next boot)\n" ++
  "  help                 this message\n" ++
  "keys: " ++ List.intercalate ", " validKeys ++ "\n" ++
  "  signal/control thresholds: 0.0..=1.0   window: 1..=4096\n"

namespace ConfigSession

def new (current : Thresholds) : ConfigSession := ⟨current, current, .none, false⟩

def isDirty (s : ConfigSession) : Bool := thresholdsDiffer s.working s.original

def changedFieldCount (s : ConfigSession) : Nat :=
  let o := s.original
  let w := s.working
  (w.repetition.bits != o.repetition.bits).toNat + (w.selfReferential.bits != o.selfReferential.bits).toNat +
    (w.tokenVelocity.bits != o.tokenVelocity.bits).toNat + (w.toolRetry.bits != o.toolRetry.bits).toNat +
    (w.soft.bits != o.soft.bits).toNat + (w.medium.bits != o.medium.bits).toNat + (w.hard.bits != o.hard.bits).toNat +
    (w.window != o.window).toNat

section

variable (core : FloatText)

/-- One line of `render_show`. -/
def showField (label value : Text) (changed : Bool) : Text := label ++ value ++ (if changed then " *" else "") ++ "\n"

def renderShow (s : ConfigSession) : Text :=
  let w := s.working
  let o := s.original
  let float (label : String) (v v' : F32) := showField label (core.display v) (v.bits != v'.bits)
  "current Safe Mode configuration ('*' = unsaved change):\n" ++
  "  signal thresholds:\n" ++
  float "    repetition         = " w.repetition o.repetition ++
  float "    self_referential   = " w.selfReferential o.selfReferential ++
  float "    token_velocity     = " w.tokenVelocity o.tokenVelocity ++
  float "    tool_retry         = " w.toolRetry o.toolRetry ++
  "  control thresholds:\n" ++
  float "    soft               = " w.soft o.soft ++
  float "    medium             = " w.medium o.medium ++
  float "    hard               = " w.hard o.hard ++
  "  window:\n" ++
  showField "    window             = " (decimal w.window) (w.window != o.window) ++
  "  status: " ++ (if s.isDirty then "MODIFIED (unsaved)" else "clean") ++ "\n"

def cmdSet (s : ConfigSession) (key value : Option Text) (extra : Bool) : Response × ConfigSession :=
  match key, value with
  | some key, some value =>
    if extra then (.cont "usage: set <key> <value>   (one value only)\n", s)
    else
      match applySet core s.working key value with
      | .ok updated =>
        let s := { s with working := updated }
        (.cont ("ok: " ++ key ++ " = " ++ value ++ "   (" ++ decimal s.changedFieldCount ++ " unsaved change(s))\n"), s)
      | .error e => (.cont ("rejected: " ++ e ++ "\n"), s)
  | _, _ => (.cont "usage: set <key> <value>   (try 'help' for valid keys)\n", s)

def cmdSave (s : ConfigSession) : Response × ConfigSession :=
  if !s.isDirty then (.cont "nothing to save: working config matches the loaded config.\n", s)
  else
    match validateConfig core s.working with
    | .error e => (.cont ("cannot save: " ++ e ++ "\nfix the value(s) with 'set' and try again.\n"), s)
    | .ok () =>
      (.cont ("ABOUT TO SAVE " ++ decimal s.changedFieldCount ++ " change(s) to the migration buffer at " ++
        hexAlternate migrationBufferAddr ++ ".\nThis is IRREVERSIBLE and takes effect on the next main-OS boot.\n" ++
        "Type 'yes' to confirm, anything else to cancel.\n"), { s with pending := .saveConfirm })

def resolveSaveConfirm (s : ConfigSession) (line : Text) (timestamp : UInt64) : Response × ConfigSession :=
  let s := { s with pending := .none }
  if line ≠ "yes" then (.cont "save cancelled. no changes written.\n", s)
  else
    match validateConfig core s.working with
    | .error e => (.cont ("save aborted: " ++ e ++ "\n"), s)
    | .ok () =>
      let dirty := s.isDirty
      let buf := MigrationBuffer.sealedFromThresholds s.working dirty timestamp
      let text :=
        "saved. migration buffer sealed:\n" ++
        "  address    : " ++ hexAlternate migrationBufferAddr ++ "\n" ++
        "  magic      : 0x" ++ hexPadded 16 migrationMagic.toNat ++ "\n" ++
        "  version    : " ++ decimal migrationVersion.toNat ++ "\n" ++
        "  dirty      : " ++ ofBool dirty ++ "\n" ++
        "  timestamp  : " ++ decimal timestamp.toNat ++ "\n" ++
        "  checksum   : " ++ bytesToHex buf.checksum.toList ++ "\n" ++
        "migration will apply this config on the next main-OS boot.\n"
      (⟨text, .saved, some buf⟩, { s with original := s.working, committed := true })

end

def cmdExit (s : ConfigSession) : Response × ConfigSession :=
  if s.isDirty then
    (.cont ("you have UNSAVED changes that will be lost on exit.\n" ++
      "type 'yes' to exit anyway, or anything else to stay and 'save' first.\n"), { s with pending := .exitConfirm })
  else (⟨exitText s.committed, .exit, none⟩, s)

def resolveExitConfirm (s : ConfigSession) (line : Text) : Response × ConfigSession :=
  let s := { s with pending := .none }
  if line ≠ "yes" then (.cont "staying in Safe Mode. unsaved changes kept.\n", s)
  else (⟨exitText s.committed, .exit, none⟩, s)

/-- `handle_line` with no confirmation pending, on a line that is trimmed. -/
def command (core : FloatText) (s : ConfigSession) (line : Text) : Response × ConfigSession :=
  if line.isEmpty then (.cont [], s)
  else
    let parts := splitWhitespace line
    let cmd := parts.headD []
    if cmd = "show" then (.cont (s.renderShow core), s)
    else if cmd = "help" then (.cont renderHelp, s)
    else if cmd = "set" then s.cmdSet core (parts[1]?.map toAsciiLowercase) parts[2]? parts[3]?.isSome
    else if cmd = "save" then s.cmdSave core
    else if cmd = "exit" ∨ cmd = "quit" then s.cmdExit
    else (.cont ("unknown command '" ++ cmd ++ "'. type 'help' for the command list.\n"), s)

def handleLine (core : FloatText) (s : ConfigSession) (line : Text) (timestamp : UInt64) : Response × ConfigSession :=
  let line := trim line
  match s.pending with
  | .saveConfirm => s.resolveSaveConfirm core line timestamp
  | .exitConfirm => s.resolveExitConfirm line
  | .none => s.command core line

end ConfigSession

end SafeMode

end GolemKernel
