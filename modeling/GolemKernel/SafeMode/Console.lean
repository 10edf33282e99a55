import GolemKernel.SafeMode.Session

/-!
# The Safe Mode console

`run_safe_mode_console` of `src/safemode/sentinel_config.rs`: the loop that reads bytes from the serial port, makes lines of them and
feeds these to a session. The bytes that arrive are a list; what the loop does to the port and to the migration page is the list of its
effects, in order. The static counter of `monotonic_now` is passed along.
-/

namespace GolemKernel

namespace SafeMode

open Text Sentinel

inductive SafeModeOutcome where
  | exitedWithSave
  | exitedWithoutSave
  deriving DecidableEq, Repr

/-- What the console does: bytes sent to the serial port, and a buffer written to the migration page. -/
inductive ConsoleEffect where
  | serial (bytes : List UInt8)
  | page (buffer : MigrationBuffer)

/-- `serial::write_str`. -/
def writeStr (s : Text) : ConsoleEffect := .serial s.asBytes

/-- `monotonic_now`: the counter, and the counter after the call. -/
def monotonicNow (counter : UInt64) : UInt64 × UInt64 := (counter, counter + 1)

/-- `char::is_control`. -/
def isControl (c : Char) : Bool := c.toNat < 0x20 || (0x7f ≤ c.toNat && c.toNat ≤ 0x9f)

/-- `char::from_u32` on a byte, which is always a character. -/
def charOfByte (byte : UInt8) : Char := Char.ofNat byte.toNat

/-- How a session that has ended is reported. -/
def ConfigSession.outcome (s : ConfigSession) : SafeModeOutcome := if s.committed then .exitedWithSave else .exitedWithoutSave

/-- The loop: what it does and what the console returns, as far as the bytes go. `none`: it still waits for a byte. -/
def consoleLoop (core : FloatText) (session : ConfigSession) (line : Text) (counter : UInt64) :
    List UInt8 → List ConsoleEffect × Option SafeModeOutcome
  | [] => ([], none)
  | ch :: input =>
    if ch = 13 ∨ ch = 10 then
      let (ts, counter) := monotonicNow counter
      let (resp, session) := session.handleLine core line ts
      let effects := [writeStr "\n", writeStr resp.text] ++ resp.buffer.toList.map .page
      if resp.action = .exit then (effects, some session.outcome)
      else
        let (later, outcome) := consoleLoop core session [] counter input
        (effects ++ writeStr "\n> " :: later, outcome)
    else if ch = 0x08 ∨ ch = 0x7f then
      let (later, outcome) := consoleLoop core session line.dropLast counter input
      (if line.isEmpty then later else writeStr "\x08 \x08" :: later, outcome)
    else if isControl (charOfByte ch) then consoleLoop core session line counter input
    else
      let (later, outcome) := consoleLoop core session (line ++ [charOfByte ch]) counter input
      (.serial [ch] :: later, outcome)

def runSafeModeConsole (core : FloatText) (current : Thresholds) (counter : UInt64) (input : List UInt8) :
    List ConsoleEffect × Option SafeModeOutcome :=
  let (effects, outcome) := consoleLoop core (.new current) [] counter input
  ([writeStr "\n=== Golem Linux Safe Mode — Sentinel configuration ===\n", writeStr renderHelp, writeStr "\n> "] ++ effects, outcome)

end SafeMode

end GolemKernel
