import GolemKernel.Sentinel.Ipc
import GolemKernel.Lib.Json

/-!
# The demo agent

The other end of the channel as `examples/golem_agent.py` has it: the lines `send_json` writes and what `recv_json` makes of the bytes
that come back. `json.dumps` writes all but printable ASCII as escapes, with a space after each separator. `json.loads` is a parameter.
-/

namespace GolemKernel

namespace Sentinel

namespace Ipc

open Text Json

/-! ## Sending -/

/-- A digit of `'{0:04x}'`. -/
def hexDigit (n : Nat) : { c : Char // HexDigit c } where
  val := Nat.digitChar (n % 16)
  property := by
    have hdigits : ∀ d : Fin 16, HexDigit (Nat.digitChar d) := by decide
    exact hdigits ⟨n % 16, Nat.mod_lt n (by decide)⟩

def unicodeEscape (u : UInt16) : Piece :=
  .unicode (hexDigit (u.toNat / 4096)) (hexDigit (u.toNat / 256)) (hexDigit (u.toNat / 16)) (hexDigit u.toNat)

/-- `ESCAPE_DCT` and `replace` of Python's JSON encoder. -/
def escapeChar (c : Char) : Str :=
  if hquote : c = '"' then [.escape .quotationMark]
  else if hescape : c = '\\' then [.escape .reverseSolidus]
  else if c = '\n' then [.escape .lineFeed]
  else if c = '\r' then [.escape .carriageReturn]
  else if c = '\t' then [.escape .tab]
  else if c = '\x0c' then [.escape .formFeed]
  else if c = '\x08' then [.escape .backspace]
  else if hplain : 0x20 ≤ c.toNat ∧ c.toNat ≤ 0x7e then [.unescaped c ⟨hplain.1, hquote, hescape⟩]
  else (utf16 c).map unicodeEscape

/-- What stands between the quotes when a string is dumped. -/
def dumpsStr (t : Text) : Str := t.flatMap escapeChar

def dumpsString (t : Text) : Text := '"' :: ((dumpsStr t).text ++ ['"'])

def dumpsInt (n : Int) : Text := (if n < 0 then ['-'] else []) ++ decimal n.natAbs

/-- What the agent sends: its registration, and its outputs. A tool call is a tool with a path. -/
inductive AgentMessage where
  | register (agentId : Text) (tier : PermissionTier) (heartbeat : Int)
  | observe (agentId token output outputHash : Text) (tokenCount : Nat) (announcedWithoutAction : Bool) (toolCall : Option (Text × Text))
      (taskStateAdvanced : Bool)

def dumpsToolCall : Option (Text × Text) → Text
  | none => "null".toList
  | some (tool, path) =>
    "\x7b\"tool\": ".toList ++ dumpsString tool ++ ", \"args\": \x7b\"path\": ".toList ++ dumpsString path ++ "\x7d\x7d".toList

def AgentMessage.dumps : AgentMessage → Text
  | register agentId tier heartbeat =>
    "\x7b\"method\": \"register\", \"agent_id\": ".toList ++ dumpsString agentId ++ ", \"permission_tier\": ".toList ++
      dumpsString tier.asWire ++ ", \"heartbeat_interval_secs\": ".toList ++ dumpsInt heartbeat ++ "\x7d".toList
  | observe agentId token output outputHash tokenCount announcedWithoutAction toolCall taskStateAdvanced =>
    "\x7b\"method\": \"observe\", \"agent_id\": ".toList ++ dumpsString agentId ++ ", \"token\": ".toList ++ dumpsString token ++
      ", \"output\": ".toList ++ dumpsString output ++ ", \"output_hash\": ".toList ++ dumpsString outputHash ++
      ", \"token_count\": ".toList ++ decimal tokenCount ++ ", \"announced_without_action\": ".toList ++
      ofBool announcedWithoutAction ++ ", \"tool_call\": ".toList ++ dumpsToolCall toolCall ++ ", \"task_state_advanced\": ".toList ++
      ofBool taskStateAdvanced ++ "\x7d".toList

/-- `send_json`. -/
def AgentMessage.wire (m : AgentMessage) : List UInt8 := asBytes (m.dumps ++ ['\n'])

/-! ## Receiving -/

/-- What `recv` of the socket does: bytes arrive, or none do in time, or the other side has closed it. -/
inductive Recv where
  | chunk (bytes : List UInt8)
  | silence
  | closed

def newline : UInt8 := 0x0A

/-- `bytes.strip`. -/
def stripBytes (line : List UInt8) : List UInt8 :=
  let isSpace (b : UInt8) : Bool := b = 0x20 || (0x09 ≤ b && b ≤ 0x0D)
  ((line.dropWhile isSpace).reverse.dropWhile isSpace).reverse

/-- The loop of `recv_json`: whether there is a line in `_buf`, with `_buf` and what the socket does after it. -/
def fillBuf (buf : List UInt8) : List Recv → Bool × List UInt8 × List Recv
  | [] => (newline ∈ buf, buf, [])
  | r :: recvs =>
    if newline ∈ buf then (true, buf, r :: recvs)
    else
      match r with
      | .silence | .closed => (false, buf, recvs)
      | .chunk bytes => fillBuf (buf ++ bytes) recvs

/-- `recv_json`: the object, if there is one, with `_buf` and what the socket does after the call. -/
def recvJson {α : Type} (loads : List UInt8 → Option α) (buf : List UInt8) (recvs : List Recv) : Option α × List UInt8 × List Recv :=
  match fillBuf buf recvs with
  | (false, buf, recvs) => (none, buf, recvs)
  | (true, buf, recvs) =>
    let line := stripBytes (buf.takeWhile (· ≠ newline))
    (if line = [] then none else loads line, (buf.dropWhile (· ≠ newline)).tail, recvs)

/-- Calls of `recv_json` one after another. -/
def recvCalls {α : Type} (loads : List UInt8 → Option α) : Nat → List UInt8 → List Recv → List (Option α)
  | 0, _, _ => []
  | n + 1, buf, recvs =>
    let (obj, buf, recvs) := recvJson loads buf recvs
    obj :: recvCalls loads n buf recvs

/-- The bytes that arrive. -/
def arrived : List Recv → List UInt8
  | [] => []
  | .chunk bytes :: recvs => bytes ++ arrived recvs
  | .silence :: recvs | .closed :: recvs => arrived recvs

end Ipc

end Sentinel

end GolemKernel
