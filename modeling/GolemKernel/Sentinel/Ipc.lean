import GolemKernel.Sentinel.Channel
import GolemKernel.Text

/-!
# Registration over the Sentinel channel

The protocol part of `src/sentinel/ipc.rs`: the scanner that reads a registration request, the response that is built for it and its
serialization, and the round trip over the channel. A `&str` is a `Text`. A position `j` in the bytes of a text, which the scanner moves
forward, is the slice from `j` on.
-/

namespace GolemKernel

namespace Sentinel

namespace Ipc

open Text

inductive PermissionTier where
  | readOnly | write | execute
  deriving DecidableEq, Repr

def PermissionTier.asWire : PermissionTier → Text
  | readOnly => "READ_ONLY"
  | write => "WRITE"
  | execute => "EXECUTE"

def PermissionTier.fromWire (s : Text) : Option PermissionTier :=
  if s = "READ_ONLY".toList then some .readOnly
  else if s = "WRITE".toList then some .write
  else if s = "EXECUTE".toList then some .execute
  else none

def maxAgentId : Nat := 128

/-- `buf[pos..pos + bytes.len()].copy_from_slice(bytes)`. -/
def copyFromSlice {n : Nat} (buf : Vector UInt8 n) (pos : Nat) (bytes : List UInt8) : Vector UInt8 n :=
  Vector.ofFn fun i => if pos ≤ i then bytes[i.val - pos]?.getD (buf.get i) else buf.get i

/-- A text kept in the first `len` bytes of a fixed buffer. -/
def inlineText {n : Nat} (buf : Vector UInt8 n) (len : Nat) : Text := (fromUtf8 (buf.toList.take len)).getD ""

structure RegisterRequest where
  agentIdBuf : Vector UInt8 maxAgentId
  agentIdLen : Nat
  permissionTier : PermissionTier
  agentIdLen_le : agentIdLen ≤ maxAgentId

def RegisterRequest.agentId (req : RegisterRequest) : Text := inlineText req.agentIdBuf req.agentIdLen

structure RegisterResponse where
  success : Bool
  agentIdBuf : Vector UInt8 maxAgentId
  agentIdLen : Nat
  auditHashBuf : Vector UInt8 16
  timestampBuf : Vector UInt8 24
  timestampLen : Nat

def RegisterResponse.agentId (resp : RegisterResponse) : Text := inlineText resp.agentIdBuf resp.agentIdLen

def RegisterResponse.auditHash (resp : RegisterResponse) : Text := inlineText resp.auditHashBuf 16

def RegisterResponse.timestamp (resp : RegisterResponse) : Text := inlineText resp.timestampBuf resp.timestampLen

/-! ## Reading a request -/

/-- `u8::is_ascii_whitespace`. -/
def isAsciiWhitespace (b : UInt8) : Bool := b = 0x20 || b = 0x09 || b = 0x0A || b = 0x0C || b = 0x0D

/-- The bytes after the first occurrence of the needle. -/
def findNeedle (needle : List UInt8) : List UInt8 → Option (List UInt8)
  | [] => if needle.length > 0 then none else some []
  | b :: bytes =>
    if needle.length > (b :: bytes).length then none
    else if (b :: bytes).take needle.length = needle then some ((b :: bytes).drop needle.length)
    else findNeedle needle bytes

/-- The bytes after this one, if it is the next. -/
def expectByte (b : UInt8) : List UInt8 → Option (List UInt8)
  | [] => none
  | b' :: bytes => if b' = b then some bytes else none

/-- The bytes from the closing quote on. -/
def closingQuote : List UInt8 → Option (List UInt8)
  | [] => none
  | [b] => if b = '"'.toUInt8 then some [b] else none
  | b :: b' :: bytes =>
    -- the escaped byte is skipped, whatever it is
    if b = '\\'.toUInt8 then closingQuote bytes
    else if b = '"'.toUInt8 then some (b :: b' :: bytes)
    else closingQuote (b' :: bytes)

def jsonStringField (src key : Text) : Option Text := do
  let bytes := src.asBytes
  let needle := '"'.toUInt8 :: key.asBytes ++ ['"'.toUInt8]
  if needle.length > 64 then none
  else
    let start ← findNeedle needle bytes
    let j ← expectByte ':'.toUInt8 (start.dropWhile isAsciiWhitespace)
    let value ← expectByte '"'.toUInt8 (j.dropWhile isAsciiWhitespace)
    let stop ← closingQuote value
    src.get (bytes.length - value.length) (bytes.length - stop.length)

/-- `Option::ok_or`. -/
def okOr {α : Type} (o : Option α) (e : IpcError) : Except IpcError α := o.elim (.error e) .ok

/-- The request with this agent id in its buffer. -/
def registerRequest (agentId : Text) (permissionTier : PermissionTier) (h : agentId.len ≤ maxAgentId) : RegisterRequest where
  agentIdBuf := copyFromSlice (Vector.replicate maxAgentId 0) 0 agentId.asBytes
  agentIdLen := agentId.len
  permissionTier
  agentIdLen_le := h

def parseRegisterRequest (raw : List UInt8) : Except IpcError RegisterRequest := do
  let src ← okOr (fromUtf8 raw) .malformedRequest
  let method ← okOr (jsonStringField src "method") .malformedRequest
  if method ≠ "register".toList then .error .malformedRequest
  else
    let agentId ← okOr (jsonStringField src "agent_id") .malformedRequest
    if h : agentId.len > maxAgentId then .error .messageTooLarge
    else
      let tierStr ← okOr (jsonStringField src "permission_tier") .malformedRequest
      let permissionTier ← okOr (PermissionTier.fromWire tierStr) .malformedRequest
      .ok (registerRequest agentId permissionTier (Nat.not_lt.1 h))

/-! ## Writing -/

/-- `core::fmt::Write` over a fixed buffer. -/
structure FixedWriter (n : Nat) where
  buf : Vector UInt8 n
  pos : Nat
  overflow : Bool

namespace FixedWriter

variable {n : Nat}

def new (buf : Vector UInt8 n) : FixedWriter n where
  buf
  pos := 0
  overflow := false

/-- `write_str`; the flag tells whether it succeeded. -/
def writeStr (w : FixedWriter n) (s : Text) : Bool × FixedWriter n :=
  if w.pos + s.len > n then (false, { w with overflow := true })
  else (true, { w with buf := copyFromSlice w.buf w.pos s.asBytes, pos := w.pos + s.len })

/-- `write!`: the literal parts and the formatted arguments are written one after another, up to the first that fails. -/
def writeFmt (w : FixedWriter n) : List Text → Bool × FixedWriter n
  | [] => (true, w)
  | s :: parts =>
    match w.writeStr s with
    | (false, w) => (false, w)
    | (true, w) => w.writeFmt parts

end FixedWriter

/-- The parts that `serialize_response` formats. -/
def RegisterResponse.parts (resp : RegisterResponse) : List Text :=
  ["\x7b\"success\":".toList, ofBool resp.success, ",\"agent_id\":\"".toList, resp.agentId, "\",\"audit_hash\":\"".toList,
    resp.auditHash, "\",\"timestamp\":\"".toList, resp.timestamp, "\"\x7d".toList]

/-- The result, and the buffer after the call. -/
def serializeResponse {n : Nat} (resp : RegisterResponse) (out : Vector UInt8 n) : Except IpcError Nat × Vector UInt8 n :=
  let (ok, w) := (FixedWriter.new out).writeFmt resp.parts
  (if !ok || w.overflow then .error .messageTooLarge else .ok w.pos, w.buf)

/-! ## The audit hash -/

def fnvOffset : UInt64 := 0xcbf29ce484222325

def fnvPrime : UInt64 := 0x00000100000001b3

def fnv1a (bytes : List UInt8) : UInt64 := bytes.foldl (fun h b => (h ^^^ b.toUInt64) * fnvPrime) fnvOffset

def hexDigits : Vector UInt8 16 :=
  #v[0x30, 0x31, 0x32, 0x33, 0x34, 0x35, 0x36, 0x37, 0x38, 0x39, 0x61, 0x62, 0x63, 0x64, 0x65, 0x66]

def hex16 (value : UInt64) : Vector UInt8 16 :=
  Vector.ofFn fun i => hexDigits.get (Fin.ofNat 16 ((value >>> UInt64.ofNat ((15 - i) * 4)) &&& 0xf).toNat)

def auditHashFor (req : RegisterRequest) : Vector UInt8 16 :=
  hex16 (fnv1a (req.agentId.asBytes ++ req.permissionTier.asWire.asBytes))

/-! ## The response -/

/-- `Clock::now_string`, with the counter before and after the call. A part that does not fit is left out. -/
def nowString (counter : UInt64) : (Vector UInt8 24 × Nat) × UInt64 :=
  let (_, w) := (FixedWriter.new (Vector.replicate 24 0)).writeFmt ["mono+".toList, decimal counter.toNat]
  ((w.buf, w.pos), counter + 1)

def buildResponse (req : RegisterRequest) (counter : UInt64) : RegisterResponse × UInt64 :=
  let ((timestampBuf, timestampLen), counter) := nowString counter
  ({ success := true
     agentIdBuf := copyFromSlice (Vector.replicate maxAgentId 0) 0 req.agentId.asBytes
     agentIdLen := req.agentId.len
     auditHashBuf := auditHashFor req
     timestampBuf
     timestampLen }, counter)

def maxMessage : Nat := bufSize

/-- `handle_one` when a message is there, up to where it waits for the device: the result, and the channel and the counter after it. -/
def handleOne (c : Channel) (counter : UInt64) : Option (Except IpcError RegisterRequest × Channel × UInt64) := do
  let (n, reqBuf, c) ← c.readMessage (List.replicate maxMessage 0)
  match parseRegisterRequest (reqBuf.take n) with
  | .error e => return (.error e, c, counter)
  | .ok req =>
    let (resp, counter) := buildResponse req counter
    match serializeResponse resp (Vector.replicate maxMessage 0) with
    | (.error e, _) => return (.error e, c, counter)
    | (.ok m, respBuf) =>
      match c.sendMessage (respBuf.toList.take m) with
      | .error e => return (.error e, c, counter)
      | .ok c => return (.ok req, c, counter)

end Ipc

end Sentinel

end GolemKernel
