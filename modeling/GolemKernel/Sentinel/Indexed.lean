import GolemKernel.Lib.Slice
import GolemKernel.Sentinel.Ipc

/-!
# The channel's scanner and writer, index by index

The functions of `src/sentinel/ipc.rs` that move positions through a buffer by hand, with each index and each range of the source as
an access that is checked. A fault is where the kernel would panic. `str::get` does not panic: where it would give nothing because an
end of the range is inside a character, a fault is recorded here.
-/

namespace GolemKernel

namespace Sentinel

namespace Ipc

namespace Indexed

open Text

/-! ## Reading a request -/

/-- The needle: the key between quotes, in an array of 64 bytes. -/
def needleFor (key : Text) : Except Slice.Fault (List UInt8) := do
  let needle ← Slice.set (List.replicate 64 0) 0 '"'.toUInt8
  let needle ← Slice.copy needle 1 (1 + key.len) key.asBytes
  let needle ← Slice.set needle (1 + key.len) '"'.toUInt8
  Slice.range needle 0 (key.len + 2)

/-- The loop that looks for the needle from `i` on: the position after it. -/
def findNeedle (bytes needle : List UInt8) (i : Nat) : Except Slice.Fault (Option Nat) :=
  if i + needle.length > bytes.length then .ok none
  else do
    let window ← Slice.range bytes i (i + needle.length)
    if window = needle then .ok (some (i + needle.length)) else findNeedle bytes needle (i + 1)
termination_by bytes.length + 1 - i

/-- The two loops that skip whitespace. -/
def skipWhitespace (bytes : List UInt8) (j : Nat) : Except Slice.Fault Nat :=
  if j < bytes.length then do
    let b ← Slice.get bytes j
    if isAsciiWhitespace b then skipWhitespace bytes (j + 1) else .ok j
  else .ok j
termination_by bytes.length - j

/-- `j >= bytes.len() || bytes[j] != b`. -/
def absent (bytes : List UInt8) (j : Nat) (b : UInt8) : Except Slice.Fault Bool :=
  if j ≥ bytes.length then .ok true
  else do
    let b' ← Slice.get bytes j
    .ok (b' ≠ b)

/-- `src.get(start..stop)`. -/
def getText (src : Text) (start stop : Nat) : Except Slice.Fault (Option Text) :=
  match src.get start stop with
  | some s => .ok (some s)
  | none => .error .character

/-- The loop that scans to the closing quote, for a value that starts at `start`. -/
def closingQuote (src : Text) (bytes : List UInt8) (start j : Nat) : Except Slice.Fault (Option Text) :=
  if j < bytes.length then do
    let b ← Slice.get bytes j
    if b = '\\'.toUInt8 then closingQuote src bytes start (j + 2)
    else if b = '"'.toUInt8 then getText src start j
    else closingQuote src bytes start (j + 1)
  else .ok none
termination_by bytes.length - j

def jsonStringField (src key : Text) : Except Slice.Fault (Option Text) :=
  let bytes := src.asBytes
  if key.len + 2 > 64 then .ok none
  else do
    let needle ← needleFor key
    match ← findNeedle bytes needle 0 with
    | none => .ok none
    | some start =>
      let j ← skipWhitespace bytes start
      if ← absent bytes j ':'.toUInt8 then .ok none
      else
        let j ← skipWhitespace bytes (j + 1)
        if ← absent bytes j '"'.toUInt8 then .ok none
        else closingQuote src bytes (j + 1) (j + 1)

/-- `buf[..agent_id.len()].copy_from_slice(agent_id.as_bytes())`. -/
def agentIdBuf (agentId : Text) : Except Slice.Fault (List UInt8) :=
  Slice.copy (List.replicate maxAgentId 0) 0 agentId.len agentId.asBytes

/-- The fields of the request: the buffer, the length and the tier. -/
def parseRegisterRequest (raw : List UInt8) : Except Slice.Fault (Except IpcError (List UInt8 × Nat × PermissionTier)) :=
  match fromUtf8 raw with
  | none => .ok (.error .malformedRequest)
  | some src => do
    match ← jsonStringField src "method" with
    | none => .ok (.error .malformedRequest)
    | some method =>
      if method ≠ "register".toList then .ok (.error .malformedRequest)
      else
        match ← jsonStringField src "agent_id" with
        | none => .ok (.error .malformedRequest)
        | some agentId =>
          if agentId.len > maxAgentId then .ok (.error .messageTooLarge)
          else
            match ← jsonStringField src "permission_tier" with
            | none => .ok (.error .malformedRequest)
            | some tierStr =>
              match PermissionTier.fromWire tierStr with
              | none => .ok (.error .malformedRequest)
              | some permissionTier =>
                let buf ← agentIdBuf agentId
                .ok (.ok (buf, agentId.len, permissionTier))

/-- The text that `agent_id()` takes out of the buffer; a buffer that is no UTF-8 would give the empty text. -/
def agentId (buf : List UInt8) (len : Nat) : Except Slice.Fault Text := do
  let bytes ← Slice.range buf 0 len
  .ok ((fromUtf8 bytes).getD "")

/-! ## Writing -/

/-- A `FixedWriter` over a slice. -/
structure Writer where
  buf : List UInt8
  pos : Nat
  overflow : Bool

/-- `write_str`. -/
def writeStr (w : Writer) (s : Text) : Except Slice.Fault (Bool × Writer) :=
  if w.pos + s.len > w.buf.length then .ok (false, { w with overflow := true })
  else do
    let buf ← Slice.copy w.buf w.pos (w.pos + s.len) s.asBytes
    .ok (true, { w with buf, pos := w.pos + s.len })

/-- `write!`. -/
def writeFmt (w : Writer) : List Text → Except Slice.Fault (Bool × Writer)
  | [] => .ok (true, w)
  | s :: parts => do
    let (ok, w) ← writeStr w s
    if ok then writeFmt w parts else .ok (false, w)

def serializeResponse (resp : RegisterResponse) (out : List UInt8) : Except Slice.Fault (Except IpcError Nat × List UInt8) := do
  let (ok, w) ← writeFmt ⟨out, 0, false⟩ resp.parts
  .ok (if !ok || w.overflow then .error .messageTooLarge else .ok w.pos, w.buf)

end Indexed

end Ipc

end Sentinel

end GolemKernel
