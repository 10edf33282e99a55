import GolemKernel.Sentinel.Shared

/-!
# The invisibility boundary

`src/sentinel/invisible.rs`. `gate` classifies the caller of an operation; a denied agent is told that there is no such subsystem, and the
attempt is recorded in the audit trail. `SAFE_MODE_ACTIVE` is fixed when a kernel is built, so it is a parameter here.

The header of the file says that every public method of the Sentinel goes through `gate`. None of them does: nothing but its own tests calls
`gate`, and the methods of `Sentinel.Shared` are made without it.
-/

namespace GolemKernel

namespace Sentinel

open Text Concurrent

inductive CallerContext where
  | agent | operator | safeMode | kernel
  deriving DecidableEq, Repr

inductive Operation where
  | handshake | monitor | readStatus | readAudit | configure | verifyAudit
  deriving DecidableEq, Repr

inductive InvisibleError where
  | notPresent
  | forbidden (op : Text)
  deriving DecidableEq, Repr

def InvisibleError.toErrno : InvisibleError → Int64
  | notPresent => 38
  | forbidden _ => 1

def isAuthorized (safeModeActive : Bool) : CallerContext → Operation → Bool
  | .agent, .handshake | .operator, .handshake => true
  | .safeMode, .handshake => false
  | .kernel, .handshake => true
  | .kernel, .monitor => true
  | _, .monitor => false
  | .operator, .readStatus | .kernel, .readStatus | .safeMode, .readStatus => true
  | .agent, .readStatus => false
  | .safeMode, .readAudit => safeModeActive
  | _, .readAudit => false
  | .safeMode, .configure => safeModeActive
  | _, .configure => false
  | .kernel, .verifyAudit | .safeMode, .verifyAudit => true
  | _, .verifyAudit => false

def opName : Operation → Text
  | .handshake => "handshake"
  | .monitor => "monitor"
  | .readStatus => "read_status"
  | .readAudit => "read_audit"
  | .configure => "configure"
  | .verifyAudit => "verify_audit"

/-- `gate`; `audit` says whether the caller passes the trail. -/
def gate (safeModeActive : Bool) (ctx : CallerContext) (op : Operation) (actorId : Text) (timestamp : UInt64) (audit : Bool) :
    SharedM (Except InvisibleError Unit) :=
  if isAuthorized safeModeActive ctx op then .ret (.ok ())
  else if ctx = .agent then
    if audit then .call (.record timestamp actorId "invisible_probe" (opName op)) fun _ => .ret (.error .notPresent)
    else .ret (.error .notPresent)
  else .ret (.error (.forbidden (opName op)))

end Sentinel

end GolemKernel
