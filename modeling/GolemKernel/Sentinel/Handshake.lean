import GolemKernel.Basic

/-!
# The registry of agents

`src/sentinel/handshake.rs`: the records of the agents that completed the handshake. Every method takes the lock of the map for its
whole body, so a method is a function from the registry to an answer and a registry.
-/

namespace GolemKernel

namespace Sentinel

inductive PermissionTier where
  | readOnly | write | execute
  deriving DecidableEq, Repr

structure HandshakeRequest where
  agentId : String
  tier : PermissionTier
  heartbeatIntervalSecs : Nat
  deriving DecidableEq, Repr

inductive HandshakeError where
  | alreadyRegistered | emptyAgentId | agentIdTooLong | heartbeatOutOfRange
  deriving DecidableEq, Repr

def maxAgentIdLen : Nat := 128

def minHeartbeatSecs : Nat := 1

def maxHeartbeatSecs : Nat := 3600

structure AgentRecord where
  agentId : String
  tier : PermissionTier
  originalTier : PermissionTier
  heartbeatIntervalSecs : Nat
  registeredAt : Nat
  lastHeartbeat : Nat
  locked : Bool
  deriving DecidableEq, Repr

structure Registry where
  inner : BTreeMap String AgentRecord

def validate (req : HandshakeRequest) : Except HandshakeError Unit :=
  if req.agentId.isEmpty then .error .emptyAgentId
  else if req.agentId.utf8ByteSize > maxAgentIdLen then .error .agentIdTooLong
  else if req.heartbeatIntervalSecs < minHeartbeatSecs ∨ req.heartbeatIntervalSecs > maxHeartbeatSecs then
    .error .heartbeatOutOfRange
  else .ok ()

def clampHeartbeat (secs : Nat) : Nat := min (max secs minHeartbeatSecs) maxHeartbeatSecs

/-- The record `register` makes. -/
def HandshakeRequest.record (req : HandshakeRequest) (now : Nat) : AgentRecord where
  agentId := req.agentId
  tier := req.tier
  originalTier := req.tier
  heartbeatIntervalSecs := clampHeartbeat req.heartbeatIntervalSecs
  registeredAt := now
  lastHeartbeat := now
  locked := false

namespace Registry

def new : Registry := ⟨∅⟩

def get (r : Registry) (agentId : String) : Option AgentRecord := r.inner[agentId]?

def register (r : Registry) (req : HandshakeRequest) (now : Nat) : Except HandshakeError AgentRecord × Registry :=
  match validate req with
  | .error e => (.error e, r)
  | .ok () =>
    if req.agentId ∈ r.inner then (.error .alreadyRegistered, r)
    else (.ok (req.record now), ⟨r.inner.insert req.agentId (req.record now)⟩)

/-- `if let Some(rec) = g.get_mut(agent_id)`, with what is done to the record: the record before, and the registry after. -/
def update (r : Registry) (agentId : String) (f : AgentRecord → AgentRecord) : Option AgentRecord × Registry :=
  (r.inner[agentId]?, ⟨r.inner.modify agentId f⟩)

def heartbeat (r : Registry) (agentId : String) (now : Nat) : Bool × Registry :=
  let (rec, r') := r.update agentId fun rec => { rec with lastHeartbeat := now }
  (rec.isSome, r')

def setTier (r : Registry) (agentId : String) (tier : PermissionTier) : Option PermissionTier × Registry :=
  let (rec, r') := r.update agentId fun rec => { rec with tier }
  (rec.map (·.tier), r')

def lock (r : Registry) (agentId : String) : Bool × Registry :=
  let (rec, r') := r.update agentId fun rec => { rec with locked := true, tier := .readOnly }
  (rec.isSome, r')

def deregister (r : Registry) (agentId : String) : Bool × Registry :=
  (r.inner[agentId]?.isSome, ⟨r.inner.erase agentId⟩)

/-- The operations on the registry, with their arguments. -/
inductive Op where
  | register (req : HandshakeRequest) (now : Nat)
  | heartbeat (agentId : String) (now : Nat)
  | setTier (agentId : String) (tier : PermissionTier)
  | lock (agentId : String)
  | deregister (agentId : String)
  | get (agentId : String)
  deriving DecidableEq, Repr

/-- The registry after an operation. -/
def step (r : Registry) : Op → Registry
  | .register req now => (r.register req now).2
  | .heartbeat agentId now => (r.heartbeat agentId now).2
  | .setTier agentId tier => (r.setTier agentId tier).2
  | .lock agentId => (r.lock agentId).2
  | .deregister agentId => (r.deregister agentId).2
  | .get _ => r

/-- The registry after a sequence of operations, from an empty one. -/
def run (ops : List Op) : Registry := ops.foldl step new

end Registry

end Sentinel

end GolemKernel
