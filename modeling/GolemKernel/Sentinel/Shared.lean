import GolemKernel.Lib.SpinLock
import GolemKernel.Sentinel.Handshake
import GolemKernel.Sentinel.Monitor

/-!
# The shared state of the Sentinel, access by access

The values of the Sentinel that threads share are behind the `SpinLock` of `src/sentinel/mod.rs`: the audit trail behind one, the
monitor behind two, one for its configuration and one for its buffers, and a registry behind one. The methods of `src/sentinel/audit.rs`,
`monitor.rs` and `handshake.rs` take a lock, make their accesses to the value and drop the guard. `observe` and `record_signal` of the
monitor copy the configuration under the one lock and go on under the other, so each is two methods here (`Monitor.observeProgram`,
`Monitor.recordSignalProgram`).

An access reads or writes one field, one element, or one entry of a map. A configuration is copied field by field.
-/

namespace GolemKernel

namespace Sentinel

open Text Concurrent

inductive Lock where
  | audit | cfg | state | registry
  deriving DecidableEq, Repr

/-! ## The audit trail -/

/-- The accesses to `AuditInner`. -/
inductive AuditAccess where
  | sequence
  | setSequence (n : UInt64)
  | lastHash
  | setLastHash (hash : Text)
  | push (entry : AuditEntry)
  | len
  | entry (i : Nat)

@[reducible] def AuditAccess.Result : AuditAccess → Type
  | sequence => UInt64
  | lastHash => Text
  | len => Nat
  | entry _ => AuditEntry
  | setSequence _ | setLastHash _ | push _ => Unit

/-- `none`: the index is out of bounds. -/
def AuditTrail.access : (a : AuditAccess) → AuditTrail → Option (a.Result × AuditTrail)
  | .sequence, t => some (t.sequence, t)
  | .setSequence n, t => some ((), { t with sequence := n })
  | .lastHash, t => some (t.lastHash, t)
  | .setLastHash hash, t => some ((), { t with lastHash := hash })
  | .push entry, t => some ((), { t with entries := t.entries ++ [entry] })
  | .len, t => some (t.entries.length, t)
  | .entry i, t => t.entries[i]?.map (·, t)

namespace AuditTrail

abbrev Body (α : Type) : Type := Prog AuditAccess AuditAccess.Result α

/-- The end of `record`, from the hash of the previous entry on. -/
def recordAfter (timestamp : UInt64) (actor action target : Text) (seq : UInt64) (prev : Text) : Body Text :=
  let payload := decimal seq.toNat ++ "|" ++ decimal timestamp.toNat ++ "|" ++ actor ++ "|" ++ action ++ "|" ++ target ++ "|" ++
    prev
  let hash := sha256Hex payload.asBytes
  .call (.push { sequence := seq, timestamp, actor, action, target, hash, prevHash := prev }) fun _ =>
    .call (.setLastHash hash) fun _ => .ret hash

def recordBody (timestamp : UInt64) (actor action target : Text) : Body Text :=
  .call .sequence fun n =>
    .call (.setSequence (n + 1)) fun _ =>
      .call .sequence fun seq =>
        .call .lastHash fun lastHash =>
          if lastHash.isEmpty then recordAfter timestamp actor action target seq (List.replicate 64 '0')
          else .call .lastHash fun prev => recordAfter timestamp actor action target seq prev

/-- The loop of `verify` over the `left` entries from the one at `i` on. -/
def verifyLoop (expectedPrev : Text) : (left i : Nat) → Body (Except Text Nat)
  | 0, _ => .call .len fun n => .ret (.ok n)
  | left + 1, i =>
    .call (.entry i) fun entry =>
      if entry.prevHash ≠ expectedPrev then
        .ret (.error ("chain broken at sequence " ++ decimal entry.sequence.toNat ++ ": expected prev_hash " ++ expectedPrev ++ ", got " ++
          entry.prevHash))
      else
        let computed := sha256Hex entry.payload.asBytes
        if computed ≠ entry.hash then
          .ret (.error ("hash mismatch at sequence " ++ decimal entry.sequence.toNat ++ ": computed " ++ computed ++ ", stored " ++
            entry.hash))
        else verifyLoop entry.hash left (i + 1)

def verifyBody : Body (Except Text Nat) := .call .len fun n => verifyLoop (List.replicate 64 '0') n 0

/-- `entries.clone()`, for the `left` entries from the one at `i` on. -/
def cloneLoop : (left i : Nat) → Body (List AuditEntry)
  | 0, _ => .ret []
  | left + 1, i => .call (.entry i) fun entry => (entry :: ·) <$> cloneLoop left (i + 1)

def snapshotBody : Body (List AuditEntry) := .call .len fun n => cloneLoop n 0

def lenBody : Body Nat := .call .len fun n => .ret n

def isEmptyBody : Body Bool := .call .len fun n => .ret (n == 0)

end AuditTrail

/-! ## The monitor -/

/-- The numbers of a configuration. -/
inductive Level where
  | repetition | selfReferential | tokenVelocity | toolRetry | soft | medium | hard
  deriving DecidableEq, Repr

namespace Thresholds

def level (t : Thresholds) : Level → F32
  | .repetition => t.repetition
  | .selfReferential => t.selfReferential
  | .tokenVelocity => t.tokenVelocity
  | .toolRetry => t.toolRetry
  | .soft => t.soft
  | .medium => t.medium
  | .hard => t.hard

def setLevel (t : Thresholds) (x : F32) : Level → Thresholds
  | .repetition => { t with repetition := x }
  | .selfReferential => { t with selfReferential := x }
  | .tokenVelocity => { t with tokenVelocity := x }
  | .toolRetry => { t with toolRetry := x }
  | .soft => { t with soft := x }
  | .medium => { t with medium := x }
  | .hard => { t with hard := x }

end Thresholds

/-- The accesses to the configuration. -/
inductive CfgAccess where
  | level (l : Level)
  | setLevel (l : Level) (x : F32)
  | window
  | setWindow (n : Nat)

@[reducible] def CfgAccess.Result : CfgAccess → Type
  | level _ => F32
  | window => Nat
  | setLevel _ _ | setWindow _ => Unit

def Thresholds.access : (a : CfgAccess) → Thresholds → Option (a.Result × Thresholds)
  | .level l, t => some (t.level l, t)
  | .setLevel l x, t => some ((), t.setLevel x l)
  | .window, t => some (t.window, t)
  | .setWindow n, t => some ((), { t with window := n })

/-- The buffers of the agents. -/
abbrev Buffers : Type := BTreeMap String AgentBuffer

/-- The accesses to the buffers. But for `contains` and `remove` they are made to a buffer that is there. -/
inductive StateAccess where
  | orInsert (agentId : String)
  | pushBack (agentId : String) (obs : Observation)
  | len (agentId : String)
  | popFront (agentId : String)
  | observations (agentId : String)
  | insertLast (agentId : String) (kind : SignalKind) (score : F32)
  | last (agentId : String) (kind : SignalKind)
  | setTier (agentId : String) (tier : ResponseTier)
  | tier (agentId : String)
  | contains (agentId : String)
  | remove (agentId : String)

@[reducible] def StateAccess.Result : StateAccess → Type
  | len _ => Nat
  | observations _ => List Observation
  | last _ _ => Option F32
  | tier _ => ResponseTier
  | contains _ => Bool
  | orInsert _ | pushBack _ _ | popFront _ | insertLast _ _ _ | setTier _ _ | remove _ => Unit

namespace Buffers

/-- The buffer of an agent. -/
def buffer (b : Buffers) (agentId : String) : AgentBuffer := b[agentId]?.getD .new

/-- The buffers after a change to one of them. -/
def update (b : Buffers) (agentId : String) (f : AgentBuffer → AgentBuffer) : Buffers := b.insert agentId (f (b.buffer agentId))

def access : (a : StateAccess) → Buffers → Option (a.Result × Buffers)
  | .orInsert agentId, b => some ((), b.update agentId id)
  | .pushBack agentId obs, b => some ((), b.update agentId fun buf => { buf with observations := buf.observations ++ [obs] })
  | .len agentId, b => some ((b.buffer agentId).observations.length, b)
  | .popFront agentId, b => some ((), b.update agentId fun buf => { buf with observations := buf.observations.tail })
  | .observations agentId, b => some ((b.buffer agentId).observations, b)
  | .insertLast agentId kind score, b =>
    some ((), b.update agentId fun buf => { buf with last := Function.update buf.last kind (some score) })
  | .last agentId kind, b => some ((b.buffer agentId).last kind, b)
  | .setTier agentId tier, b => some ((), b.update agentId fun buf => { buf with tier })
  | .tier agentId, b => some ((b.buffer agentId).tier, b)
  | .contains agentId, b => some (b.contains agentId, b)
  | .remove agentId, b => some ((), b.erase agentId)

end Buffers

namespace Monitor

abbrev CfgBody (α : Type) : Type := Prog CfgAccess CfgAccess.Result α

abbrev Body (α : Type) : Type := Prog StateAccess StateAccess.Result α

def thresholdsBody : CfgBody Thresholds :=
  .call (.level .repetition) fun repetition =>
    .call (.level .selfReferential) fun selfReferential =>
      .call (.level .tokenVelocity) fun tokenVelocity =>
        .call (.level .toolRetry) fun toolRetry =>
          .call (.level .soft) fun soft =>
            .call (.level .medium) fun medium =>
              .call (.level .hard) fun hard =>
                .call .window fun window =>
                  .ret ⟨repetition, selfReferential, tokenVelocity, toolRetry, soft, medium, hard, window⟩

def setThresholdsBody (t : Thresholds) : CfgBody Unit :=
  .call (.setLevel .repetition t.repetition) fun _ =>
    .call (.setLevel .selfReferential t.selfReferential) fun _ =>
      .call (.setLevel .tokenVelocity t.tokenVelocity) fun _ =>
        .call (.setLevel .toolRetry t.toolRetry) fun _ =>
          .call (.setLevel .soft t.soft) fun _ =>
            .call (.setLevel .medium t.medium) fun _ =>
              .call (.setLevel .hard t.hard) fun _ =>
                .call (.setWindow t.window) fun _ => .ret ()

/-- The loop of `observe` that drops the oldest observations, for at most `turns` turns. -/
def trimLoop (agentId : String) (window : Nat) : (turns : Nat) → Body Unit
  | 0 => .ret ()
  | turns + 1 =>
    .call (.len agentId) fun n =>
      if window < n then .call (.popFront agentId) fun _ => trimLoop agentId window turns else .ret ()

/-- The end of `observe`: the four scores and the tier. -/
def scoreBody (cfg : Thresholds) (agentId : String) : Body ResponseTier :=
  .call (.observations agentId) fun obs =>
    let rep := repetitionScore obs
    .call (.observations agentId) fun obs =>
      let srl := selfReferentialScore obs
      .call (.observations agentId) fun obs =>
        let tvs := tokenVelocityScore obs
        .call (.observations agentId) fun obs =>
          let tra := toolRetryScore obs
          .call (.insertLast agentId .repetitionScore rep) fun _ =>
            .call (.insertLast agentId .selfReferentialLoop srl) fun _ =>
              .call (.insertLast agentId .tokenVelocityStall tvs) fun _ =>
                .call (.insertLast agentId .toolRetryAnomaly tra) fun _ =>
                  let tier := tierFor (combine rep srl tvs tra cfg.levels) cfg.levels
                  .call (.setTier agentId tier) fun _ => .ret tier

/-- `observe`, from the lock of the buffers on. The loop has as many turns as there are observations. -/
def observeBody (cfg : Thresholds) (agentId : String) (obs : Observation) : Body ResponseTier :=
  .call (.orInsert agentId) fun _ =>
    .call (.pushBack agentId obs) fun _ =>
      .call (.len agentId) fun n => do
        trimLoop agentId cfg.window n
        scoreBody cfg agentId

/-- `record_signal`, from the lock of the buffers on. -/
def recordSignalBody (cfg : Thresholds) (agentId : String) (kind : SignalKind) (score : F32) : Body ResponseTier :=
  .call (.orInsert agentId) fun _ =>
    .call (.insertLast agentId kind (clamp score 0 1)) fun _ =>
      .call (.last agentId .repetitionScore) fun rep =>
        .call (.last agentId .selfReferentialLoop) fun srl =>
          .call (.last agentId .tokenVelocityStall) fun tvs =>
            .call (.last agentId .toolRetryAnomaly) fun tra =>
              let tier := tierFor (combine (rep.getD 0) (srl.getD 0) (tvs.getD 0) (tra.getD 0) cfg.levels) cfg.levels
              .call (.setTier agentId tier) fun _ => .ret tier

def forgetBody (agentId : String) : Body Unit := .call (.remove agentId) fun _ => .ret ()

def scoresBody (agentId : String) : Body (Option SignalScores) :=
  .call (.contains agentId) fun found =>
    if found then
      .call (.last agentId .repetitionScore) fun rep =>
        .call (.last agentId .selfReferentialLoop) fun srl =>
          .call (.last agentId .tokenVelocityStall) fun tvs =>
            .call (.last agentId .toolRetryAnomaly) fun tra =>
              .call (.tier agentId) fun tier =>
                .ret (some ⟨rep.getD 0, srl.getD 0, tvs.getD 0, tra.getD 0, tier⟩)
    else .ret none

end Monitor

/-! ## The registry -/

/-- The accesses to the map of records. -/
inductive RegistryAccess where
  | contains (agentId : String)
  | insert (agentId : String) (record : AgentRecord)
  | get (agentId : String)
  | setLastHeartbeat (agentId : String) (now : Nat)
  | setTier (agentId : String) (tier : PermissionTier)
  | setLocked (agentId : String)
  | remove (agentId : String)
  | keys
  | len

@[reducible] def RegistryAccess.Result : RegistryAccess → Type
  | contains _ => Bool
  | get _ | remove _ => Option AgentRecord
  | keys => List String
  | len => Nat
  | insert _ _ | setLastHeartbeat _ _ | setTier _ _ | setLocked _ => Unit

namespace Registry

def access : (a : RegistryAccess) → Registry → Option (a.Result × Registry)
  | .contains agentId, r => some (r.inner.contains agentId, r)
  | .insert agentId record, r => some ((), ⟨r.inner.insert agentId record⟩)
  | .get agentId, r => some (r.inner[agentId]?, r)
  | .setLastHeartbeat agentId now, r => some ((), (r.update agentId fun rec => { rec with lastHeartbeat := now }).2)
  | .setTier agentId tier, r => some ((), (r.update agentId fun rec => { rec with tier }).2)
  | .setLocked agentId, r => some ((), (r.update agentId fun rec => { rec with locked := true }).2)
  | .remove agentId, r => some (r.inner[agentId]?, ⟨r.inner.erase agentId⟩)
  | .keys, r => some (r.inner.keys, r)
  | .len, r => some (r.inner.size, r)

abbrev Body (α : Type) : Type := Prog RegistryAccess RegistryAccess.Result α

/-- `register`, from the lock on. -/
def registerBody (req : HandshakeRequest) (now : Nat) : Body (Except HandshakeError AgentRecord) :=
  .call (.contains req.agentId) fun found =>
    if found then .ret (.error .alreadyRegistered)
    else .call (.insert req.agentId (req.record now)) fun _ => .ret (.ok (req.record now))

def heartbeatBody (agentId : String) (now : Nat) : Body Bool :=
  .call (.get agentId) fun rec =>
    if rec.isSome then .call (.setLastHeartbeat agentId now) fun _ => .ret true else .ret false

def setTierBody (agentId : String) (tier : PermissionTier) : Body (Option PermissionTier) :=
  .call (.get agentId) fun rec =>
    match rec with
    | none => .ret none
    | some rec => .call (.setTier agentId tier) fun _ => .ret (some rec.tier)

def lockBody (agentId : String) : Body Bool :=
  .call (.get agentId) fun rec =>
    if rec.isSome then .call (.setLocked agentId) fun _ => .call (.setTier agentId .readOnly) fun _ => .ret true else .ret false

def getBody (agentId : String) : Body (Option AgentRecord) := .call (.get agentId) fun rec => .ret rec

def deregisterBody (agentId : String) : Body Bool := .call (.remove agentId) fun rec => .ret rec.isSome

def agentIdsBody : Body (List String) := .call .keys fun ids => .ret ids

def lenBody : Body Nat := .call .len fun n => .ret n

end Registry

/-! ## The methods -/

/-- The methods, each under one lock. -/
inductive Method where
  | record (timestamp : UInt64) (actor action target : Text)
  | verify
  | snapshot
  | len
  | isEmpty
  | thresholds
  | setThresholds (t : Thresholds)
  | observeWith (cfg : Thresholds) (agentId : String) (obs : Observation)
  | recordSignalWith (cfg : Thresholds) (agentId : String) (kind : SignalKind) (score : F32)
  | forget (agentId : String)
  | scores (agentId : String)
  | register (req : HandshakeRequest) (now : Nat)
  | heartbeat (agentId : String) (now : Nat)
  | setTier (agentId : String) (tier : PermissionTier)
  | lockAgent (agentId : String)
  | get (agentId : String)
  | deregister (agentId : String)
  | agentIds
  | registryLen

namespace Method

def lock : Method → Lock
  | record .. | verify | snapshot | len | isEmpty => .audit
  | thresholds | setThresholds _ => .cfg
  | observeWith .. | recordSignalWith .. | forget _ | scores _ => .state
  | register .. | heartbeat .. | setTier .. | lockAgent _ | get _ | deregister _ | agentIds | registryLen => .registry

@[reducible] def Answer : Method → Type
  | record .. => Text
  | verify => Except Text Nat
  | snapshot => List AuditEntry
  | len | registryLen => Nat
  | isEmpty => Bool
  | thresholds => Thresholds
  | setThresholds _ | forget _ => Unit
  | observeWith .. | recordSignalWith .. => ResponseTier
  | scores _ => Option SignalScores
  | register .. => Except HandshakeError AgentRecord
  | heartbeat .. | lockAgent _ | deregister _ => Bool
  | setTier .. => Option PermissionTier
  | get _ => Option AgentRecord
  | agentIds => List String

end Method

/-- What the locks guard. -/
@[reducible] def Lock.Value : Lock → Type
  | audit => AuditTrail
  | cfg => Thresholds
  | state => Buffers
  | registry => Registry

@[reducible] def Lock.Access : Lock → Type
  | audit => AuditAccess
  | cfg => CfgAccess
  | state => StateAccess
  | registry => RegistryAccess

@[reducible] def Lock.Result : (l : Lock) → l.Access → Type
  | audit => AuditAccess.Result
  | cfg => CfgAccess.Result
  | state => StateAccess.Result
  | registry => RegistryAccess.Result

def Lock.access : (l : Lock) → (a : l.Access) → l.Value → Option (l.Result a × l.Value)
  | audit => AuditTrail.access
  | cfg => Thresholds.access
  | state => Buffers.access
  | registry => Registry.access

def Method.body : (c : Method) → Prog c.lock.Access c.lock.Result c.Answer
  | record timestamp actor action target => AuditTrail.recordBody timestamp actor action target
  | verify => AuditTrail.verifyBody
  | snapshot => AuditTrail.snapshotBody
  | len => AuditTrail.lenBody
  | isEmpty => AuditTrail.isEmptyBody
  | thresholds => Monitor.thresholdsBody
  | setThresholds t => Monitor.setThresholdsBody t
  | observeWith cfg agentId obs => Monitor.observeBody cfg agentId obs
  | recordSignalWith cfg agentId kind score => Monitor.recordSignalBody cfg agentId kind score
  | forget agentId => Monitor.forgetBody agentId
  | scores agentId => Monitor.scoresBody agentId
  | register req now => Registry.registerBody req now
  | heartbeat agentId now => Registry.heartbeatBody agentId now
  | setTier agentId tier => Registry.setTierBody agentId tier
  | lockAgent agentId => Registry.lockBody agentId
  | get agentId => Registry.getBody agentId
  | deregister agentId => Registry.deregisterBody agentId
  | agentIds => Registry.agentIdsBody
  | registryLen => Registry.lenBody

/-- The shared values and the methods on them. -/
@[reducible] def shared : SpinLock.Guarded Lock Method where
  Value := Lock.Value
  Access := Lock.Access
  Result := Lock.Result
  access := Lock.access
  lock := Method.lock
  Answer := Method.Answer
  body := Method.body

/-- The values of the statics in an image, and an empty registry. -/
def sharedBoot : (l : Lock) → l.Value
  | .audit => .new
  | .cfg => .defaultConfig
  | .state => ∅
  | .registry => .new

/-! ## What takes more than one lock, or none -/

/-- What a thread does with the shared values. -/
abbrev SharedM (α : Type) : Type := Prog Method Method.Answer α

/-- `Monitor::observe`. -/
def Monitor.observeProgram (agentId : String) (obs : Observation) : SharedM ResponseTier :=
  .call .thresholds fun cfg => .call (.observeWith cfg agentId obs) .ret

/-- `Monitor::record_signal`. -/
def Monitor.recordSignalProgram (agentId : String) (kind : SignalKind) (score : F32) : SharedM ResponseTier :=
  .call .thresholds fun cfg => .call (.recordSignalWith cfg agentId kind score) .ret

end Sentinel

end GolemKernel
