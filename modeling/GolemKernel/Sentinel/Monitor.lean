import GolemKernel.Basic
import GolemKernel.Lib.F32
import GolemKernel.Sentinel.Audit

/-!
# The degradation monitor

`src/sentinel/monitor.rs`. The monitor keeps the recent observations of each agent, computes four scores from them and combines these to
a tier. `combine` and `tier_for` are written over any type with the operations they use: the kernel has them on `F32`, and the same text
can be read over the rationals.
-/

namespace GolemKernel

namespace Sentinel

open Text

inductive SignalKind where
  | repetitionScore | selfReferentialLoop | tokenVelocityStall | toolRetryAnomaly
  deriving DecidableEq, Repr

structure Thresholds where
  repetition : F32
  selfReferential : F32
  tokenVelocity : F32
  toolRetry : F32
  soft : F32
  medium : F32
  hard : F32
  window : Nat
  deriving DecidableEq, Repr

/-- `Thresholds::default_config`: 0.6, 0.5, 0.5, 0.4, the tiers 0.4, 0.7, 0.9, and a window of 16. -/
def Thresholds.defaultConfig : Thresholds where
  repetition := ⟨0x3F19999A⟩
  selfReferential := ⟨0x3F000000⟩
  tokenVelocity := ⟨0x3F000000⟩
  toolRetry := ⟨0x3ECCCCCD⟩
  soft := ⟨0x3ECCCCCD⟩
  medium := ⟨0x3F333333⟩
  hard := ⟨0x3F666666⟩
  window := 16

structure Observation where
  outputHash : Text
  tokenCount : UInt32
  announcedWithoutAction : Bool
  toolCallHash : Option Text
  taskStateAdvanced : Bool
  deriving DecidableEq, Repr

inductive ResponseTier where
  | none | soft | medium | hard
  deriving DecidableEq, Repr

/-! ## From scores to a tier -/

/-- The numbers of a configuration: the gates of the four signals and the three tiers. -/
structure Levels (α : Type) where
  repetition : α
  selfReferential : α
  tokenVelocity : α
  toolRetry : α
  soft : α
  medium : α
  hard : α

def Thresholds.levels (t : Thresholds) : Levels F32 :=
  ⟨t.repetition, t.selfReferential, t.tokenVelocity, t.toolRetry, t.soft, t.medium, t.hard⟩

section

variable {α : Type} [Zero α] [One α] [Add α] [Sub α] [Div α] [LT α] [LE α] [DecidableLT α] [DecidableLE α]

/-- `f32::clamp`. -/
def clamp (x lo hi : α) : α := if x < lo then lo else if hi < x then hi else x

/-- The closure `contrib` of `combine`. -/
def contrib (score gate : α) : α :=
  if score < gate then 0
  else
    let span := 1 - gate
    if span ≤ 0 then 1 else (score - gate) / span

def combine (rep srl tvs tra : α) (cfg : Levels α) : α :=
  let total := contrib rep cfg.repetition + contrib srl cfg.selfReferential + contrib tvs cfg.tokenVelocity +
    contrib tra cfg.toolRetry
  clamp total 0 1

def tierFor (cumulative : α) (cfg : Levels α) : ResponseTier :=
  if cfg.hard ≤ cumulative then .hard
  else if cfg.medium ≤ cumulative then .medium
  else if cfg.soft ≤ cumulative then .soft
  else .none

end

/-! ## Scores -/

/-- The loop of `repetition_score` and of `tool_retry_score`: the number of elements that equal an earlier one. -/
def countRepeats (keys : List Text) : Nat :=
  keys.zipIdx.foldl (fun hits p => if (keys.take p.2).any (· == p.1) then hits + 1 else hits) 0

def repetitionScore (obs : List Observation) : F32 :=
  if obs.length < 2 then 0 else F32.ofNat (countRepeats (obs.map (·.outputHash))) / F32.ofNat obs.length

def selfReferentialScore (obs : List Observation) : F32 :=
  if obs.isEmpty then 0 else F32.ofNat (obs.filter (·.announcedWithoutAction)).length / F32.ofNat obs.length

/-- `total_tokens` of `token_velocity_score`, a `u32`. -/
def totalTokens (obs : List Observation) : UInt32 := obs.foldl (fun sum o => sum + o.tokenCount) 0

def tokenVelocityScore (obs : List Observation) : F32 :=
  if obs.isEmpty then 0
  else
    let progressed := (obs.filter (·.taskStateAdvanced)).length
    if totalTokens obs = 0 then 0
    else
      let progressRate := F32.ofNat progressed / F32.ofNat obs.length
      let denom := F32.min (F32.ofNat (totalTokens obs).toNat / F32.ofNat obs.length / F32.ofNat 256) 1
      clamp (denom * (1 - progressRate)) 0 1

def toolRetryScore (obs : List Observation) : F32 :=
  if obs.length < 2 then 0
  else
    let calls := obs.filterMap (·.toolCallHash)
    if calls.length < 2 then 0 else F32.ofNat (countRepeats calls) / F32.ofNat calls.length

/-! ## The monitor -/

structure AgentBuffer where
  observations : List Observation
  last : SignalKind → Option F32
  tier : ResponseTier

def AgentBuffer.new : AgentBuffer := ⟨[], fun _ => none, .none⟩

structure Monitor where
  cfg : Thresholds
  state : BTreeMap String AgentBuffer

structure SignalScores where
  repetition : F32
  selfReferential : F32
  tokenVelocity : F32
  toolRetry : F32
  tier : ResponseTier
  deriving DecidableEq, Repr

/-- The loop of `observe` that drops the oldest observations. -/
def popFront (window : Nat) : List Observation → List Observation
  | [] => []
  | o :: obs => if window < (o :: obs).length then popFront window obs else o :: obs

namespace Monitor

def new : Monitor := ⟨.defaultConfig, ∅⟩

def setThresholds (m : Monitor) (t : Thresholds) : Monitor := { m with cfg := t }

def thresholds (m : Monitor) : Thresholds := m.cfg

def forget (m : Monitor) (agentId : String) : Monitor := { m with state := m.state.erase agentId }

/-- `entry(..).or_insert_with(AgentBuffer::new)`. -/
def buffer (m : Monitor) (agentId : String) : AgentBuffer := m.state[agentId]?.getD .new

/-- The tier that `observe` and `record_signal` set for four scores. -/
def tier (m : Monitor) (rep srl tvs tra : F32) : ResponseTier := tierFor (combine rep srl tvs tra m.cfg.levels) m.cfg.levels

def observe (m : Monitor) (agentId : String) (obs : Observation) : ResponseTier × Monitor :=
  let buf := m.buffer agentId
  let observations := popFront m.cfg.window (buf.observations ++ [obs])
  let rep := repetitionScore observations
  let srl := selfReferentialScore observations
  let tvs := tokenVelocityScore observations
  let tra := toolRetryScore observations
  let last : SignalKind → Option F32
    | .repetitionScore => some rep
    | .selfReferentialLoop => some srl
    | .tokenVelocityStall => some tvs
    | .toolRetryAnomaly => some tra
  let tier := m.tier rep srl tvs tra
  (tier, { m with state := m.state.insert agentId ⟨observations, last, tier⟩ })

def recordSignal (m : Monitor) (agentId : String) (kind : SignalKind) (score : F32) : ResponseTier × Monitor :=
  let buf := m.buffer agentId
  let last := Function.update buf.last kind (some (clamp score 0 1))
  let score := fun kind => (last kind).getD 0
  let tier := m.tier (score .repetitionScore) (score .selfReferentialLoop) (score .tokenVelocityStall) (score .toolRetryAnomaly)
  (tier, { m with state := m.state.insert agentId ⟨buf.observations, last, tier⟩ })

def scores (m : Monitor) (agentId : String) : Option SignalScores :=
  m.state[agentId]?.map fun buf =>
    let score := fun kind => (buf.last kind).getD 0
    ⟨score .repetitionScore, score .selfReferentialLoop, score .tokenVelocityStall, score .toolRetryAnomaly, buf.tier⟩

section

variable (core : Lowercase)

/-- One turn of the loop of `normalize_output_hash`, on the text so far and `prev_ws`. -/
def normalizeChar (st : Text × Bool) (ch : Char) : Text × Bool :=
  if isWhitespace ch then (if !st.2 then st.1 ++ [' '] else st.1, true) else (st.1 ++ core.expand ch, false)

/-- The text that `normalize_output_hash` hashes. -/
def normalizedOutput (s : Text) : Text := trim (s.foldl (normalizeChar core) ([], false)).1

def normalizeOutputHash (s : Text) : Text := sha256Hex (normalizedOutput core s).asBytes

end

end Monitor

end Sentinel

end GolemKernel
