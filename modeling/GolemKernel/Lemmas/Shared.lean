import GolemKernel.Lemmas.Audit
import GolemKernel.Sentinel.Shared

/-!
# The methods of the Sentinel as one step

The accesses of each method, made one after another, do what the method does as a function (`run_body`).
-/

namespace GolemKernel

namespace Sentinel

open Text Concurrent

namespace AuditTrail

variable {t : AuditTrail}

/-- Alone, the accesses of `record` after the counter and the last hash have been read store the entry and its hash. -/
theorem run_recordAfter (timestamp : UInt64) (actor action target : Text) (seq : UInt64) (prev : Text) (t : AuditTrail) :
    (recordAfter timestamp actor action target seq prev).run access t =
      let payload := decimal seq.toNat ++ "|" ++ decimal timestamp.toNat ++ "|" ++ actor ++ "|" ++ action ++ "|" ++ target ++ "|" ++
        prev
      let hash := sha256Hex payload.asBytes
      some (hash,
        { t with
          entries := t.entries ++ [{ sequence := seq, timestamp, actor, action, target, hash, prevHash := prev }]
          lastHash := hash }) :=
  rfl

/-- Alone, the accesses of `record` do what `record` does. -/
theorem run_recordBody (timestamp : UInt64) (actor action target : Text) (t : AuditTrail) :
    (recordBody timestamp actor action target).run access t = some (t.record timestamp actor action target) := by
  have hstart : (recordBody timestamp actor action target).run access t =
      Prog.run access
        (if t.lastHash.isEmpty then recordAfter timestamp actor action target (t.sequence + 1) (List.replicate 64 '0')
        else .call .lastHash fun prev => recordAfter timestamp actor action target (t.sequence + 1) prev)
        { t with sequence := t.sequence + 1 } := rfl
  rw [hstart, record]
  split
  · rw [run_recordAfter]
  · show Prog.run access (recordAfter _ _ _ _ _ t.lastHash) _ = _
    rw [run_recordAfter]

/-- The loop of `verify` goes over the entries that are left. -/
theorem run_verifyLoop (t : AuditTrail) (expectedPrev : Text) (i : Nat) (hi : i ≤ t.entries.length) :
    (verifyLoop expectedPrev (t.entries.length - i) i).run access t =
      some ((verifyFrom expectedPrev (t.entries.drop i)).map fun _ => t.entries.length, t) := by
  obtain ⟨left, hleft⟩ : ∃ left, t.entries.length - i = left := ⟨_, rfl⟩
  rw [hleft]
  induction left generalizing i expectedPrev with
  | zero =>
    rw [List.drop_eq_nil_of_le (by omega)]
    rfl
  | succ left ih =>
    have hlt : i < t.entries.length := by omega
    have hentry : access (.entry i) t = some (t.entries[i], t) := by
      simp [access, List.getElem?_eq_getElem hlt]
    rw [verifyLoop, Prog.run_call_some hentry, List.drop_eq_getElem_cons hlt]
    simp only [verifyFrom]
    split
    · rfl
    · split
      · rfl
      · exact ih _ (i + 1) (by omega) (by omega)

/-- Alone, the accesses of `verify` answer as `verify` does and change nothing. -/
theorem run_verifyBody (t : AuditTrail) : verifyBody.run access t = some (t.verify, t) := by
  have hloop := run_verifyLoop t (List.replicate 64 '0') 0 (Nat.zero_le _)
  rw [Nat.sub_zero, List.drop_zero] at hloop
  show Prog.run access (verifyLoop _ t.entries.length 0) t = _
  rw [hloop, verify]
  cases verifyFrom (List.replicate 64 '0') t.entries <;> rfl

/-- From entry `i` on, the loop of `snapshot` copies the entries that are left. -/
theorem run_cloneLoop (t : AuditTrail) (i : Nat) (hi : i ≤ t.entries.length) :
    (cloneLoop (t.entries.length - i) i).run access t = some (t.entries.drop i, t) := by
  obtain ⟨left, hleft⟩ : ∃ left, t.entries.length - i = left := ⟨_, rfl⟩
  rw [hleft]
  induction left generalizing i with
  | zero =>
    rw [List.drop_eq_nil_of_le (by omega)]
    rfl
  | succ left ih =>
    have hlt : i < t.entries.length := by omega
    have hentry : access (.entry i) t = some (t.entries[i], t) := by
      simp [access, List.getElem?_eq_getElem hlt]
    rw [cloneLoop, Prog.run_call_some hentry, List.drop_eq_getElem_cons hlt, map_eq_pure_bind, Prog.run_bind,
      ih (i + 1) (by omega) (by omega)]
    rfl

/-- Alone, the accesses of `snapshot` copy all entries. -/
theorem run_snapshotBody (t : AuditTrail) : snapshotBody.run access t = some (t.snapshot, t) := by
  have hloop := run_cloneLoop t 0 (Nat.zero_le _)
  rwa [Nat.sub_zero, List.drop_zero] at hloop

end AuditTrail

namespace Monitor

/-- Alone, the accesses of `thresholds` copy the configuration. -/
theorem run_thresholdsBody (t : Thresholds) : thresholdsBody.run Thresholds.access t = some (t, t) := by
  have hlevel : ∀ l, Thresholds.access (.level l) t = some (t.level l, t) := fun _ => rfl
  have hwindow : Thresholds.access .window t = some (t.window, t) := rfl
  simp only [thresholdsBody, Prog.run_call_some (hlevel _), Prog.run_call_some hwindow, Prog.run_ret]
  rfl

/-- Alone, the accesses of `set_thresholds` put the new configuration in the place of the old one. -/
theorem run_setThresholdsBody (t t' : Thresholds) : (setThresholdsBody t).run Thresholds.access t' = some ((), t) := by
  simp only [setThresholdsBody, Prog.run_call, Thresholds.access, Option.bind_some, Prog.run_ret, Thresholds.setLevel]

end Monitor

namespace Buffers

variable (b : Buffers) (agentId : String) (f f' : AgentBuffer → AgentBuffer)

@[simp] theorem buffer_update : (b.update agentId f).buffer agentId = f (b.buffer agentId) := by
  simp [update, buffer]

@[simp] theorem update_update : (b.update agentId f).update agentId f' = b.update agentId fun buf => f' (f buf) := by
  have hbuffer := buffer_update b agentId f
  refine Std.ExtTreeMap.ext_getElem? fun k => ?_
  rw [update, hbuffer, update, update]
  simp only [Std.ExtTreeMap.getElem?_insert]
  split <;> rfl

/-- Only what is done to the buffer that is there matters. -/
theorem update_congr {b : Buffers} {agentId : String} {f f' : AgentBuffer → AgentBuffer}
    (h : f (b.buffer agentId) = f' (b.buffer agentId)) : b.update agentId f = b.update agentId f' := by
  rw [update, h, update]

end Buffers

namespace Monitor

open Buffers

variable (b : Buffers) (agentId : String) (f : AgentBuffer → AgentBuffer)

/-- Observations within the window stay. -/
theorem popFront_of_le {window : Nat} {obs : List Observation} (h : obs.length ≤ window) : popFront window obs = obs := by
  cases obs with
  | nil => rfl
  | cons o obs => rw [popFront, if_neg (Nat.not_lt.mpr h)]

/-- Of more observations than the window, the oldest goes first. -/
theorem popFront_of_lt {window : Nat} {obs : List Observation} (h : window < obs.length) :
    popFront window obs = popFront window obs.tail := by
  cases obs with
  | nil => rfl
  | cons o obs => rw [popFront, if_pos h, List.tail_cons]

/-- The loop that drops the oldest observations ends with those of the window, if it has as many turns as there are observations. -/
theorem run_trimLoop (window : Nat) {turns : Nat} (hturns : (f (b.buffer agentId)).observations.length ≤ turns) :
    (trimLoop agentId window turns).run Buffers.access (b.update agentId f) =
      some ((), b.update agentId fun buf => { f buf with observations := popFront window (f buf).observations }) := by
  induction turns generalizing f with
  | zero =>
    rw [trimLoop, Prog.run_ret]
    refine congrArg (fun b => some ((), b)) (update_congr ?_)
    rw [popFront_of_le (Nat.le_trans hturns (Nat.zero_le _))]
  | succ turns ih =>
    have hlen : Buffers.access (.len agentId) (b.update agentId f) =
        some ((f (b.buffer agentId)).observations.length, b.update agentId f) := by
      rw [Buffers.access, buffer_update]
    rw [trimLoop, Prog.run_call_some hlen]
    split
    · rename_i hlong
      have hpop : Buffers.access (.popFront agentId) (b.update agentId f) =
          some ((), b.update agentId fun buf => { f buf with observations := (f buf).observations.tail }) := by
        rw [Buffers.access, update_update]
      rw [Prog.run_call_some hpop, ih _ (by rw [List.length_tail]; omega)]
      refine congrArg (fun b => some ((), b)) (update_congr ?_)
      rw [popFront_of_lt hlong]
    · rename_i hshort
      rw [Prog.run_ret]
      refine congrArg (fun b => some ((), b)) (update_congr ?_)
      rw [popFront_of_le (Nat.le_of_not_lt hshort)]

/-- What `observe` stores in the end, for these observations. -/
def scored (cfg : Thresholds) (obs : List Observation) : AgentBuffer where
  observations := obs
  last
    | .repetitionScore => some (repetitionScore obs)
    | .selfReferentialLoop => some (selfReferentialScore obs)
    | .tokenVelocityStall => some (tokenVelocityScore obs)
    | .toolRetryAnomaly => some (toolRetryScore obs)
  tier := tierFor (combine (repetitionScore obs) (selfReferentialScore obs) (tokenVelocityScore obs) (toolRetryScore obs) cfg.levels)
    cfg.levels

/-- The accesses that score a buffer store the scores and the tier of its observations. -/
theorem run_scoreBody (cfg : Thresholds) :
    (scoreBody cfg agentId).run Buffers.access (b.update agentId f) =
      some ((scored cfg (f (b.buffer agentId)).observations).tier,
        b.update agentId fun _ => scored cfg (f (b.buffer agentId)).observations) := by
  have hobs : Buffers.access (.observations agentId) (b.update agentId f) =
      some ((f (b.buffer agentId)).observations, b.update agentId f) := by
    rw [Buffers.access, buffer_update]
  rw [scoreBody, Prog.run_call_some hobs, Prog.run_call_some hobs, Prog.run_call_some hobs, Prog.run_call_some hobs]
  simp only [Prog.run_call, Buffers.access, Option.bind_some, update_update, Prog.run_ret]
  refine congrArg (fun b => some (_, b)) (update_congr ?_)
  simp only [scored, AgentBuffer.mk.injEq, true_and, and_true]
  funext kind
  cases kind <;> simp

/-- `observe` appends the observation, drops the oldest ones and scores what is left. -/
theorem observe_eq (cfg : Thresholds) (obs : Observation) :
    (Monitor.mk cfg b).observe agentId obs =
      ((scored cfg (popFront cfg.window ((b.buffer agentId).observations ++ [obs]))).tier,
        ⟨cfg, b.update agentId fun _ => scored cfg (popFront cfg.window ((b.buffer agentId).observations ++ [obs]))⟩) := rfl

/-- Alone, the accesses of `observe` do what `observe` does with the configuration that was copied. -/
theorem run_observeBody (cfg : Thresholds) (obs : Observation) :
    (observeBody cfg agentId obs).run Buffers.access b =
      some (((Monitor.mk cfg b).observe agentId obs).1, ((Monitor.mk cfg b).observe agentId obs).2.state) := by
  have hlen : Buffers.access (.len agentId) (b.update agentId fun buf => { buf with observations := buf.observations ++ [obs] }) =
      some (((b.buffer agentId).observations ++ [obs]).length,
        b.update agentId fun buf => { buf with observations := buf.observations ++ [obs] }) := by
    rw [Buffers.access, buffer_update]
  have hpush : (observeBody cfg agentId obs).run Buffers.access b =
      Prog.run Buffers.access (.call (.len agentId) fun n => do trimLoop agentId cfg.window n; scoreBody cfg agentId)
        (b.update agentId fun buf => { buf with observations := buf.observations ++ [obs] }) := by
    have hinsert : Buffers.access (.orInsert agentId) b = some ((), b.update agentId id) := rfl
    have hpushBack : Buffers.access (.pushBack agentId obs) (b.update agentId id) =
        some ((), (b.update agentId id).update agentId fun buf => { buf with observations := buf.observations ++ [obs] }) := rfl
    rw [observeBody, Prog.run_call_some hinsert, Prog.run_call_some hpushBack, update_update]
    rfl
  have htrim := run_trimLoop b agentId (fun buf => { buf with observations := buf.observations ++ [obs] }) cfg.window (Nat.le_refl _)
  simp only at htrim
  rw [hpush, Prog.run_call_some hlen, Prog.run_bind, htrim, Option.bind_some]
  simp only [run_scoreBody, observe_eq]

/-- Alone, the accesses of `record_signal` do what `record_signal` does with the configuration that was copied. -/
theorem run_recordSignalBody (cfg : Thresholds) (kind : SignalKind) (score : F32) :
    (recordSignalBody cfg agentId kind score).run Buffers.access b =
      some (((Monitor.mk cfg b).recordSignal agentId kind score).1, ((Monitor.mk cfg b).recordSignal agentId kind score).2.state) := by
  simp only [recordSignalBody, Prog.run_call, Buffers.access, Option.bind_some, update_update, buffer_update, id, Prog.run_ret]
  rfl

/-- Alone, the accesses of `scores` read the scores and change nothing. -/
theorem run_scoresBody (cfg : Thresholds) :
    (scoresBody agentId).run Buffers.access b = some ((Monitor.mk cfg b).scores agentId, b) := by
  have hcontains : Buffers.access (.contains agentId) b = some (b[agentId]?.isSome, b) := by
    rw [Buffers.access, Std.ExtTreeMap.isSome_getElem?_eq_contains]
  rw [scoresBody, Prog.run_call_some hcontains, scores]
  cases hbuf : b[agentId]? with
  | none => rfl
  | some buf =>
    have hbuffer : b.buffer agentId = buf := by rw [Buffers.buffer, hbuf, Option.getD_some]
    simp only [Option.isSome_some, if_true, Prog.run_call, Buffers.access, Option.bind_some, Prog.run_ret, hbuffer, Option.map_some]

end Monitor

/-! ## The methods -/

namespace Registry

/-- `register`, when the request is valid. -/
def registerValid (r : Registry) (req : HandshakeRequest) (now : Nat) : Except HandshakeError AgentRecord × Registry :=
  if req.agentId ∈ r.inner then (.error .alreadyRegistered, r)
  else (.ok (req.record now), ⟨r.inner.insert req.agentId (req.record now)⟩)

variable (r : Registry)

/-- Alone, the accesses of `register` do what it does with a valid request. -/
theorem run_registerBody (req : HandshakeRequest) (now : Nat) : (registerBody req now).run access r = some (r.registerValid req now) := by
  have hcontains : access (.contains req.agentId) r = some (r.inner.contains req.agentId, r) := rfl
  rw [registerBody, Prog.run_call_some hcontains, registerValid]
  by_cases hfound : req.agentId ∈ r.inner
  · rw [if_pos hfound, if_pos (Std.ExtTreeMap.contains_iff_mem.mpr hfound)]
    rfl
  · rw [if_neg hfound, if_neg (mt Std.ExtTreeMap.contains_iff_mem.mp hfound)]
    rfl

/-- A change to a record that is not there does nothing. -/
theorem update_of_none {agentId : String} (h : r.inner[agentId]? = none) (f : AgentRecord → AgentRecord) :
    (r.update agentId f).2 = r := by
  refine congrArg Registry.mk (Std.ExtTreeMap.ext_getElem? fun k => ?_)
  rw [Std.ExtTreeMap.getElem?_modify]
  split
  · rename_i heq
    rw [← Std.LawfulEqCmp.eq_of_compare heq, h]
    rfl
  · rfl

/-- Two changes of one record are one. -/
theorem update_update (agentId : String) (f f' : AgentRecord → AgentRecord) :
    ((r.update agentId f).2.update agentId f').2 = (r.update agentId fun rec => f' (f rec)).2 := by
  refine congrArg Registry.mk (Std.ExtTreeMap.ext_getElem? fun k => ?_)
  simp only [update, Std.ExtTreeMap.getElem?_modify]
  split
  · rw [if_pos Std.ReflCmp.compare_self, Option.map_map]
    rfl
  · rfl

/-- A method that looks for a record, changes it if it is there, and answers with something of it. -/
theorem run_get_update {α : Type} {agentId : String} {f : AgentRecord → AgentRecord} (answer : Option AgentRecord → α)
    {next : Option AgentRecord → Body α} (hnone : next none = .ret (answer none))
    (hsome : ∀ rec, r.inner[agentId]? = some rec → (next (some rec)).run access r = some (answer (some rec), (r.update agentId f).2)) :
    (Prog.call (.get agentId) next : Body α).run access r = some (answer r.inner[agentId]?, (r.update agentId f).2) := by
  have hget : access (.get agentId) r = some (r.inner[agentId]?, r) := rfl
  rw [Prog.run_call_some hget]
  cases hrec : r.inner[agentId]? with
  | none => rw [hnone, update_of_none r hrec, Prog.run_ret]
  | some rec => exact hsome rec hrec

/-- Alone, the accesses of `heartbeat` do what `heartbeat` does. -/
theorem run_heartbeatBody (agentId : String) (now : Nat) : (heartbeatBody agentId now).run access r = some (r.heartbeat agentId now) :=
  run_get_update r Option.isSome rfl fun _ _ => rfl

/-- Alone, the accesses of `set_tier` do what `set_tier` does. -/
theorem run_setTierBody (agentId : String) (tier : PermissionTier) :
    (setTierBody agentId tier).run access r = some (r.setTier agentId tier) :=
  run_get_update r (Option.map (·.tier)) rfl fun _ _ => rfl

/-- Alone, the accesses of `lock` do what `lock` does. -/
theorem run_lockBody (agentId : String) : (lockBody agentId).run access r = some (r.lock agentId) := by
  refine run_get_update r Option.isSome rfl fun rec _ => ?_
  show some (true, ((r.update agentId fun rec => { rec with locked := true }).2.update agentId fun rec =>
    { rec with tier := .readOnly }).2) = _
  rw [update_update]
  rfl

end Registry

namespace Method

/-- A method as a function of the value behind its lock. -/
def whole : (c : Method) → c.lock.Value → c.Answer × c.lock.Value
  | record timestamp actor action target, (t : AuditTrail) => t.record timestamp actor action target
  | verify, (t : AuditTrail) => (t.verify, t)
  | snapshot, (t : AuditTrail) => (t.snapshot, t)
  | len, (t : AuditTrail) => (t.entries.length, t)
  | isEmpty, (t : AuditTrail) => (t.entries.length == 0, t)
  | thresholds, cfg => (cfg, cfg)
  | setThresholds t, _ => ((), t)
  | observeWith cfg agentId obs, b => ((Monitor.observe ⟨cfg, b⟩ agentId obs).1, (Monitor.observe ⟨cfg, b⟩ agentId obs).2.state)
  | recordSignalWith cfg agentId kind score, b =>
    ((Monitor.recordSignal ⟨cfg, b⟩ agentId kind score).1, (Monitor.recordSignal ⟨cfg, b⟩ agentId kind score).2.state)
  | forget agentId, (b : Buffers) => ((), b.erase agentId)
  | scores agentId, b => (Monitor.scores ⟨.defaultConfig, b⟩ agentId, b)
  | register req now, (r : Registry) => r.registerValid req now
  | heartbeat agentId now, (r : Registry) => r.heartbeat agentId now
  | setTier agentId tier, (r : Registry) => r.setTier agentId tier
  | lockAgent agentId, (r : Registry) => r.lock agentId
  | get agentId, (r : Registry) => (r.get agentId, r)
  | deregister agentId, (r : Registry) => r.deregister agentId
  | agentIds, (r : Registry) => (r.inner.keys, r)
  | registryLen, (r : Registry) => (r.inner.size, r)

/-- The accesses of a method, one after another, make the method. -/
theorem run_body (c : Method) (x : c.lock.Value) : c.body.run (Lock.access c.lock) x = some (c.whole x) := by
  cases c with
  | record timestamp actor action target => exact AuditTrail.run_recordBody timestamp actor action target x
  | verify => exact AuditTrail.run_verifyBody x
  | snapshot => exact AuditTrail.run_snapshotBody x
  | thresholds => exact Monitor.run_thresholdsBody x
  | setThresholds t => exact Monitor.run_setThresholdsBody t x
  | observeWith cfg agentId obs => exact Monitor.run_observeBody x agentId cfg obs
  | recordSignalWith cfg agentId kind score => exact Monitor.run_recordSignalBody x agentId cfg kind score
  | scores agentId => exact Monitor.run_scoresBody x agentId .defaultConfig
  | register req now => exact Registry.run_registerBody x req now
  | heartbeat agentId now => exact Registry.run_heartbeatBody x agentId now
  | setTier agentId tier => exact Registry.run_setTierBody x agentId tier
  | lockAgent agentId => exact Registry.run_lockBody x agentId
  | len | isEmpty | forget | get | deregister | agentIds | registryLen => rfl

/-- Under its lock, a method as a whole changes the value behind the lock and no other. -/
theorem exec_eq (c : Method) (x : (l : Lock) → l.Value) :
    shared.exec c x = some ((c.whole (x c.lock)).1, Function.update x c.lock (c.whole (x c.lock)).2) := by
  rw [SpinLock.Guarded.exec, run_body]
  rfl

end Method

end Sentinel

end GolemKernel
