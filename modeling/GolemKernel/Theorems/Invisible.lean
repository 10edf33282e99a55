import GolemKernel.Sentinel.Invisible
import GolemKernel.Theorems.Shared
import GolemKernel.Theorems.SystemCalls

/-!
# What the gate answers, and what is recorded of it

A thread makes any calls of `gate` (the source has no such thread; this is what one would get that is put behind the gate), among threads
that do anything else with the Sentinel. Its calls come to its records in the audit trail followed by answers that are fixed beforehand
(`gateAll_eq`), so what it is told does not depend on the others, nor on the state; and each probe that is to be recorded is recorded once,
in order (`probes_recorded_unseen`).
-/

namespace GolemKernel

namespace Sentinel

open Text Concurrent SpinLock

/-- An agent is let through to the handshake only. -/
theorem isAuthorized_agent {safeModeActive : Bool} {op : Operation} (hop : op ≠ .handshake) :
    isAuthorized safeModeActive .agent op = false := by
  cases op with
  | handshake => exact absurd rfl hop
  | _ => rfl

/-- Only Safe Mode is let through to the audit and to the configuration. -/
theorem safeMode_of_isAuthorized {safeModeActive : Bool} {ctx : CallerContext} {op : Operation} (hop : op = .readAudit ∨ op = .configure)
    (h : isAuthorized safeModeActive ctx op = true) : safeModeActive = true ∧ ctx = .safeMode := by
  rcases hop with rfl | rfl
  all_goals
    cases ctx with
    | safeMode => exact ⟨h, rfl⟩
    | _ => cases h

/-- The arguments of a call of `gate`. -/
structure Probe where
  ctx : CallerContext
  op : Operation
  actorId : Text
  timestamp : UInt64
  audit : Bool
  deriving DecidableEq

namespace Probe

/-- The answer. -/
def verdict (safeModeActive : Bool) (q : Probe) : Except InvisibleError Unit :=
  if isAuthorized safeModeActive q.ctx q.op then .ok ()
  else if q.ctx = .agent then .error .notPresent
  else .error (.forbidden (opName q.op))

/-- The record of a denied agent, when it passes the trail. -/
def call? (safeModeActive : Bool) (q : Probe) : Option AuditTrail.Call :=
  if q.ctx = .agent ∧ q.audit = true ∧ isAuthorized safeModeActive q.ctx q.op = false then
    some ⟨q.timestamp, q.actorId, "invisible_probe", opName q.op⟩
  else none

end Probe

/-- Calls of `gate` one after another, with their answers. -/
def gateAll (safeModeActive : Bool) : List Probe → SharedM (List (Except InvisibleError Unit))
  | [] => .ret []
  | q :: probes => do
    let r ← gate safeModeActive q.ctx q.op q.actorId q.timestamp q.audit
    let rs ← gateAll safeModeActive probes
    .ret (r :: rs)

/-- Records one after another, and then a result that is fixed beforehand. -/
def recordThen {β : Type} (calls : List AuditTrail.Call) (result : β) : SharedM β :=
  match calls with
  | [] => .ret result
  | call :: calls => .call (.record call.timestamp call.actor call.action call.target) fun _ => recordThen calls result

/-- Records after records are the records of both. -/
theorem recordThen_bind {β γ : Type} (calls : List AuditTrail.Call) (result : β) (calls' : List AuditTrail.Call) (f : β → γ) :
    (recordThen calls result >>= fun r => recordThen calls' (f r)) = recordThen (calls ++ calls') (f result) := by
  induction calls with
  | nil => rfl
  | cons call calls ih => exact congrArg _ (funext fun _ => ih)

/-- One call of `gate` records at most one probe and answers with what its arguments determine. -/
theorem gate_eq (safeModeActive : Bool) (q : Probe) :
    gate safeModeActive q.ctx q.op q.actorId q.timestamp q.audit =
      recordThen (q.call? safeModeActive).toList (q.verdict safeModeActive) := by
  unfold gate Probe.call? Probe.verdict
  cases isAuthorized safeModeActive q.ctx q.op with
  | true => simp [recordThen]
  | false =>
    by_cases hagent : q.ctx = .agent
    · cases haudit : q.audit <;> simp [hagent, recordThen]
    · simp [hagent, recordThen]

/-- So do any number of calls. -/
theorem gateAll_eq (safeModeActive : Bool) (probes : List Probe) :
    gateAll safeModeActive probes =
      recordThen (probes.filterMap (Probe.call? safeModeActive)) (probes.map (Probe.verdict safeModeActive)) := by
  induction probes with
  | nil => rfl
  | cons q probes ih =>
    have hrest : ∀ r, (gateAll safeModeActive probes >>= fun rs => Prog.ret (r :: rs)) =
        recordThen (probes.filterMap (Probe.call? safeModeActive)) (r :: probes.map (Probe.verdict safeModeActive)) := by
      intro r
      rw [ih]
      exact (recordThen_bind _ _ [] (r :: ·)).trans (by rw [List.append_nil])
    have hcalls : (q :: probes).filterMap (Probe.call? safeModeActive) =
        (q.call? safeModeActive).toList ++ probes.filterMap (Probe.call? safeModeActive) := by
      cases hq : q.call? safeModeActive <;> simp [hq]
    rw [gateAll, gate_eq, hcalls, List.map_cons]
    simp only [hrest]
    exact recordThen_bind _ _ _ (· :: probes.map (Probe.verdict safeModeActive))

/-- Where a thread is in its records. -/
theorem path_recordThen {β : Type} {calls : List AuditTrail.Call} {result : β} {l : List (Answered Method Method.Answer)} {p : SharedM β}
    (path : Path (recordThen calls result) l p) :
    ∃ post, calls = l.filterMap (·.1.record?) ++ post ∧ p = recordThen post result ∧ ∀ a ∈ l, a.1.record?.isSome := by
  induction path with
  | nil => exact ⟨calls, rfl, rfl, by simp⟩
  | @concat c next l r path ih =>
    obtain ⟨post, hcalls, hp, hl⟩ := ih
    cases post with
    | nil => cases hp
    | cons call post =>
      cases hp
      refine ⟨post, ?_, rfl, ?_⟩
      · rw [hcalls, List.filterMap_append]
        simp [Method.record?]
      · refine List.forall_mem_append.mpr ⟨hl, ?_⟩
        simp [Method.record?]

variable {ι : Type}

/-- The records of a thread are those among its calls. -/
theorem records_filter [DecidableEq ι] (h : SharedHistory ι) (i : ι) :
    records (h.filter (·.1 = i)) = ((h.filter (·.1 = i)).map (·.2)).filterMap (·.1.record?) := by
  rw [records, List.filterMap_map]
  rfl

/-- A thread calls `gate` again and again, whatever the other threads do with the Sentinel and however the accesses interleave. Of its calls
those of denied agents that pass the trail are recorded, each once and in order, and the thread does nothing else to the Sentinel; the trail
is intact whenever it is not being written to. When the thread is done all of them are recorded, and the answers are those that its
arguments determine. The gate lets an agent through to nothing but the handshake, and its error is the one that every number without a
system call has. And it lets only Safe Mode, in a kernel that is built for it, through to the audit trail and the configuration. -/
theorem probes_recorded_unseen [DecidableEq ι] (safeModeActive : Bool) (programs : ι → SharedM (List (Except InvisibleError Unit)))
    (evs : List (SpinLock.Event ι shared (List (Except InvisibleError Unit)))) (s : State ι shared (List (Except InvisibleError Unit)))
    (run : SharedRun programs evs s) (i : ι) (probes : List Probe) (hprogram : programs i = gateAll safeModeActive probes) :
    (∃ post, probes.filterMap (Probe.call? safeModeActive) = records ((completed evs).filter (·.1 = i)) ++ post ∧
      ∀ results, (s.threads i).program = .ret results → post = [] ∧ results = probes.map (Probe.verdict safeModeActive)) ∧
    (∀ e ∈ completed evs, e.1 = i → e.2.1.record?.isSome) ∧
    (s.locked .audit = false → s.value .audit = AuditTrail.recordAll (records (completed evs)) ∧
      AuditTrail.verify (s.value .audit) = .ok (records (completed evs)).length) ∧
    (∀ q ∈ probes, q.ctx = .agent → q.op ≠ .handshake → q.verdict safeModeActive = .error .notPresent) ∧
    (∀ (σ : Type) (hooks : Syscall.Hooks σ) (nr : UInt64) (args : Syscall.Args) (st : σ), nr.toNat ∉ Syscall.implemented →
      Syscall.syscallDispatch (Syscall.Table.new.init hooks) nr args st = (some (-InvisibleError.notPresent.toErrno), st)) ∧
    ∀ q ∈ probes, q.op = .readAudit ∨ q.op = .configure → q.verdict safeModeActive = .ok () →
      safeModeActive = true ∧ q.ctx = .safeMode := by
  have path := SpinLock.Run.path run i
  rw [hprogram, gateAll_eq] at path
  obtain ⟨post, hcalls, hp, hl⟩ := path_recordThen path
  obtain ⟨-, hfree⟩ := sequential_of_run run
  refine ⟨⟨post, by rw [hcalls, records_filter], ?_⟩, ?_, ?_, ?_, ?_, ?_⟩
  · intro results hresults
    rw [hresults] at hp
    cases post with
    | nil =>
      cases hp
      exact ⟨rfl, rfl⟩
    | cons call post => cases hp
  · intro e he hi
    exact hl e.2 (List.mem_map_of_mem (List.mem_filter.mpr ⟨he, by simpa using hi⟩))
  · intro hlock
    have hvalue := (hfree .audit hlock).trans (replay_audit _)
    exact ⟨hvalue, by rw [hvalue, AuditTrail.verify_recordAll]⟩
  · intro q _ hagent hop
    have hdenied : isAuthorized safeModeActive q.ctx q.op = false := by rw [hagent, isAuthorized_agent hop]
    rw [Probe.verdict, hdenied, if_neg Bool.false_ne_true, if_pos hagent]
  · intro σ hooks nr args st hnr
    rw [Syscall.syscallDispatch_eq, Syscall.handlerOf_eq_enosys hnr]
    rfl
  · intro q _ hop hok
    unfold Probe.verdict at hok
    split_ifs at hok with hauthorized
    exact safeMode_of_isAuthorized hop hauthorized

/-- An agent that asks for the status. -/
def statusProbe : Probe := ⟨.agent, .readStatus, "agent-7", 100, true⟩

/-- The other thread has verified the trail before. -/
theorem probes_recorded_unseen_status :
    ∃ (evs : List (SpinLock.Event (Fin 2) shared (List (Except InvisibleError Unit))))
      (s : State (Fin 2) shared (List (Except InvisibleError Unit))),
      SharedRun (fun i => if i = 0 then gateAll false [statusProbe] else .call .verify fun _ => .ret []) evs s ∧
      AuditTrail.verify (s.value .audit) = .ok 1 := by
  obtain ⟨evs, run, hcompleted⟩ :=
    ((reached_nil fun i : Fin 2 => if i = 0 then gateAll false [statusProbe] else .call .verify fun _ => .ret []).turn 1 rfl).turn 0 rfl
  obtain ⟨-, -, hfree, -⟩ := probes_recorded_unseen false _ evs _ run 0 [statusProbe] rfl
  refine ⟨evs, _, run, (hfree rfl).2.trans ?_⟩
  rw [hcompleted]
  rfl

end Sentinel

end GolemKernel
