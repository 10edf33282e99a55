import GolemKernel.Lemmas.Shared
import GolemKernel.Theorems.Window

/-!
# The Sentinel under concurrency

Any number of threads use the audit trail, the monitor and the registry, and their accesses interleave in any order. What they see is what
they would see if each method were made at once, in the order in which the locks are given back (`sentinel_linearizable`). So the audit
chain verifies at every moment and counts every record (`audit_survives_interleaving`), and an agent id is granted again only after it was
given up (`registration_exclusive`). A tier of the monitor is what one configuration makes of the scores, although `observe` copies the
configuration under another lock (`tier_of_one_configuration`).
-/

namespace GolemKernel

namespace Sentinel

open Text Concurrent SpinLock

variable {ι : Type} {α : Type}

/-- The interleavings of the threads, from the values at boot. -/
abbrev SharedRun [DecidableEq ι] (programs : ι → SharedM α) : List (SpinLock.Event ι shared α) → State ι shared α → Prop :=
  SpinLock.Run (State.init shared programs sharedBoot)

abbrev SharedHistory (ι : Type) : Type := History ι Method Method.Answer

/-- The values after methods made one after another. -/
def replay (h : SharedHistory ι) : (l : Lock) → l.Value :=
  h.foldl (fun x e => Function.update x e.2.1.lock (e.2.1.whole (x e.2.1.lock)).2) sharedBoot

/-- The last call changes the value behind its lock. -/
theorem replay_concat (h : SharedHistory ι) (e : ι × Answered Method Method.Answer) :
    replay (h ++ [e]) = Function.update (replay h) e.2.1.lock (e.2.1.whole (replay h e.2.1.lock)).2 := by
  simp [replay]

/-- Every answer is that of its method after the methods before it. -/
def Sequential (h : SharedHistory ι) : Prop :=
  ∀ pre i a post, h = pre ++ (i, a) :: post → a.2 = (a.1.whole (replay pre a.1.lock)).1

/-- One more call is answered as it is on what the calls before have left. -/
theorem Sequential.concat {h : SharedHistory ι} (hseq : Sequential h) {i : ι} {a : Answered Method Method.Answer}
    (ha : a.2 = (a.1.whole (replay h a.1.lock)).1) : Sequential (h ++ [(i, a)]) := by
  intro pre j b post heq
  rcases List.eq_nil_or_concat post with rfl | ⟨post, x, rfl⟩
  · obtain ⟨rfl, hlast⟩ := List.append_inj' heq rfl
    cases hlast
    exact ha
  · rw [List.concat_eq_append, ← List.cons_append, ← List.append_assoc] at heq
    exact hseq pre j b post (List.append_inj' heq rfl).1

/-- The beginning of such a history is one. -/
theorem Sequential.of_append {h h' : SharedHistory ι} (hseq : Sequential (h ++ h')) : Sequential h := by
  intro pre i a post heq
  exact hseq pre i a (post ++ h') (by rw [heq, List.append_assoc, List.cons_append])

/-- Methods that were made one after another. -/
theorem sequential_of_run [DecidableEq ι] {evs : List (SpinLock.Event ι shared α)} {s : State ι shared α} {programs : ι → SharedM α}
    (run : SharedRun programs evs s) :
    Sequential (completed evs) ∧ ∀ l, s.locked l = false → s.value l = replay (completed evs) l := by
  have hkeeps : ∀ (h : SharedHistory ι) x i c r x', (x = replay h ∧ Sequential h) → shared.exec c x = some (r, x') →
      x' = replay (h ++ [(i, ⟨c, r⟩)]) ∧ Sequential (h ++ [(i, ⟨c, r⟩)]) := by
    rintro h x i c r x' ⟨rfl, hseq⟩ hexec
    rw [Method.exec_eq] at hexec
    obtain ⟨rfl, rfl⟩ := Prod.mk.inj (Option.some.inj hexec)
    exact ⟨(replay_concat h (i, ⟨c, _⟩)).symm, hseq.concat rfl⟩
  have hinit : Sequential ([] : SharedHistory ι) := by
    intro pre i a post heq
    simp at heq
  obtain ⟨x, ⟨hreplay, hseq⟩, hfree⟩ := SpinLock.Run.invariant ⟨rfl, hinit⟩ hkeeps run
  refine ⟨hseq, ?_⟩
  intro l hl
  rw [← hreplay, hfree l hl]

/-- The methods can be made one after another, and then the threads are here. -/
def Reached [DecidableEq ι] (programs : ι → SharedM α) (h : SharedHistory ι) (now : ι → SharedM α) : Prop :=
  ∃ evs, SharedRun programs evs (State.init shared now (replay h)) ∧ completed evs = h

/-- Before the first call. -/
theorem reached_nil [DecidableEq ι] (programs : ι → SharedM α) : Reached programs [] programs := ⟨[], .nil, rfl⟩

/-- A thread at a call makes it. -/
theorem Reached.turn [DecidableEq ι] {programs now : ι → SharedM α} {h : SharedHistory ι} (reached : Reached programs h now) (i : ι)
    {c : Method} {next : c.Answer → SharedM α} (hcall : now i = .call c next) :
    Reached programs (h ++ [(i, ⟨c, (c.whole (replay h c.lock)).1⟩)])
      (Function.update now i (next (c.whole (replay h c.lock)).1)) := by
  obtain ⟨evs, run, hcompleted⟩ := reached
  obtain ⟨evs', run', hcompleted'⟩ := exists_run_turn hcall (Method.exec_eq c (replay h))
  refine ⟨evs ++ evs', ?_, by rw [completed_append, hcompleted, hcompleted']⟩
  rw [replay_concat]
  exact run.append run'

/-- Every interleaving of accesses is a sequence of whole methods. At every moment no two threads are in methods behind the same lock; the
answer of every method that is done is the one it gives after the methods whose locks were given back before; the values behind the
locks that are free are those the methods leave; and every thread at a method can complete it. -/
theorem sentinel_linearizable [DecidableEq ι] (programs : ι → SharedM α) (evs : List (SpinLock.Event ι shared α)) (s : State ι shared α)
    (run : SharedRun programs evs s) :
    (∀ i j l, (s.threads i).holds? = some l → (s.threads j).holds? = some l → i = j) ∧
    (∀ l, s.locked l = true ↔ ∃ i, (s.threads i).holds? = some l) ∧
    (∀ pre i a post, completed evs = pre ++ (i, a) :: post → a.2 = (a.1.whole (replay pre a.1.lock)).1) ∧
    (∀ l, s.locked l = false → s.value l = replay (completed evs) l) ∧
    ∀ i c next, (s.threads i).program = .call c next →
      ∃ evs' s' r, SharedRun programs (evs ++ evs') s' ∧ (i, ⟨c, r⟩) ∈ completed evs' ∧ s'.threads i = .outside (next r) := by
  obtain ⟨evs₁, cfg, -, -, hrefines⟩ := SpinLock.Run.refines run (refines_init (g := shared) programs sharedBoot)
  obtain ⟨hseq, hfree⟩ := sequential_of_run run
  refine ⟨hrefines.holder_unique, hrefines.locked_iff, hseq, hfree, ?_⟩
  intro i c next hprogram
  have htotal : ∀ (c : Method) x, (shared.exec c x).isSome := fun c x => by rw [Method.exec_eq]; rfl
  obtain ⟨evs', s', r, run', hdone, hthread⟩ := exists_run_call htotal hrefines hprogram
  exact ⟨evs', s', r, run.append run', hdone, hthread⟩

/-- Two threads that record, one after the other. -/
theorem sentinel_linearizable_two : ∃ (evs : List (SpinLock.Event (Fin 2) shared Unit)) (s : State (Fin 2) shared Unit),
    SharedRun (fun _ => .call (.record 7 ['a'] ['b'] ['c']) fun _ => .ret ()) evs s ∧ (completed evs).map (·.1) = [0, 1] ∧
      ∀ pre i a post, completed evs = pre ++ (i, a) :: post → a.2 = (a.1.whole (replay pre a.1.lock)).1 := by
  obtain ⟨evs, run, hcompleted⟩ :=
    ((reached_nil fun _ => .call (.record 7 ['a'] ['b'] ['c']) fun _ => .ret ()).turn (0 : Fin 2) rfl).turn 1 rfl
  refine ⟨evs, _, run, by simp [hcompleted], ?_⟩
  exact (sentinel_linearizable _ evs _ run).2.2.1

/-! ## The audit trail -/

/-- The arguments of a method that records. -/
def Method.record? : Method → Option AuditTrail.Call
  | record timestamp actor action target => some ⟨timestamp, actor, action, target⟩
  | _ => none

/-- Nothing but `record` changes the trail. -/
theorem Method.audit_of_record?_none {c : Method} (hc : c.record? = none) (x : (l : Lock) → l.Value) :
    Function.update x c.lock (c.whole (x c.lock)).2 .audit = x .audit := by
  cases c with
  | record => cases hc
  | _ => rfl

/-- The calls of `record`, in the order of a history. -/
def records (h : SharedHistory ι) : List AuditTrail.Call := h.filterMap fun e => e.2.1.record?

/-- The trail is what the records have made. -/
theorem replay_audit (h : SharedHistory ι) : replay h .audit = AuditTrail.recordAll (records h) := by
  induction h using List.reverseRecOn with
  | nil => rfl
  | append_singleton h e ih =>
    cases hc : e.2.1.record? with
    | none =>
      rw [replay_concat, Method.audit_of_record?_none hc, ih]
      simp [records, hc]
    | some call =>
      have hrecords : records (h ++ [e]) = records h ++ [call] := by simp [records, hc]
      obtain ⟨i, ⟨c, r⟩⟩ := e
      cases c with
      | record timestamp actor action target =>
        cases hc
        rw [replay_concat, hrecords, AuditTrail.recordAll_concat, ← ih]
        rfl
      | _ => cases hc

/-- Whatever the interleaving: each record gets the hash of its own entry, each `verify` finds the chain intact and counts the records
made before it, and so do `snapshot`, `len` and `is_empty`; and when the lock is free the chain has one entry for each record that is
done, in the order in which the lock was given back. -/
theorem audit_survives_interleaving [DecidableEq ι] (programs : ι → SharedM α) (evs : List (SpinLock.Event ι shared α)) (s : State ι shared α)
    (run : SharedRun programs evs s) :
    (∀ pre i timestamp actor action target hash post,
      completed evs = pre ++ (i, ⟨.record timestamp actor action target, hash⟩) :: post →
        hash = ((AuditTrail.recordAll (records pre)).record timestamp actor action target).1) ∧
    (∀ pre i answer post, completed evs = pre ++ (i, ⟨.verify, answer⟩) :: post → answer = .ok (records pre).length) ∧
    (∀ pre i entries post, completed evs = pre ++ (i, ⟨.snapshot, entries⟩) :: post →
      entries = (AuditTrail.recordAll (records pre)).entries) ∧
    (∀ pre i n post, completed evs = pre ++ (i, ⟨.len, n⟩) :: post → n = (records pre).length) ∧
    (∀ pre i b post, completed evs = pre ++ (i, ⟨.isEmpty, b⟩) :: post → (b = true ↔ records pre = [])) ∧
    (s.locked .audit = false → s.value .audit = AuditTrail.recordAll (records (completed evs)) ∧
      AuditTrail.verify (s.value .audit) = .ok (records (completed evs)).length) := by
  obtain ⟨hseq, hfree⟩ := sequential_of_run run
  refine ⟨?_, ?_, ?_, ?_, ?_, ?_⟩
  · intro pre i timestamp actor action target hash post heq
    rw [← replay_audit]
    exact hseq pre i _ post heq
  · intro pre i answer post heq
    rw [← AuditTrail.verify_recordAll, ← replay_audit]
    exact hseq pre i _ post heq
  · intro pre i entries post heq
    rw [← replay_audit]
    exact hseq pre i _ post heq
  · intro pre i n post heq
    rw [← AuditTrail.length_recordAll, ← replay_audit]
    exact hseq pre i _ post heq
  · intro pre i b post heq
    have hb : b = ((AuditTrail.entries (replay pre .audit)).length == 0) := hseq pre i _ post heq
    rw [hb, replay_audit, AuditTrail.length_recordAll, beq_iff_eq, List.length_eq_zero_iff]
  · intro hlock
    have hvalue := (hfree .audit hlock).trans (replay_audit _)
    exact ⟨hvalue, by rw [hvalue, AuditTrail.verify_recordAll]⟩

/-- Two threads record and a third verifies. -/
theorem audit_survives_interleaving_three : ∃ (evs : List (SpinLock.Event (Fin 3) shared Unit)) (s : State (Fin 3) shared Unit),
    SharedRun (fun i => if i = 2 then .call .verify fun _ => .ret () else .call (.record 7 ['a'] ['b'] ['c']) fun _ => .ret ()) evs s ∧
      (2, ⟨.verify, .ok 2⟩) ∈ completed evs := by
  obtain ⟨evs, run, hcompleted⟩ :=
    (((reached_nil fun i => if i = 2 then .call .verify fun _ => .ret () else .call (.record 7 ['a'] ['b'] ['c']) fun _ => .ret ()).turn
      (0 : Fin 3) rfl).turn 1 rfl).turn 2 rfl
  refine ⟨evs, _, run, ?_⟩
  have hverify := (audit_survives_interleaving _ evs _ run).2.1 _ 2 _ [] hcompleted
  rw [hcompleted, hverify]
  exact List.mem_append_right _ List.mem_cons_self

/-! ## The registry -/

/-- The id that a method registered. -/
def granted? : Answered Method Method.Answer → Option String
  | ⟨.register req _, .ok _⟩ => some req.agentId
  | _ => none

/-- The id that a method gave up. -/
def released? : Answered Method Method.Answer → Option String
  | ⟨.deregister agentId, true⟩ => some agentId
  | _ => none

/-- There is a record of the agent after these methods. -/
def Registered (h : SharedHistory ι) (agentId : String) : Prop := agentId ∈ Registry.inner (replay h .registry)

/-- A change of a record registers nobody. -/
theorem mem_update (r : Registry) (agentId k : String) (f : AgentRecord → AgentRecord) :
    k ∈ (r.update agentId f).2.inner ↔ k ∈ r.inner := Std.ExtTreeMap.mem_modify

/-- A grant is for an agent that is not registered, and registers it. -/
theorem registered_of_granted {h : SharedHistory ι} {e : ι × Answered Method Method.Answer} {agentId : String}
    (hseq : e.2.2 = (e.2.1.whole (replay h e.2.1.lock)).1) (hgranted : granted? e.2 = some agentId) :
    ¬Registered h agentId ∧ Registered (h ++ [e]) agentId := by
  obtain ⟨i, ⟨c, r⟩⟩ := e
  cases c with
  | register req now =>
    have hr : r = (Registry.registerValid (replay h .registry) req now).1 := hseq
    have hafter : replay (h ++ [(i, ⟨.register req now, r⟩)]) .registry = (Registry.registerValid (replay h .registry) req now).2 := by
      rw [replay_concat]
      rfl
    rw [Registered, Registered, hafter]
    rw [Registry.registerValid] at hr ⊢
    split at hr
    · subst hr
      cases hgranted
    · rename_i hnew
      subst hr
      cases hgranted
      rw [if_neg hnew]
      exact ⟨hnew, by simp⟩
  | _ => cases hgranted

/-- An agent stays registered until it is released. -/
theorem registered_of_not_released {h : SharedHistory ι} {e : ι × Answered Method Method.Answer} {agentId : String}
    (hseq : e.2.2 = (e.2.1.whole (replay h e.2.1.lock)).1) (hreleased : released? e.2 ≠ some agentId)
    (hregistered : Registered h agentId) : Registered (h ++ [e]) agentId := by
  obtain ⟨i, ⟨c, r⟩⟩ := e
  rw [Registered, replay_concat]
  cases c with
  | register req now =>
    show agentId ∈ (Registry.registerValid (replay h .registry) req now).2.inner
    rw [Registry.registerValid]
    split
    · exact hregistered
    · exact Std.ExtTreeMap.mem_insert.mpr (.inr hregistered)
  | heartbeat id now => exact (mem_update _ _ _ _).mpr hregistered
  | setTier id tier => exact (mem_update _ _ _ _).mpr hregistered
  | lockAgent id => exact (mem_update _ _ _ _).mpr hregistered
  | deregister id =>
    have hr : r = (Registry.inner (replay h .registry))[id]?.isSome := hseq
    have hne : id ≠ agentId := by
      rintro rfl
      have hsome : r = true := by
        rw [hr, Std.ExtTreeMap.isSome_getElem?_eq_contains]
        exact Std.ExtTreeMap.contains_iff_mem.mpr hregistered
      subst hsome
      exact hreleased rfl
    exact Std.ExtTreeMap.mem_erase.mpr ⟨by simpa using hne, hregistered⟩
  | _ => exact hregistered

/-- A registered agent stays registered while nobody gives it up. -/
theorem registered_append {h h' : SharedHistory ι} {agentId : String} (hseq : Sequential (h ++ h')) (hregistered : Registered h agentId)
    (hkept : ∀ d ∈ h', released? d.2 ≠ some agentId) : Registered (h ++ h') agentId := by
  induction h' using List.reverseRecOn with
  | nil => rwa [List.append_nil]
  | append_singleton h' d ih =>
    rw [← List.append_assoc] at hseq ⊢
    have hbefore := ih hseq.of_append fun d' hd' => hkept d' (List.mem_append_left _ hd')
    exact registered_of_not_released (hseq (h ++ h') d.1 d.2 [] rfl) (hkept d (by simp)) hbefore

/-- Whatever the interleaving, between two grants of an agent id somebody gave it up; and from a grant on until then every look at the
registry finds the agent. -/
theorem registration_exclusive [DecidableEq ι] (programs : ι → SharedM α) (evs : List (SpinLock.Event ι shared α)) (s : State ι shared α)
    (run : SharedRun programs evs s) (agentId : String) :
    (∀ h₁ e h₂ e' h₃, completed evs = h₁ ++ e :: (h₂ ++ e' :: h₃) → granted? e.2 = some agentId → granted? e'.2 = some agentId →
      ∃ d ∈ h₂, released? d.2 = some agentId) ∧
    (∀ h₁ e h₂ i rec h₃, completed evs = h₁ ++ e :: (h₂ ++ (i, ⟨.get agentId, rec⟩) :: h₃) → granted? e.2 = some agentId →
      (∀ d ∈ h₂, released? d.2 ≠ some agentId) → ∃ r, rec = some r) ∧
    ∀ h₁ e h₂, completed evs = h₁ ++ e :: h₂ → granted? e.2 = some agentId → (∀ d ∈ h₂, released? d.2 ≠ some agentId) →
      s.locked .registry = false → agentId ∈ Registry.inner (s.value .registry) := by
  obtain ⟨hseq, hfree⟩ := sequential_of_run run
  -- from a grant on, without a release
  have hstays : ∀ h₁ e h₂ h₃, completed evs = h₁ ++ e :: (h₂ ++ h₃) → granted? e.2 = some agentId →
      (∀ d ∈ h₂, released? d.2 ≠ some agentId) → Registered (h₁ ++ [e] ++ h₂) agentId := by
    intro h₁ e h₂ h₃ heq hgranted hkept
    have hwhole : Sequential ((h₁ ++ [e] ++ h₂) ++ h₃) := by simpa [heq] using hseq
    exact registered_append hwhole.of_append (registered_of_granted (hseq h₁ e.1 e.2 _ heq) hgranted).2 hkept
  refine ⟨?_, ?_, ?_⟩
  · intro h₁ e h₂ e' h₃ heq hgranted hgranted'
    by_contra hnone
    push Not at hnone
    have hsplit : completed evs = (h₁ ++ [e] ++ h₂) ++ e' :: h₃ := by simpa using heq
    exact (registered_of_granted (hseq _ e'.1 e'.2 h₃ hsplit) hgranted').1 (hstays h₁ e h₂ _ heq hgranted hnone)
  · intro h₁ e h₂ i rec h₃ heq hgranted hkept
    have hsplit : completed evs = (h₁ ++ [e] ++ h₂) ++ (i, ⟨.get agentId, rec⟩) :: h₃ := by simpa using heq
    have hrec : rec = (Registry.inner (replay (h₁ ++ [e] ++ h₂) .registry))[agentId]? := hseq _ i _ h₃ hsplit
    have hregistered := hstays h₁ e h₂ _ heq hgranted hkept
    exact ⟨_, hrec.trans (Std.ExtTreeMap.getElem?_eq_some_getElem hregistered)⟩
  · intro h₁ e h₂ heq hgranted hkept hlock
    have hregistered := hstays h₁ e h₂ [] (by simpa using heq) hgranted hkept
    have hall : completed evs = h₁ ++ [e] ++ h₂ := by simpa using heq
    rw [hfree .registry hlock, hall]
    exact hregistered

/-- Two threads register the same id, and the second is refused. -/
theorem registration_exclusive_two : ∃ (evs : List (SpinLock.Event (Fin 2) shared Unit)) (s : State (Fin 2) shared Unit)
    (h : SharedHistory (Fin 2)) (r : Except HandshakeError AgentRecord),
    SharedRun (fun _ => .call (.register ⟨"a", .readOnly, 30⟩ 0) fun _ => .ret ()) evs s ∧
      completed evs = h ++ [(1, ⟨.register ⟨"a", .readOnly, 30⟩ 0, r⟩)] ∧ ∀ rec, r ≠ .ok rec := by
  obtain ⟨evs, run, hcompleted⟩ :=
    ((reached_nil fun _ => .call (.register ⟨"a", .readOnly, 30⟩ 0) fun _ => .ret ()).turn (0 : Fin 2) rfl).turn 1 rfl
  refine ⟨evs, _, _, _, run, hcompleted, ?_⟩
  intro rec hok
  rw [hok] at hcompleted
  obtain ⟨d, hd, -⟩ := (registration_exclusive _ evs _ run "a").1 [] _ [] _ [] hcompleted rfl rfl
  simp at hd

/-! ## The monitor -/

/-- The configuration that a method goes by. -/
def Method.config? : Method → Option Thresholds
  | observeWith cfg _ _ | recordSignalWith cfg _ _ _ => some cfg
  | _ => none

def Method.setThresholds? : Method → Option Thresholds
  | setThresholds t => some t
  | _ => none

def Method.observed? (agentId : String) : Method → Option Observation
  | observeWith _ id obs => if id = agentId then some obs else none
  | _ => none

/-- The configurations that have been in force. -/
def configs (h : SharedHistory ι) : List Thresholds := .defaultConfig :: h.filterMap fun e => e.2.1.setThresholds?

/-- What was observed of an agent, in the order of a history. -/
def observed (h : SharedHistory ι) (agentId : String) : List Observation := h.filterMap fun e => e.2.1.observed? agentId

/-- The programs that use the monitor by its own operations: a configuration that they go by is one they have read. -/
inductive Monitored : SharedM α → Prop
  | ret (a : α) : Monitored (.ret a)
  | observe (agentId : String) (obs : Observation) {next : ResponseTier → SharedM α} (rest : ∀ tier, Monitored (next tier)) :
      Monitored (Monitor.observeProgram agentId obs >>= next)
  | recordSignal (agentId : String) (kind : SignalKind) (score : F32) {next : ResponseTier → SharedM α}
      (rest : ∀ tier, Monitored (next tier)) : Monitored (Monitor.recordSignalProgram agentId kind score >>= next)
  | other {c : Method} (hc : c.config? = none) {next : c.Answer → SharedM α} (rest : ∀ r, Monitored (next r)) : Monitored (.call c next)

/-- A thread between two methods: it is about to go by a configuration that was in force, if by any. -/
def Ready (h : SharedHistory ι) (p : SharedM α) : Prop :=
  Monitored p ∨ ∃ c next cfg, p = .call c next ∧ c.config? = some cfg ∧ cfg ∈ configs h ∧ ∀ r, Monitored (next r)

/-- The scores that are stored, as `tier_for` takes them. -/
def AgentBuffer.levelUnder (buf : AgentBuffer) (cfg : Thresholds) : ResponseTier :=
  tierFor (combine ((buf.last .repetitionScore).getD 0) ((buf.last .selfReferentialLoop).getD 0) ((buf.last .tokenVelocityStall).getD 0)
    ((buf.last .toolRetryAnomaly).getD 0) cfg.levels) cfg.levels

/-- The tier is what one configuration makes of the scores, and the observations are the latest, no more than fit a window that was in
force. -/
structure Consistent (h : SharedHistory ι) (agentId : String) (buf : AgentBuffer) : Prop where
  tier : ∃ cfg ∈ configs h, buf.tier = buf.levelUnder cfg
  window : ∃ cfg ∈ configs h, buf.observations.length ≤ cfg.window
  recent : buf.observations <:+ observed h agentId

/-- Configurations that have been in force stay among those that have. -/
theorem configs_append (h h' : SharedHistory ι) : configs h ⊆ configs (h ++ h') := by
  intro cfg hcfg
  rw [configs, List.filterMap_append, ← List.cons_append]
  exact List.mem_append_left _ hcfg

/-- The observations of an agent are those of both parts. -/
theorem observed_append (h h' : SharedHistory ι) (agentId : String) :
    observed (h ++ h') agentId = observed h agentId ++ observed h' agentId :=
  List.filterMap_append

/-- What a thread has copied has been in force, also later. -/
theorem Ready.append {h : SharedHistory ι} {p : SharedM α} (hp : Ready h p) (h' : SharedHistory ι) : Ready (h ++ h') p := by
  refine hp.imp_right ?_
  rintro ⟨c, next, cfg, rfl, hc, hcfg, hrest⟩
  exact ⟨c, next, cfg, rfl, hc, configs_append h h' hcfg, hrest⟩

/-- A thread goes on with the answer of a method. -/
theorem Ready.next {h : SharedHistory ι} {c : Method} {next : c.Answer → SharedM α} (hp : Ready h (.call c next))
    (hcfg : replay h .cfg ∈ configs h) : Ready h (next (c.whole (replay h c.lock)).1) := by
  rcases hp with hp | ⟨c', next', cfg, heq, -, -, hrest⟩
  · generalize hcall : (Prog.call c next : SharedM α) = p at hp
    cases hp with
    | ret a => cases hcall
    | observe agentId obs rest =>
      cases hcall
      exact .inr ⟨.observeWith (replay h .cfg) agentId obs, _, _, rfl, rfl, hcfg, rest⟩
    | recordSignal agentId kind score rest =>
      cases hcall
      exact .inr ⟨.recordSignalWith (replay h .cfg) agentId kind score, _, _, rfl, rfl, hcfg, rest⟩
    | other hc rest =>
      cases hcall
      exact .inl (rest _)
  · cases heq
    exact .inl (hrest _)

/-- A configuration that a thread goes by was in force. -/
theorem Ready.config {h : SharedHistory ι} {c : Method} {next : c.Answer → SharedM α} (hp : Ready h (.call c next)) {cfg : Thresholds}
    (hc : c.config? = some cfg) : cfg ∈ configs h := by
  rcases hp with hp | ⟨c', next', cfg', heq, hc', hcfg, -⟩
  · generalize hcall : (Prog.call c next : SharedM α) = p at hp
    cases hp with
    | ret a => cases hcall
    | observe agentId obs rest =>
      cases hcall
      cases hc
    | recordSignal agentId kind score rest =>
      cases hcall
      cases hc
    | other hnone rest =>
      cases hcall
      rw [hnone] at hc
      cases hc
  · cases heq
    cases hc'.symm.trans hc
    exact hcfg

/-- The configuration in force is one of those that have been. -/
theorem replay_cfg_mem (h : SharedHistory ι) : replay h .cfg ∈ configs h := by
  induction h using List.reverseRecOn with
  | nil => exact List.mem_cons_self
  | append_singleton h e ih =>
    have hbefore := configs_append h [e] ih
    obtain ⟨i, ⟨c, r⟩⟩ := e
    rw [replay_concat]
    cases c with
    | setThresholds t =>
      have hlast : configs (h ++ [(i, ⟨.setThresholds t, r⟩)]) = configs h ++ [t] := by
        rw [configs, List.filterMap_append, ← List.cons_append]
        rfl
      rw [hlast]
      exact List.mem_append_right _ List.mem_cons_self
    | _ => exact hbefore

/-- A call that adds no observation of the agent keeps its buffer consistent. -/
theorem Consistent.append {h : SharedHistory ι} {agentId : String} {buf : AgentBuffer} (hbuf : Consistent h agentId buf)
    (e : ι × Answered Method Method.Answer) (hobserved : e.2.1.observed? agentId = none) : Consistent (h ++ [e]) agentId buf := by
  obtain ⟨⟨cfg, hcfg, htier⟩, ⟨cfg', hcfg', hwindow⟩, hrecent⟩ := hbuf
  refine ⟨⟨cfg, configs_append h [e] hcfg, htier⟩, ⟨cfg', configs_append h [e] hcfg', hwindow⟩, ?_⟩
  rw [observed_append]
  simpa [observed, hobserved] using hrecent

/-- All buffers are consistent. -/
def AllConsistent (h : SharedHistory ι) (b : Buffers) : Prop := ∀ agentId buf, b[agentId]? = some buf → Consistent h agentId buf

/-- A new buffer holds nothing. -/
theorem AllConsistent.recent_buffer {h : SharedHistory ι} {b : Buffers} (hb : AllConsistent h b) (agentId : String) :
    (b.buffer agentId).observations <:+ observed h agentId ∧ ∃ cfg ∈ configs h, (b.buffer agentId).observations.length ≤ cfg.window := by
  rw [Buffers.buffer]
  cases hbuf : b[agentId]? with
  | none => exact ⟨List.nil_suffix, _, List.mem_cons_self, Nat.zero_le _⟩
  | some buf => exact ⟨(hb agentId buf hbuf).recent, (hb agentId buf hbuf).window⟩

/-- A call that changes one buffer keeps the others consistent. -/
theorem AllConsistent.update {h : SharedHistory ι} {b : Buffers} (hb : AllConsistent h b) {e : ι × Answered Method Method.Answer}
    {agentId : String} {buf : AgentBuffer} (hother : ∀ id, id ≠ agentId → e.2.1.observed? id = none)
    (hbuf : Consistent (h ++ [e]) agentId buf) : AllConsistent (h ++ [e]) (b.insert agentId buf) := by
  intro id buf' hget
  by_cases hid : id = agentId
  · subst hid
    rw [Std.ExtTreeMap.getElem?_insert_self] at hget
    cases hget
    exact hbuf
  · rw [Std.ExtTreeMap.getElem?_insert, if_neg (by simpa using Ne.symm hid)] at hget
    exact (hb id buf' hget).append e (hother id hid)

/-- Every method keeps the buffers consistent, if it goes by a configuration that was in force. -/
theorem AllConsistent.method {h : SharedHistory ι} (hb : AllConsistent h (replay h .state)) {i : ι} {c : Method} {r : c.Answer}
    (hcfg : ∀ cfg, c.config? = some cfg → cfg ∈ configs h) :
    AllConsistent (h ++ [(i, ⟨c, r⟩)]) (replay (h ++ [(i, ⟨c, r⟩)]) .state) := by
  rw [replay_concat]
  cases c with
  | observeWith cfg agentId obs =>
    have hmem := configs_append h [(i, ⟨.observeWith cfg agentId obs, r⟩)] (hcfg cfg rfl)
    refine AllConsistent.update hb (fun id hid => if_neg (Ne.symm hid)) ⟨⟨cfg, hmem, rfl⟩, ⟨cfg, hmem, ?_⟩, ?_⟩
    · show (popFront cfg.window ((Buffers.buffer (replay h .state) agentId).observations ++ [obs])).length ≤ cfg.window
      rw [popFront_eq, List.length_drop]
      omega
    · have hobserved : observed (h ++ [(i, ⟨.observeWith cfg agentId obs, r⟩)]) agentId = observed h agentId ++ [obs] := by
        rw [observed_append]
        simp [observed, Method.observed?]
      show popFront cfg.window ((Buffers.buffer (replay h .state) agentId).observations ++ [obs]) <:+ _
      rw [popFront_eq, hobserved]
      exact (List.drop_suffix _ _).trans (List.suffix_append_self_iff.mpr (hb.recent_buffer agentId).1)
  | recordSignalWith cfg agentId kind score =>
    have hmem := configs_append h [(i, ⟨.recordSignalWith cfg agentId kind score, r⟩)] (hcfg cfg rfl)
    obtain ⟨hrecent, cfg', hcfg', hwindow⟩ := hb.recent_buffer agentId
    refine AllConsistent.update hb (fun _ _ => rfl) ⟨⟨cfg, hmem, rfl⟩, ⟨cfg', configs_append h _ hcfg', hwindow⟩, ?_⟩
    rw [observed_append]
    exact (List.append_nil (observed h agentId)).symm ▸ hrecent
  | forget agentId =>
    intro id buf hget
    have hold : (replay h .state : Buffers)[id]? = some buf := by
      have hget' : (Std.ExtTreeMap.erase (replay h .state : Buffers) agentId)[id]? = some buf := hget
      rw [Std.ExtTreeMap.getElem?_erase] at hget'
      split at hget'
      · cases hget'
      · exact hget'
    exact (hb id buf hold).append _ rfl
  | _ => exact fun id buf hget => (hb id buf hget).append _ rfl

/-- In a sequence of whole methods of such programs all buffers are consistent, at every moment. -/
theorem allConsistent_of_run [DecidableEq ι] {programs : ι → SharedM α} (hprograms : ∀ i, Monitored (programs i))
    {evs : List (Concurrent.Event ι Method Method.Answer α ((l : Lock) → l.Value))}
    {cfg : Config ι Method Method.Answer α ((l : Lock) → l.Value)}
    (run : Concurrent.Run shared.exec (programs, sharedBoot) evs cfg) :
    cfg.2 = replay (history evs) ∧ (∀ i, Ready (history evs) (cfg.1 i)) ∧
      ∀ pre, pre <+: history evs → AllConsistent pre (replay pre .state) := by
  induction run with
  | nil =>
    refine ⟨rfl, fun i => .inl (hprograms i), ?_⟩
    intro pre hpre id buf hget
    cases List.prefix_nil.mp hpre
    simp [replay, sharedBoot] at hget
  | @concat evs e _ taken ih =>
    obtain ⟨hvalue, hready, hconsistent⟩ := ih
    obtain ⟨next, x, hcall, hexec, hafter⟩ := eq_of_step taken.step
    rw [Method.exec_eq, hvalue] at hexec
    obtain ⟨hanswer, rfl⟩ := Prod.mk.inj (Option.some.inj hexec)
    have hturn := hready e.input
    rw [hcall] at hturn
    rw [hafter, history_concat]
    refine ⟨(replay_concat _ (e.input, e.output)).symm, ?_, ?_⟩
    · intro j
      by_cases hj : j = e.input
      · subst hj
        simp only [Function.update_self, ← hanswer]
        exact (hturn.next (replay_cfg_mem _)).append _
      · simp only [Function.update_of_ne hj]
        exact (hready j).append _
    · intro pre hpre
      rcases List.prefix_concat_iff.mp hpre with rfl | hbefore
      · exact (hconsistent _ (List.prefix_refl _)).method fun cfg hc => hturn.config hc
      · exact hconsistent pre hbefore

/-- Threads use the monitor by its own operations, and `set_thresholds` comes between the two locks of `observe` or anywhere else. Still the
tier of every agent is what one configuration, one that was in force, makes of the scores stored with it; its observations are the latest
ones, and no more than the window of a configuration that was in force; and what `scores` returns is consistent in the same way. -/
theorem tier_of_one_configuration [DecidableEq ι] (programs : ι → SharedM α) (hprograms : ∀ i, Monitored (programs i))
    (evs : List (SpinLock.Event ι shared α)) (s : State ι shared α) (run : SharedRun programs evs s) :
    (s.locked .state = false → ∀ agentId buf, (s.value .state : Buffers)[agentId]? = some buf →
      (∃ cfg ∈ configs (completed evs), buf.tier = buf.levelUnder cfg) ∧
        (∃ cfg ∈ configs (completed evs), buf.observations.length ≤ cfg.window) ∧ buf.observations <:+ observed (completed evs) agentId) ∧
    ∀ pre i agentId scores post, completed evs = pre ++ (i, ⟨.scores agentId, some scores⟩) :: post →
      ∃ cfg ∈ configs pre, scores.tier =
        tierFor (combine scores.repetition scores.selfReferential scores.tokenVelocity scores.toolRetry cfg.levels) cfg.levels := by
  obtain ⟨hseq, hfree⟩ := sequential_of_run run
  obtain ⟨evs', cfg, run', hhistory, -⟩ := SpinLock.Run.refines run (refines_init (g := shared) programs sharedBoot)
  obtain ⟨-, -, hconsistent⟩ := allConsistent_of_run hprograms run'
  rw [hhistory] at hconsistent
  refine ⟨?_, ?_⟩
  · intro hlock agentId buf hbuf
    rw [hfree .state hlock] at hbuf
    obtain ⟨htier, hwindow, hrecent⟩ := hconsistent _ (List.prefix_refl _) agentId buf hbuf
    exact ⟨htier, hwindow, hrecent⟩
  · intro pre i agentId scores post heq
    have hscores : some scores = Monitor.scores ⟨.defaultConfig, replay pre .state⟩ agentId := hseq pre i _ post heq
    rw [Monitor.scores] at hscores
    cases hbuf : (replay pre .state : Buffers)[agentId]? with
    | none =>
      rw [hbuf] at hscores
      cases hscores
    | some buf =>
      rw [hbuf] at hscores
      cases hscores
      exact (hconsistent pre (heq ▸ List.prefix_append _ _) agentId buf hbuf).tier

/-- Between the two locks of an observation another thread sets the thresholds. -/
theorem tier_of_one_configuration_two : ∃ (evs : List (SpinLock.Event (Fin 2) shared (Option SignalScores)))
    (s : State (Fin 2) shared (Option SignalScores)) (h : SharedHistory (Fin 2)) (scores : SignalScores),
    SharedRun (fun i => if i = 0 then Monitor.observeProgram "a" ⟨['h'], 3, false, none, true⟩ >>= fun _ => .call (.scores "a") .ret
      else .call (.setThresholds { Thresholds.defaultConfig with window := 1 }) fun _ => .ret none) evs s ∧
    completed evs = h ++ [(0, ⟨.scores "a", some scores⟩)] ∧ h.map (·.1) = [0, 1, 0] ∧
    ∃ cfg ∈ configs h, scores.tier =
      tierFor (combine scores.repetition scores.selfReferential scores.tokenVelocity scores.toolRetry cfg.levels) cfg.levels := by
  obtain ⟨evs, run, hcompleted⟩ := ((((reached_nil fun i : Fin 2 => if i = 0 then
      Monitor.observeProgram "a" ⟨['h'], 3, false, none, true⟩ >>= fun _ => .call (.scores "a") .ret
      else .call (.setThresholds { Thresholds.defaultConfig with window := 1 }) fun _ => .ret none).turn
        0 rfl).turn 1 rfl).turn 0 rfl).turn 0 rfl
  refine ⟨evs, _, _, _, run, hcompleted, rfl, (tier_of_one_configuration _ ?_ evs _ run).2 _ 0 "a" _ [] hcompleted⟩
  intro i
  split
  · exact .observe _ _ fun _ => .other rfl .ret
  · exact .other rfl fun _ => .ret none

end Sentinel

end GolemKernel
