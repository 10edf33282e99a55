import GolemKernel.Sentinel.Handshake

/-!
# The lock of an agent

The agents do not touch each other's records: what an operation does to the record of one agent depends on that record alone
(`get_step`). So the life of a record is a small machine of its own (`Op.onRecord`), and the registry runs one of them for each agent.

`register`, `heartbeat`, `lock` and `get` respect a lock. `set_tier` and `deregister` do not look at it (`locked_stays_locked_iff`).
-/

namespace GolemKernel

namespace Sentinel

namespace Registry

/-- What an operation does to the record of one agent, if there is one. -/
def Op.onRecord (agentId : String) : Op → Option AgentRecord → Option AgentRecord
  | .register req now, none => if req.agentId = agentId ∧ validate req = .ok () then some (req.record now) else none
  | .heartbeat id now, some rec => some (if id = agentId then { rec with lastHeartbeat := now } else rec)
  | .setTier id tier, some rec => some (if id = agentId then { rec with tier } else rec)
  | .lock id, some rec => some (if id = agentId then { rec with locked := true, tier := .readOnly } else rec)
  | .deregister id, some rec => if id = agentId then none else some rec
  | _, rec => rec

variable {r : Registry} {agentId : String}

theorem compare_ne_eq {a b : String} (h : a ≠ b) : compare a b ≠ .eq := by
  intro heq
  exact h (Std.LawfulEqOrd.eq_of_compare heq)

/-- A change of one record leaves the others. -/
theorem get_update (r : Registry) (id agentId : String) (f : AgentRecord → AgentRecord) :
    (r.update id f).2.get agentId = (r.get agentId).map fun rec => if id = agentId then f rec else rec := by
  simp only [update, get, Std.ExtTreeMap.getElem?_modify]
  by_cases h : id = agentId
  · subst h
    simp
  · simp [h, compare_ne_eq h]

/-- What `register` does to each record. -/
theorem get_register (r : Registry) (req : HandshakeRequest) (now : Nat) (agentId : String) :
    (r.register req now).2.get agentId = (Op.register req now).onRecord agentId (r.get agentId) := by
  by_cases hvalid : validate req = .ok ()
  · by_cases hid : req.agentId = agentId
    · subst hid
      cases hget : r.get req.agentId with
      | none =>
        have hvacant : req.agentId ∉ r.inner := by
          rw [Std.ExtTreeMap.mem_iff_isSome_getElem?, ← get, hget]
          simp
        simp [register, hvalid, hvacant, get, Op.onRecord]
      | some rec =>
        have htaken : req.agentId ∈ r.inner := by
          rw [Std.ExtTreeMap.mem_iff_isSome_getElem?, ← get, hget]
          rfl
        simp [register, hvalid, htaken, hget, Op.onRecord]
    · have hother : (r.register req now).2.get agentId = r.get agentId := by
        unfold register
        split
        · rfl
        · split
          · rfl
          · simp [get, Std.ExtTreeMap.getElem?_insert, compare_ne_eq hid]
      rw [hother]
      cases r.get agentId <;> simp [Op.onRecord, hid]
  · have hsame : (r.register req now).2 = r := by
      unfold register
      split
      · rfl
      · contradiction
    rw [hsame]
    cases r.get agentId <;> simp [Op.onRecord, hvalid]

/-- An operation acts on the record of each agent by itself. -/
theorem get_step (r : Registry) (op : Op) (agentId : String) : (r.step op).get agentId = op.onRecord agentId (r.get agentId) := by
  cases op with
  | register req now => exact get_register r req now agentId
  | heartbeat id now =>
    rw [step, heartbeat, get_update]
    cases r.get agentId <;> rfl
  | setTier id tier =>
    rw [step, setTier, get_update]
    cases r.get agentId <;> rfl
  | lock id =>
    rw [step, lock, get_update]
    cases r.get agentId <;> rfl
  | deregister id =>
    simp only [step, deregister, get, Std.ExtTreeMap.getElem?_erase]
    by_cases h : id = agentId
    · subst h
      cases r.inner[id]? <;> simp [Op.onRecord]
    · cases r.inner[agentId]? <;> simp [Op.onRecord, h, compare_ne_eq h]
  | get id => cases h : r.get agentId <;> simp [step, Op.onRecord, h]

/-! ## Once locked -/

/-- The record of a locked agent whose registration had this tier. -/
structure LockedAs (tier : PermissionTier) (rec : AgentRecord) : Prop where
  locked : rec.locked = true
  readOnly : rec.tier = .readOnly
  original : rec.originalTier = tier

/-- The operations a lock does not survive: the agent is deregistered, or given another tier. -/
def Op.Breaks (agentId : String) : Op → Prop
  | .setTier id tier => id = agentId ∧ tier ≠ .readOnly
  | .deregister id => id = agentId
  | _ => False

/-- An operation leaves the record of a locked agent locked exactly if it is not one of those. -/
theorem lockedAs_onRecord_iff {rec : AgentRecord} {tier : PermissionTier} (h : LockedAs tier rec) (op : Op) :
    (∃ rec', op.onRecord agentId (some rec) = some rec' ∧ LockedAs tier rec') ↔ ¬op.Breaks agentId := by
  obtain ⟨hlocked, htier, horiginal⟩ := h
  cases op with
  | register req now => simp [Op.onRecord, Op.Breaks, LockedAs.mk hlocked htier horiginal]
  | heartbeat id now =>
    refine ⟨fun _ hbreaks => hbreaks, fun _ => ⟨_, rfl, ?_⟩⟩
    split <;> exact ⟨hlocked, htier, horiginal⟩
  | setTier id new =>
    by_cases hid : id = agentId
    · constructor
      · rintro ⟨rec', hrec', hlocked'⟩ ⟨-, hnew⟩
        simp only [Op.onRecord, hid, if_true, Option.some.injEq] at hrec'
        exact hnew (by simpa [← hrec'] using hlocked'.readOnly)
      · intro hbreaks
        have hnew : new = .readOnly := by
          by_contra hne
          exact hbreaks ⟨hid, hne⟩
        exact ⟨_, rfl, by simp [hid, hnew, hlocked], by simp [hid, hnew], by simp [hid, horiginal]⟩
    · simp [Op.onRecord, Op.Breaks, hid, LockedAs.mk hlocked htier horiginal]
  | lock id =>
    refine ⟨fun _ hbreaks => hbreaks, fun _ => ⟨_, rfl, ?_⟩⟩
    split
    · exact ⟨rfl, rfl, horiginal⟩
    · exact ⟨hlocked, htier, horiginal⟩
  | deregister id =>
    by_cases hid : id = agentId
    · simp [Op.onRecord, Op.Breaks, hid]
    · simp [Op.onRecord, Op.Breaks, hid, LockedAs.mk hlocked htier horiginal]
  | get id => simp [Op.onRecord, Op.Breaks, LockedAs.mk hlocked htier horiginal]

/-- The agent has a record, locked, of a registration with this tier. -/
def Locked (r : Registry) (agentId : String) (tier : PermissionTier) : Prop := ∃ rec, r.get agentId = some rec ∧ LockedAs tier rec

/-- A call breaks a lock exactly if it deregisters the agent or sets another tier. -/
theorem locked_step_iff {tier : PermissionTier} (h : r.Locked agentId tier) (op : Op) :
    (r.step op).Locked agentId tier ↔ ¬op.Breaks agentId := by
  obtain ⟨rec, hget, hlocked⟩ := h
  rw [Locked, get_step, hget]
  exact lockedAs_onRecord_iff hlocked op

/-- An agent that is locked stays so all along a sequence of operations exactly if none of them breaks the lock. -/
theorem locked_run_iff {tier : PermissionTier} (h : r.Locked agentId tier) (ops : List Op) :
    (∀ later, later <+: ops → (later.foldl step r).Locked agentId tier) ↔ ∀ op ∈ ops, ¬op.Breaks agentId := by
  induction ops generalizing r with
  | nil => simp [h]
  | cons op ops ih =>
    rw [List.forall_mem_cons, ← locked_step_iff h op]
    constructor
    · intro hall
      have hstep := hall [op] (by simp)
      refine ⟨hstep, (ih hstep).mp ?_⟩
      intro later hlater
      exact hall (op :: later) (List.prefix_cons_inj op |>.mpr hlater)
    · rintro ⟨hstep, hops⟩ later hlater
      cases later with
      | nil => exact h
      | cons op' later =>
        obtain ⟨rfl, htail⟩ := List.cons_prefix_cons.mp hlater
        exact (ih hstep).mpr hops later htail

/-- The tier an operation registers the agent with, if it does. -/
def Op.registers (r : Registry) (agentId : String) : Op → Option PermissionTier
  | .register req now => if req.agentId = agentId ∧ (r.register req now).1.isOk then some req.tier else none
  | _ => none

/-- The tier of the first registration of an agent in a sequence of operations. -/
def firstTier (agentId : String) (r : Registry) : List Op → Option PermissionTier
  | [] => none
  | op :: ops => (op.registers r agentId).or (firstTier agentId (r.step op) ops)

theorem not_breaks_iff (op : Op) :
    ¬op.Breaks agentId ↔ op ≠ .deregister agentId ∧ ∀ tier, op = .setTier agentId tier → tier = .readOnly := by
  cases op <;> simp [Op.Breaks]

theorem run_append (before after : List Op) : run (before ++ after) = after.foldl step (run before) := List.foldl_append

/-- What `lock` leaves when it returns true. -/
theorem locked_lock (hlock : (r.lock agentId).1 = true) :
    ∃ rec, r.get agentId = some rec ∧ (r.step (.lock agentId)).Locked agentId rec.originalTier := by
  obtain ⟨rec, hget⟩ := Option.isSome_iff_exists.mp hlock
  refine ⟨rec, hget, { rec with locked := true, tier := .readOnly }, ?_, rfl, rfl, rfl⟩
  rw [get_step]
  simp [get, hget, Op.onRecord]

/-- For every sequence of operations in which `lock` of an agent returns true: after the lock and after every later operation the agent
has a record that is locked, with the tier `ReadOnly` and the first registration's tier as the original one, exactly if no later
operation deregisters the agent or gives it another tier than `ReadOnly`, and the registration in force when it was locked had the tier
of the first one. -/
theorem locked_stays_locked_iff (agentId : String) (before after : List Op) (hlock : ((run before).lock agentId).1 = true) :
    (∀ later, later <+: after → ∃ rec, (run (before ++ .lock agentId :: later)).get agentId = some rec ∧
      rec.locked = true ∧ rec.tier = .readOnly ∧ firstTier agentId new before = some rec.originalTier) ↔
    (∀ op ∈ after, op ≠ .deregister agentId ∧ ∀ tier, op = .setTier agentId tier → tier = .readOnly) ∧
      ((run before).get agentId).map (·.originalTier) = firstTier agentId new before := by
  obtain ⟨rec, hget, hlocked⟩ := locked_lock hlock
  have hbreaks := locked_run_iff hlocked after
  simp only [not_breaks_iff] at hbreaks
  simp only [run_append, List.foldl_cons, hget, Option.map_some]
  constructor
  · intro hall
    -- right after the lock the original tier is the one in force before it
    obtain ⟨rec', hget', -, -, hfirst⟩ := hall [] List.nil_prefix
    obtain ⟨rec'', hget'', hlocked''⟩ := hlocked
    have heq : rec' = rec'' := Option.some.inj (hget'.symm.trans hget'')
    rw [heq, hlocked''.original] at hfirst
    refine ⟨hbreaks.mp ?_, hfirst.symm⟩
    intro later hlater
    obtain ⟨found, hfound, hstays, hreadOnly, horiginal⟩ := hall later hlater
    exact ⟨found, hfound, hstays, hreadOnly, Option.some.inj (horiginal.symm.trans hfirst)⟩
  · rintro ⟨hops, hfirst⟩ later hlater
    obtain ⟨found, hfound, hstays, hreadOnly, horiginal⟩ := hbreaks.mpr hops later hlater
    exact ⟨found, hfound, hstays, hreadOnly, by rw [← hfirst, horiginal]⟩

/-- An agent that registered for `Write` access. -/
def writer : HandshakeRequest := ⟨"a1", .write, 30⟩

/-- The agent is locked; its tier is set again, and then it is deregistered and registers anew. -/
theorem lock_undone_by_setTier_and_deregister :
    ((run [.register writer 100]).lock "a1").1 = true ∧
    ((run [.register writer 100, .lock "a1", .setTier "a1" .execute]).get "a1").map (·.tier) = some .execute ∧
    (run [.register writer 100, .lock "a1", .deregister "a1"]).get "a1" = none ∧
    (run [.register writer 100, .lock "a1", .deregister "a1", .register writer 200]).get "a1" = some (writer.record 200) := by
  decide

theorem locked_stays_locked_iff_writer :
    ∃ rec, (run ([.register writer 100] ++ .lock "a1" :: [.heartbeat "a1" 110, .register writer 120])).get "a1" = some rec ∧
      rec.locked = true ∧ rec.tier = .readOnly ∧ firstTier "a1" new [.register writer 100] = some rec.originalTier := by
  have hkept := (locked_stays_locked_iff "a1" [.register writer 100] [.heartbeat "a1" 110, .register writer 120] (by decide)).mpr
    ⟨by simp, by decide⟩
  exact hkept _ List.prefix_rfl

end Registry

end Sentinel

end GolemKernel
