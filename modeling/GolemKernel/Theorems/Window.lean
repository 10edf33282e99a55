import GolemKernel.Sentinel.Monitor

/-!
# The window of an agent

The monitor keeps a buffer for each agent, trims it to the window when the agent is observed and at no other time, and drops it when the
agent is forgotten. `Track` is what a reader of the calls knows of one agent: what was observed of it since it was last forgotten, each
observation with the window in force then. The buffer is a suffix of that, and all of it that fits as long as the window stays the same.
-/

namespace GolemKernel

namespace Sentinel

/-- The calls that change a monitor. -/
inductive MonitorCall where
  | observe (agentId : String) (obs : Observation)
  | recordSignal (agentId : String) (kind : SignalKind) (score : F32)
  | forget (agentId : String)
  | setThresholds (t : Thresholds)

namespace MonitorCall

/-- The call is about an agent, or about all of them. -/
def concerns (agent : String) : MonitorCall → Bool
  | .observe agentId _ => agentId == agent
  | .recordSignal agentId _ _ => agentId == agent
  | .forget agentId => agentId == agent
  | .setThresholds _ => true

end MonitorCall

namespace Monitor

def call (m : Monitor) : MonitorCall → Monitor
  | .observe agentId obs => (m.observe agentId obs).2
  | .recordSignal agentId kind score => (m.recordSignal agentId kind score).2
  | .forget agentId => m.forget agentId
  | .setThresholds t => m.setThresholds t

def run (m : Monitor) (calls : List MonitorCall) : Monitor := calls.foldl call m

/-- The observations the monitor holds of an agent. -/
def observations (m : Monitor) (agent : String) : List Observation := (m.buffer agent).observations

end Monitor

/-- The window in force, and the observations of one agent since it was last forgotten, each with the window in force then. -/
structure Track where
  window : Nat
  seen : List (Observation × Nat)

namespace Track

def step (agent : String) (t : Track) : MonitorCall → Track
  | .observe agentId obs => if agentId = agent then { t with seen := t.seen ++ [(obs, t.window)] } else t
  | .recordSignal _ _ _ => t
  | .forget agentId => if agentId = agent then { t with seen := [] } else t
  | .setThresholds cfg => { t with window := cfg.window }

/-- From a new monitor on. -/
def of (agent : String) (calls : List MonitorCall) : Track := calls.foldl (step agent) ⟨Thresholds.defaultConfig.window, []⟩

/-- What a buffer is of the observations of its agent. -/
structure Holds (t : Track) (obs : List Observation) : Prop where
  suffix : obs <:+ t.seen.map Prod.fst
  latest : ∀ o w, t.seen.getLast? = some (o, w) → 1 ≤ w → obs.getLast? = some o
  bounded : ∀ o w, t.seen.getLast? = some (o, w) → obs.length ≤ w
  constant : ∀ w, (∀ p ∈ t.seen, p.2 = w) → obs = (t.seen.map Prod.fst).drop (t.seen.length - w)

end Track

/-! ## One call -/

/-- The loop keeps the newest observations, as many as the window. -/
theorem popFront_eq (window : Nat) (obs : List Observation) : popFront window obs = obs.drop (obs.length - window) := by
  induction obs with
  | nil => exact List.drop_nil.symm
  | cons o obs ih =>
    unfold popFront
    split
    · rename_i hlt
      rw [ih]
      have hlen : (o :: obs).length - window = obs.length - window + 1 := by
        rw [List.length_cons] at hlt ⊢
        omega
      rw [hlen, List.drop_succ_cons]
    · rename_i hle
      rw [Nat.sub_eq_zero_of_le (Nat.le_of_not_lt hle), List.drop_zero]

namespace Track

/-- Without observations nothing is missing. -/
theorem holds_nil (window : Nat) : Holds ⟨window, []⟩ [] := by
  refine ⟨List.suffix_refl _, ?_, ?_, fun w _ => List.drop_nil.symm⟩
  · intro o w h
    cases h
  · intro o w h
    cases h

/-- The latest observation goes in, and the oldest ones out. -/
theorem Holds.observe {t : Track} {obs : List Observation} (h : Holds t obs) (o : Observation) :
    Holds { t with seen := t.seen ++ [(o, t.window)] } (popFront t.window (obs ++ [o])) := by
  rw [popFront_eq]
  have hlast : ∀ {o' : Observation} {w : Nat}, (t.seen ++ [(o, t.window)]).getLast? = some (o', w) → o = o' ∧ t.window = w := by
    intro o' w hw
    rw [List.getLast?_concat, Option.some.injEq] at hw
    exact Prod.mk.inj hw
  refine ⟨?_, ?_, ?_, ?_⟩
  · rw [List.map_append]
    obtain ⟨before, hbefore⟩ := h.suffix
    refine (List.drop_suffix _ _).trans ⟨before, ?_⟩
    rw [← List.append_assoc, hbefore]
    rfl
  · intro o' w hw hpos
    obtain ⟨rfl, rfl⟩ := hlast hw
    have hle : (obs ++ [o]).length - t.window ≤ obs.length := by
      rw [List.length_append, List.length_singleton]
      omega
    rw [List.drop_append_of_le_length hle, List.getLast?_concat]
  · intro o' w hw
    obtain ⟨rfl, rfl⟩ := hlast hw
    rw [List.length_drop]
    omega
  · intro w hw
    rw [List.forall_mem_append, List.forall_mem_singleton] at hw
    obtain ⟨hseen, rfl⟩ := hw
    have hobs := h.constant t.window hseen
    have hlen : obs.length = t.seen.length - (t.seen.length - t.window) := by
      rw [hobs, List.length_drop, List.length_map]
    simp only [List.map_append, List.map_cons, List.map_nil, List.length_append, List.length_singleton]
    rcases Nat.lt_or_ge t.seen.length t.window with hlt | hge
    · -- the window is not full yet
      rw [Nat.sub_eq_zero_of_le hlt.le, List.drop_zero] at hobs
      rw [hobs, List.length_map]
    · have hone : obs.length + 1 - t.window = 1 := by omega
      have hmore : t.seen.length + 1 - t.window = t.seen.length - t.window + 1 := by omega
      have hle : t.seen.length - t.window ≤ (t.seen.map Prod.fst).length := by
        rw [List.length_map]
        omega
      rw [hone, hmore, ← List.drop_drop, List.drop_append_of_le_length hle, ← hobs]

end Track

namespace Monitor

variable {m m' : Monitor} {agent : String}

theorem getElem?_insert (state : BTreeMap String AgentBuffer) (k a : String) (buf : AgentBuffer) :
    (state.insert k buf)[a]? = if k = a then some buf else state[a]? := by
  rw [Std.ExtTreeMap.getElem?_insert]
  simp only [compare_eq_iff_eq]

theorem getElem?_erase (state : BTreeMap String AgentBuffer) (k a : String) :
    (state.erase k)[a]? = if k = a then none else state[a]? := by
  rw [Std.ExtTreeMap.getElem?_erase]
  simp only [compare_eq_iff_eq]

/-- A call about another agent changes neither the configuration nor the buffer. -/
theorem call_of_not_concerns (m : Monitor) {c : MonitorCall} (h : c.concerns agent = false) :
    (m.call c).cfg = m.cfg ∧ (m.call c).state[agent]? = m.state[agent]? := by
  cases c with
  | observe agentId obs =>
    have hne : agentId ≠ agent := ne_of_beq_false h
    refine ⟨rfl, ?_⟩
    exact (getElem?_insert _ _ _ _).trans (if_neg hne)
  | recordSignal agentId kind score =>
    have hne : agentId ≠ agent := ne_of_beq_false h
    refine ⟨rfl, ?_⟩
    exact (getElem?_insert _ _ _ _).trans (if_neg hne)
  | forget agentId =>
    have hne : agentId ≠ agent := ne_of_beq_false h
    refine ⟨rfl, ?_⟩
    exact (getElem?_erase _ _ _).trans (if_neg hne)
  | setThresholds t => cases h

/-- What a call does to the buffer of an agent depends on the configuration and that buffer alone. -/
theorem call_congr (hcfg : m.cfg = m'.cfg) (hstate : m.state[agent]? = m'.state[agent]?) (c : MonitorCall) :
    (m.call c).cfg = (m'.call c).cfg ∧ (m.call c).state[agent]? = (m'.call c).state[agent]? := by
  cases hconcerns : c.concerns agent with
  | false =>
    obtain ⟨h1, h2⟩ := m.call_of_not_concerns hconcerns
    obtain ⟨h1', h2'⟩ := m'.call_of_not_concerns hconcerns
    exact ⟨h1.trans (hcfg.trans h1'.symm), h2.trans (hstate.trans h2'.symm)⟩
  | true =>
    cases c with
    | setThresholds t => exact ⟨rfl, hstate⟩
    | forget agentId =>
      obtain rfl := eq_of_beq hconcerns
      refine ⟨hcfg, ?_⟩
      exact ((getElem?_erase _ _ _).trans (if_pos rfl)).trans ((getElem?_erase _ _ _).trans (if_pos rfl)).symm
    | observe agentId obs =>
      obtain rfl := eq_of_beq hconcerns
      have hbuffer : m.buffer agentId = m'.buffer agentId := by rw [buffer, buffer, hstate]
      refine ⟨hcfg, ?_⟩
      simp only [call, observe, getElem?_insert, if_true, hbuffer, hcfg, tier]
    | recordSignal agentId kind score =>
      obtain rfl := eq_of_beq hconcerns
      have hbuffer : m.buffer agentId = m'.buffer agentId := by rw [buffer, buffer, hstate]
      refine ⟨hcfg, ?_⟩
      simp only [call, recordSignal, getElem?_insert, if_true, hbuffer, hcfg, tier]

/-! ## Runs -/

/-- The calls about other agents can be left out. -/
theorem run_filter_concerns (hcfg : m.cfg = m'.cfg) (hstate : m.state[agent]? = m'.state[agent]?) (calls : List MonitorCall) :
    (m.run calls).cfg = (m'.run (calls.filter (·.concerns agent))).cfg ∧
      (m.run calls).state[agent]? = (m'.run (calls.filter (·.concerns agent))).state[agent]? := by
  induction calls generalizing m m' with
  | nil => exact ⟨hcfg, hstate⟩
  | cons c calls ih =>
    cases hconcerns : c.concerns agent with
    | false =>
      obtain ⟨h1, h2⟩ := m.call_of_not_concerns hconcerns
      rw [List.filter_cons_of_neg (by simp [hconcerns])]
      exact ih (h1.trans hcfg) (h2.trans hstate)
    | true =>
      obtain ⟨h1, h2⟩ := call_congr hcfg hstate c
      rw [List.filter_cons_of_pos hconcerns]
      exact ih h1 h2

/-- The observations of an agent are in its buffer. -/
theorem observations_of_state (h : m.state[agent]? = m'.state[agent]?) : m.observations agent = m'.observations agent := by
  rw [observations, buffer, h]
  rfl

/-- The monitor and the reader of its calls stay together. -/
theorem call_holds {t : Track} (hwindow : m.cfg.window = t.window) (h : t.Holds (m.observations agent)) (c : MonitorCall) :
    (m.call c).cfg.window = (t.step agent c).window ∧ (t.step agent c).Holds ((m.call c).observations agent) := by
  cases hconcerns : c.concerns agent with
  | false =>
    obtain ⟨h1, h2⟩ := m.call_of_not_concerns hconcerns
    have hstep : t.step agent c = t := by
      cases c with
      | observe agentId obs => exact if_neg (ne_of_beq_false hconcerns)
      | recordSignal agentId kind score => rfl
      | forget agentId => exact if_neg (ne_of_beq_false hconcerns)
      | setThresholds cfg => cases hconcerns
    rw [hstep, h1, observations_of_state h2]
    exact ⟨hwindow, h⟩
  | true =>
    cases c with
    | setThresholds cfg => exact ⟨rfl, h.suffix, h.latest, h.bounded, h.constant⟩
    | recordSignal agentId kind score =>
      obtain rfl := eq_of_beq hconcerns
      have hkept : (m.call (.recordSignal agentId kind score)).observations agentId = m.observations agentId := by
        simp only [call, recordSignal, observations, buffer, getElem?_insert, if_true, Option.getD_some]
      rw [hkept]
      exact ⟨hwindow, h⟩
    | forget agentId =>
      obtain rfl := eq_of_beq hconcerns
      have hempty : (m.call (.forget agentId)).observations agentId = [] := by
        simp only [call, forget, observations, buffer, getElem?_erase, if_true, Option.getD_none, AgentBuffer.new]
      rw [hempty, Track.step, if_pos rfl]
      exact ⟨hwindow, Track.holds_nil t.window⟩
    | observe agentId obs =>
      obtain rfl := eq_of_beq hconcerns
      have hobserved : (m.call (.observe agentId obs)).observations agentId = popFront t.window (m.observations agentId ++ [obs]) := by
        simp only [call, observe, observations, buffer, getElem?_insert, if_true, Option.getD_some, hwindow]
      rw [hobserved, Track.step, if_pos rfl]
      exact ⟨hwindow, h.observe obs⟩

/-- At any time of a run the buffer holds the newest observations since the last reset. -/
theorem run_holds {t : Track} (hwindow : m.cfg.window = t.window) (h : t.Holds (m.observations agent)) (calls : List MonitorCall) :
    (m.run calls).cfg.window = (calls.foldl (Track.step agent) t).window ∧
      (calls.foldl (Track.step agent) t).Holds ((m.run calls).observations agent) := by
  induction calls generalizing m t with
  | nil => exact ⟨hwindow, h⟩
  | cons c calls ih =>
    obtain ⟨hwindow, h⟩ := call_holds hwindow h c
    exact ih hwindow h

/-- After any calls on a new monitor, of each agent: the buffer is a suffix of what was observed of it since it was last forgotten, it
ends with the latest observation unless the window was empty then, it is not longer than the window was then, and it is as much of the
end as fits if the window was the same all the time. The calls about other agents have no part in it. -/
theorem buffer_is_recent_window (calls : List MonitorCall) (agent : String) :
    (new.run calls).observations agent <:+ (Track.of agent calls).seen.map Prod.fst ∧
    (∀ o w, (Track.of agent calls).seen.getLast? = some (o, w) →
      (1 ≤ w → ((new.run calls).observations agent).getLast? = some o) ∧ ((new.run calls).observations agent).length ≤ w) ∧
    (∀ w, (∀ p ∈ (Track.of agent calls).seen, p.2 = w) →
      (new.run calls).observations agent =
        ((Track.of agent calls).seen.map Prod.fst).drop ((Track.of agent calls).seen.length - w) ∧
      ((new.run calls).observations agent).length = min (Track.of agent calls).seen.length w) ∧
    (new.run calls).state[agent]? = (new.run (calls.filter (·.concerns agent))).state[agent]? := by
  have hnew : new.observations agent = [] := by
    simp only [observations, buffer, new, Std.ExtTreeMap.getElem?_empty, Option.getD_none, AgentBuffer.new]
  have hstart : Track.Holds ⟨Thresholds.defaultConfig.window, []⟩ (new.observations agent) := hnew ▸ Track.holds_nil _
  have h : (Track.of agent calls).Holds ((new.run calls).observations agent) := (run_holds rfl hstart calls).2
  refine ⟨h.suffix, ?_, ?_, (run_filter_concerns rfl rfl calls).2⟩
  · intro o w hlast
    exact ⟨h.latest o w hlast, h.bounded o w hlast⟩
  · intro w hw
    have hobs := h.constant w hw
    refine ⟨hobs, ?_⟩
    rw [hobs, List.length_drop, List.length_map]
    exact Nat.sub_sub_eq_min _ _

end Monitor

end Sentinel

end GolemKernel
