import Mathlib

/-!
# Runs of a machine

A machine takes inputs one after another; at each it gives an output and goes to another state, or stops. `Run` is a run that does
not stop and in which every input is permitted, with the list of its events; runs can be joined and cut (`Run.append`, `Run.split`).
Three rules follow from what a single event does: what every event keeps holds along a run (`Run.preserves`), what a run takes in and
gives out balances (`Run.balance`), and what was done since the last event of some kind is counted anew at each (`since_concat`).
-/

namespace Trace

/-- One input, with the states before and after it. -/
structure Event (σ ι ω : Type*) where
  before : σ
  input : ι
  output : ω
  after : σ

variable {σ ι ω : Type*} {step : σ → ι → Option (ω × σ)} {permitted : σ → ι → Prop}

/-- The machine takes this event, and its input is permitted. -/
structure Event.Taken (step : σ → ι → Option (ω × σ)) (permitted : σ → ι → Prop) (e : Event σ ι ω) : Prop where
  permitted : permitted e.before e.input
  step : step e.before e.input = some (e.output, e.after)

/-- The runs of a machine, with their events. -/
inductive Run (step : σ → ι → Option (ω × σ)) (permitted : σ → ι → Prop) (start : σ) : List (Event σ ι ω) → σ → Prop where
  | nil : Run step permitted start [] start
  | concat {evs : List (Event σ ι ω)} {e : Event σ ι ω} (run : Run step permitted start evs e.before)
      (taken : e.Taken step permitted) : Run step permitted start (evs ++ [e]) e.after

variable {start s : σ} {evs : List (Event σ ι ω)} {P : σ → Prop} {Q : Event σ ι ω → Prop}

/-- What holds at the start and is kept by every event holds after a run. -/
theorem Run.preserves (hstep : ∀ e : Event σ ι ω, e.Taken step permitted → Q e → P e.before → P e.after)
    (run : Run step permitted start evs s) (hQ : ∀ e ∈ evs, Q e) (hstart : P start) : P s := by
  induction run with
  | nil => exact hstart
  | @concat evs e _ taken ih =>
    have hbefore : P e.before := ih fun e' he' => hQ e' (List.mem_append_left _ he')
    exact hstep e taken (hQ e (by simp)) hbefore

/-- If a quantity changes at every event by what the event takes in and gives out, it changes by their sums over a run. -/
theorem Run.balance (hstep : ∀ e : Event σ ι ω, e.Taken step permitted → Q e → P e.before → P e.after) (f : σ → Nat)
    (gain loss : Event σ ι ω → Nat)
    (hbalance : ∀ e : Event σ ι ω, e.Taken step permitted → Q e → P e.before → f e.after + loss e = f e.before + gain e)
    (run : Run step permitted start evs s) (hQ : ∀ e ∈ evs, Q e) (hstart : P start) :
    f s + (evs.map loss).sum = f start + (evs.map gain).sum := by
  induction run with
  | nil => rfl
  | @concat evs e run taken ih =>
    have hQ' : ∀ e' ∈ evs, Q e' := fun e' he' => hQ e' (List.mem_append_left _ he')
    have hevent := hbalance e taken (hQ e (by simp)) (run.preserves hstep hQ' hstart)
    have hbefore := ih hQ'
    simp only [List.map_append, List.sum_append, List.map_singleton, List.sum_singleton]
    omega

/-- A run and another one from where it has led. -/
theorem Run.append {mid : σ} {evs' : List (Event σ ι ω)} (run : Run step permitted start evs mid)
    (rest : Run step permitted mid evs' s) : Run step permitted start (evs ++ evs') s := by
  induction rest with
  | nil => rwa [List.append_nil]
  | concat _ taken ih =>
    rw [← List.append_assoc]
    exact .concat ih taken

/-- Up to each of its events a run is a run. -/
theorem Run.split {pre post : List (Event σ ι ω)} {e : Event σ ι ω} (run : Run step permitted start evs s)
    (h : evs = pre ++ e :: post) : Run step permitted start pre e.before ∧ e.Taken step permitted := by
  induction run generalizing post with
  | nil => simp at h
  | @concat evs last run taken ih =>
    rcases List.eq_nil_or_concat post with rfl | ⟨post, x, rfl⟩
    · obtain ⟨rfl, hlast⟩ := List.append_inj' h rfl
      cases hlast
      exact ⟨run, taken⟩
    · rw [List.concat_eq_append, ← List.cons_append, ← List.append_assoc] at h
      exact ih (List.append_inj' h rfl).1

/-- The run on these inputs, if the machine does not stop. -/
def play (step : σ → ι → Option (ω × σ)) (start : σ) (inputs : List ι) : Option (List (Event σ ι ω) × σ) :=
  inputs.foldlM (fun (evs, s) i => (step s i).map fun (out, s') => (evs ++ [⟨s, i, out, s'⟩], s')) ([], start)

/-- What is played is a run. -/
theorem Run.of_play {inputs : List ι} (h : play step start inputs = some (evs, s)) : Run step (fun _ _ => True) start evs s := by
  -- the run so far is extended input by input
  suffices hrest : ∀ (inputs : List ι) (evs₀ evs : List (Event σ ι ω)) (s₀ s : σ), Run step (fun _ _ => True) start evs₀ s₀ →
      inputs.foldlM (fun (evs, s) i => (step s i).map fun (out, s') => (evs ++ [⟨s, i, out, s'⟩], s')) (evs₀, s₀) = some (evs, s) →
      Run step (fun _ _ => True) start evs s from
    hrest inputs [] evs start s .nil h
  intro inputs
  induction inputs with
  | nil =>
    intro evs₀ evs s₀ s run h
    cases h
    exact run
  | cons i inputs ih =>
    intro evs₀ evs s₀ s run h
    rw [List.foldlM_cons] at h
    obtain ⟨⟨evs₁, s₁⟩, hfirst, hrest⟩ := Option.bind_eq_some_iff.mp h
    obtain ⟨⟨out, s'⟩, hstep, heq⟩ := Option.map_eq_some_iff.mp hfirst
    cases heq
    exact ih _ _ _ _ (.concat (e := ⟨s₀, i, out, s₁⟩) run ⟨trivial, hstep⟩) hrest

/-- The events after the last one of a kind. -/
def since (p : Event σ ι ω → Bool) (evs : List (Event σ ι ω)) : List (Event σ ι ω) := (evs.reverse.takeWhile (!p ·)).reverse

/-- The last event starts anew, or is one more. -/
theorem since_concat (p : Event σ ι ω → Bool) (evs : List (Event σ ι ω)) (e : Event σ ι ω) :
    since p (evs ++ [e]) = if p e then [] else since p evs ++ [e] := by
  cases h : p e <;> simp [since, h]

end Trace
