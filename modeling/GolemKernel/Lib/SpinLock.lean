import GolemKernel.Lib.Concurrent

/-!
# Spin locks

Values that threads share, each behind a lock. A lock is a word. To take it a thread swaps `false` for `true`, in one access that may
fail without a reason; when it fails, the thread reads the word until it is `false` and tries again. To give it back the thread stores
`false`. In between it makes the accesses to the value that are the body of its method, one at a turn, and the other threads take their
turns between any two of them.

A method takes one lock, and gives it back when its body is done. Then a run in which threads interleave access by access is a run in
which whole methods interleave, each made at the moment its lock is given back (`Run.refines`). So what the methods keep one after
another holds at every moment (`Run.invariant`), no two threads are in a body behind the same lock (`Refines.holder_unique`), and every
thread can complete its method (`exists_run_call`). A change of the values that takes no lock does no harm if it is not in the way of what
the threads have still to do in their bodies (`Clear`, `Refines.mapValue`).
-/

namespace SpinLock

open Concurrent

universe u v w

/-- The values behind the locks `L` and the methods `C` on them. -/
structure Guarded (L : Type u) (C : Type v) where
  Value : L → Type
  Access : L → Type
  Result : (l : L) → Access l → Type
  access : (l : L) → (a : Access l) → Value l → Option (Result l a × Value l)
  lock : C → L
  Answer : C → Type
  body : (c : C) → Prog (Access (lock c)) (Result (lock c)) (Answer c)

variable {L : Type u} {C : Type v} {ι : Type w} {α : Type}

/-- Where a thread is: in its own code, or in the loop that reads the word, or in the body of a method. -/
inductive Thread (g : Guarded L C) (α : Type) where
  | outside (program : Prog C g.Answer α)
  | spinning (c : C) (next : g.Answer c → Prog C g.Answer α)
  | inside (c : C) (next : g.Answer c → Prog C g.Answer α) (rest : Prog (g.Access (g.lock c)) (g.Result (g.lock c)) (g.Answer c))

structure State (ι : Type w) (g : Guarded L C) (α : Type) where
  threads : ι → Thread g α
  locked : L → Bool
  value : (l : L) → g.Value l

namespace Thread

variable {g : Guarded L C}

/-- What a thread has still to do, where a method counts until its lock is given back. -/
def program : Thread g α → Prog C g.Answer α
  | outside p => p
  | spinning c next | inside c next _ => .call c next

/-- The lock that a thread has. -/
def holds? : Thread g α → Option L
  | outside _ | spinning _ _ => none
  | inside c _ _ => some (g.lock c)

end Thread

/-- All locks are free. -/
def State.init (g : Guarded L C) (programs : ι → Prog C g.Answer α) (value : (l : L) → g.Value l) : State ι g α where
  threads i := .outside (programs i)
  locked _ := false
  value := value

/-- A whole method, when nobody interferes. -/
def Guarded.exec [DecidableEq L] (g : Guarded L C) (c : C) (s : (l : L) → g.Value l) :
    Option (g.Answer c × ((l : L) → g.Value l)) :=
  ((g.body c).run (g.access (g.lock c)) (s (g.lock c))).map fun (r, x) => (r, Function.update s (g.lock c) x)

variable {g : Guarded L C}

abbrev Event (ι : Type w) (g : Guarded L C) (α : Type) := Trace.Event (State ι g α) (ι × Bool) (Option (Answered C g.Answer))

/-- The methods that were done, in the order in which the locks were given back. -/
def completed (evs : List (Event ι g α)) : History ι C g.Answer := evs.filterMap fun e => e.output.map fun a => (e.input.1, a)

@[simp] theorem completed_nil : completed ([] : List (Event ι g α)) = [] := rfl

/-- The calls that are done are those of both parts. -/
theorem completed_append (evs evs' : List (Event ι g α)) : completed (evs ++ evs') = completed evs ++ completed evs' :=
  List.filterMap_append

/-! ## Methods as one step -/

/-- The state of a run, with the methods in progress not yet begun: each value behind a lock that is taken is as it was when the lock was
taken. -/
structure Refines (s : State ι g α) (cfg : Config ι C g.Answer α ((l : L) → g.Value l)) : Prop where
  programs : ∀ i, cfg.1 i = (s.threads i).program
  free : ∀ l, s.locked l = false → cfg.2 l = s.value l
  locked_iff : ∀ l, s.locked l = true ↔ ∃ i, (s.threads i).holds? = some l
  holder_unique : ∀ i j l, (s.threads i).holds? = some l → (s.threads j).holds? = some l → i = j
  rest : ∀ i c next rest, s.threads i = .inside c next rest →
    rest.run (g.access (g.lock c)) (s.value (g.lock c)) = (g.body c).run (g.access (g.lock c)) (cfg.2 (g.lock c))

/-- At first no method is under way. -/
theorem refines_init (programs : ι → Prog C g.Answer α) (value : (l : L) → g.Value l) :
    Refines (State.init g programs value) (programs, value) where
  programs _ := rfl
  free _ _ := rfl
  locked_iff l := by simp [State.init, Thread.holds?]
  holder_unique i j l h := by cases h
  rest i c next rest h := by cases h

/-- A thread in a body has the lock. -/
theorem Refines.locked_of_inside {s : State ι g α} {cfg : Config ι C g.Answer α ((l : L) → g.Value l)} (h : Refines s cfg) {i : ι}
    {c : C} {next : g.Answer c → Prog C g.Answer α} {rest : Prog (g.Access (g.lock c)) (g.Result (g.lock c)) (g.Answer c)}
    (hthread : s.threads i = .inside c next rest) : s.locked (g.lock c) = true :=
  (h.locked_iff _).mpr ⟨i, by rw [hthread]; rfl⟩

/-- Two threads in bodies are behind different locks. -/
theorem Refines.lock_ne {s : State ι g α} {cfg : Config ι C g.Answer α ((l : L) → g.Value l)} (h : Refines s cfg) {i j : ι} {c c' : C}
    {next : g.Answer c → Prog C g.Answer α} {rest : Prog (g.Access (g.lock c)) (g.Result (g.lock c)) (g.Answer c)}
    {next' : g.Answer c' → Prog C g.Answer α} {rest' : Prog (g.Access (g.lock c')) (g.Result (g.lock c')) (g.Answer c')}
    (hi : s.threads i = .inside c next rest) (hj : s.threads j = .inside c' next' rest') (hji : j ≠ i) : g.lock c' ≠ g.lock c := by
  intro heq
  refine hji (h.holder_unique j i (g.lock c) ?_ ?_)
  · rw [hj, ← heq]
    rfl
  · rw [hi]
    rfl

/-! ## Changes that take no lock -/

section

variable {A β σ : Type} {R : A → Type} {access : (a : A) → σ → Option (R a × σ)} {F : Set (σ → σ)}

/-- From here on these changes of the value are not in the way of the program: each of its accesses has the same answer before such a
change and after it, and does the same. -/
def Clear (access : (a : A) → σ → Option (R a × σ)) (F : Set (σ → σ)) : Prog A R β → σ → Prop
  | .ret _, _ => True
  | .call a next, x => (∀ f ∈ F, access a (f x) = (access a x).map fun r => (r.1, f r.2)) ∧
      ∀ r y, access a x = some (r, y) → Clear access F (next r) y

namespace Clear

variable {p : Prog A R β} {x : σ} {f : σ → σ}

/-- A change from outside before a program comes to the same as after it. -/
theorem run (h : Clear access F p x) (hf : f ∈ F) : p.run access (f x) = (p.run access x).map fun r => (r.1, f r.2) := by
  induction p generalizing x with
  | ret r => rfl
  | call a next ih =>
    rw [Prog.run_call, Prog.run_call, h.1 f hf]
    cases haccess : access a x with
    | none => rfl
    | some answer => exact ih answer.1 (h.2 _ _ haccess)

/-- Such a change leaves the program clear of the others. -/
theorem apply (hcomp : ∀ f ∈ F, ∀ f' ∈ F, f' ∘ f ∈ F) (h : Clear access F p x) (hf : f ∈ F) : Clear access F p (f x) := by
  induction p generalizing x with
  | ret r => trivial
  | call a next ih =>
    refine ⟨?_, ?_⟩
    · intro f' hf'
      have hboth := h.1 (f' ∘ f) (hcomp f hf f' hf')
      rw [h.1 f hf, Option.map_map]
      exact hboth
    · intro r y hy
      rw [h.1 f hf] at hy
      obtain ⟨⟨r', y'⟩, haccess, heq⟩ := Option.map_eq_some_iff.mp hy
      cases heq
      exact ih r' (h.2 r' y' haccess)

/-- Two programs one after the other are clear if both are. -/
theorem bind {γ : Type} {q : β → Prog A R γ} (h : Clear access F p x) (hq : ∀ r y, Clear access F (q r) y) :
    Clear access F (p >>= q) x := by
  induction p generalizing x with
  | ret r => exact hq r x
  | call a next ih => exact ⟨h.1, fun r y hy => ih r (h.2 r y hy)⟩

end Clear

end

/-- A change of the values. -/
@[simps]
def State.mapValue (s : State ι g α) (f : (l : L) → g.Value l → g.Value l) : State ι g α where
  threads := s.threads
  locked := s.locked
  value := fun l => f l (s.value l)

/-- A change that is not in the way of the threads in bodies, nor of their methods as a whole. -/
theorem Refines.mapValue {s : State ι g α} {cfg : Config ι C g.Answer α ((l : L) → g.Value l)} (h : Refines s cfg)
    (F : C → (l : L) → Set (g.Value l → g.Value l)) {f : (l : L) → g.Value l → g.Value l}
    (hf : ∀ i c next rest, s.threads i = .inside c next rest → f (g.lock c) ∈ F c (g.lock c))
    (hrest : ∀ i c next rest, s.threads i = .inside c next rest →
      Clear (g.access (g.lock c)) (F c (g.lock c)) rest (s.value (g.lock c)) ∧
      Clear (g.access (g.lock c)) (F c (g.lock c)) (g.body c) (cfg.2 (g.lock c))) :
    Refines (s.mapValue f) (cfg.1, fun l => f l (cfg.2 l)) where
  programs := h.programs
  free l hl := congrArg (f l) (h.free l hl)
  locked_iff := h.locked_iff
  holder_unique := h.holder_unique
  rest i c next rest hi := by
    obtain ⟨hclear, hwhole⟩ := hrest i c next rest hi
    show rest.run _ (f _ (s.value _)) = (g.body c).run _ (f _ (cfg.2 _))
    rw [hclear.run (hf i c next rest hi), hwhole.run (hf i c next rest hi), h.rest i c next rest hi]

/-! ## Turns -/

section

variable [DecidableEq ι]

/-- A thread goes on. -/
@[simps]
def State.setThread (s : State ι g α) (i : ι) (t : Thread g α) : State ι g α where
  threads := Function.update s.threads i t
  locked := s.locked
  value := s.value

namespace Refines

variable {s : State ι g α} {cfg : Config ι C g.Answer α ((l : L) → g.Value l)} {i : ι} {t : Thread g α}

/-- A thread that has the same to do refines the same program. -/
theorem programs_update (h : Refines s cfg) (hprogram : t.program = (s.threads i).program) (j : ι) :
    cfg.1 j = (Function.update s.threads i t j).program := by
  rw [h.programs]
  by_cases hj : j = i
  · subst hj
    rw [Function.update_self, hprogram]
  · rw [Function.update_of_ne hj]

/-- A thread that holds the same lock leaves who holds which. -/
theorem holds?_update (threads : ι → Thread g α) (hholds : t.holds? = (threads i).holds?) (j : ι) :
    (Function.update threads i t j).holds? = (threads j).holds? := by
  by_cases hj : j = i
  · subst hj
    rw [Function.update_self, hholds]
  · rw [Function.update_of_ne hj]

/-- A thread goes on outside of every lock. -/
theorem setThread (h : Refines s cfg) (hprogram : t.program = (s.threads i).program) (hbefore : (s.threads i).holds? = none)
    (hafter : t.holds? = none) : Refines (s.setThread i t) cfg := by
  have hholds := holds?_update s.threads (hafter.trans hbefore.symm)
  refine ⟨h.programs_update hprogram, h.free, ?_, ?_, ?_⟩
  · intro l
    simp only [State.setThread, hholds]
    exact h.locked_iff l
  · intro j k l
    simp only [State.setThread, hholds]
    exact h.holder_unique j k l
  · intro j c next rest hj
    by_cases hji : j = i
    · subst hji
      simp only [State.setThread, Function.update_self] at hj
      rw [hj] at hafter
      cases hafter
    · simp only [State.setThread, Function.update_of_ne hji] at hj
      exact h.rest j c next rest hj

end Refines

end

variable [DecidableEq L]

/-- A store to the word of a lock. -/
@[simps]
def State.setLocked (s : State ι g α) (l : L) (b : Bool) : State ι g α where
  threads := s.threads
  locked := Function.update s.locked l b
  value := s.value

@[simps]
def State.setValue (s : State ι g α) (l : L) (x : g.Value l) : State ι g α where
  threads := s.threads
  locked := s.locked
  value := Function.update s.value l x

variable [DecidableEq ι]

/-- A turn of a thread: whose it is, and whether the swap fails without a reason if it is one. The output is a method that is done. -/
def State.step (s : State ι g α) (turn : ι × Bool) : Option (Option (Answered C g.Answer) × State ι g α) :=
  match s.threads turn.1 with
  | .outside (.ret _) => none
  | .outside (.call c next) =>
    if s.locked (g.lock c) || turn.2 then some (none, s.setThread turn.1 (.spinning c next))
    else some (none, (s.setThread turn.1 (.inside c next (g.body c))).setLocked (g.lock c) true)
  | .spinning c next =>
    if s.locked (g.lock c) then some (none, s) else some (none, s.setThread turn.1 (.outside (.call c next)))
  | .inside c next (.call a k) =>
    (g.access (g.lock c) a (s.value (g.lock c))).map fun (r, x) =>
      (none, (s.setThread turn.1 (.inside c next (k r))).setValue (g.lock c) x)
  | .inside c next (.ret r) =>
    some (some ⟨c, r⟩, (s.setThread turn.1 (.outside (next r))).setLocked (g.lock c) false)

/-- Any interleaving of the accesses of all threads. -/
abbrev Run (start : State ι g α) : List (Event ι g α) → State ι g α → Prop := Trace.Run State.step (fun _ _ => True) start

/-- The turns of a thread: it takes the lock, fails to, waits, tries again, makes an access, or gives the lock back. -/
inductive Moves (s : State ι g α) (i : ι) : Option (Answered C g.Answer) → State ι g α → Prop
  | acquire {c : C} {next : g.Answer c → Prog C g.Answer α} (thread : s.threads i = .outside (.call c next))
      (free : s.locked (g.lock c) = false) :
      Moves s i none ((s.setThread i (.inside c next (g.body c))).setLocked (g.lock c) true)
  | fail {c : C} {next : g.Answer c → Prog C g.Answer α} (thread : s.threads i = .outside (.call c next)) :
      Moves s i none (s.setThread i (.spinning c next))
  | wait {c : C} {next : g.Answer c → Prog C g.Answer α} (thread : s.threads i = .spinning c next) : Moves s i none s
  | retry {c : C} {next : g.Answer c → Prog C g.Answer α} (thread : s.threads i = .spinning c next) :
      Moves s i none (s.setThread i (.outside (.call c next)))
  | access {c : C} {next : g.Answer c → Prog C g.Answer α} {a : g.Access (g.lock c)}
      {k : g.Result (g.lock c) a → Prog (g.Access (g.lock c)) (g.Result (g.lock c)) (g.Answer c)} {r : g.Result (g.lock c) a}
      {x : g.Value (g.lock c)} (thread : s.threads i = .inside c next (.call a k))
      (answer : g.access (g.lock c) a (s.value (g.lock c)) = some (r, x)) :
      Moves s i none ((s.setThread i (.inside c next (k r))).setValue (g.lock c) x)
  | release {c : C} {next : g.Answer c → Prog C g.Answer α} {r : g.Answer c} (thread : s.threads i = .inside c next (.ret r)) :
      Moves s i (some ⟨c, r⟩) ((s.setThread i (.outside (next r))).setLocked (g.lock c) false)

/-- Every turn is one of the moves. -/
theorem moves_of_step {s s' : State ι g α} {turn : ι × Bool} {out : Option (Answered C g.Answer)}
    (h : s.step turn = some (out, s')) : Moves s turn.1 out s' := by
  unfold State.step at h
  split at h
  · cases h
  · rename_i c next hthread
    split at h
    · cases h
      exact .fail hthread
    · rename_i hfree
      simp only [Bool.or_eq_true, not_or, Bool.not_eq_true] at hfree
      cases h
      exact .acquire hthread hfree.1
  · rename_i c next hthread
    split at h
    · cases h
      exact .wait hthread
    · cases h
      exact .retry hthread
  · rename_i c next a k hthread
    obtain ⟨⟨r, x⟩, hanswer, heq⟩ := Option.map_eq_some_iff.mp h
    cases heq
    exact .access hthread hanswer
  · rename_i c next r hthread
    cases h
    exact .release hthread

namespace Refines

variable {s s' : State ι g α} {cfg : Config ι C g.Answer α ((l : L) → g.Value l)} {i : ι} {c : C}
  {next : g.Answer c → Prog C g.Answer α}

/-- A thread takes a free lock. Nothing is changed yet. -/
theorem acquire (h : Refines s cfg) (hthread : s.threads i = .outside (.call c next)) (hfree : s.locked (g.lock c) = false) :
    Refines ((s.setThread i (.inside c next (g.body c))).setLocked (g.lock c) true) cfg := by
  have hholds : ∀ j l, (Function.update s.threads i (.inside c next (g.body c)) j).holds? = some l ↔
      (j = i ∧ g.lock c = l) ∨ (s.threads j).holds? = some l := by
    intro j l
    by_cases hj : j = i
    · subst hj
      simp [Thread.holds?, hthread]
    · simp [hj]
  -- nobody else has it
  have hnone : ∀ j, (s.threads j).holds? ≠ some (g.lock c) := by
    intro j hj
    rw [(h.locked_iff _).mpr ⟨j, hj⟩] at hfree
    cases hfree
  refine ⟨h.programs_update (by rw [hthread]; rfl), ?_, ?_, ?_, ?_⟩
  · intro l hl
    by_cases hne : l = g.lock c
    · subst hne
      simp at hl
    · simp only [State.setLocked_locked, Function.update_of_ne hne, State.setThread_locked] at hl
      exact h.free l hl
  · intro l
    simp only [State.setLocked_locked, State.setLocked_threads, State.setThread_threads, hholds]
    by_cases hl : l = g.lock c
    · subst hl
      simp only [Function.update_self, true_iff]
      exact ⟨i, .inl ⟨rfl, trivial⟩⟩
    · rw [Function.update_of_ne hl, State.setThread_locked, h.locked_iff]
      simp [Ne.symm hl]
  · intro j k l hj hk
    simp only [State.setLocked_threads, State.setThread_threads, hholds] at hj hk
    rcases hj with ⟨rfl, rfl⟩ | hj <;> rcases hk with ⟨rfl, hl⟩ | hk
    · rfl
    · exact (hnone k hk).elim
    · subst hl
      exact (hnone j hj).elim
    · exact h.holder_unique j k l hj hk
  · intro j c' next' rest hj
    by_cases hji : j = i
    · subst hji
      simp only [State.setLocked_threads, State.setThread_threads, Function.update_self] at hj
      cases hj
      rw [h.free _ hfree]
      rfl
    · simp only [State.setLocked_threads, State.setThread_threads, Function.update_of_ne hji] at hj
      exact h.rest j c' next' rest hj

/-- An access in a body is none of a whole method. -/
theorem access (h : Refines s cfg) {a : g.Access (g.lock c)}
    {k : g.Result (g.lock c) a → Prog (g.Access (g.lock c)) (g.Result (g.lock c)) (g.Answer c)} {r : g.Result (g.lock c) a}
    {x : g.Value (g.lock c)} (hthread : s.threads i = .inside c next (.call a k))
    (hanswer : g.access (g.lock c) a (s.value (g.lock c)) = some (r, x)) :
    Refines ((s.setThread i (.inside c next (k r))).setValue (g.lock c) x) cfg := by
  have hlocked := h.locked_of_inside hthread
  have hholds := holds?_update (t := .inside c next (k r)) s.threads (by rw [hthread]; rfl)
  refine ⟨h.programs_update (by rw [hthread]; rfl), ?_, ?_, ?_, ?_⟩
  · intro l hl
    simp only [State.setValue_locked, State.setThread_locked] at hl
    have hne : l ≠ g.lock c := by
      rintro rfl
      rw [hlocked] at hl
      cases hl
    rw [h.free l hl]
    exact (Function.update_of_ne hne _ _).symm
  · intro l
    simp only [State.setValue_threads, State.setThread_threads, hholds]
    exact h.locked_iff l
  · intro j k' l
    simp only [State.setValue_threads, State.setThread_threads, hholds]
    exact h.holder_unique j k' l
  · intro j c' next' rest hj
    by_cases hji : j = i
    · subst hji
      simp only [State.setValue_threads, State.setThread_threads, Function.update_self] at hj
      cases hj
      rw [← h.rest _ _ _ _ hthread, Prog.run_call, hanswer]
      simp
    · simp only [State.setValue_threads, State.setThread_threads, Function.update_of_ne hji] at hj
      have hne := h.lock_ne hthread hj hji
      rw [← h.rest j c' next' rest hj]
      simp only [State.setValue_value, State.setThread_value, Function.update_of_ne hne]

/-- When the lock is given back, the whole method is made. -/
theorem release (h : Refines s cfg) {r : g.Answer c} (hthread : s.threads i = .inside c next (.ret r)) :
    ∃ cfg', Concurrent.step g.exec cfg i = some (⟨c, r⟩, cfg') ∧
      Refines ((s.setThread i (.outside (next r))).setLocked (g.lock c) false) cfg' := by
  have hexec : g.exec c cfg.2 = some (r, Function.update cfg.2 (g.lock c) (s.value (g.lock c))) := by
    rw [Guarded.exec, ← h.rest _ _ _ _ hthread]
    rfl
  have hstep : Concurrent.step g.exec cfg i =
      some (⟨c, r⟩, (Function.update cfg.1 i (next r), Function.update cfg.2 (g.lock c) (s.value (g.lock c)))) := by
    rw [Concurrent.step, h.programs, hthread]
    show (g.exec c cfg.2).map _ = _
    rw [hexec]
    rfl
  have hholds : ∀ j l, (Function.update s.threads i (.outside (next r)) j).holds? = some l ↔
      j ≠ i ∧ (s.threads j).holds? = some l := by
    intro j l
    by_cases hj : j = i
    · subst hj
      simp [Thread.holds?]
    · simp [hj]
  refine ⟨_, hstep, ?_, ?_, ?_, ?_, ?_⟩
  · intro j
    by_cases hj : j = i
    · subst hj
      simp [Thread.program]
    · simp [hj, h.programs]
  · intro l hl
    by_cases hne : l = g.lock c
    · subst hne
      simp
    · simp only [State.setLocked_locked, State.setThread_locked, Function.update_of_ne hne] at hl ⊢
      exact h.free l hl
  · intro l
    simp only [State.setLocked_locked, State.setLocked_threads, State.setThread_threads, hholds]
    by_cases hl : l = g.lock c
    · subst hl
      simp only [Function.update_self, Bool.false_eq_true, false_iff]
      rintro ⟨j, hj, hheld⟩
      exact hj (h.holder_unique j i _ hheld (by rw [hthread]; rfl))
    · rw [Function.update_of_ne hl, State.setThread_locked, h.locked_iff]
      refine exists_congr fun j => ⟨fun hj => ⟨?_, hj⟩, And.right⟩
      rintro rfl
      rw [hthread] at hj
      exact hl (Option.some.inj hj).symm
  · intro j k l hj hk
    simp only [State.setLocked_threads, State.setThread_threads, hholds] at hj hk
    exact h.holder_unique j k l hj.2 hk.2
  · intro j c' next' rest hj
    by_cases hji : j = i
    · subst hji
      simp only [State.setLocked_threads, State.setThread_threads, Function.update_self] at hj
      cases hj
    · simp only [State.setLocked_threads, State.setThread_threads, Function.update_of_ne hji] at hj
      have hne := h.lock_ne hthread hj hji
      simp only [Function.update_of_ne hne]
      exact h.rest j c' next' rest hj

/-- Every turn is a method as a whole, or nothing. -/
theorem moves (h : Refines s cfg) {out : Option (Answered C g.Answer)} (hm : Moves s i out s') :
    ∃ evs cfg', Concurrent.Run g.exec cfg evs cfg' ∧ history evs = out.toList.map (fun a => (i, a)) ∧ Refines s' cfg' := by
  cases hm with
  | acquire thread free => exact ⟨[], cfg, .nil, rfl, h.acquire thread free⟩
  | fail thread => exact ⟨[], cfg, .nil, rfl, h.setThread (by rw [thread]; rfl) (by rw [thread]; rfl) rfl⟩
  | wait thread => exact ⟨[], cfg, .nil, rfl, h⟩
  | retry thread => exact ⟨[], cfg, .nil, rfl, h.setThread (by rw [thread]; rfl) (by rw [thread]; rfl) rfl⟩
  | access thread answer => exact ⟨[], cfg, .nil, rfl, h.access thread answer⟩
  | release thread =>
    obtain ⟨cfg', hstep, hrefines⟩ := h.release thread
    exact ⟨_, cfg', .concat (e := ⟨cfg, i, _, cfg'⟩) .nil ⟨trivial, hstep⟩, rfl, hrefines⟩

end Refines

/-! ## Runs -/

variable {start s : State ι g α} {cfg : Config ι C g.Answer α ((l : L) → g.Value l)} {evs : List (Event ι g α)}

/-- An interleaving of accesses is an interleaving of whole methods. -/
theorem Run.refines (run : Run start evs s) (hstart : Refines start cfg) :
    ∃ evs' cfg', Concurrent.Run g.exec cfg evs' cfg' ∧ history evs' = completed evs ∧ Refines s cfg' := by
  induction run with
  | nil => exact ⟨[], cfg, .nil, rfl, hstart⟩
  | @concat evs e _ taken ih =>
    obtain ⟨evs₁, cfg₁, run₁, hhistory₁, hrefines₁⟩ := ih
    obtain ⟨evs₂, cfg₂, run₂, hhistory₂, hrefines₂⟩ := hrefines₁.moves (moves_of_step taken.step)
    refine ⟨evs₁ ++ evs₂, cfg₂, run₁.append run₂, ?_, hrefines₂⟩
    have hlast : completed [e] = e.output.toList.map fun a => (e.input.1, a) := by
      cases hout : e.output <;> simp [completed, hout]
    rw [completed_append, hlast, ← hhistory₁, ← hhistory₂]
    exact List.map_append

/-- What every method keeps, one after another, holds at every moment: of the values as they are behind the locks that are free, and as
they were when the others were taken. -/
theorem Run.invariant {inv : History ι C g.Answer → ((l : L) → g.Value l) → Prop} {programs : ι → Prog C g.Answer α}
    {value : (l : L) → g.Value l} (hinit : inv [] value)
    (hkeeps : ∀ h x i c r x', inv h x → g.exec c x = some (r, x') → inv (h ++ [(i, ⟨c, r⟩)]) x')
    (run : Run (State.init g programs value) evs s) :
    ∃ x, inv (completed evs) x ∧ ∀ l, s.locked l = false → x l = s.value l := by
  obtain ⟨evs', cfg', run', hhistory, hrefines⟩ := run.refines (refines_init programs value)
  refine ⟨cfg'.2, ?_, hrefines.free⟩
  rw [← hhistory]
  clear hhistory hrefines
  induction run' with
  | nil => exact hinit
  | @concat evs e _ taken ih =>
    obtain ⟨next, x, -, hexec, hafter⟩ := eq_of_step taken.step
    rw [history_concat, hafter]
    exact hkeeps _ _ _ _ _ _ ih hexec

/-- What a program comes to with these answers. -/
inductive Path {R : C → Type} (p : Prog C R α) : List (Answered C R) → Prog C R α → Prop where
  | nil : Path p [] p
  | concat {c : C} {next : R c → Prog C R α} {l : List (Answered C R)} (r : R c) (path : Path p l (.call c next)) :
      Path p (l ++ [⟨c, r⟩]) (next r)

/-- A thread makes the calls of its program and no others. -/
theorem Run.path {programs : ι → Prog C g.Answer α} {value : (l : L) → g.Value l} (run : Run (State.init g programs value) evs s) (i : ι) :
    Path (programs i) (((completed evs).filter (·.1 = i)).map (·.2)) (s.threads i).program := by
  obtain ⟨evs', cfg', run', hhistory, hrefines⟩ := run.refines (refines_init programs value)
  rw [← hhistory, ← hrefines.programs i]
  clear hhistory hrefines
  induction run' with
  | nil => exact .nil
  | @concat evs e _ taken ih =>
    obtain ⟨next, x, hcall, -, hafter⟩ := eq_of_step taken.step
    rw [history_concat, hafter, List.filter_append, List.map_append]
    by_cases hi : e.input = i
    · subst hi
      rw [hcall] at ih
      simpa using ih.concat e.output.2
    · have hne : i ≠ e.input := Ne.symm hi
      simpa [hi, Function.update_of_ne hne] using ih

/-! ## Progress -/

/-- A turn is a run. -/
theorem Run.single {s' : State ι g α} {turn : ι × Bool} {out : Option (Answered C g.Answer)} (h : s.step turn = some (out, s')) :
    Run s [⟨s, turn, out, s'⟩] s' := by
  have hstart : Run s [] s := .nil
  exact hstart.concat (e := ⟨s, turn, out, s'⟩) ⟨trivial, h⟩

/-- A thread in a body that has an answer gives the lock back with it, by turns of its own. -/
theorem exists_run_body {i : ι} {c : C} {next : g.Answer c → Prog C g.Answer α}
    {rest : Prog (g.Access (g.lock c)) (g.Result (g.lock c)) (g.Answer c)} {r : g.Answer c} {x : g.Value (g.lock c)}
    (hthread : s.threads i = .inside c next rest)
    (hrest : rest.run (g.access (g.lock c)) (s.value (g.lock c)) = some (r, x)) :
    ∃ evs, Run s evs (((s.setThread i (.outside (next r))).setLocked (g.lock c) false).setValue (g.lock c) x) ∧
      completed evs = [(i, ⟨c, r⟩)] := by
  induction rest generalizing s with
  | ret r' =>
    cases hrest
    have hstep : s.step (i, false) = some (some ⟨c, r⟩, (s.setThread i (.outside (next r))).setLocked (g.lock c) false) := by
      simp only [State.step, hthread]
    have hsame : ((s.setThread i (.outside (next r))).setLocked (g.lock c) false).setValue (g.lock c) (s.value (g.lock c)) =
        (s.setThread i (.outside (next r))).setLocked (g.lock c) false := by
      simp [State.setValue, State.setThread, State.setLocked]
    rw [hsame]
    exact ⟨_, Run.single hstep, rfl⟩
  | call a k ih =>
    rw [Prog.run_call] at hrest
    obtain ⟨⟨b, y⟩, hanswer, hrest⟩ := Option.bind_eq_some_iff.mp hrest
    have hstep : s.step (i, false) = some (none, (s.setThread i (.inside c next (k b))).setValue (g.lock c) y) := by
      simp only [State.step, hthread, hanswer, Option.map_some]
    obtain ⟨evs, run, hcompleted⟩ :=
      ih b (s := (s.setThread i (.inside c next (k b))).setValue (g.lock c) y) (by simp) (by simpa using hrest)
    simp only [State.setValue, State.setThread, State.setLocked, Function.update_idem] at run ⊢
    refine ⟨_, (Run.single hstep).append run, ?_⟩
    rw [completed_append, hcompleted]
    rfl

/-- A thread at a method takes the lock when it is free and completes the method, by turns of its own. -/
theorem exists_run_free {i : ι} {c : C} {next : g.Answer c → Prog C g.Answer α} {r : g.Answer c} {x : (l : L) → g.Value l}
    (hthread : s.threads i = .outside (.call c next)) (hfree : s.locked (g.lock c) = false) (hexec : g.exec c s.value = some (r, x)) :
    ∃ evs, Run s evs ⟨Function.update s.threads i (.outside (next r)), s.locked, x⟩ ∧ completed evs = [(i, ⟨c, r⟩)] := by
  have hstep : s.step (i, false) = some (none, (s.setThread i (.inside c next (g.body c))).setLocked (g.lock c) true) := by
    simp [State.step, hthread, hfree]
  have hinside : ((s.setThread i (.inside c next (g.body c))).setLocked (g.lock c) true).threads i = .inside c next (g.body c) := by
    simp
  obtain ⟨⟨r', y⟩, hbody, heq⟩ := Option.map_eq_some_iff.mp hexec
  obtain ⟨rfl, rfl⟩ := Prod.mk.inj heq
  obtain ⟨evs, run, hcompleted⟩ := exists_run_body hinside hbody
  have hlocked : Function.update s.locked (g.lock c) false = s.locked := by rw [← hfree, Function.update_eq_self]
  simp only [State.setValue, State.setThread, State.setLocked, Function.update_idem, hlocked] at run
  refine ⟨_, (Run.single hstep).append run, ?_⟩
  rw [completed_append, hcompleted]
  rfl

/-- A whole method, when all threads are in their own code. -/
theorem exists_run_turn {programs : ι → Prog C g.Answer α} {value x : (l : L) → g.Value l} {i : ι} {c : C}
    {next : g.Answer c → Prog C g.Answer α} {r : g.Answer c} (hcall : programs i = .call c next) (hexec : g.exec c value = some (r, x)) :
    ∃ evs, Run (State.init g programs value) evs (State.init g (Function.update programs i (next r)) x) ∧
      completed evs = [(i, ⟨c, r⟩)] := by
  obtain ⟨evs, run, hcompleted⟩ := exists_run_free (s := State.init g programs value) (congrArg Thread.outside hcall) rfl hexec
  have hthreads : Function.update (State.init g programs value).threads i (.outside (next r)) =
      (State.init g (Function.update programs i (next r)) x).threads := by
    funext j
    exact (Function.apply_update (fun _ => Thread.outside) programs i (next r) j).symm
  rw [hthreads] at run
  exact ⟨evs, run, hcompleted⟩

/-- The thread that has a lock, if any, gives it back. -/
theorem exists_run_unlocked (htotal : ∀ c x, (g.exec c x).isSome) (h : Refines s cfg) (l : L) :
    ∃ evs s', Run s evs s' ∧ s'.locked l = false ∧ ∀ i, (s.threads i).holds? ≠ some l → s'.threads i = s.threads i := by
  by_cases hlocked : s.locked l = true
  · obtain ⟨j, hj⟩ := (h.locked_iff l).mp hlocked
    cases hthread : s.threads j with
    | outside p => simp [hthread, Thread.holds?] at hj
    | spinning c next => simp [hthread, Thread.holds?] at hj
    | inside c next rest =>
      rw [hthread] at hj
      obtain rfl := Option.some.inj hj
      obtain ⟨⟨r, x⟩, hexec⟩ := Option.isSome_iff_exists.mp (htotal c cfg.2)
      obtain ⟨⟨r', y⟩, hbody, -⟩ := Option.map_eq_some_iff.mp hexec
      obtain ⟨evs, run, -⟩ := exists_run_body hthread ((h.rest j c next rest hthread).trans hbody)
      refine ⟨evs, _, run, by simp, ?_⟩
      intro i hi
      have hne : i ≠ j := by
        rintro rfl
        exact hi (by rw [hthread]; rfl)
      simp [hne]
  · exact ⟨[], s, .nil, by simpa using hlocked, fun _ _ => rfl⟩

/-- There is no deadlock: whatever has happened so far, every thread can complete the method it is at. -/
theorem exists_run_call (htotal : ∀ c x, (g.exec c x).isSome) (h : Refines s cfg) {i : ι} {c : C}
    {next : g.Answer c → Prog C g.Answer α} (hprogram : (s.threads i).program = .call c next) :
    ∃ evs s' r, Run s evs s' ∧ (i, ⟨c, r⟩) ∈ completed evs ∧ s'.threads i = .outside (next r) := by
  cases hthread : s.threads i with
  | inside c' next' rest =>
    rw [hthread] at hprogram
    cases hprogram
    obtain ⟨⟨r, x⟩, hexec⟩ := Option.isSome_iff_exists.mp (htotal c cfg.2)
    obtain ⟨⟨r', y⟩, hbody, -⟩ := Option.map_eq_some_iff.mp hexec
    obtain ⟨evs, run, hcompleted⟩ := exists_run_body hthread ((h.rest i c next rest hthread).trans hbody)
    exact ⟨evs, _, r', run, by simp [hcompleted], by simp⟩
  | outside p =>
    rw [hthread] at hprogram
    obtain rfl : p = .call c next := hprogram
    obtain ⟨evs₁, s₁, run₁, hfree, hkept⟩ := exists_run_unlocked htotal h (g.lock c)
    obtain ⟨⟨r, x⟩, hexec⟩ := Option.isSome_iff_exists.mp (htotal c s₁.value)
    have hthread₁ := (hkept i (by simp [hthread, Thread.holds?])).trans hthread
    obtain ⟨evs₂, run₂, hcompleted⟩ := exists_run_free hthread₁ hfree hexec
    exact ⟨_, _, r, run₁.append run₂, by simp [completed_append, hcompleted], by simp⟩
  | spinning c' next' =>
    rw [hthread] at hprogram
    cases hprogram
    obtain ⟨evs₁, s₁, run₁, hfree, hkept⟩ := exists_run_unlocked htotal h (g.lock c)
    obtain ⟨⟨r, x⟩, hexec⟩ := Option.isSome_iff_exists.mp (htotal c s₁.value)
    have hthread₁ := (hkept i (by simp [hthread, Thread.holds?])).trans hthread
    have hretry : s₁.step (i, false) = some (none, s₁.setThread i (.outside (.call c next))) := by
      simp [State.step, hthread₁, hfree]
    have hthread₂ : (s₁.setThread i (.outside (.call c next))).threads i = .outside (.call c next) := by simp
    obtain ⟨evs₂, run₂, hcompleted⟩ := exists_run_free hthread₂ hfree hexec
    refine ⟨_, _, r, (run₁.append (Run.single hretry)).append run₂, ?_, by simp⟩
    rw [completed_append, hcompleted]
    exact List.mem_append_right _ List.mem_cons_self

end SpinLock
