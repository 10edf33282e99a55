import GolemKernel.Lib.Trace

/-!
# Programs that share an object

A program makes calls to an object it does not own: it returns, or makes a call and goes on with the answer (`Prog`). What a call does is
left to the object, a handler from calls to answers and states that may also give no answer. Alone, a program runs to its end
(`Prog.run`). Together, any number of programs take turns in any order, one call at a time (`Run`).

What holds in every interleaving is shown thread by thread. An invariant ties the state of the object to the history of the calls made so
far. A thread knows the history up to its last turn; since then only others have made calls (`Others`). If each of its calls, wherever it
comes, gets an answer and keeps the invariant, and it makes only so many of them, the thread follows it (`Follows`); if each thread does,
all of them together do (`Run.follows`).
-/

namespace Concurrent

universe u v w

inductive Prog (C : Type u) (R : C → Type v) (α : Type w) where
  | ret (a : α)
  | call (c : C) (next : R c → Prog C R α)

namespace Prog

variable {C : Type u} {R : C → Type v} {α β γ : Type w} {σ : Type*}

def bind (x : Prog C R α) (f : α → Prog C R β) : Prog C R β :=
  match x with
  | ret a => f a
  | call c next => call c fun r => (next r).bind f

instance : Monad (Prog C R) where
  pure := ret
  bind := bind

@[simp] theorem call_bind (c : C) (next : R c → Prog C R α) (f : α → Prog C R β) :
    call c next >>= f = call c fun r => next r >>= f := rfl

/-- Programs one after another can be grouped in either way. -/
theorem bind_assoc' (x : Prog C R α) (f : α → Prog C R β) (g : β → Prog C R γ) : x >>= f >>= g = x >>= fun a => f a >>= g := by
  induction x with
  | ret a => rfl
  | call c next ih => exact congrArg (call c) (funext ih)

instance : LawfulMonad (Prog C R) := by
  refine LawfulMonad.mk' _ ?_ (fun _ _ => rfl) (fun x f g => bind_assoc' x f g)
  intro α x
  induction x with
  | ret a => rfl
  | call c next ih => exact congrArg (call c) (funext ih)

/-- A program on its own. `none`: a call gives no answer. -/
def run (exec : (c : C) → σ → Option (R c × σ)) : Prog C R α → σ → Option (α × σ)
  | ret a, s => some (a, s)
  | call c next, s => (exec c s).bind fun (r, s') => (next r).run exec s'

variable {exec : (c : C) → σ → Option (R c × σ)}

@[simp] theorem run_ret (a : α) (s : σ) : (ret a : Prog C R α).run exec s = some (a, s) := rfl

/-- A program that begins with a call makes it and goes on with the answer. -/
theorem run_call (c : C) (next : R c → Prog C R α) (s : σ) :
    (call c next).run exec s = (exec c s).bind fun (r, s') => (next r).run exec s' := rfl

theorem run_call_some {c : C} {next : R c → Prog C R α} {r : R c} {s s' : σ} (h : exec c s = some (r, s')) :
    (call c next).run exec s = (next r).run exec s' := by
  rw [run_call, h, Option.bind_some]

/-- Two programs one after the other, alone: the second runs in the state that the first has left. -/
theorem run_bind (x : Prog C R α) (f : α → Prog C R β) (s : σ) :
    (x >>= f).run exec s = (x.run exec s).bind fun (a, s') => (f a).run exec s' := by
  induction x generalizing s with
  | ret a => rfl
  | call c next ih =>
    rw [call_bind, run_call, run_call]
    cases exec c s with
    | none => rfl
    | some answer => exact ih answer.1 answer.2

end Prog

/-! ## Interleavings -/

section

variable {ι : Type*} {C : Type u} {R : C → Type v} {α : Type w} {σ γ : Type*}

/-- The programs of all threads, as far as they have come, and the state of the object. -/
abbrev Config (ι : Type*) (C : Type u) (R : C → Type v) (α : Type w) (σ : Type*) := (ι → Prog C R α) × σ

/-- A call with its answer. -/
abbrev Answered (C : Type u) (R : C → Type v) := (c : C) × R c

/-- A thread makes its next call. -/
def step [DecidableEq ι] (exec : (c : C) → σ → Option (R c × σ)) (cfg : Config ι C R α σ) (i : ι) :
    Option (Answered C R × Config ι C R α σ) :=
  match cfg.1 i with
  | .ret _ => none
  | .call c next => (exec c cfg.2).map fun (r, s) => (⟨c, r⟩, (Function.update cfg.1 i (next r), s))

abbrev Event (ι : Type*) (C : Type u) (R : C → Type v) (α : Type w) (σ : Type*) :=
  Trace.Event (Config ι C R α σ) ι (Answered C R)

/-- Any interleaving of the calls of all threads. -/
abbrev Run [DecidableEq ι] (exec : (c : C) → σ → Option (R c × σ)) :
    Config ι C R α σ → List (Event ι C R α σ) → Config ι C R α σ → Prop :=
  Trace.Run (step exec) fun _ _ => True

/-- Which thread made which call, and the answer, first to last. -/
abbrev History (ι : Type*) (C : Type u) (R : C → Type v) := List (ι × Answered C R)

def history (evs : List (Event ι C R α σ)) : History ι C R := evs.map fun e => (e.input, e.output)

@[simp] theorem history_nil : history ([] : List (Event ι C R α σ)) = [] := rfl

@[simp] theorem history_concat (evs : List (Event ι C R α σ)) (e : Event ι C R α σ) :
    history (evs ++ [e]) = history evs ++ [(e.input, e.output)] := by
  simp [history]

/-- The interleaving in which the threads take turns as told, if every turn can be taken. -/
def play [DecidableEq ι] (exec : (c : C) → σ → Option (R c × σ)) (start : Config ι C R α σ) (turns : List ι) :
    Option (List (Event ι C R α σ) × Config ι C R α σ) :=
  turns.foldlM (fun (evs, cfg) i => (step exec cfg i).map fun (out, cfg') => (evs ++ [⟨cfg, i, out, cfg'⟩], cfg')) ([], start)

/-! ## What each thread does, whatever the others do -/

/-- Between these histories only the other threads took turns. -/
def Others (i : ι) (h h' : History ι C R) : Prop := ∃ l, h' = h ++ l ∧ ∀ e ∈ l, e.1 ≠ i

/-- Nobody has moved. -/
theorem Others.refl (i : ι) (h : History ι C R) : Others i h h := ⟨[], by simp, by simp⟩

/-- The others move, and then they move on. -/
theorem Others.trans {i : ι} {h h' h'' : History ι C R} (first : Others i h h') (second : Others i h' h'') : Others i h h'' := by
  obtain ⟨l, rfl, hl⟩ := first
  obtain ⟨l', rfl, hl'⟩ := second
  refine ⟨l ++ l', List.append_assoc h l l', ?_⟩
  intro e he
  rcases List.mem_append.mp he with he | he
  · exact hl e he
  · exact hl' e he

/-- The turn of one thread, for another. -/
theorem Others.turn {i j : ι} (hji : j ≠ i) (h : History ι C R) (a : Answered C R) : Others i h (h ++ [(j, a)]) :=
  ⟨[(j, a)], rfl, by simp [hji]⟩

variable {inv : History ι C R → σ → Prop} {exec : (c : C) → σ → Option (R c × σ)} {i : ι} {β : Type w}

/-- From this history on, whatever the others do in between, the program makes at most so many calls, and each of them gets an answer and
keeps the invariant; when it returns, the result is as stated, then and later. -/
def Follows (inv : History ι C R → σ → Prop) (exec : (c : C) → σ → Option (R c × σ)) (i : ι) (post : α → History ι C R → Prop) :
    Nat → Prog C R α → History ι C R → Prop
  | _, .ret a, h => ∀ h', Others i h h' → post a h'
  | 0, .call _ _, _ => False
  | n + 1, .call c next, h => ∀ h' s, Others i h h' → inv h' s → ∃ r s', exec c s = some (r, s') ∧ inv (h' ++ [(i, ⟨c, r⟩)]) s' ∧
      Follows inv exec i post n (next r) (h' ++ [(i, ⟨c, r⟩)])

variable {post : α → History ι C R → Prop} {m n : Nat}

/-- A program that returns follows exactly if what it returns is right, whatever the others do from then on. -/
theorem follows_ret_iff {a : α} {h : History ι C R} :
    Follows inv exec i post n (.ret a) h ↔ ∀ h', Others i h h' → post a h' := by
  cases n <;> exact Iff.rfl

/-- In particular it is right now. -/
theorem Follows.post_of_ret {a : α} {h : History ι C R} (hx : Follows inv exec i post n (.ret a) h) : post a h :=
  follows_ret_iff.mp hx h (Others.refl i h)

/-- What the others do does not matter. -/
theorem Follows.stable {x : Prog C R α} {h h' : History ι C R} (hx : Follows inv exec i post n x h) (hothers : Others i h h') :
    Follows inv exec i post n x h' := by
  cases x with
  | ret a =>
    rw [follows_ret_iff] at hx ⊢
    exact fun h'' hothers' => hx h'' (hothers.trans hothers')
  | call c next =>
    cases n with
    | zero => exact hx
    | succ n => exact fun h'' s hothers' => hx h'' s (hothers.trans hothers')

/-- A bound on the turns may be raised. -/
theorem Follows.mono {x : Prog C R α} {h : History ι C R} (hmn : m ≤ n) (hx : Follows inv exec i post m x h) :
    Follows inv exec i post n x h := by
  induction x generalizing m n h with
  | ret a =>
    rw [follows_ret_iff] at hx ⊢
    exact hx
  | call c next ih =>
    cases m with
    | zero => exact hx.elim
    | succ m =>
      obtain ⟨n, rfl⟩ : ∃ n', n = n' + 1 := ⟨n - 1, by omega⟩
      intro h' s hothers hinv
      obtain ⟨r, s', hexec, hinv', hrest⟩ := hx h' s hothers hinv
      exact ⟨r, s', hexec, hinv', ih r (Nat.le_of_succ_le_succ hmn) hrest⟩

/-- A program follows if its first part does so with the rest as its outcome. The bounds add up. -/
theorem Follows.bind {x : Prog C R α} {f : α → Prog C R β} {post : β → History ι C R → Prop} {h : History ι C R}
    (hx : Follows inv exec i (fun a => Follows inv exec i post n (f a)) m x h) : Follows inv exec i post (m + n) (x >>= f) h := by
  induction x generalizing m h with
  | ret a => exact hx.post_of_ret.mono (Nat.le_add_left n m)
  | call c next ih =>
    cases m with
    | zero => exact hx.elim
    | succ m =>
      rw [Prog.call_bind, Nat.succ_add]
      intro h' s hothers hinv
      obtain ⟨r, s', hexec, hinv', hrest⟩ := hx h' s hothers hinv
      exact ⟨r, s', hexec, hinv', ih r hrest⟩

/-- The outcome may be weakened. -/
theorem Follows.weaken {x : Prog C R α} {post' : α → History ι C R → Prop} {h : History ι C R} (hx : Follows inv exec i post n x h)
    (hpost : ∀ a h', post a h' → post' a h') : Follows inv exec i post' n x h := by
  induction x generalizing n h with
  | ret a =>
    rw [follows_ret_iff] at hx ⊢
    exact fun h' hothers => hpost a h' (hx h' hothers)
  | call c next ih =>
    cases n with
    | zero => exact hx
    | succ n =>
      intro h' s hothers hinv
      obtain ⟨r, s', hexec, hinv', hrest⟩ := hx h' s hothers hinv
      exact ⟨r, s', hexec, hinv', ih r hrest⟩

/-! ## What holds in every interleaving -/

variable [DecidableEq ι] {start cfg : Config ι C R α σ} {evs : List (Event ι C R α σ)}

/-- What a turn is: the thread was about to make a call, the object answers, and the thread goes on with the answer. -/
theorem eq_of_step {cfg' : Config ι C R α σ} {i : ι} {out : Answered C R} (h : step exec cfg i = some (out, cfg')) :
    ∃ next s, cfg.1 i = .call out.1 next ∧ exec out.1 cfg.2 = some (out.2, s) ∧
      cfg' = (Function.update cfg.1 i (next out.2), s) := by
  unfold step at h
  split at h
  · cases h
  · rename_i c next hnext
    obtain ⟨⟨r, s⟩, hexec, heq⟩ := Option.map_eq_some_iff.mp h
    cases heq
    exact ⟨next, s, hnext, hexec, rfl⟩

/-- What is played is a run. -/
theorem Run.of_play {turns : List ι} (h : play exec start turns = some (evs, cfg)) : Run exec start evs cfg :=
  Trace.Run.of_play h

/-- Threads that follow the invariant each by itself follow it in every interleaving, and no thread makes more calls than it may. -/
theorem Run.follows {post : ι → α → History ι C R → Prop} {n : ι → Nat} (run : Run exec start evs cfg) (hinv : inv [] start.2)
    (h : ∀ i, Follows inv exec i (post i) (n i) (start.1 i) []) :
    inv (history evs) cfg.2 ∧ ∀ i, ∃ m, (history evs).countP (·.1 = i) + m ≤ n i ∧
      Follows inv exec i (post i) m (cfg.1 i) (history evs) := by
  induction run with
  | nil => exact ⟨hinv, fun i => ⟨n i, by simp, h i⟩⟩
  | @concat evs e _ taken ih =>
    obtain ⟨hinv', hfollows⟩ := ih
    obtain ⟨next, s, hcall, hexec, hafter⟩ := eq_of_step taken.step
    obtain ⟨m, hm, hturn⟩ := hfollows e.input
    rw [hcall] at hturn
    cases m with
    | zero => exact hturn.elim
    | succ m =>
      obtain ⟨r, s', hexec', hinv'', hrest⟩ := hturn _ _ (Others.refl _ _) hinv'
      obtain ⟨rfl, rfl⟩ := Prod.mk.inj (Option.some.inj (hexec.symm.trans hexec'))
      rw [hafter, history_concat]
      refine ⟨hinv'', ?_⟩
      intro j
      by_cases hj : j = e.input
      · subst hj
        refine ⟨m, by simp; omega, ?_⟩
        simpa using hrest
      · obtain ⟨k, hk, hother⟩ := hfollows j
        have hne : ¬e.input = j := Ne.symm hj
        refine ⟨k, by simpa [hne] using hk, ?_⟩
        show Follows inv exec j (post j) k (Function.update e.before.1 e.input (next e.output.2) j) _
        rw [Function.update_of_ne hj]
        exact hother.stable (Others.turn hne _ _)

/-- A thread that follows an invariant is never stuck. -/
theorem Follows.progress {h : History ι C R} (hfollows : Follows inv exec i post n (cfg.1 i) h) (hinv : inv h cfg.2) :
    (∃ a, cfg.1 i = .ret a) ∨ ∃ out cfg', step exec cfg i = some (out, cfg') := by
  unfold step
  cases hprog : cfg.1 i with
  | ret a => exact .inl ⟨a, rfl⟩
  | call c next =>
    rw [hprog] at hfollows
    cases n with
    | zero => exact hfollows.elim
    | succ n =>
      obtain ⟨r, s', hexec, -⟩ := hfollows h cfg.2 (Others.refl i h) hinv
      exact .inr ⟨⟨c, r⟩, (Function.update cfg.1 i (next r), s'), by simp [hexec]⟩

end

end Concurrent
