import GolemKernel.Lemmas.SharedMemory

/-!
# The allocators under concurrency

Any number of threads call the allocators, access by access, and programs store to the blocks they hold without any lock, also while a
thread is in the middle of a walk of the free list. What the programs owe is what `GlobalAlloc` and `dealloc_frame` ask for: to free what
is out and only once, and to store to blocks that are out (`System.Permitted`).

Then the calls are made as a whole, one after another, so frames and blocks are handed out once (`allocators_exclusive`), and what a
program has stored in a block stays until it frees the block (`live_contents_kept`).
-/

namespace GolemKernel

namespace Memory

open Concurrent SpinLock LinkedListAllocator

deriving instance DecidableEq for Layout

/-! ## The system -/

/-- The threads at the allocators, and the blocks and the frames that are out. -/
structure System (ι α : Type) where
  locks : State ι allocators α
  live : List (Nat × Layout)
  outstanding : List Frame

/-- A turn of a thread, which may fail to take a lock without a reason, or a store to memory. -/
inductive Act (ι : Type) where
  | turn (i : ι) (fails : Bool)
  | store (addr value : Nat)

/-- A store to memory, among the values behind the locks. -/
def storeAt (addr value : Nat) : (l : Lock) → l.Value → l.Value
  | .frames => id
  | .heap => fun a => { a with mem := Function.update a.mem addr value }

namespace System

variable {ι α : Type}

/-- The free list and memory. -/
def heap (s : System ι α) : LinkedListAllocator := s.locks.value .heap

def frames (s : System ι α) : BitmapFrameAllocator := s.locks.value .frames

/-- After `memory::init`, whatever was in memory before. -/
def boot (g : AllocatorGlobals) (a : LinkedListAllocator) (programs : ι → Prog Method Method.Answer α) : System ι α where
  locks := State.init allocators programs fun
    | .frames => g.allocator
    | .heap => a.init heapStart heapSize
  live := []
  outstanding := []

/-- What is out after a call. -/
def account (s : System ι α) : Option (Answered Method Method.Answer) → System ι α
  | some ⟨.alloc layout, ptr⟩ => if ptr = 0 then s else { s with live := (ptr, layout) :: s.live }
  | some ⟨.dealloc ptr layout, _⟩ => { s with live := s.live.erase (ptr, layout) }
  | some ⟨.allocFrame, some frame⟩ => { s with outstanding := frame :: s.outstanding }
  | some ⟨.deallocFrame frame, _⟩ => { s with outstanding := s.outstanding.erase frame }
  | some ⟨.allocFrame, none⟩ | some ⟨.stats, _⟩ | none => s

@[simp] theorem locks_account (s : System ι α) (out : Option (Answered Method Method.Answer)) : (s.account out).locks = s.locks := by
  unfold account
  split
  · split <;> rfl
  all_goals rfl

variable [DecidableEq ι]

/-- A thread has taken the lock for a call. -/
def acquired (s : System ι α) (i : ι) (c : Method) (next : c.Answer → Prog Method Method.Answer α) : System ι α :=
  ⟨(s.locks.setThread i (.inside c next c.body)).setLocked c.lock true, s.live, s.outstanding⟩

/-- A thread is done with a call, which has left `y` behind the lock. -/
def finished (s : System ι α) (i : ι) (c : Method) (next : c.Answer → Prog Method Method.Answer α) (r : c.Answer) (y : c.lock.Value) :
    System ι α :=
  account ⟨((s.locks.setThread i (.outside (next r))).setLocked c.lock false).setValue c.lock y, s.live, s.outstanding⟩ (some ⟨c, r⟩)

/-- The output is a call that is done. -/
def step (s : System ι α) : Act ι → Option (Option (Answered Method Method.Answer) × System ι α)
  | .turn i fails => (s.locks.step (i, fails)).map fun r => (r.1, account ⟨r.2, s.live, s.outstanding⟩ r.1)
  | .store addr value => some (none, ⟨s.locks.mapValue (storeAt addr value), s.live, s.outstanding⟩)

end System

/-- What callers owe: layouts that are not empty, aligned to no more than a page and accepted by `size_align`, and to free only what is
out. -/
def Method.Allowed (live : List (Nat × Layout)) (outstanding : List Frame) : Method → Prop
  | alloc layout => layout.size ≠ 0 ∧ layout.align ≤ 4096 ∧ (sizeAlign layout).isSome
  | dealloc ptr layout => (ptr, layout) ∈ live
  | deallocFrame frame => frame ∈ outstanding
  | allocFrame | stats => True

namespace System

variable {ι α : Type}

/-- Calls as they are allowed, and stores to blocks that are out and that no thread is freeing. -/
def Permitted (s : System ι α) : Act ι → Prop
  | .turn i _ => ∀ c next, s.locks.threads i = .outside (.call c next) → c.Allowed s.live s.outstanding
  | .store addr _ => ∃ b ∈ s.live, b.1 ≤ addr ∧ addr < b.1 + normalisedSize b.2 ∧
      ∀ i next rest, s.locks.threads i ≠ .inside (.dealloc b.1 b.2) next rest

abbrev Event (ι α : Type) := Trace.Event (System ι α) (Act ι) (Option (Answered Method Method.Answer))

/-- Any interleaving of the accesses of the threads and of stores. -/
abbrev Run [DecidableEq ι] : System ι α → List (Event ι α) → System ι α → Prop := Trace.Run step Permitted

end System

/-! ## What is not in the way of a call -/

/-- The blocks that are out and that a call does not free. -/
def Method.leaves (live : List (Nat × Layout)) : Method → List (Nat × Layout)
  | dealloc ptr layout => live.erase (ptr, layout)
  | alloc _ | allocFrame | deallocFrame _ | stats => live

/-- The changes that programs can make while a thread is in a call. -/
def foreign (live : List (Nat × Layout)) (c : Method) : (l : Lock) → Set (l.Value → l.Value)
  | .frames => {id}
  | .heap => overlays (wordsOf ((c.leaves live).map fun b => ⟨b.1, normalisedSize b.2⟩))

/-- Changes one after another are such a change. -/
theorem foreign_comp (live : List (Nat × Layout)) (c : Method) (l : Lock) :
    ∀ f ∈ foreign live c l, ∀ f' ∈ foreign live c l, f' ∘ f ∈ foreign live c l := by
  cases l with
  | frames =>
    rintro _ rfl _ rfl
    rfl
  | heap => exact overlays_comp

/-- Nothing is ever in the way of the frame allocator. -/
theorem clear_frames {β : Type} (p : BitmapFrameAllocator.Body β) (a : BitmapFrameAllocator) :
    Clear BitmapFrameAllocator.access {id} p a := by
  induction p generalizing a with
  | ret r => trivial
  | call c next ih =>
    refine ⟨?_, fun r a' _ => ih r a'⟩
    rintro _ rfl
    exact (congrFun Option.map_id _).symm

/-- A call leaves every block out that it does not free. -/
theorem mem_leaves {live : List (Nat × Layout)} {c : Method} {b : Nat × Layout} (hb : b ∈ live) (hc : c ≠ .dealloc b.1 b.2) :
    b ∈ c.leaves live := by
  cases c with
  | dealloc ptr layout =>
    refine (List.mem_erase_of_ne ?_).mpr hb
    rintro rfl
    exact hc rfl
  | _ => exact hb

/-- And so the words of such a block. -/
theorem mem_wordsOf_leaves {live : List (Nat × Layout)} {c : Method} {b : Nat × Layout} (hb : b ∈ live) (hc : c ≠ .dealloc b.1 b.2)
    {addr : Nat} (hlo : b.1 ≤ addr) (hhi : addr < b.1 + normalisedSize b.2) :
    addr ∈ wordsOf ((c.leaves live).map fun b => ⟨b.1, normalisedSize b.2⟩) :=
  ⟨⟨b.1, normalisedSize b.2⟩, List.mem_map_of_mem (mem_leaves hb hc), hlo, hhi⟩

/-- A store to a block that the call does not free is one of the changes. -/
theorem storeAt_mem_foreign {live : List (Nat × Layout)} {c : Method} {b : Nat × Layout} (hb : b ∈ live)
    (hc : c ≠ .dealloc b.1 b.2) {addr : Nat} (hlo : b.1 ≤ addr) (hhi : addr < b.1 + normalisedSize b.2) (value : Nat) (l : Lock) :
    storeAt addr value l ∈ foreign live c l := by
  cases l with
  | frames => rfl
  | heap => exact update_mem_overlays (mem_wordsOf_leaves hb hc hlo hhi) value

/-- The changes that programs can make are not in the way of a call that is allowed. -/
theorem clear_body {x : (l : Lock) → l.Value} {live : List (Nat × Layout)} {outstanding : List Frame}
    (h : HeapReachable ⟨x .heap, live⟩) {c : Method} (hc : c.Allowed live outstanding) :
    Clear c.lock.access (foreign live c c.lock) c.body (x c.lock) := by
  obtain ⟨free, hinv⟩ := h.inv
  cases c with
  | allocFrame => exact clear_frames _ _
  | deallocFrame frame => exact clear_frames _ _
  | stats => exact clear_frames _ _
  | alloc layout => exact clear_alloc hinv hc.2.1
  | dealloc ptr layout =>
    obtain ⟨before, after, -, hlive, herase⟩ := List.exists_erase_eq hc
    have hmap : HeapState.liveBlocks ⟨x .heap, live⟩ = before.map (fun b => ⟨b.1, normalisedSize b.2⟩) ++
        ⟨ptr, normalisedSize layout⟩ :: after.map (fun b => ⟨b.1, normalisedSize b.2⟩) := by
      rw [HeapState.liveBlocks, hlive, List.map_append]
      rfl
    rw [hmap] at hinv
    have hclear := clear_dealloc hinv
    rw [← List.map_append, ← herase] at hclear
    exact hclear

/-! ## The invariant -/

variable {ι α : Type}

/-- A thread in a call is allowed to be there, and nothing that programs can do is in its way. -/
def Undisturbed (live : List (Nat × Layout)) (outstanding : List Frame) (x : (l : Lock) → l.Value) : Thread allocators α → Prop
  | .inside c _ rest => c.Allowed live outstanding ∧ Clear c.lock.access (foreign live c c.lock) rest (x c.lock)
  | .outside _ | .spinning _ _ => True

/-- A thread is not concerned with what is behind the other lock. -/
theorem Undisturbed.congr {live live' : List (Nat × Layout)} {outstanding outstanding' : List Frame} {x x' : (l : Lock) → l.Value}
    {c : Method} {next : c.Answer → Prog Method Method.Answer α} {rest : Prog c.lock.Access c.lock.Result c.Answer}
    (h : Undisturbed live outstanding x (.inside c next rest)) (hx : x' c.lock = x c.lock) (hlive : c.lock = .heap → live' = live)
    (houtstanding : c.lock = .frames → outstanding' = outstanding) : Undisturbed live' outstanding' x' (.inside c next rest) := by
  obtain ⟨hallowed, hclear⟩ := h
  rw [← hx] at hclear
  cases c with
  | allocFrame => exact ⟨trivial, clear_frames _ _⟩
  | deallocFrame frame =>
    obtain rfl := houtstanding rfl
    exact ⟨hallowed, clear_frames _ _⟩
  | stats => exact ⟨trivial, clear_frames _ _⟩
  | alloc layout =>
    obtain rfl := hlive rfl
    exact ⟨hallowed, hclear⟩
  | dealloc ptr layout =>
    obtain rfl := hlive rfl
    exact ⟨hallowed, hclear⟩

/-- The system, with the calls that are under way not yet begun: the heap and the frame allocator are as a run of whole calls has left
them. -/
structure Inv (g : AllocatorGlobals) (s : System ι α) (cfg : Config ι Method Method.Answer α ((l : Lock) → l.Value)) : Prop where
  refines : Refines s.locks cfg
  heap : HeapReachable ⟨cfg.2 .heap, s.live⟩
  frames : ∃ returned, FrameReachable g ⟨cfg.2 .frames, s.outstanding, returned⟩
  sound : ∀ i, Undisturbed s.live s.outstanding s.locks.value (s.locks.threads i)

/-- At boot no call is under way. -/
theorem inv_boot (g : AllocatorGlobals) (a : LinkedListAllocator) (programs : ι → Prog Method Method.Answer α) :
    ∃ cfg, Inv g (System.boot g a programs) cfg :=
  ⟨_, refines_init _ _, ⟨a, .refl⟩, ⟨[], .refl⟩, fun _ => trivial⟩

/-- What a call that is done has done. -/
structure Done (g : AllocatorGlobals) (s s' : System ι α) (x : (l : Lock) → l.Value) (c : Method) : Prop where
  locks : s'.locks = s.locks
  heap : HeapReachable ⟨x .heap, s'.live⟩
  frames : ∃ returned, FrameReachable g ⟨x .frames, s'.outstanding, returned⟩
  live : c.lock = .frames → s'.live = s.live
  outstanding : c.lock = .heap → s'.outstanding = s.outstanding

/-- A whole call is one step of its allocator, and the other allocator stays. -/
theorem done_account {g : AllocatorGlobals} {s : System ι α} {x x' : (l : Lock) → l.Value} (hheap : HeapReachable ⟨x .heap, s.live⟩)
    (hframes : ∃ returned, FrameReachable g ⟨x .frames, s.outstanding, returned⟩) {c : Method} (hc : c.Allowed s.live s.outstanding)
    {r : c.Answer} (hwhole : c.whole (x c.lock) = some (r, x' c.lock)) (hother : ∀ l, l ≠ c.lock → x' l = x l) :
    Done g s (s.account (some ⟨c, r⟩)) x' c := by
  have hne : Lock.heap ≠ .frames := by decide
  obtain ⟨a, hsteps⟩ := hheap
  obtain ⟨returned, hframes⟩ := hframes
  cases c with
  | allocFrame =>
    have hcall : (x .frames).allocateFrame = (r, x' .frames) := Option.some.inj hwhole
    have hheap : HeapReachable ⟨x' .heap, s.live⟩ := by
      rw [hother .heap hne]
      exact ⟨a, hsteps⟩
    cases r with
    | none => exact ⟨rfl, hheap, ⟨returned, hframes.tail (.exhausted _ hcall)⟩, fun _ => rfl, fun _ => rfl⟩
    | some frame => exact ⟨rfl, hheap, ⟨frame :: returned, hframes.tail (.allocate frame _ hcall)⟩, fun _ => rfl, fun h => by cases h⟩
  | deallocFrame frame =>
    have hcall : (x .frames).deallocateFrame frame = x' .frames := (Prod.mk.inj (Option.some.inj hwhole)).2
    have hstep : FrameStep ⟨x .frames, s.outstanding, returned⟩ ⟨(x .frames).deallocateFrame frame, s.outstanding.erase frame, returned⟩ :=
      .deallocate frame hc
    rw [hcall] at hstep
    refine ⟨rfl, ?_, ⟨returned, hframes.tail hstep⟩, fun _ => rfl, fun h => by cases h⟩
    rw [hother .heap hne]
    exact ⟨a, hsteps⟩
  | stats =>
    have hsame : x .frames = x' .frames := (Prod.mk.inj (Option.some.inj hwhole)).2
    refine ⟨rfl, ?_, ⟨returned, hsame ▸ hframes⟩, fun _ => rfl, fun _ => rfl⟩
    rw [hother .heap hne]
    exact ⟨a, hsteps⟩
  | alloc layout =>
    have hstep : HeapStep ⟨x .heap, s.live⟩ ⟨x' .heap, if r = 0 then s.live else (r, layout) :: s.live⟩ :=
      .alloc layout r _ hc.1 hc.2.1 hwhole
    have hframes : FrameReachable g ⟨x' .frames, s.outstanding, returned⟩ := by
      rw [hother .frames hne.symm]
      exact hframes
    by_cases hnull : r = 0
    · rw [if_pos hnull] at hstep
      rw [System.account, if_pos hnull]
      exact ⟨rfl, ⟨a, hsteps.tail hstep⟩, ⟨returned, hframes⟩, (fun h => by cases h), fun _ => rfl⟩
    · rw [if_neg hnull] at hstep
      rw [System.account, if_neg hnull]
      exact ⟨rfl, ⟨a, hsteps.tail hstep⟩, ⟨returned, hframes⟩, (fun h => by cases h), fun _ => rfl⟩
  | dealloc ptr layout =>
    obtain ⟨a', hcall, heq⟩ := Option.map_eq_some_iff.mp hwhole
    obtain ⟨before, after, -, hlive, herase⟩ := List.exists_erase_eq hc
    have hstep : HeapStep ⟨x .heap, s.live⟩ ⟨a', before ++ after⟩ := .dealloc before after ptr layout a' hlive hcall
    rw [(Prod.mk.inj heq).2, ← herase] at hstep
    refine ⟨rfl, ⟨a, hsteps.tail hstep⟩, ⟨returned, ?_⟩, (fun h => by cases h), fun _ => rfl⟩
    rw [hother .frames hne.symm]
    exact hframes

namespace Inv

variable {g : AllocatorGlobals} {s s' : System ι α} {cfg : Config ι Method Method.Answer α ((l : Lock) → l.Value)}

/-- Programs store to a block that is out and that no thread is freeing. -/
theorem store (h : Inv g s cfg) {b : Nat × Layout} (hb : b ∈ s.live) {addr : Nat} (hlo : b.1 ≤ addr)
    (hhi : addr < b.1 + normalisedSize b.2) (hkept : ∀ i next rest, s.locks.threads i ≠ .inside (.dealloc b.1 b.2) next rest)
    (value : Nat) :
    Inv g ⟨s.locks.mapValue (storeAt addr value), s.live, s.outstanding⟩ (cfg.1, fun l => storeAt addr value l (cfg.2 l)) := by
  have hforeign : ∀ i c next rest, s.locks.threads i = .inside c next rest → storeAt addr value c.lock ∈ foreign s.live c c.lock := by
    intro i c next rest hi
    refine storeAt_mem_foreign hb ?_ hlo hhi value c.lock
    rintro rfl
    exact hkept i next rest hi
  refine ⟨h.refines.mapValue (foreign s.live) hforeign ?_, ?_, h.frames, ?_⟩
  · intro i c next rest hi
    have hsound := h.sound i
    rw [hi] at hsound
    exact ⟨hsound.2, clear_body h.heap hsound.1⟩
  · obtain ⟨a, hsteps⟩ := h.heap
    exact ⟨a, hsteps.tail (.write ⟨b.1, normalisedSize b.2⟩ addr value (List.mem_map_of_mem hb) hlo hhi)⟩
  · intro i
    have hsound := h.sound i
    cases hi : s.locks.threads i with
    | outside p => rw [State.mapValue_threads, hi]; trivial
    | spinning c next => rw [State.mapValue_threads, hi]; trivial
    | inside c next rest =>
      rw [State.mapValue_threads, hi]
      rw [hi] at hsound
      exact ⟨hsound.1, hsound.2.apply (foreign_comp s.live c c.lock) (hforeign i c next rest hi)⟩

/-- The value behind a lock changes, and only the thread that has the lock is in a call behind it. -/
theorem sound_of_ne (h : Inv g s cfg) {i j : ι} {c : Method} {next : c.Answer → Prog Method Method.Answer α}
    {rest : Prog c.lock.Access c.lock.Result c.Answer} (hthread : s.locks.threads i = .inside c next rest) (hj : j ≠ i)
    {live : List (Nat × Layout)} {outstanding : List Frame} {x : (l : Lock) → l.Value} (hx : ∀ l, l ≠ c.lock → x l = s.locks.value l)
    (hlive : c.lock = .frames → live = s.live) (houtstanding : c.lock = .heap → outstanding = s.outstanding) :
    Undisturbed live outstanding x (s.locks.threads j) := by
  have hsound := h.sound j
  cases hthread' : s.locks.threads j with
  | outside p => trivial
  | spinning c' next' => trivial
  | inside c' next' rest' =>
    have hne : c'.lock ≠ c.lock := h.refines.lock_ne hthread hthread' hj
    rw [hthread'] at hsound
    refine hsound.congr (hx _ hne) (fun hheap => hlive ?_) fun hframes => houtstanding ?_
    · rw [hheap] at hne
      cases hc : c.lock with
      | frames => rfl
      | heap => exact absurd hc.symm hne
    · rw [hframes] at hne
      cases hc : c.lock with
      | frames => exact absurd hc.symm hne
      | heap => rfl

variable [DecidableEq ι]

/-- A thread goes on outside of the locks. -/
theorem setThread (h : Inv g s cfg) {i : ι} {t : Thread allocators α} (hprogram : t.program = (s.locks.threads i).program)
    (hbefore : (s.locks.threads i).holds? = none) (hafter : t.holds? = none) :
    Inv g ⟨s.locks.setThread i t, s.live, s.outstanding⟩ cfg := by
  refine ⟨h.refines.setThread hprogram hbefore hafter, h.heap, h.frames, ?_⟩
  refine (Function.forall_update_iff _ fun _ => Undisturbed s.live s.outstanding s.locks.value).mpr ⟨?_, fun j _ => h.sound j⟩
  cases t with
  | inside c next rest => cases hafter
  | outside p => trivial
  | spinning c next => trivial

/-- A thread takes a lock and is in its call. -/
theorem acquire (h : Inv g s cfg) {i : ι} {c : Method} {next : c.Answer → Prog Method Method.Answer α}
    (hthread : s.locks.threads i = .outside (.call c next)) (hfree : s.locks.locked c.lock = false)
    (hallowed : c.Allowed s.live s.outstanding) :
    Inv g ⟨(s.locks.setThread i (.inside c next c.body)).setLocked c.lock true, s.live, s.outstanding⟩ cfg := by
  refine ⟨h.refines.acquire hthread hfree, h.heap, h.frames, ?_⟩
  refine (Function.forall_update_iff _ fun _ => Undisturbed s.live s.outstanding s.locks.value).mpr ⟨⟨hallowed, ?_⟩, fun j _ => h.sound j⟩
  have hvalue : cfg.2 c.lock = s.locks.value c.lock := h.refines.free c.lock hfree
  rw [← hvalue]
  exact clear_body h.heap hallowed

/-- A thread goes on in its call. The whole call has not yet happened. -/
theorem access (h : Inv g s cfg) {i : ι} {c : Method} {next : c.Answer → Prog Method Method.Answer α} {a : c.lock.Access}
    {k : c.lock.Result a → Prog c.lock.Access c.lock.Result c.Answer} {r : c.lock.Result a} {y : c.lock.Value}
    (hthread : s.locks.threads i = .inside c next (.call a k)) (hanswer : c.lock.access a (s.locks.value c.lock) = some (r, y)) :
    Inv g ⟨(s.locks.setThread i (.inside c next (k r))).setValue c.lock y, s.live, s.outstanding⟩ cfg := by
  refine ⟨h.refines.access hthread hanswer, h.heap, h.frames, ?_⟩
  have hself : Function.update s.locks.value c.lock y c.lock = y := Function.update_self _ _ _
  refine (Function.forall_update_iff _ fun _ => Undisturbed s.live s.outstanding (Function.update s.locks.value c.lock y)).mpr ⟨?_, ?_⟩
  · have hsound := h.sound i
    rw [hthread] at hsound
    exact ⟨hsound.1, by rw [hself]; exact hsound.2.2 r y hanswer⟩
  · intro j hj
    exact h.sound_of_ne hthread hj (fun l hl => Function.update_of_ne hl _ _) (fun _ => rfl) fun _ => rfl

/-- A thread gives the lock back. Now the whole call has happened. -/
theorem release (h : Inv g s cfg) {i : ι} {c : Method} {next : c.Answer → Prog Method Method.Answer α} {r : c.Answer}
    (hthread : s.locks.threads i = .inside c next (.ret r)) :
    ∃ cfg', Inv g (System.account ⟨(s.locks.setThread i (.outside (next r))).setLocked c.lock false, s.live, s.outstanding⟩
      (some ⟨c, r⟩)) cfg' := by
  obtain ⟨cfg', hstep, hrefines⟩ := h.refines.release hthread
  obtain ⟨next', x, -, hexec, rfl⟩ := eq_of_step hstep
  have hsound := h.sound i
  rw [hthread] at hsound
  -- the call as a whole
  obtain ⟨⟨r', y⟩, hrun, heq⟩ := Option.map_eq_some_iff.mp hexec
  obtain ⟨hr, rfl⟩ := Prod.mk.inj heq
  have hwhole : c.whole (cfg.2 c.lock) = some (r, Function.update cfg.2 c.lock y c.lock) := by
    rw [Function.update_self, ← run_body]
    exact hrun.trans (congrArg (fun r => some (r, y)) hr)
  have hdone := done_account (s := ⟨(s.locks.setThread i (.outside (next r))).setLocked c.lock false, s.live, s.outstanding⟩)
    h.heap h.frames hsound.1 hwhole fun l hl => Function.update_of_ne hl _ _
  refine ⟨(Function.update cfg.1 i (next' r), Function.update cfg.2 c.lock y), ?_, hdone.heap, hdone.frames, ?_⟩
  · rw [hdone.locks]
    exact hrefines
  · rw [hdone.locks]
    refine (Function.forall_update_iff _ fun _ => Undisturbed _ _ _).mpr ⟨trivial, fun j hj => ?_⟩
    exact h.sound_of_ne hthread hj (fun _ _ => rfl) hdone.live hdone.outstanding

/-- One step. -/
theorem step (h : Inv g s cfg) {act : Act ι} {out : Option (Answered Method Method.Answer)} (hpermitted : s.Permitted act)
    (hstep : s.step act = some (out, s')) : ∃ cfg', Inv g s' cfg' := by
  cases act with
  | store addr value =>
    obtain ⟨b, hb, hlo, hhi, hkept⟩ := hpermitted
    cases hstep
    exact ⟨_, h.store hb hlo hhi hkept value⟩
  | turn i fails =>
    obtain ⟨⟨out', locks⟩, hturn, heq⟩ := Option.map_eq_some_iff.mp hstep
    obtain ⟨rfl, rfl⟩ := Prod.mk.inj heq
    cases moves_of_step hturn with
    | acquire thread free => exact ⟨cfg, h.acquire thread free (hpermitted _ _ thread)⟩
    | fail thread => exact ⟨cfg, h.setThread (by rw [thread]; rfl) (by rw [thread]; rfl) rfl⟩
    | wait thread => exact ⟨cfg, h⟩
    | retry thread => exact ⟨cfg, h.setThread (by rw [thread]; rfl) (by rw [thread]; rfl) rfl⟩
    | access thread answer => exact ⟨cfg, h.access thread answer⟩
    | release thread => exact h.release thread

end Inv

/-- The system at any time. -/
theorem exists_inv [DecidableEq ι] {g : AllocatorGlobals} {a : LinkedListAllocator} {programs : ι → Prog Method Method.Answer α}
    {evs : List (System.Event ι α)} {s : System ι α} (run : System.Run (System.boot g a programs) evs s) : ∃ cfg, Inv g s cfg :=
  run.preserves (P := fun s => ∃ cfg, Inv g s cfg) (Q := fun _ => True) (fun _ taken _ ⟨_, h⟩ => h.step taken.permitted taken.step)
    (fun _ _ => trivial) (inv_boot g a programs)

/-! ## Calls end -/

/-- A layout that is out is one that `size_align` accepts. -/
theorem sizeAlign_of_live {s : HeapState} (h : HeapReachable s) {ptr : Nat} {layout : Layout} (hmem : (ptr, layout) ∈ s.live) :
    (sizeAlign layout).isSome := by
  obtain ⟨free, hinv⟩ := h.inv
  have hgranular := hinv.granular ⟨ptr, normalisedSize layout⟩ (List.mem_append_right _ (List.mem_map_of_mem hmem))
  cases hsa : sizeAlign layout with
  | none => simp [normalisedSize, hsa] at hgranular
  | some r => rfl

/-- A call that is allowed comes to an end. -/
theorem whole_isSome {x : (l : Lock) → l.Value} {live : List (Nat × Layout)} {outstanding : List Frame}
    (h : HeapReachable ⟨x .heap, live⟩) {c : Method} (hc : c.Allowed live outstanding) : (c.whole (x c.lock)).isSome := by
  cases c with
  | allocFrame => rfl
  | deallocFrame frame => rfl
  | stats => rfl
  | alloc layout =>
    obtain ⟨free, hinv⟩ := h.inv
    obtain ⟨⟨size, align⟩, hsa⟩ := Option.isSome_iff_exists.mp hc.2.2
    show ((x .heap).alloc layout).isSome
    rcases alloc_spec hinv hsa (fun b hb => hinv.room (sizeAlign_spec hc.2.1 hsa).1 hb) with
      ⟨hnull, -⟩ | ⟨b, -, y, a', free', -, -, -, hret, -⟩
    · rw [hnull]
      rfl
    · rw [hret]
      rfl
  | dealloc ptr layout =>
    show (((x .heap).dealloc ptr layout).map fun a => ((), a)).isSome
    rw [Option.isSome_map, LinkedListAllocator.dealloc, Option.isSome_map]
    exact sizeAlign_of_live h hc

section

variable {s s' : System ι α} {i : ι} {c : Method} {next : c.Answer → Prog Method Method.Answer α}
  {rest : Prog c.lock.Access c.lock.Result c.Answer} {r : c.Answer} {y : c.lock.Value}

/-- In a call a thread owes nothing. -/
theorem permitted_of_inside (hthread : s.locks.threads i = .inside c next rest) : s.Permitted (.turn i false) := by
  intro c' next' hc'
  rw [hthread] at hc'
  cases hc'

/-- The events are turns of the thread that makes the call. Whoever else is in a call was in it before. -/
def OwnTurns (s : System ι α) (i : ι) (c : Method) (evs : List (System.Event ι α)) : Prop :=
  ∀ e ∈ evs, e.input = .turn i false ∧ ∀ j c' next' rest', e.before.locks.threads j = .inside c' next' rest' →
    c' = c ∨ s.locks.threads j = .inside c' next' rest'

/-- While a thread makes another call no thread begins to free a block. -/
theorem OwnTurns.not_freeing {evs : List (System.Event ι α)} (h : OwnTurns s i c evs) {ptr : Nat} {layout : Layout}
    (hc : c ≠ .dealloc ptr layout) (hs : ∀ j next rest, s.locks.threads j ≠ .inside (.dealloc ptr layout) next rest) :
    ∀ e ∈ evs, ∀ j next rest, e.before.locks.threads j ≠ .inside (.dealloc ptr layout) next rest := by
  intro e he j next rest hj
  rcases (h e he).2 j _ next rest hj with hcall | hj
  · exact hc hcall.symm
  · exact hs j next rest hj

variable [DecidableEq ι]

/-- A permitted turn is a run. -/
theorem run_turn {out : Option (Answered Method Method.Answer)} (hpermitted : s.Permitted (.turn i false))
    (hstep : s.step (.turn i false) = some (out, s')) : System.Run s [⟨s, .turn i false, out, s'⟩] s' := by
  have hstart : System.Run s [] s := .nil
  exact hstart.concat (e := ⟨s, .turn i false, out, s'⟩) ⟨hpermitted, hstep⟩

/-- The events after the first are those of a state that differs in the thread itself. -/
theorem OwnTurns.cons {evs : List (System.Event ι α)} {out : Option (Answered Method Method.Answer)}
    (hthreads : s'.locks.threads = Function.update s.locks.threads i (.inside c next rest)) (h : OwnTurns s' i c evs) :
    OwnTurns s i c (⟨s, .turn i false, out, s'⟩ :: evs) := by
  refine List.forall_mem_cons.mpr ⟨⟨rfl, fun _ _ _ _ hj => .inr hj⟩, fun e he => ⟨(h e he).1, ?_⟩⟩
  intro j c' next' rest' hj
  rcases (h e he).2 j c' next' rest' hj with hc | hj
  · exact .inl hc
  rw [hthreads] at hj
  by_cases hji : j = i
  · subst hji
    rw [Function.update_self] at hj
    cases hj
    exact .inl rfl
  · rw [Function.update_of_ne hji] at hj
    exact .inr hj

/-- A thread in a call comes to its end by turns of its own. -/
theorem exists_finish (hthread : s.locks.threads i = .inside c next rest)
    (hrun : rest.run c.lock.access (s.locks.value c.lock) = some (r, y)) :
    ∃ evs, System.Run s evs (s.finished i c next r y) ∧ OwnTurns s i c evs := by
  induction rest generalizing s with
  | ret r' =>
    cases hrun
    have hturn : s.locks.step (i, false) = some (some ⟨c, r⟩, (s.locks.setThread i (.outside (next r))).setLocked c.lock false) := by
      simp only [State.step, hthread]
    have hsame : ((s.locks.setThread i (.outside (next r))).setLocked c.lock false).setValue c.lock (s.locks.value c.lock) =
        (s.locks.setThread i (.outside (next r))).setLocked c.lock false := by
      simp [State.setValue, State.setThread, State.setLocked]
    have hstep : s.step (.turn i false) = some (some ⟨c, r⟩, s.finished i c next r (s.locks.value c.lock)) := by
      rw [System.finished, hsame, System.step, hturn]
      rfl
    exact ⟨_, run_turn (permitted_of_inside hthread) hstep, List.forall_mem_singleton.mpr ⟨rfl, fun _ _ _ _ hj => .inr hj⟩⟩
  | call a k ih =>
    rw [Prog.run_call] at hrun
    obtain ⟨⟨b, z⟩, hanswer, hrun⟩ := Option.bind_eq_some_iff.mp hrun
    have hturn : s.locks.step (i, false) = some (none, (s.locks.setThread i (.inside c next (k b))).setValue c.lock z) := by
      simp only [State.step, hthread, hanswer, Option.map_some]
    have hstep : s.step (.turn i false) =
        some (none, ⟨(s.locks.setThread i (.inside c next (k b))).setValue c.lock z, s.live, s.outstanding⟩) := by
      rw [System.step, hturn]
      rfl
    obtain ⟨evs, run, hown⟩ :=
      ih b (s := ⟨(s.locks.setThread i (.inside c next (k b))).setValue c.lock z, s.live, s.outstanding⟩) (by simp) (by simpa using hrun)
    have hend : System.finished ⟨(s.locks.setThread i (.inside c next (k b))).setValue c.lock z, s.live, s.outstanding⟩ i c next r y =
        s.finished i c next r y := by
      simp only [System.finished, State.setValue, State.setThread, State.setLocked, Function.update_idem]
    rw [hend] at run
    exact ⟨_, (run_turn (permitted_of_inside hthread) hstep).append run, hown.cons rfl⟩

/-- The thread takes the lock that its call is behind. -/
theorem run_acquire (hthread : s.locks.threads i = .outside (.call c next)) (hfree : s.locks.locked c.lock = false)
    (hallowed : c.Allowed s.live s.outstanding) :
    System.Run s [⟨s, .turn i false, none, s.acquired i c next⟩] (s.acquired i c next) := by
  have hpermitted : s.Permitted (.turn i false) := by
    intro c' next' hc'
    rw [hthread] at hc'
    cases hc'
    exact hallowed
  have hturn : s.locks.step (i, false) = some (none, (s.locks.setThread i (.inside c next c.body)).setLocked c.lock true) := by
    simp [State.step, hthread, hfree]
  have hstep : s.step (.turn i false) = some (none, s.acquired i c next) := by
    rw [System.step, hturn]
    rfl
  exact run_turn hpermitted hstep

/-- A thread makes a whole call by turns of its own when the lock is free. -/
theorem exists_call (hthread : s.locks.threads i = .outside (.call c next)) (hfree : s.locks.locked c.lock = false)
    (hallowed : c.Allowed s.live s.outstanding) (hwhole : c.whole (s.locks.value c.lock) = some (r, y)) :
    ∃ evs, System.Run s evs (s.finished i c next r y) ∧ OwnTurns s i c evs := by
  have first := run_acquire hthread hfree hallowed
  have hinside : (s.acquired i c next).locks.threads i = .inside c next c.body := by simp [System.acquired]
  obtain ⟨evs, run, hown⟩ := exists_finish hinside ((run_body c _).trans hwhole)
  have hend : (s.acquired i c next).finished i c next r y = s.finished i c next r y := by
    simp only [System.finished, System.acquired, State.setValue, State.setThread, State.setLocked, Function.update_idem]
  rw [hend] at run
  exact ⟨_, first.append run, hown.cons rfl⟩

end

/-! ## Blocks and frames -/

/-- A pointer that is out is aligned as it was asked to be, and its block has the size asked for. -/
theorem HeapReachable.suits {s : HeapState} (h : HeapReachable s) :
    ∀ b ∈ s.live, b.2.align ∣ b.1 ∧ b.2.size ≤ normalisedSize b.2 := by
  obtain ⟨a, hsteps⟩ := h
  induction hsteps with
  | refl => simp [HeapState.boot]
  | @tail s s' hbefore hstep ih =>
    cases hstep with
    | alloc layout ptr a' hsize halign heq =>
      by_cases hnull : ptr = 0
      · simpa [hnull] using ih
      · rw [if_neg hnull]
        refine List.forall_mem_cons.mpr ⟨?_, ih⟩
        obtain ⟨free, hinv⟩ := HeapReachable.inv ⟨a, hbefore⟩
        obtain ⟨⟨size, align⟩, hsa, -⟩ := Option.bind_eq_some_iff.mp heq
        have hrequested := sizeAlign_requested hsa
        rcases alloc_spec hinv hsa (fun b hb => hinv.room (sizeAlign_spec halign hsa).1 hb) with
          ⟨hzero, -⟩ | ⟨b, -, x, a'', free', -, -, hplaced, hret, -⟩
        · exact absurd (Prod.mk.inj (Option.some.inj (heq.symm.trans hzero))).1 hnull
        · obtain ⟨rfl, -⟩ := Prod.mk.inj (Option.some.inj (heq.symm.trans hret))
          exact ⟨hrequested.dvd.trans hplaced.aligned, by rw [normalisedSize_eq hsa]; exact hrequested.le_size⟩
    | dealloc before after ptr layout a' hlive heq =>
      intro b hb
      refine ih b ?_
      rw [hlive]
      rcases List.mem_append.mp hb with hb | hb
      · exact List.mem_append_left _ hb
      · exact List.mem_append_right _ (List.mem_cons_of_mem _ hb)
    | write b addr value hb hlo hhi => exact ih

/-- However the accesses of the threads and the stores of the programs interleave. The two allocators are as a run of whole calls has
left them, but for the one call behind each lock that is under way; what is left of that call has the answer and the effect of the whole
call, and the thread that makes it comes to its end by turns of its own. The blocks that are out are apart from each other, lie in the
heap and are aligned and large enough; and no frame is out twice. -/
theorem allocators_exclusive [DecidableEq ι] (regions : List MemoryRegion) (g : AllocatorGlobals)
    (hinit : AllocatorGlobals.boot.init regions = some (.ok (), g)) (a : LinkedListAllocator)
    (programs : ι → Prog Method Method.Answer α) (evs : List (System.Event ι α)) (s : System ι α)
    (run : System.Run (System.boot g a programs) evs s) :
    (∃ x : (l : Lock) → l.Value, HeapReachable ⟨x .heap, s.live⟩ ∧
      (∃ returned, FrameReachable g ⟨x .frames, s.outstanding, returned⟩) ∧
      (∀ l, s.locks.locked l = false → s.locks.value l = x l) ∧
      ∀ i c next rest, s.locks.threads i = .inside c next rest →
        (∀ j c' next' rest', s.locks.threads j = .inside c' next' rest' → c'.lock = c.lock → j = i) ∧
        ∃ r y, c.whole (x c.lock) = some (r, y) ∧ rest.run c.lock.access (s.locks.value c.lock) = some (r, y) ∧
          ∃ evs' s', System.Run s evs' s' ∧ (∀ e ∈ evs', e.input = .turn i false) ∧ s'.locks.threads i = .outside (next r)) ∧
    (s.live.map fun b => (⟨b.1, normalisedSize b.2⟩ : Extent)).Pairwise Extent.Apart ∧
    (∀ b ∈ s.live, b.2.align ∣ b.1 ∧ b.2.size ≤ normalisedSize b.2 ∧ heapStart ≤ b.1 ∧
      b.1 + normalisedSize b.2 ≤ heapStart + heapSize) ∧
    s.outstanding.Nodup ∧ ∀ f ∈ s.outstanding, IsFrameOf (g.allocator.bitmap.clearBits maxFrames) f := by
  obtain ⟨cfg, h⟩ := exists_inv run
  obtain ⟨free, hinv⟩ := h.heap.inv
  obtain ⟨returned, hframes⟩ := h.frames
  obtain ⟨q, a₀, heq, hacc, -⟩ := AllocatorGlobals.init_spec regions
  obtain ⟨-, rfl⟩ := Prod.mk.inj (Option.some.inj (hinit.symm.trans heq))
  have hout := hframes.inv hacc
  refine ⟨⟨cfg.2, h.heap, h.frames, fun l hl => (h.refines.free l hl).symm, ?_⟩, ?_, ?_, hout.nodup, fun f hf => (hout.out f hf).1⟩
  · intro i c next rest hthread
    refine ⟨?_, ?_⟩
    · intro j c' next' rest' hthread' hlock
      refine h.refines.holder_unique j i c.lock ?_ (by rw [hthread]; rfl)
      rw [hthread', ← hlock]
      rfl
    · have hsound := h.sound i
      rw [hthread] at hsound
      obtain ⟨⟨r, y⟩, hwhole⟩ := Option.isSome_iff_exists.mp (whole_isSome h.heap hsound.1)
      have hrest : rest.run c.lock.access (s.locks.value c.lock) = some (r, y) :=
        (h.refines.rest i c next rest hthread).trans ((run_body c _).trans hwhole)
      obtain ⟨evs', hfinish, hown⟩ := exists_finish hthread hrest
      exact ⟨r, y, hwhole, hrest, evs', _, hfinish, fun e he => (hown e he).1, by simp [System.finished]⟩
  · exact (List.pairwise_append.mp hinv.covers.pairwise).2.1
  · intro b hb
    have hbounds := hinv.covers.bounds ⟨b.1, normalisedSize b.2⟩ (List.mem_append_right _ (List.mem_map_of_mem hb))
    obtain ⟨halign, hsize⟩ := h.heap.suits b hb
    exact ⟨halign, hsize, hbounds⟩

/-- Two threads: one allocates three words, the other a frame and then three words. -/
def borrowers : Bool → Prog Method Method.Answer Nat
  | false => .call (.alloc layout24) .ret
  | true => .call .allocFrame fun _ => .call (.alloc layout24) .ret

/-- The second thread has its frame while the first one is in the middle of `alloc`. -/
def midway (g : AllocatorGlobals) (f : BitmapFrameAllocator) : System Bool Nat :=
  ((System.boot g ⟨0, fun _ => 0⟩ borrowers).acquired false (.alloc layout24) .ret).finished true .allocFrame
    (fun _ => .call (.alloc layout24) .ret) (some ⟨0x1000⟩) f

/-- Then the first thread comes to its end, and the second one gets the next block. -/
def bothServed (g : AllocatorGlobals) (f : BitmapFrameAllocator) : System Bool Nat :=
  ((midway g f).finished false (.alloc layout24) .ret heapStart after24.heap).finished true (.alloc layout24) .ret (heapStart + 24)
    (after24.heap.carve .head ⟨heapStart + 24, heapSize - 24⟩ 24 8)

/-- The first thread takes the lock of the heap, and then the second makes its first call. -/
theorem exists_run_midway {g : AllocatorGlobals} {f : BitmapFrameAllocator} (hframe : g.allocator.allocateFrame = (some ⟨0x1000⟩, f)) :
    ∃ evs, System.Run (System.boot g ⟨0, fun _ => 0⟩ borrowers) evs (midway g f) := by
  have first := run_acquire (s := System.boot g ⟨0, fun _ => 0⟩ borrowers) (i := false) (c := .alloc layout24) rfl rfl
    ⟨by decide, by decide, by decide⟩
  obtain ⟨evs, run, -⟩ := exists_call (s := (System.boot g ⟨0, fun _ => 0⟩ borrowers).acquired false (.alloc layout24) .ret)
    (i := true) (c := .allocFrame) rfl rfl trivial (congrArg some hframe)
  exact ⟨_, first.append run⟩

/-- Both threads make the calls that are left. -/
theorem exists_run_bothServed (g : AllocatorGlobals) (f : BitmapFrameAllocator) :
    ∃ evs, System.Run (midway g f) evs (bothServed g f) := by
  obtain ⟨evs, run, -⟩ := exists_finish (s := midway g f) (i := false) (c := .alloc layout24) rfl
    ((run_body (.alloc layout24) _).trans alloc_freshHeap)
  obtain ⟨evs', run', -⟩ := exists_call (s := (midway g f).finished false (.alloc layout24) .ret heapStart after24.heap)
    (i := true) (c := .alloc layout24) rfl rfl ⟨by decide, by decide, by decide⟩ alloc_after24
  exact ⟨_, run.append run'⟩

/-- There are two frames, and the first is the one that is handed out. -/
theorem exists_init_twoFrames : ∃ g f, AllocatorGlobals.boot.init twoFrames = some (.ok (), g) ∧
    g.allocator.allocateFrame = (some ⟨0x1000⟩, f) := by
  obtain ⟨q, a, heq, -, -, -, hok⟩ := AllocatorGlobals.init_spec twoFrames
  have hb : BitmapFrameAllocator.Bootable twoFrames := ⟨by decide, ⟨_, List.mem_singleton.mpr rfl, by decide, by decide⟩⟩
  rw [hok hb] at heq
  have hplay : (AllocatorGlobals.boot.init twoFrames).map (fun r => r.2.allocator.allocateFrame.1) = some (some ⟨0x1000⟩) := by
    decide +kernel
  rw [heq, Option.map_some, Option.some.injEq] at hplay
  exact ⟨_, _, heq, Prod.ext hplay rfl⟩

/-- In the middle of `alloc` the first thread can come to its end by itself. When both threads have been served there are two blocks and
a frame out. -/
theorem allocators_exclusive_borrowers : ∃ g f evs evs', AllocatorGlobals.boot.init twoFrames = some (.ok (), g) ∧
    System.Run (System.boot g ⟨0, fun _ => 0⟩ borrowers) evs (midway g f) ∧
    (∃ r own s, System.Run (midway g f) own s ∧ (∀ e ∈ own, e.input = .turn false false) ∧
      s.locks.threads false = .outside (.ret r)) ∧
    System.Run (midway g f) evs' (bothServed g f) ∧
    (bothServed g f).live = [(heapStart + 24, layout24), (heapStart, layout24)] ∧
    ((bothServed g f).live.map fun b => (⟨b.1, normalisedSize b.2⟩ : Extent)).Pairwise Extent.Apart ∧
    (bothServed g f).outstanding = [⟨0x1000⟩] ∧ IsFrameOf (g.allocator.bitmap.clearBits maxFrames) ⟨0x1000⟩ := by
  obtain ⟨g, f, hinit, hframe⟩ := exists_init_twoFrames
  obtain ⟨evs, run⟩ := exists_run_midway hframe
  obtain ⟨evs', run'⟩ := exists_run_bothServed g f
  obtain ⟨⟨x, -, -, -, hinside⟩, -⟩ := allocators_exclusive twoFrames g hinit _ _ evs _ run
  obtain ⟨-, r, y, -, -, own, s, hrun, hturns, hend⟩ := hinside false (.alloc layout24) .ret (Method.alloc layout24).body rfl
  obtain ⟨-, hapart, -, -, hframes⟩ := allocators_exclusive twoFrames g hinit _ _ _ _ (run.append run')
  exact ⟨g, f, evs, evs', hinit, run, ⟨r, own, s, hrun, hturns, hend⟩, run', rfl, hapart, rfl, hframes _ (List.mem_singleton.mpr rfl)⟩

/-! ## Contents -/

/-- An access that is clear of stores to a word leaves the word as it is. -/
theorem mem_of_clear {β : Type} {X : Set Nat} {c : HeapAccess} {next : c.Result → LinkedListAllocator.Body β}
    {a a' : LinkedListAllocator} {r : c.Result} (h : Clear LinkedListAllocator.access (overlays X) (.call c next) a)
    (haccess : LinkedListAllocator.access c a = some (r, a')) {addr : Nat} (haddr : addr ∈ X) : a'.mem addr = a.mem addr := by
  -- a store of what is there changes nothing, before the access or after it
  have hstore := h.1 _ (update_mem_overlays haddr (a.mem addr))
  rw [haccess, Option.map_some, Function.update_eq_self] at hstore
  have hsame := (Prod.mk.inj (Option.some.inj (haccess.symm.trans hstore))).2
  rw [hsame]
  exact Function.update_self _ _ _

/-- A block that no thread is freeing stays out. -/
theorem mem_live_account {s : System ι α} {out : Option (Answered Method Method.Answer)} {b : Nat × Layout} (hb : b ∈ s.live)
    (hout : ∀ r, out ≠ some ⟨.dealloc b.1 b.2, r⟩) : b ∈ (s.account out).live := by
  unfold System.account
  split
  · split
    · exact hb
    · exact List.mem_cons_of_mem _ hb
  · rename_i ptr layout r
    refine (List.mem_erase_of_ne ?_).mpr hb
    rintro rfl
    exact hout r rfl
  all_goals exact hb

/-- One step leaves a word of a block as it is, and the block out, unless it stores to the word or frees the block. -/
theorem Inv.contents [DecidableEq ι] {g : AllocatorGlobals} {s s' : System ι α}
    {cfg : Config ι Method Method.Answer α ((l : Lock) → l.Value)} (h : Inv g s cfg) {act : Act ι}
    {out : Option (Answered Method Method.Answer)} (hstep : s.step act = some (out, s')) {b : Nat × Layout} (hb : b ∈ s.live) {addr : Nat}
    (hlo : b.1 ≤ addr) (hhi : addr < b.1 + normalisedSize b.2) (hact : ∀ value, act ≠ .store addr value)
    (hkept : ∀ i next rest, s.locks.threads i ≠ .inside (.dealloc b.1 b.2) next rest) :
    b ∈ s'.live ∧ s'.heap.mem addr = s.heap.mem addr := by
  cases act with
  | store x value =>
    cases hstep
    refine ⟨hb, Function.update_of_ne ?_ _ _⟩
    rintro rfl
    exact hact value rfl
  | turn i fails =>
    obtain ⟨⟨out', locks⟩, hturn, heq⟩ := Option.map_eq_some_iff.mp hstep
    obtain ⟨rfl, rfl⟩ := Prod.mk.inj heq
    cases moves_of_step hturn with
    | acquire thread free => exact ⟨hb, rfl⟩
    | fail thread => exact ⟨hb, rfl⟩
    | wait thread => exact ⟨hb, rfl⟩
    | retry thread => exact ⟨hb, rfl⟩
    | @access c next x k r y thread answer =>
      refine ⟨hb, ?_⟩
      have hsound := h.sound i
      rw [thread] at hsound
      have hc : c ≠ .dealloc b.1 b.2 := by
        rintro rfl
        exact hkept i _ _ thread
      have hmem := mem_wordsOf_leaves hb hc hlo hhi
      cases c with
      | allocFrame => rfl
      | deallocFrame frame => rfl
      | stats => rfl
      | alloc layout => exact mem_of_clear hsound.2 answer hmem
      | dealloc ptr layout => exact mem_of_clear hsound.2 answer hmem
    | @release c next r thread =>
      refine ⟨mem_live_account hb ?_, by rw [System.heap, System.locks_account]; rfl⟩
      rintro r' ⟨⟩
      exact hkept i _ _ thread

/-- What programs have stored in a block stays: from any time on, a word of a block that is out is as it was until a program stores to it
or a thread begins to free the block, whatever the threads do in the allocators meanwhile. -/
theorem live_contents_kept [DecidableEq ι] (g : AllocatorGlobals) (a : LinkedListAllocator) (programs : ι → Prog Method Method.Answer α)
    (evs evs' : List (System.Event ι α)) (s s' : System ι α) (run : System.Run (System.boot g a programs) evs s)
    (rest : System.Run s evs' s') (b : Nat × Layout) (hb : b ∈ s.live) (addr : Nat) (hlo : b.1 ≤ addr)
    (hhi : addr < b.1 + normalisedSize b.2) (hstores : ∀ e ∈ evs', ∀ value, e.input ≠ .store addr value)
    (hkept : ∀ e ∈ evs', ∀ i next rest, e.before.locks.threads i ≠ .inside (.dealloc b.1 b.2) next rest) :
    b ∈ s'.live ∧ s'.heap.mem addr = s.heap.mem addr := by
  have hrun : (∃ cfg, Inv g s' cfg) ∧ b ∈ s'.live ∧ s'.heap.mem addr = s.heap.mem addr := by
    refine rest.preserves (P := fun s' => (∃ cfg, Inv g s' cfg) ∧ b ∈ s'.live ∧ s'.heap.mem addr = s.heap.mem addr)
      (Q := fun e => (∀ value, e.input ≠ .store addr value) ∧
        ∀ i next rest, e.before.locks.threads i ≠ .inside (.dealloc b.1 b.2) next rest)
      ?_ (fun e he => ⟨hstores e he, hkept e he⟩) ⟨exists_inv run, hb, rfl⟩
    rintro e taken ⟨hact, hfreed⟩ ⟨⟨cfg, h⟩, hlive, hmem⟩
    obtain ⟨hlive', hmem'⟩ := h.contents taken.step hlive hlo hhi hact hfreed
    exact ⟨h.step taken.permitted taken.step, hlive', hmem'.trans hmem⟩
  exact hrun.2

/-- The first thread has its block. -/
def firstServed (g : AllocatorGlobals) : System Bool Nat :=
  (System.boot g ⟨0, fun _ => 0⟩ borrowers).finished false (.alloc layout24) .ret heapStart after24.heap

/-- Then 7 is stored in the first word of it. -/
def stored (g : AllocatorGlobals) : System Bool Nat :=
  ⟨(firstServed g).locks.mapValue (storeAt heapStart 7), (firstServed g).live, (firstServed g).outstanding⟩

/-- The first thread makes its call, and then the store comes. -/
theorem exists_run_stored (g : AllocatorGlobals) : ∃ evs, System.Run (System.boot g ⟨0, fun _ => 0⟩ borrowers) evs (stored g) := by
  obtain ⟨evs, run, -⟩ := exists_call (s := System.boot g ⟨0, fun _ => 0⟩ borrowers) (i := false) (c := .alloc layout24) rfl rfl
    ⟨by decide, by decide, by decide⟩ alloc_freshHeap
  have hserved : System.Run (System.boot g ⟨0, fun _ => 0⟩ borrowers) evs (firstServed g) := run
  have hpermitted : (firstServed g).Permitted (.store heapStart 7) := by
    refine ⟨(heapStart, layout24), List.mem_singleton.mpr rfl, le_rfl, by decide, ?_⟩
    rintro (_ | _) next rest hthread <;> cases hthread
  exact ⟨_, hserved.concat (e := ⟨firstServed g, .store heapStart 7, none, stored g⟩) ⟨hpermitted, rfl⟩⟩

theorem alloc_stored : (LinkedListAllocator.alloc { after24.heap with mem := Function.update after24.heap.mem heapStart 7 } layout24).map
    (·.1) = some (heapStart + 24) := by
  decide +kernel

/-- The other thread takes a frame and a block meanwhile. -/
theorem live_contents_kept_stored : ∃ g evs evs' s', System.Run (System.boot g ⟨0, fun _ => 0⟩ borrowers) evs (stored g) ∧
    System.Run (stored g) evs' s' ∧ s'.live = [(heapStart + 24, layout24), (heapStart, layout24)] ∧ s'.outstanding = [⟨0x1000⟩] ∧
    s'.heap.mem heapStart = 7 := by
  obtain ⟨g, f, -, hframe⟩ := exists_init_twoFrames
  obtain ⟨⟨ptr, y⟩, halloc, hptr⟩ := Option.map_eq_some_iff.mp alloc_stored
  obtain rfl : ptr = heapStart + 24 := hptr
  obtain ⟨evs, run⟩ := exists_run_stored g
  obtain ⟨evs₁, run₁, hown₁⟩ := exists_call (s := stored g) (i := true) (c := .allocFrame) rfl rfl trivial (congrArg some hframe)
  obtain ⟨evs₂, run₂, hown₂⟩ := exists_call (i := true) (c := .alloc layout24)
    (s := (stored g).finished true .allocFrame (fun _ => .call (.alloc layout24) .ret) (some ⟨0x1000⟩) f)
    rfl rfl ⟨by decide, by decide, by decide⟩ halloc
  have hturns : ∀ e ∈ evs₁ ++ evs₂, e.input = .turn true false :=
    List.forall_mem_append.mpr ⟨fun e he => (hown₁ e he).1, fun e he => (hown₂ e he).1⟩
  have hfreed : ∀ e ∈ evs₁ ++ evs₂, ∀ i next rest, e.before.locks.threads i ≠ .inside (.dealloc heapStart layout24) next rest := by
    refine List.forall_mem_append.mpr ⟨hown₁.not_freeing (by simp) ?_, hown₂.not_freeing (by simp) ?_⟩
    all_goals rintro (_ | _) next rest hi <;> cases hi
  obtain ⟨-, hmem⟩ := live_contents_kept g _ _ _ _ _ _ run (run₁.append run₂) (heapStart, layout24) (List.mem_singleton.mpr rfl) heapStart
    le_rfl (by decide) (fun e he value hstore => nomatch (hturns e he).symm.trans hstore) hfreed
  exact ⟨g, evs, _, _, run, run₁.append run₂, rfl, rfl, hmem⟩

end Memory

end GolemKernel
