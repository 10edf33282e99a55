import GolemKernel.Lemmas.Channel

/-!
# The receive queue along a run

The driver holds the receive buffer only from the moment it collects it to the moment it offers it again, within one call of
`read_message`; to the receive queue the calls of `write_message` are idle time. `RxInv` ties the stage of the buffer to the phase of
the driver and to what was seen of the run: how often the buffer was offered, how the device left it, which calls were made and what
they returned.
-/

namespace GolemKernel

namespace Sentinel

namespace Channel

/-! ## The invariant -/

/-- What the receive queue has to do with a run. -/
structure RxView where
  offers : Nat
  given : List (Vector UInt8 bufSize × UInt32)
  replies : List (Nat × List UInt8)
  reads : List (List UInt8)

namespace RxView

def of (evs : Events) : RxView := ⟨Channel.offers .rx evs, Channel.given .rx evs, Channel.replies evs, Channel.reads evs⟩

/-- One more turn. -/
def add (v : RxView) (turn : Turn) (obs : Obs) : RxView where
  offers := v.offers + (obs.published? .rx).toList.length
  given := v.given ++ (obs.gave? .rx).toList
  replies := v.replies ++ obs.reply?.toList
  reads := v.reads ++ turn.read?.toList

/-- What is seen with the last event. -/
theorem of_concat (evs : Events) (e : Trace.Event Channel Turn Obs) : of (evs ++ [e]) = (of evs).add e.input e.output := by
  simp only [of, add, offers_concat, given_concat, replies_concat, reads_concat]

/-- A turn that has nothing to do with the receive queue. -/
theorem add_of_none (v : RxView) {turn : Turn} {obs : Obs} (hpublished : obs.published? .rx = none) (hgave : obs.gave? .rx = none)
    (hreply : obs.reply? = none) (hread : turn.read? = none) : v.add turn obs = v := by
  simp [add, hpublished, hgave, hreply, hread]

end RxView

/-- The next call of `read_message` that returns does so with the last buffer that was collected. -/
structure RxView.Pending (v : RxView) (k : Nat) (buffer : Vector UInt8 bufSize) (len : UInt32) (out : List UInt8) : Prop where
  rounds : v.replies.length + 1 = k
  calls : v.reads.length = k
  given : v.given[v.replies.length]? = some (buffer, len)
  call : v.reads[v.replies.length]? = some out

/-- What a call that submits the receive buffer has done before. -/
def RxView.Submits (v : RxView) (k : Nat) : Submitter → Prop
  | .init => k = 0 ∧ v.replies = [] ∧ v.reads = []
  | .read n o => ∃ buffer len out, v.Pending k buffer len out ∧ (n, o) = received buffer len out
  | .write _ => False

/-- Where the receive buffer is in each phase. -/
def RxPhase (v : RxView) (p : Port) (k : Nat) (stage : Stage) : Phase → Prop
  | .await (.read out) => stage ≠ .driver ∧ v.replies.length = k ∧ v.reads.length = k + 1 ∧ v.reads[k]? = some out
  | .collect (.read out) =>
    (∃ len, stage = .returned len) ∧ v.replies.length = k ∧ v.reads.length = k + 1 ∧ v.reads[k]? = some out
  | .copyOut o n i => stage = .driver ∧ ∃ len out, v.Pending k p.mem.buffer len out ∧
    n = (received p.mem.buffer len out).1 ∧ i ≤ n ∧ o = p.mem.buffer.toList.take i ++ out.drop i
  | .submit point (.read n o) => Submitting p k stage (.read n o) point ∧ v.Submits k (.read n o)
  | .submit point .init => Submitting p k stage .init point ∧ v.Submits k .init
  | _ => stage ≠ .driver ∧ v.replies.length = k ∧ v.reads.length = k

/-- What holds of the receive queue along a run. -/
structure RxAt (v : RxView) (p : Port) (k : Nat) (stage : Stage) (phase : Phase) : Prop where
  port : p.At k stage
  offers : v.offers = k + stage.published
  given : v.given.length = k + stage.given
  left : ∀ len, stage = .returned len → v.given[k]? = some (p.mem.buffer, len)
  answered : ∀ (i : Nat) r, v.replies[i]? = some r →
    ∃ buffer len out, v.given[i]? = some (buffer, len) ∧ v.reads[i]? = some out ∧ r = received buffer len out
  phase : RxPhase v p k stage phase

def RxInv (v : RxView) (p : Port) (phase : Phase) : Prop := ∃ k stage, RxAt v p k stage phase

/-! ## A turn -/

/-- The phases that are nothing to the receive queue. -/
def OffRx : Phase → Prop
  | .idle | .await .write | .collect .write | .copyIn _ _ | .submit _ (.write _) => True
  | .await (.read _) | .collect (.read _) | .copyOut _ _ _ | .submit _ .init | .submit _ (.read _ _) => False

/-- While the driver is not at the receive queue, the buffer is with the device, and every read has had its reply. -/
theorem rxPhase_of_off {v : RxView} {p : Port} {k : Nat} {stage : Stage} {phase : Phase} (hoff : OffRx phase) :
    RxPhase v p k stage phase ↔ stage ≠ .driver ∧ v.replies.length = k ∧ v.reads.length = k := by
  cases phase with
  | idle => rfl
  | await w => cases w with
    | read out => cases hoff
    | write => rfl
  | collect w => cases w with
    | read out => cases hoff
    | write => rfl
  | copyOut out n i => cases hoff
  | copyIn data i => rfl
  | submit point s => cases s with
    | init => cases hoff
    | read n out => cases hoff
    | write data => rfl

section

variable {v : RxView} {p p' : Port} {k : Nat} {stage stage' : Stage} {phase : Phase}

/-- A message that waits still waits when more are given. -/
theorem RxView.Pending.append {buffer : Vector UInt8 bufSize} {len : UInt32} {out : List UInt8} (h : v.Pending k buffer len out)
    (extra : List (Vector UInt8 bufSize × UInt32)) : ({ v with given := v.given ++ extra } : RxView).Pending k buffer len out where
  rounds := h.rounds
  calls := h.calls
  given := by
    obtain ⟨hlt, -⟩ := List.getElem?_eq_some_iff.1 h.given
    rw [List.getElem?_append_left hlt]
    exact h.given
  call := h.call

/-- While the device has the buffer no phase depends on what the device does with it. -/
theorem RxPhase.lent (h : RxPhase v p k stage phase) {len : UInt32} {writable : Bool} (hlent : stage.Lent len writable)
    (hstage' : stage' ≠ .driver) (extra : List (Vector UInt8 bufSize × UInt32)) :
    RxPhase { v with given := v.given ++ extra } p' k stage' phase := by
  have hdriver : stage ≠ .driver := by rcases hlent with rfl | rfl <;> simp
  have hreturned : ∀ l, stage ≠ .returned l := by rcases hlent with rfl | rfl <;> simp
  have hsubmitting : ∀ s point, Submitting p k stage s point → Submitting p' k stage' s point := by
    intro s point hs
    cases point with
    | describe => exact absurd hs hdriver
    | enqueue => exact absurd hs.1 hdriver
    | publish => exact absurd hs.1 hdriver
    | notify => exact hstage'
  cases phase with
  | idle => exact ⟨hstage', h.2⟩
  | await w => cases w with
    | read out => exact ⟨hstage', h.2⟩
    | write => exact ⟨hstage', h.2⟩
  | collect w => cases w with
    | read out =>
      obtain ⟨⟨l, hl⟩, -⟩ := h
      exact absurd hl (hreturned l)
    | write => exact ⟨hstage', h.2⟩
  | copyOut out n i => exact absurd h.1 hdriver
  | copyIn data i => exact ⟨hstage', h.2⟩
  | submit point s => cases s with
    | init => exact ⟨hsubmitting _ _ h.1, h.2⟩
    | read n out =>
      obtain ⟨hs, buffer, l, o, hpending, heq⟩ := h
      exact ⟨hsubmitting _ _ hs, buffer, l, o, hpending.append extra, heq⟩
    | write data => exact ⟨hstage', h.2⟩

/-- The device takes the buffer, writes it or fills in the used ring. -/
theorem RxAt.device (h : RxAt v p k stage phase) {len len' : UInt32} {writable writable' : Bool} (hlent : stage.Lent len writable)
    (hport : p'.At k stage') (hlent' : stage'.Lent len' writable') : RxAt v p' k stage' phase where
  port := hport
  offers := by
    rw [h.offers]
    rcases hlent with rfl | rfl <;> rcases hlent' with rfl | rfl <;> rfl
  given := by
    rw [h.given]
    rcases hlent with rfl | rfl <;> rcases hlent' with rfl | rfl <;> rfl
  left l hl := by rcases hlent' with rfl | rfl <;> cases hl
  answered := h.answered
  phase := by
    have hdriver : stage' ≠ .driver := by rcases hlent' with rfl | rfl <;> simp
    have hphase : RxPhase { v with given := v.given ++ [] } p' k stage' phase := h.phase.lent hlent hdriver []
    rwa [List.append_nil] at hphase

/-- The device gives the buffer back. -/
theorem RxAt.give (h : RxAt v p k stage phase) {l len : UInt32} {writable : Bool} (hstage : stage = .taken l writable)
    (hport : p'.At k (.returned len)) :
    RxAt { v with given := v.given ++ [(p'.mem.buffer, len)] } p' k (.returned len) phase where
  port := hport
  offers := by rw [h.offers, hstage]; rfl
  given := by rw [List.length_append, h.given, hstage]; rfl
  left l' hl' := by
    cases hl'
    have hlen : v.given.length = k := by rw [h.given, hstage]; rfl
    rw [← hlen, List.getElem?_concat_length]
  answered i r hr := by
    obtain ⟨buffer, l', out, hgiven, hread, heq⟩ := h.answered i r hr
    obtain ⟨hlt, -⟩ := List.getElem?_eq_some_iff.1 hgiven
    exact ⟨buffer, l', out, by rw [List.getElem?_append_left hlt]; exact hgiven, hread, heq⟩
  phase := h.phase.lent (Or.inr hstage) (by simp) _

end

section

variable {v : RxView} {p : Port} {k : Nat} {stage : Stage}

/-- A read begins. -/
theorem RxAt.beginRead (h : RxAt v p k stage .idle) (out : List UInt8) :
    RxAt { v with reads := v.reads ++ [out] } p k stage (.await (.read out)) := by
  obtain ⟨hstage, hreplies, hreads⟩ := h.phase
  refine { h with answered := ?_, phase := ⟨hstage, hreplies, ?_, ?_⟩ }
  · intro i r hr
    obtain ⟨buffer, len, o, hgiven, hread, heq⟩ := h.answered i r hr
    obtain ⟨hlt, -⟩ := List.getElem?_eq_some_iff.1 hread
    exact ⟨buffer, len, o, hgiven, by rw [List.getElem?_append_left hlt]; exact hread, heq⟩
  · rw [List.length_append, hreads]
    rfl
  · rw [← hreads, List.getElem?_concat_length]

/-- The driver sees that the buffer has been returned. -/
theorem RxAt.see {out : List UInt8} (h : RxAt v p k stage (.await (.read out))) (hreturned : p.queue.hasReturned p.mem = true) :
    RxAt v p k stage (.collect (.read out)) :=
  { h with phase := ⟨h.port.hasReturned_iff.1 hreturned, h.phase.2⟩ }

/-- The driver has the buffer that was given back, and the call knows how much of it to copy. -/
theorem RxAt.collect {out : List UInt8} (h : RxAt v p k stage (.collect (.read out))) :
    RxAt v { p with queue := (p.queue.collect p.mem).2 } (k + 1) .driver
      (.copyOut out (min (p.queue.collect p.mem).1.toNat (min out.length bufSize)) 0) := by
  obtain ⟨⟨len, rfl⟩, hreplies, hreads, hcall⟩ := h.phase
  obtain ⟨hlen, hport⟩ := h.port.collect
  have hgiven : v.given[v.replies.length]? = some (p.mem.buffer, len) := by
    rw [hreplies]
    exact h.left len rfl
  refine ⟨hport, h.offers, h.given, nofun, h.answered, rfl, len, out, ⟨?_, hreads, hgiven, ?_⟩, ?_, Nat.zero_le _, ?_⟩
  · rw [hreplies]
  · rw [hreplies]
    exact hcall
  · rw [hlen]
    rfl
  · simp

/-- One more byte is copied out. -/
theorem set_take_append_drop {α : Type} (buf out : List α) {i : Nat} {b : α} (hbuf : buf[i]? = some b) (hout : i < out.length) :
    (buf.take i ++ out.drop i).set i b = buf.take (i + 1) ++ out.drop (i + 1) := by
  obtain ⟨hlt, rfl⟩ := List.getElem?_eq_some_iff.1 hbuf
  have hlen : (buf.take i).length = i := List.length_take_of_le hlt.le
  rw [List.set_append_right _ _ hlen.le, hlen, Nat.sub_self, List.drop_eq_getElem_cons hout, List.set_cons_zero,
    List.take_succ_eq_append_getElem hlt, List.append_assoc]
  rfl

/-- One byte is copied out. -/
theorem RxAt.copyOut {o : List UInt8} {n i : Nat} (h : RxAt v p k stage (.copyOut o n i)) (hi : i < n) :
    RxAt v p k stage (.copyOut (o.set i (p.mem.buffer[i]?.getD 0)) n (i + 1)) := by
  obtain ⟨hstage, len, out, hpending, hn, -, ho⟩ := h.phase
  have hle : n ≤ out.length ∧ n ≤ bufSize := by
    rw [hn, received]
    exact ⟨by omega, by omega⟩
  have hbyte : p.mem.buffer.toList[i]? = some (p.mem.buffer[i]?.getD 0) := by
    rw [Vector.getElem?_toList, Vector.getElem?_eq_getElem (by omega)]
    rfl
  refine { h with phase := ⟨hstage, len, out, hpending, hn, hi, ?_⟩ }
  rw [ho, set_take_append_drop _ _ hbyte (by omega)]

/-- All bytes are copied out. -/
theorem RxAt.copiedOut {o : List UInt8} {n i : Nat} (h : RxAt v p k stage (.copyOut o n i)) (hi : ¬i < n) :
    RxAt v p k stage (.submit .describe (.read n o)) := by
  obtain ⟨hstage, len, out, hpending, hn, hle, ho⟩ := h.phase
  obtain rfl : i = n := by omega
  refine { h with phase := ⟨hstage, p.mem.buffer, len, out, hpending, ?_⟩ }
  rw [ho, hn]
  rfl

/-- The call returns what it made of the buffer. -/
theorem RxAt.notifyRead {n : Nat} {o : List UInt8} (h : RxAt v p k stage (.submit .notify (.read n o))) :
    RxAt { v with replies := v.replies ++ [(n, o)] } p k stage .idle := by
  obtain ⟨hstage, buffer, len, out, hpending, heq⟩ := h.phase
  refine { h with answered := ?_, phase := ⟨hstage, ?_, hpending.calls⟩ }
  · intro i r hr
    rcases Nat.lt_or_ge i v.replies.length with hi | hi
    · rw [List.getElem?_append_left hi] at hr
      exact h.answered i r hr
    · have hi' : i = v.replies.length := by
        obtain ⟨hlt, -⟩ := List.getElem?_eq_some_iff.1 hr
        rw [List.length_append, List.length_singleton] at hlt
        omega
      subst hi'
      rw [List.getElem?_concat_length] at hr
      cases hr
      exact ⟨buffer, len, out, hpending.given, hpending.call, heq⟩
  · rw [List.length_append, List.length_singleton]
    exact hpending.rounds

end

section

variable {v : RxView} {p : Port} {k : Nat} {stage : Stage} {s : Submitter}

/-- In `submit` for this queue, the buffer is at one of its points. -/
theorem rxPhase_submit (hside : s.side = .rx) {point : Point} :
    RxPhase v p k stage (.submit point s) ↔ Submitting p k stage s point ∧ v.Submits k s := by
  cases s with
  | init => rfl
  | read n out => rfl
  | write data => cases hside

/-- The descriptor is filled in. -/
theorem RxAt.describe (hside : s.side = .rx) (h : RxAt v p k stage (.submit .describe s)) :
    RxAt v { p with mem := p.queue.describe p.mem s.len s.writable } k stage (.submit .enqueue s) := by
  obtain ⟨hs, hsubmits⟩ := (rxPhase_submit hside).1 h.phase
  obtain ⟨rfl, hport, hnext⟩ := hs.describe h.port
  exact { h with port := hport, left := nofun, phase := (rxPhase_submit hside).2 ⟨hnext, hsubmits⟩ }

/-- The buffer is put in the available ring. -/
theorem RxAt.enqueue (hside : s.side = .rx) (h : RxAt v p k stage (.submit .enqueue s)) :
    RxAt v { p with mem := p.queue.enqueue p.mem } k stage (.submit .publish s) := by
  obtain ⟨hs, hsubmits⟩ := (rxPhase_submit hside).1 h.phase
  obtain ⟨rfl, hport, hnext⟩ := hs.enqueue h.port
  exact { h with port := hport, left := nofun, phase := (rxPhase_submit hside).2 ⟨hnext, hsubmits⟩ }

/-- The buffer is offered, and a read is done. -/
theorem RxAt.publish (hside : s.side = .rx) (h : RxAt v p k stage (.submit .publish s)) :
    RxAt { v with offers := v.offers + 1 }
      { p with queue := (p.queue.publish p.mem).1, mem := (p.queue.publish p.mem).2 } k (.offered s.len s.writable)
      (.submit .notify s) := by
  obtain ⟨hs, hsubmits⟩ := (rxPhase_submit hside).1 h.phase
  obtain ⟨rfl, hport, hnext⟩ := hs.publish h.port
  refine ⟨hport, ?_, h.given, nofun, h.answered, (rxPhase_submit hside).2 ⟨hnext, ?_⟩⟩
  · rw [h.offers]
    rfl
  · cases s with
    | init => exact hsubmits
    | read n out =>
      obtain ⟨buffer, len, o, hpending, heq⟩ := hsubmits
      exact ⟨buffer, len, o, ⟨hpending.rounds, hpending.calls, hpending.given, hpending.call⟩, heq⟩
    | write data => cases hside

end

/-- The device's turns on the receive queue. -/
theorem RxInv.device {v : RxView} {p p' : Port} {phase : Phase} (hinv : RxInv v p phase)
    (hstep : ∀ k stage, p.At k stage →
      ∃ stage' len writable len' writable', stage.Lent len writable ∧ stage'.Lent len' writable' ∧ p'.At k stage') :
    RxInv v p' phase := by
  obtain ⟨k, stage, h⟩ := hinv
  obtain ⟨stage', len, writable, len', writable', hlent, hlent', hport⟩ := hstep k stage h.port
  exact ⟨k, stage', h.device hlent hport hlent'⟩

/-- A turn in a call of `write_message`. -/
theorem RxInv.elsewhere {v : RxView} {p : Port} {phase phase₁ phase' : Phase} {turn : Turn} {obs : Obs} (hinv : RxInv v p phase)
    (hphase : phase = phase₁) (hoff : OffRx phase₁) (hoff' : OffRx phase') (hview : v.add turn obs = v) :
    RxInv (v.add turn obs) p phase' := by
  obtain ⟨k, stage, h⟩ := hinv
  rw [hview]
  subst hphase
  exact ⟨k, stage, { h with phase := (rxPhase_of_off hoff').2 ((rxPhase_of_off hoff).1 h.phase) }⟩

/-- Every turn keeps the receive queue as what has been seen says. -/
theorem RxInv.moves {v : RxView} {c c' : Channel} {turn : Turn} {obs : Obs} (hm : Moves c turn obs c')
    (hinv : RxInv v c.rx c.phase) : RxInv (v.add turn obs) c'.rx c'.phase := by
  cases hm with
  | beginRead out idle =>
    rw [idle] at hinv
    obtain ⟨k, stage, h⟩ := hinv
    have hview : v.add (.call (.readMessage out)) .quiet = { v with reads := v.reads ++ [out] } := by
      simp [RxView.add, Obs.published?, Obs.gave?, Obs.reply?, Turn.read?]
    rw [hview]
    exact ⟨k, stage, h.beginRead out⟩
  | refuse data idle large =>
    rw [v.add_of_none rfl rfl rfl rfl]
    exact hinv
  | beginWrite data idle small => exact hinv.elsewhere idle trivial trivial (v.add_of_none rfl rfl rfl rfl)
  | spin w hw waits =>
    rw [v.add_of_none rfl rfl rfl rfl]
    exact hinv
  | see w hw returned =>
    cases w with
    | read out =>
      rw [hw] at hinv
      rw [v.add_of_none rfl rfl rfl rfl]
      obtain ⟨k, stage, h⟩ := hinv
      exact ⟨k, stage, h.see returned⟩
    | write => exact hinv.elsewhere hw trivial trivial (v.add_of_none rfl rfl rfl rfl)
  | collectRead out hc =>
    rw [hc] at hinv
    rw [v.add_of_none rfl rfl rfl rfl]
    obtain ⟨k, stage, h⟩ := hinv
    exact ⟨k + 1, .driver, h.collect⟩
  | collectWrite hc => exact hinv.elsewhere hc trivial trivial (v.add_of_none rfl rfl rfl rfl)
  | copyOut out n i hc more =>
    rw [hc] at hinv
    rw [v.add_of_none rfl rfl rfl rfl]
    obtain ⟨k, stage, h⟩ := hinv
    exact ⟨k, stage, h.copyOut more⟩
  | copiedOut out n i hc done =>
    rw [hc] at hinv
    rw [v.add_of_none rfl rfl rfl rfl]
    obtain ⟨k, stage, h⟩ := hinv
    exact ⟨k, stage, h.copiedOut done⟩
  | copyIn data i hc more => exact hinv.elsewhere hc trivial trivial (v.add_of_none rfl rfl rfl rfl)
  | copiedIn data i hc done => exact hinv.elsewhere hc trivial trivial (v.add_of_none rfl rfl rfl rfl)
  | describe s hs =>
    cases s with
    | write data => exact hinv.elsewhere hs trivial trivial (v.add_of_none rfl rfl rfl rfl)
    | _ =>
      rw [hs] at hinv
      rw [v.add_of_none rfl rfl rfl rfl]
      obtain ⟨k, stage, h⟩ := hinv
      exact ⟨k, stage, h.describe rfl⟩
  | enqueue s hs =>
    cases s with
    | write data => exact hinv.elsewhere hs trivial trivial (v.add_of_none rfl rfl rfl rfl)
    | _ =>
      rw [hs] at hinv
      rw [v.add_of_none rfl rfl rfl rfl]
      obtain ⟨k, stage, h⟩ := hinv
      exact ⟨k, stage, h.enqueue rfl⟩
  | publish s hs =>
    have hview : v.add .driver (.published .rx) = { v with offers := v.offers + 1 } := by
      simp [RxView.add, Obs.published?, Obs.gave?, Obs.reply?, Turn.read?]
    cases s with
    | write data => exact hinv.elsewhere hs trivial trivial (v.add_of_none rfl rfl rfl rfl)
    | _ =>
      rw [hs] at hinv
      obtain ⟨k, stage, h⟩ := hinv
      exact ⟨k, _, hview ▸ h.publish rfl⟩
  | notifyInit hs transport =>
    rw [hs] at hinv
    rw [v.add_of_none rfl rfl rfl rfl]
    obtain ⟨k, stage, h⟩ := hinv
    obtain ⟨hstage, hk, hreplies, hreads⟩ := h.phase
    exact ⟨k, stage, { h with phase := ⟨hstage, by rw [hreplies, hk]; rfl, by rw [hreads, hk]; rfl⟩ }⟩
  | notifyRead n out hs transport =>
    rw [hs] at hinv
    obtain ⟨k, stage, h⟩ := hinv
    have hview : v.add .driver (.returned (.readMessage n out)) = { v with replies := v.replies ++ [(n, out)] } := by
      simp [RxView.add, Obs.published?, Obs.gave?, Obs.reply?, Turn.read?]
    rw [hview]
    exact ⟨k, stage, h.notifyRead⟩
  | notifyWrite data hs transport => exact hinv.elsewhere hs trivial trivial (v.add_of_none rfl rfl rfl rfl)
  | take side bytes p took =>
    rw [v.add_of_none rfl rfl rfl rfl]
    cases side with
    | tx => exact hinv
    | rx =>
      refine hinv.device fun k stage hport => ?_
      obtain ⟨len, writable, rfl, htaken, -⟩ := hport.take took
      exact ⟨.taken len writable, len, writable, len, writable, Or.inl rfl, Or.inr rfl, htaken⟩
  | touch side buffer p touched =>
    rw [v.add_of_none rfl rfl rfl rfl]
    cases side with
    | tx => exact hinv
    | rx =>
      refine hinv.device fun k stage hport => ?_
      obtain ⟨⟨len, hlent⟩, htouched, -⟩ := hport.touch touched
      exact ⟨stage, len, true, len, true, hlent, hlent, htouched⟩
  | put side head len p filled =>
    rw [v.add_of_none rfl rfl rfl rfl]
    cases side with
    | tx => exact hinv
    | rx =>
      refine hinv.device fun k stage hport => ?_
      obtain ⟨⟨l, writable, hlent⟩, hfilled, -⟩ := hport.put filled
      exact ⟨stage, l, writable, l, writable, hlent, hlent, hfilled⟩
  | give side len p gave =>
    cases side with
    | tx =>
      rw [v.add_of_none rfl rfl rfl rfl]
      exact hinv
    | rx =>
      obtain ⟨k, stage, h⟩ := hinv
      obtain ⟨⟨l, writable, hstage⟩, hgiven, -⟩ := h.port.give gave
      have hview : v.add (.give .rx) (.gave .rx p.mem.buffer len) = { v with given := v.given ++ [(p.mem.buffer, len)] } := by
        simp [RxView.add, Obs.published?, Obs.gave?, Obs.reply?, Turn.read?]
      rw [hview]
      exact ⟨k, .returned len, h.give hstage hgiven⟩

end Channel

end Sentinel

end GolemKernel
