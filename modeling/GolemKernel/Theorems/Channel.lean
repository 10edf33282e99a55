import GolemKernel.Lemmas.Receive
import GolemKernel.Lemmas.Transmit

/-!
# Messages are exchanged exactly once

Any turns of callers, driver and device, in any order, from a channel that `init` has just set up. What the calls returned and what the
device found is compared through the lists of the run.
-/

namespace GolemKernel

namespace Sentinel

namespace Channel

/-! ## Runs -/

/-- After `init`, on a device whose queues are large enough, both queues are at their start. -/
theorem init_inv {d : MmioDevice} {rxMem txMem : UInt64} {c : Channel} (hinit : init d rxMem txMem = .ok c)
    (hrx : queueSize ≤ (d.numMax sentinelRxQueue).toNat) (htx : queueSize ≤ (d.numMax sentinelTxQueue).toNat) :
    RxInv (RxView.of []) c.rx c.phase ∧ TxInv (TxView.of []) c.tx c.phase := by
  unfold init at hinit
  split at hinit
  case h_1 => cases hinit
  case h_2 rx d₁ hrxConfigure =>
    split at hinit
    case h_1 => cases hinit
    case h_2 tx d₂ htxConfigure =>
      cases hinit
      obtain ⟨rfl, -, hnumRx⟩ := num_of_configure hrxConfigure
      obtain ⟨rfl, -, hnumTx⟩ := num_of_configure htxConfigure
      obtain ⟨hmax, -⟩ := configure_keeps hrxConfigure
      obtain ⟨-, hqueues⟩ := configure_keeps htxConfigure
      have hstatus : ∀ i, ((write32 d₂ Mmio.status Mmio.statusLive).queues i).num = (d₂.queues i).num :=
        fun i => MmioDevice.num_write32 d₂ Mmio.statusLive (by decide) i
      constructor
      · refine ⟨0, .driver, Port.at_start rfl rfl ?_, rfl, rfl, nofun, nofun, rfl, rfl, rfl, rfl⟩
        rw [hstatus, hqueues _ (show sentinelRxQueue ≠ sentinelTxQueue by decide), hnumRx, Nat.min_eq_right hrx]
      · refine ⟨0, .driver, Port.at_start rfl rfl ?_, rfl, rfl, rfl, fun _ _ hl => absurd hl not_lent_driver, rfl, rfl⟩
        rw [hstatus, hnumTx, hmax, Nat.min_eq_right htx]

/-- At any time of a run, both queues are as what has been seen says. -/
theorem Run.inv {start s : Channel} {evs : Events} (run : Run start evs s)
    (hstart : RxInv (RxView.of []) start.rx start.phase ∧ TxInv (TxView.of []) start.tx start.phase) :
    RxInv (RxView.of evs) s.rx s.phase ∧ TxInv (TxView.of evs) s.tx s.phase := by
  induction run with
  | nil => exact hstart
  | @concat evs e _ taken ih =>
    have hmoves := step_moves taken.step
    rw [RxView.of_concat, TxView.of_concat]
    exact ⟨ih.1.moves hmoves, ih.2.moves hmoves⟩

/-- A turn in which the driver accesses a buffer finds it with the driver. -/
theorem offers_of_accessed {evs : Events} {c c' : Channel} {turn : Turn} {side : Side} (hm : Moves c turn (.accessed side) c')
    (hrx : RxInv (RxView.of evs) c.rx c.phase) (htx : TxInv (TxView.of evs) c.tx c.phase) :
    offers side evs = (given side evs).length := by
  cases hm with
  | copyOut out n i hc more =>
    rw [hc] at hrx
    obtain ⟨k, stage, h⟩ := hrx
    obtain ⟨rfl, -⟩ := h.phase
    exact h.offers.trans h.given.symm
  | copyIn data i hc more =>
    rw [hc] at htx
    obtain ⟨k, stage, h⟩ := htx
    obtain ⟨rfl, -⟩ := h.phase
    exact h.offers.trans h.given.symm

/-! ## Progress -/

/-- How many accesses `submit` has to make. -/
def pointRank : Point → Nat
  | .describe => 4
  | .enqueue => 3
  | .publish => 2
  | .notify => 1

/-- An upper bound of the turns the driver needs to end a call, if it need not wait. -/
def rank : Phase → Nat
  | .idle => 0
  | .collect .write => 1
  | .await .write => 2
  | .submit point s => pointRank point + if s.side = .tx then 2 else 0
  | .copyIn data i => 7 + (data.length - i)
  | .copyOut _ n i => 5 + (n - i)
  | .collect (.read _) => 6 + bufSize
  | .await (.read _) => 7 + bufSize

/-- The driver waits for a buffer that the device has not given back. -/
def Waits (c : Channel) : Prop := ∃ w, c.phase = .await w ∧ ¬(c.port w.side).queue.hasReturned (c.port w.side).mem

/-- A turn of the driver that does not wait brings the end of the call nearer. -/
theorem rank_lt {c c' : Channel} {obs : Obs} (hm : Moves c .driver obs c') (hwaits : ¬c.Waits) : rank c'.phase < rank c.phase := by
  cases hm with
  | spin w hw waits => exact absurd ⟨w, hw, waits⟩ hwaits
  | see w hw returned =>
    rw [hw]
    cases w <;> simp [rank]
  | collectRead out hc =>
    rw [hc]
    simp only [rank]
    omega
  | collectWrite hc => rw [hc]; simp [rank]
  | copyOut out n i hc more => rw [hc]; simp only [rank]; omega
  | copiedOut out n i hc done => rw [hc]; simp [rank, pointRank, Submitter.side]; omega
  | copyIn data i hc more => rw [hc]; simp only [rank]; omega
  | copiedIn data i hc done => rw [hc]; simp [rank, pointRank, Submitter.side]; omega
  | describe s hs => rw [hs]; simp [rank, pointRank]
  | enqueue s hs => rw [hs]; simp [rank, pointRank]
  | publish s hs => rw [hs]; simp [rank, pointRank]
  | notifyInit hs transport => rw [hs]; simp [rank, pointRank]
  | notifyRead n out hs transport => rw [hs]; simp [rank, pointRank]
  | notifyWrite data hs transport => rw [hs]; simp [rank, pointRank, Submitter.side]

/-- A call that is under way always goes on. -/
theorem exists_drive {c : Channel} (hidle : c.phase ≠ .idle) : ∃ obs c', c.drive = some (obs, c') := by
  unfold drive
  split
  case h_1 hphase => exact absurd hphase hidle
  case h_2 => exact ⟨_, _, rfl⟩
  case h_3 => exact ⟨_, _, rfl⟩
  case h_4 => split <;> exact ⟨_, _, rfl⟩
  case h_5 => split <;> exact ⟨_, _, rfl⟩
  case h_6 => exact ⟨_, _, rfl⟩

/-- When the driver waits, the device has the buffer. -/
theorem offers_of_waits {evs : Events} {c : Channel} {w : Waiter} (hphase : c.phase = .await w)
    (hwaits : ¬(c.port w.side).queue.hasReturned (c.port w.side).mem) (hrx : RxInv (RxView.of evs) c.rx c.phase)
    (htx : TxInv (TxView.of evs) c.tx c.phase) : offers w.side evs = (given w.side evs).length + 1 := by
  rw [hphase] at hrx htx
  cases w with
  | read out =>
    obtain ⟨k, stage, h⟩ := hrx
    obtain ⟨hpublished, hgiven⟩ := stage.of_lent h.phase.1 fun len hl => hwaits (h.port.hasReturned_iff.2 ⟨len, hl⟩)
    have hoffers := h.offers
    have hlength := h.given
    rw [hpublished] at hoffers
    rw [hgiven] at hlength
    change (RxView.of evs).offers = (RxView.of evs).given.length + 1
    omega
  | write =>
    obtain ⟨k, stage, h⟩ := htx
    obtain ⟨hpublished, hgiven⟩ := stage.of_lent h.phase.1 fun len hl => hwaits (h.port.hasReturned_iff.2 ⟨len, hl⟩)
    have hoffers := h.offers
    have hlength := h.given
    rw [hpublished] at hoffers
    rw [hgiven] at hlength
    change (TxView.of evs).offers = (TxView.of evs).given.length + 1
    omega

/-- Left to itself the driver ends the call it is in, or comes to wait for a buffer that the device has. -/
theorem exists_drives (c : Channel) :
    ∃ evs c', Run c evs c' ∧ (∀ e ∈ evs, e.input = .driver) ∧ (c'.phase = .idle ∨ c'.Waits) := by
  induction hr : rank c.phase using Nat.strong_induction_on generalizing c with
  | _ r ih =>
    by_cases hidle : c.phase = .idle
    · exact ⟨[], c, .nil, by simp, Or.inl hidle⟩
    by_cases hwaits : c.Waits
    · exact ⟨[], c, .nil, by simp, Or.inr hwaits⟩
    obtain ⟨obs, c₁, hdrive⟩ := exists_drive hidle
    obtain ⟨evs, c', run, hdriver, hend⟩ := ih _ (hr ▸ rank_lt (drive_moves hdrive) hwaits) c₁ rfl
    have hfirst : Run c ([] ++ [⟨c, .driver, obs, c₁⟩]) c₁ := .concat .nil ⟨trivial, hdrive⟩
    refine ⟨_, c', hfirst.append run, ?_, hend⟩
    · intro e he
      rcases List.mem_cons.1 he with rfl | he
      · rfl
      · exact hdriver e he

/-! ## The exchange -/

/-- At most one receive buffer is with the device. -/
theorem RxInv.outstanding {v : RxView} {p : Port} {phase : Phase} (h : RxInv v p phase) :
    v.given.length ≤ v.offers ∧ v.offers ≤ v.given.length + 1 := by
  obtain ⟨k, stage, h⟩ := h
  have hbounds := stage.given_le_published
  rw [h.given, h.offers]
  omega

/-- Between calls every read has had its reply, and at most one message waits. -/
theorem RxInv.idle {v : RxView} {p : Port} (h : RxInv v p .idle) :
    v.replies.length = v.reads.length ∧ v.given.length ≤ v.replies.length + 1 := by
  obtain ⟨k, stage, h⟩ := h
  obtain ⟨hstage, hreplies, hreads⟩ := h.phase
  have hbounds := stage.given_le_published
  have hpublished := Stage.published_eq_one hstage
  rw [hreplies, hreads, h.given]
  omega

/-- At most one transmit buffer is with the device. -/
theorem TxInv.outstanding {v : TxView} {p : Port} {phase : Phase} (h : TxInv v p phase) :
    v.given.length ≤ v.offers ∧ v.offers ≤ v.given.length + 1 := by
  obtain ⟨k, stage, h⟩ := h
  have hbounds := stage.given_le_published
  rw [h.given, h.offers]
  omega

/-- The device takes the messages in the order in which they were written. -/
theorem TxInv.handed {v : TxView} {p : Port} {phase : Phase} (h : TxInv v p phase) : v.taken <+: v.writes := by
  obtain ⟨k, stage, h⟩ := h
  rw [h.handed]
  exact List.take_prefix _ _

/-- Between calls the device has taken and given back all of them. -/
theorem TxInv.idle {v : TxView} {p : Port} (h : TxInv v p .idle) :
    v.taken = v.writes ∧ v.given.length = v.writes.length := by
  obtain ⟨k, stage, h⟩ := h
  obtain ⟨rfl, hwrites⟩ := h.phase
  refine ⟨?_, h.given.trans hwrites.symm⟩
  rw [h.handed]
  exact List.take_of_length_le hwrites.le

/-- Messages are exchanged exactly once, in a run that has come to this state. -/
structure ExactlyOnce (evs : Events) (s : Channel) : Prop where
  /-- The driver offers a buffer only when the device has given it back. -/
  outstanding : ∀ side, (given side evs).length ≤ offers side evs ∧ offers side evs ≤ (given side evs).length + 1
  /-- Each call of `read_message` returns the beginning of the buffer of its own number, as the device left it. -/
  received : ∀ (i : Nat) r, (replies evs)[i]? = some r →
    ∃ buffer len out, (given .rx evs)[i]? = some (buffer, len) ∧ (reads evs)[i]? = some out ∧ r = received buffer len out
  /-- Between calls there is at most one buffer that was given back and not read. -/
  none_lost : s.phase = .idle → (replies evs).length = (reads evs).length ∧ (given .rx evs).length ≤ (replies evs).length + 1
  /-- The driver reads or writes a buffer only when the device does not have it. -/
  exclusive : ∀ pre e post side, evs = pre ++ e :: post → e.output = .accessed side → offers side pre = (given side pre).length
  /-- The device takes the messages one by one, in order. -/
  handed : taken .tx evs <+: writes evs
  /-- Between calls it has taken all of them, and given all buffers back. -/
  handed_all : s.phase = .idle → taken .tx evs = writes evs ∧ (given .tx evs).length = (writes evs).length
  /-- The driver on its own ends the call it is in, or comes to wait for a buffer that the device has. -/
  returns : ∃ evs' s', Run s evs' s' ∧ (∀ e ∈ evs', e.input = .driver) ∧
    (s'.phase = .idle ∨ ∃ w, s'.phase = .await w ∧ offers w.side (evs ++ evs') = (given w.side (evs ++ evs')).length + 1)

/-- For a channel that `init` has set up with a device that offers at least sixteen slots on both queues, and for every interleaving of
calls, accesses of the driver and turns of the device: messages are exchanged exactly once. -/
theorem messages_exchanged_once (d : MmioDevice) (rxMem txMem : UInt64) (c : Channel) (hinit : init d rxMem txMem = .ok c)
    (hrx : queueSize ≤ (d.numMax sentinelRxQueue).toNat) (htx : queueSize ≤ (d.numMax sentinelTxQueue).toNat) (evs : Events)
    (s : Channel) (run : Run c evs s) : ExactlyOnce evs s := by
  have hstart := init_inv hinit hrx htx
  obtain ⟨hrxInv, htxInv⟩ := run.inv hstart
  constructor
  case outstanding =>
    intro side
    cases side with
    | rx => exact hrxInv.outstanding
    | tx => exact htxInv.outstanding
  case received =>
    obtain ⟨k, stage, h⟩ := hrxInv
    exact h.answered
  case none_lost =>
    intro hidle
    rw [hidle] at hrxInv
    exact hrxInv.idle
  case exclusive =>
    intro pre e post side hevs haccess
    obtain ⟨hrun, htaken⟩ := run.split hevs
    obtain ⟨hrxPre, htxPre⟩ := Run.inv hrun hstart
    have hmoves := step_moves htaken.step
    rw [haccess] at hmoves
    exact offers_of_accessed hmoves hrxPre htxPre
  case handed => exact htxInv.handed
  case handed_all =>
    intro hidle
    rw [hidle] at htxInv
    exact htxInv.idle
  case returns =>
    obtain ⟨evs', s', hdrives, hdriver, hend⟩ := exists_drives s
    refine ⟨evs', s', hdrives, hdriver, ?_⟩
    rcases hend with hidle | ⟨w, hphase, hwaits⟩
    · exact Or.inl hidle
    · obtain ⟨hrxEnd, htxEnd⟩ := Run.inv (run.append hdrives) hstart
      exact Or.inr ⟨w, hphase, offers_of_waits hphase hwaits hrxEnd htxEnd⟩

/-- `init` arms the receive queue, the device gives the buffer back as two bytes, and a caller reads them. -/
def readTurns : List Turn :=
  List.replicate 4 .driver ++ [.take .rx, .put .rx 0 2, .give .rx, .call (.readMessage [7, 7, 7])] ++ List.replicate 9 .driver

theorem messages_exchanged_once_read :
    ∃ c evs s, init (Link.deviceOf 16) 0x1000 0x3000 = .ok c ∧ Run c evs s ∧ replies evs = [(2, [0, 0, 7])] ∧ ExactlyOnce evs s := by
  obtain ⟨c, hinit⟩ : ∃ c, init (Link.deviceOf 16) 0x1000 0x3000 = .ok c := ⟨_, rfl⟩
  have hplay : (Trace.play step c readTurns).map (fun r => replies r.1) = some [(2, [0, 0, 7])] := by
    cases hinit
    rfl
  obtain ⟨⟨evs, s⟩, hrun, hreplies⟩ := Option.map_eq_some_iff.1 hplay
  have run : Run c evs s := Trace.Run.of_play hrun
  exact ⟨c, evs, s, hinit, run, hreplies,
    messages_exchanged_once (Link.deviceOf 16) 0x1000 0x3000 c hinit (by decide) (by decide) evs s run⟩

/-! ## Calls without interference -/

/-- Turns of the driver in which no call returns. -/
def Drives : Channel → Channel → Prop := Relation.ReflTransGen fun c c' => ∃ obs, obs.Passing ∧ c.drive = some (obs, c')

/-- One more turn of the driver. -/
theorem Run.drive {c c₁ c₂ : Channel} {obs : Obs} {evs : Events} (run : Run c evs c₁) (h : c₁.drive = some (obs, c₂)) :
    Run c (evs ++ [⟨c₁, .driver, obs, c₂⟩]) c₂ := .concat run ⟨trivial, h⟩

/-- They are turns of a run. -/
theorem Drives.exists_run {c c' : Channel} (h : Drives c c') :
    ∃ evs, Run c evs c' ∧ replies evs = [] ∧ reads evs = [] ∧ writes evs = [] := by
  induction h with
  | refl => exact ⟨[], .nil, rfl, rfl, rfl⟩
  | @tail a b _ hstep ih =>
    obtain ⟨evs, run, hreplies, hreads, hwrites⟩ := ih
    obtain ⟨obs, hpassing, hdrive⟩ := hstep
    refine ⟨_, run.drive hdrive, ?_, ?_, ?_⟩
    · rw [replies_concat, hreplies, hpassing.reply?_eq_none]
      rfl
    · rw [reads_concat, hreads]
      rfl
    · rw [writes_concat, hwrites]
      rfl

/-- `read_rx` copies one byte. -/
theorem drive_copyOut {c : Channel} {out : List UInt8} {n i : Nat} (hphase : c.phase = .copyOut out n i) (hi : i < n) :
    c.drive = some (.accessed .rx, { c with phase := .copyOut (out.set i (c.rx.mem.buffer[i]?.getD 0)) n (i + 1) }) := by
  unfold drive
  rw [hphase]
  exact if_pos hi

/-- A channel that has this buffer for sending, and has copied `i` bytes of a message into it. -/
def sending (c : Channel) (buffer : Vector UInt8 bufSize) (data : List UInt8) (i : Nat) : Channel :=
  { c with tx := { c.tx with mem := { c.tx.mem with buffer } }, phase := .copyIn data i }

/-- `fill_tx` copies one byte. -/
theorem drive_sending (c : Channel) (buffer : Vector UInt8 bufSize) {data : List UInt8} {i : Nat} (hi : i < data.length) :
    (c.sending buffer data i).drive = some (.accessed .tx, c.sending (buffer.setIfInBounds i (data[i]?.getD 0)) data (i + 1)) :=
  if_pos hi

/-- The bytes that `read_rx` copies at once are copied one by one. -/
theorem drives_copyOut (c : Channel) (out : List UInt8) {n : Nat} (hout : n ≤ out.length) (hbuf : n ≤ bufSize) {i : Nat} (hi : i ≤ n) :
    Drives { c with phase := .copyOut out n 0 }
      { c with phase := .copyOut (c.rx.mem.buffer.toList.take i ++ out.drop i) n i } := by
  induction i with
  | zero => exact .refl
  | succ i ih =>
    refine (ih (by omega)).tail ⟨.accessed .rx, Obs.passing_accessed .rx, ?_⟩
    have hbyte : c.rx.mem.buffer.toList[i]? = some (c.rx.mem.buffer[i]?.getD 0) := by
      rw [Vector.getElem?_toList, Vector.getElem?_eq_getElem (by omega)]
      rfl
    rw [← set_take_append_drop _ _ hbyte (by omega)]
    exact drive_copyOut rfl hi

/-- A buffer with the first `i` bytes of a message in it. -/
def filled {n : Nat} (buffer : Vector UInt8 n) (data : List UInt8) (i : Nat) : Vector UInt8 n :=
  Vector.ofFn fun j => (data.take i)[j]?.getD (buffer.get j)

/-- Before the first byte the buffer is as it was. -/
theorem filled_zero {n : Nat} (buffer : Vector UInt8 n) (data : List UInt8) : filled buffer data 0 = buffer := by
  ext j hj
  simp [filled, Vector.get]

/-- One byte more has been copied. -/
theorem filled_succ {n : Nat} (buffer : Vector UInt8 n) {data : List UInt8} {i : Nat} (hi : i < data.length) :
    filled buffer data (i + 1) = (filled buffer data i).setIfInBounds i (data[i]?.getD 0) := by
  ext j hj
  rw [Vector.getElem_setIfInBounds, filled, filled, Vector.getElem_ofFn, Vector.getElem_ofFn]
  by_cases hij : i = j
  · subst hij
    simp [hi]
  · rw [if_neg hij]
    simp only [Fin.getElem?_fin, List.getElem?_take]
    by_cases hlt : j < i
    · rw [if_pos hlt, if_pos (by omega)]
    · rw [if_neg hlt, if_neg (by omega)]

/-- The message that `fill_tx` copies at once is copied byte by byte. -/
theorem drives_sending (c : Channel) (data : List UInt8) {i : Nat} (hi : i ≤ data.length) :
    Drives (c.sending c.tx.mem.buffer data 0) (c.sending (filled c.tx.mem.buffer data i) data i) := by
  induction i with
  | zero =>
    rw [filled_zero]
    exact .refl
  | succ i ih =>
    refine (ih (by omega)).tail ⟨.accessed .tx, Obs.passing_accessed .tx, ?_⟩
    rw [filled_succ _ hi]
    exact drive_sending c _ hi

/-- The accesses of `submit`, up to the notification. -/
theorem drives_submit (c : Channel) (s : Submitter) :
    Drives { c with phase := .submit .describe s }
      { c.setPort s.side
          { c.port s.side with
            queue := ((c.port s.side).queue.submit c.transport (c.port s.side).mem s.len s.writable).1
            mem := ((c.port s.side).queue.submit c.transport (c.port s.side).mem s.len s.writable).2.2 } with
        phase := .submit .notify s } := by
  have haccesses : ∀ {c c₁ c₂ c₃ : Channel} {side : Side}, c.drive = some (.quiet, c₁) → c₁.drive = some (.quiet, c₂) →
      c₂.drive = some (.published side, c₃) → Drives c c₃ := fun h h₁ h₂ =>
    .tail (.tail (.single ⟨_, Obs.passing_quiet, h⟩) ⟨_, Obs.passing_quiet, h₁⟩) ⟨_, Obs.passing_published _, h₂⟩
  cases s with
  | init => exact haccesses rfl rfl rfl
  | read n out => exact haccesses rfl rfl rfl
  | write data => exact haccesses rfl rfl rfl

/-- The accesses of `read_message` on a message that is there, up to the notification. -/
theorem drives_read {c : Channel} (hreturned : c.rx.queue.hasReturned c.rx.mem = true) (out : List UInt8) {r : Nat × List UInt8}
    (hr : VirtQueue.readRx c.rx.mem (c.rx.queue.collect c.rx.mem).1 out = r) :
    Drives { c with phase := .await (.read out) }
      { c with
        rx := { c.rx with
          queue := ((c.rx.queue.collect c.rx.mem).2.submit c.transport c.rx.mem (UInt32.ofNat bufSize) true).1
          mem := ((c.rx.queue.collect c.rx.mem).2.submit c.transport c.rx.mem (UInt32.ofNat bufSize) true).2.2 }
        phase := .submit .notify (.read r.1 r.2) } := by
  subst hr
  have hsee : ({ c with phase := .await (.read out) } : Channel).drive = some (.quiet, { c with phase := .collect (.read out) }) :=
    congrArg (fun c' => some (Obs.quiet, c')) (if_pos hreturned)
  -- the channel when the used entry has been read
  let c₁ : Channel := { c with rx := { c.rx with queue := (c.rx.queue.collect c.rx.mem).2 } }
  let r := VirtQueue.readRx c.rx.mem (c.rx.queue.collect c.rx.mem).1 out
  have hcollect : Drives { c with phase := .await (.read out) } { c₁ with phase := .copyOut out r.1 0 } :=
    .tail (.single ⟨.quiet, Obs.passing_quiet, hsee⟩) ⟨.quiet, Obs.passing_quiet, rfl⟩
  have hle : r.1 ≤ out.length ∧ r.1 ≤ bufSize := by
    simp only [r, VirtQueue.readRx]
    omega
  have hcopied : ({ c₁ with phase := .copyOut r.2 r.1 r.1 } : Channel).drive =
      some (.quiet, { c₁ with phase := .submit .describe (.read r.1 r.2) }) := if_neg (Nat.lt_irrefl r.1)
  exact ((hcollect.trans (drives_copyOut c₁ out hle.1 hle.2 (Nat.le_refl r.1))).tail ⟨.quiet, Obs.passing_quiet, hcopied⟩).trans
    (drives_submit c₁ (.read r.1 r.2))

/-- The accesses of `read_message` on a message that is there, up to the one with which it returns. -/
theorem drives_readMessage {c c' : Channel} {out o : List UInt8} {n : Nat} (h : c.readMessage out = some (n, o, c')) :
    ∃ c₁, Drives { c with phase := .await (.read out) } c₁ ∧ c₁.drive = some (.returned (.readMessage n o), c') := by
  have hreturned : c.rx.queue.hasReturned c.rx.mem = true := by
    by_contra hnot
    rw [readMessage, VirtQueue.pollUsed_eq, if_neg hnot] at h
    cases h
  rw [readMessage, VirtQueue.pollUsed_eq, if_pos hreturned] at h
  cases h
  exact ⟨_, drives_read hreturned out rfl, rfl⟩

/-- `read_message` as one step, on a message that is there. -/
theorem exists_readMessage {c : Channel} (hreturned : c.rx.queue.hasReturned c.rx.mem = true) (out : List UInt8) :
    ∃ c', c.readMessage out = some ((received c.rx.mem.buffer (c.rx.queue.collect c.rx.mem).1 out).1,
      (received c.rx.mem.buffer (c.rx.queue.collect c.rx.mem).1 out).2, c') ∧ c'.tx = c.tx := by
  rw [readMessage, VirtQueue.pollUsed_eq, if_pos hreturned]
  exact ⟨_, rfl, rfl⟩

/-- Without interference `read_message` does what it does as one step. -/
theorem exists_run_readMessage {c c' : Channel} {out o : List UInt8} {n : Nat} (hidle : c.phase = .idle)
    (h : c.readMessage out = some (n, o, c')) : ∃ evs, Run c evs c' ∧ reads evs = [out] ∧ replies evs = [(n, o)] := by
  obtain ⟨c₁, hdrives, hreturns⟩ := drives_readMessage h
  obtain ⟨evs, run, hreplies, hreads, -⟩ := hdrives.exists_run
  have hcall : Run c ([] ++ [⟨c, .call (.readMessage out), .quiet, { c with phase := .await (.read out) }⟩])
      { c with phase := .await (.read out) } := .concat .nil ⟨trivial, if_pos hidle⟩
  refine ⟨_, Run.drive (hcall.append run) hreturns, ?_, ?_⟩
  · rw [reads_concat, reads, List.filterMap_append, ← reads, ← reads, hreads]
    rfl
  · rw [replies_concat, replies, List.filterMap_append, ← replies, ← replies, hreplies]
    rfl

/-- `fill_tx` as a whole. -/
theorem fillTx_eq {mem : QueueMem} {data : List UInt8} (hsmall : ¬data.length > bufSize) :
    VirtQueue.fillTx mem data =
      .ok (UInt32.ofNat data.length, { mem with buffer := filled mem.buffer data data.length }) := by
  rw [VirtQueue.fillTx, if_neg hsmall, filled, List.take_length]

/-- The accesses of `write_message` once its message is in the buffer, up to the notification. -/
theorem drives_write {c : Channel} {data : List UInt8} {buffer : Vector UInt8 bufSize}
    (hsending : Drives (c.sending c.tx.mem.buffer data 0) (c.sending buffer data data.length)) :
    let mem := { c.tx.mem with buffer }
    let queue := c.tx.queue.submit c.transport mem (UInt32.ofNat data.length) false
    Drives { c with phase := .copyIn data 0 }
      { c with tx := { c.tx with queue := queue.1, mem := queue.2.2 }, phase := .submit .notify (.write data) } := by
  let c₁ : Channel := { c with tx := { c.tx with mem := { c.tx.mem with buffer } } }
  have hcopied : (c.sending buffer data data.length).drive =
      some (.quiet, { c₁ with phase := .submit .describe (.write data) }) := if_neg (Nat.lt_irrefl data.length)
  exact (hsending.tail ⟨.quiet, Obs.passing_quiet, hcopied⟩).trans (drives_submit c₁ (.write data))

/-- A message that is sent fits into the buffer. -/
theorem length_of_sendMessage {c c' : Channel} {data : List UInt8} (h : c.sendMessage data = .ok c') : ¬data.length > bufSize := by
  intro hlarge
  rw [sendMessage, VirtQueue.fillTx, if_pos hlarge] at h
  cases h

/-- The accesses of `write_message`, up to where it waits. -/
theorem drives_sendMessage {c c' : Channel} {data : List UInt8} (h : c.sendMessage data = .ok c') :
    Drives { c with phase := .copyIn data 0 } c' := by
  have hsending := drives_sending c data (Nat.le_refl data.length)
  rw [sendMessage, fillTx_eq (length_of_sendMessage h)] at h
  -- from here on it does not matter what is in the buffer
  generalize filled c.tx.mem.buffer data data.length = buffer at h hsending
  cases h
  exact (drives_write hsending).tail ⟨.quiet, Obs.passing_quiet, rfl⟩

/-- Without interference `write_message` does what it does as one step, and then waits. -/
theorem exists_run_sendMessage {c c' : Channel} {data : List UInt8} (hidle : c.phase = .idle) (h : c.sendMessage data = .ok c') :
    ∃ evs, Run c evs c' ∧ writes evs = [data] := by
  have hsmall := length_of_sendMessage h
  obtain ⟨evs, run, -, -, hwrites⟩ := (drives_sendMessage h).exists_run
  have hcall : Run c ([] ++ [⟨c, .call (.writeMessage data), .quiet, { c with phase := .copyIn data 0 }⟩])
      { c with phase := .copyIn data 0 } := .concat .nil ⟨trivial, by simp [step, hidle, begin, hsmall]⟩
  refine ⟨_, hcall.append run, ?_⟩
  rw [writes, List.filterMap_append, ← writes, ← writes, hwrites]
  simp [writes, Turn.write?, hsmall]

/-- The device finds a message that has been sent, if it had taken all before. -/
theorem exists_take_of_sendMessage {c c' : Channel} {data : List UInt8} (h : c.sendMessage data = .ok c')
    (hcaught : c.tx.queue.availIdx = c.tx.device.availIdx) : ∃ bytes c'', c'.step (.take .tx) = some (.took .tx bytes, c'') := by
  rw [sendMessage, fillTx_eq (length_of_sendMessage h)] at h
  generalize filled c.tx.mem.buffer data data.length = buffer at h
  cases h
  have hnew : c.tx.queue.availIdx + 1 ≠ c.tx.device.availIdx := by
    rw [hcaught]
    simp
  simp only [step, port, Port.take, Port.next?, ne_eq, hnew, not_false_eq_true, if_true, Option.bind_eq_bind,
    Option.bind_some]
  exact ⟨_, _, rfl⟩

end Channel

end Sentinel

end GolemKernel
