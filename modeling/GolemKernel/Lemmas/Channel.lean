import GolemKernel.Sentinel.Channel
import GolemKernel.Theorems.VirtQueue

/-!
# One buffer that goes back and forth

A queue of the Sentinel channel has one buffer in use. It is with the driver, then offered to the device, taken by it, given back, and
with the driver again when the driver has collected it. `Port.At k stage` says of a queue that the buffer has gone round `k` times and is
at a stage of the next round: all indices are `k` or `k + 1`, and the entries of the rings that the other end reads next are in place. The
lemmas say which stage each operation needs, and which stage it leads to.
-/

namespace GolemKernel

namespace Sentinel

/-! ## What `configure` leaves alone -/

namespace MmioDevice

/-- A write to a register that does not select a queue keeps the selection and the limits, and all queues but the selected one. -/
theorem write32_keeps (d : MmioDevice) {offset : Nat} (value : UInt32) (hoffset : offset ≠ Mmio.queueSel) :
    (write32 d offset value).sel = d.sel ∧ (write32 d offset value).numMax = d.numMax ∧
      ∀ i, i ≠ d.sel → (write32 d offset value).queues i = d.queues i := by
  have hset : ∀ f, (d.setQueue f).sel = d.sel ∧ (d.setQueue f).numMax = d.numMax ∧
      ∀ i, i ≠ d.sel → (d.setQueue f).queues i = d.queues i := by
    intro f
    exact ⟨rfl, rfl, fun i hi => Function.update_of_ne hi _ _⟩
  have hite : ∀ {p : Prop} [Decidable p] {a b : MmioDevice},
      (a.sel = d.sel ∧ a.numMax = d.numMax ∧ ∀ i, i ≠ d.sel → a.queues i = d.queues i) →
      (b.sel = d.sel ∧ b.numMax = d.numMax ∧ ∀ i, i ≠ d.sel → b.queues i = d.queues i) →
      (if p then a else b).sel = d.sel ∧ (if p then a else b).numMax = d.numMax ∧
        ∀ i, i ≠ d.sel → (if p then a else b).queues i = d.queues i := by
    intro p _ a b ha hb
    by_cases hp : p
    · rwa [if_pos hp]
    · rwa [if_neg hp]
  unfold write32
  simp only [instVirtioTransport, if_neg hoffset]
  -- the eight other registers of the queue, and the notification
  iterate 8 refine hite (hset _) ?_
  exact hite ⟨rfl, rfl, fun _ _ => rfl⟩ ⟨rfl, rfl, fun _ _ => rfl⟩

/-- The same for writes one after another. -/
theorem foldl_write32_keeps (d : MmioDevice) (writes : List (Nat × UInt32)) (hwrites : ∀ w ∈ writes, w.1 ≠ Mmio.queueSel) :
    (writes.foldl (fun d w => write32 d w.1 w.2) d).numMax = d.numMax ∧
      ∀ i, i ≠ d.sel → (writes.foldl (fun d w => write32 d w.1 w.2) d).queues i = d.queues i := by
  induction writes generalizing d with
  | nil => exact ⟨rfl, fun _ _ => rfl⟩
  | cons w writes ih =>
    obtain ⟨hsel, hmax, hqueues⟩ := d.write32_keeps w.2 (hwrites w (by simp))
    obtain ⟨hmax', hqueues'⟩ := ih (write32 d w.1 w.2) fun w' hw' => hwrites w' (by simp [hw'])
    refine ⟨hmax'.trans hmax, fun i hi => ?_⟩
    rw [List.foldl_cons, hqueues' i (by rwa [hsel]), hqueues i hi]

end MmioDevice

/-- `configure` sets up one queue and leaves the others as they are. -/
theorem configure_keeps {d d' : MmioDevice} {index : UInt32} {mem : UInt64} {q : VirtQueue}
    (h : VirtQueue.configure d index mem = (.ok q, d')) :
    d'.numMax = d.numMax ∧ ∀ i, i ≠ index → d'.queues i = d.queues i := by
  unfold VirtQueue.configure at h
  simp only [MmioDevice.write32_queueSel, MmioDevice.read32_queueNumMax] at h
  obtain ⟨-, h⟩ | ⟨-, h⟩ := ite_eq_iff.mp h
  · cases h
  obtain ⟨-, h⟩ | ⟨-, h⟩ := ite_eq_iff.mp h
  · cases h
  obtain ⟨-, rfl⟩ := Prod.mk.inj h
  have hkeeps := MmioDevice.foldl_write32_keeps { d with sel := index }
    [(Mmio.queueNum, UInt32.ofNat (min (d.numMax index).toNat queueSize)),
      (Mmio.queueDescLow, (QueueMem.descAddr mem).toUInt32), (Mmio.queueDescHigh, (QueueMem.descAddr mem >>> 32).toUInt32),
      (Mmio.queueDriverLow, (QueueMem.availAddr mem).toUInt32), (Mmio.queueDriverHigh, (QueueMem.availAddr mem >>> 32).toUInt32),
      (Mmio.queueDeviceLow, (QueueMem.usedAddr mem).toUInt32), (Mmio.queueDeviceHigh, (QueueMem.usedAddr mem >>> 32).toUInt32),
      (Mmio.queueReady, 1)] (by simp [Mmio.queueSel, Mmio.queueNum, Mmio.queueDescLow, Mmio.queueDescHigh, Mmio.queueDriverLow,
        Mmio.queueDriverHigh, Mmio.queueDeviceLow, Mmio.queueDeviceHigh, Mmio.queueReady])
  exact hkeeps

/-! ## The stages of a buffer -/

/-- Where the buffer of a queue is. -/
inductive Stage where
  | driver
  | offered (len : UInt32) (writable : Bool)
  | taken (len : UInt32) (writable : Bool)
  | returned (len : UInt32)
  deriving DecidableEq, Repr

namespace Stage

/-- How often the buffer was offered in this round. -/
def published : Stage → Nat
  | .driver => 0
  | .offered _ _ | .taken _ _ | .returned _ => 1

/-- How often it was taken. -/
def consumed : Stage → Nat
  | .driver | .offered _ _ => 0
  | .taken _ _ | .returned _ => 1

/-- How often it was given back. -/
def given : Stage → Nat
  | .driver | .offered _ _ | .taken _ _ => 0
  | .returned _ => 1

/-- The device has the buffer, as one of this length and kind. -/
def Lent (stage : Stage) (len : UInt32) (writable : Bool) : Prop := stage = .offered len writable ∨ stage = .taken len writable

/-- A buffer that is not with the driver has been published. -/
theorem published_eq_one {stage : Stage} (h : stage ≠ .driver) : stage.published = 1 := by
  cases stage with
  | driver => exact absurd rfl h
  | offered len writable => rfl
  | taken len writable => rfl
  | returned len => rfl

/-- The device gives back what was published, and is at most one behind. -/
theorem given_le_published (stage : Stage) : stage.given ≤ stage.published ∧ stage.published ≤ stage.given + 1 := by
  cases stage <;> simp [given, published]

/-- A buffer that was offered and not given back. -/
theorem of_lent (stage : Stage) (hdriver : stage ≠ .driver) (hreturned : ∀ len, stage ≠ .returned len) :
    stage.published = 1 ∧ stage.given = 0 := by
  cases stage with
  | driver => exact absurd rfl hdriver
  | offered len writable => exact ⟨rfl, rfl⟩
  | taken len writable => exact ⟨rfl, rfl⟩
  | returned len => exact absurd rfl (hreturned len)

end Stage

namespace Port

/-- The indices of both ends after `k` rounds, with what was done in the next one. -/
structure Counts (p : Port) (k published consumed given : Nat) : Prop where
  num : p.device.num = queueSize
  driverAvail : p.queue.availIdx = UInt16.ofNat (k + published)
  memAvail : p.mem.avail.idx = UInt16.ofNat (k + published)
  deviceAvail : p.device.availIdx = UInt16.ofNat (k + consumed)
  deviceUsed : p.device.usedIdx = UInt16.ofNat (k + given)
  memUsed : p.mem.used.idx = UInt16.ofNat (k + given)
  driverUsed : p.queue.lastUsedIdx = UInt16.ofNat k

/-- Descriptor 0 offers the buffer. -/
def Describes (p : Port) (len : UInt32) (writable : Bool) : Prop :=
  p.mem.desc[0]? = some ⟨QueueMem.bufferAddr p.queue.mem, len, if writable then virtqDescFWrite else 0, 0⟩

/-- The available ring has descriptor 0 where the device looks in round `k`. -/
def Enqueued (p : Port) (k : Nat) : Prop := p.mem.avail.ring[k % queueSize]? = some 0

/-- The used ring has this length where the driver looks in round `k`. -/
def Reports (p : Port) (k : Nat) (len : UInt32) : Prop := p.mem.used.ring[k % queueSize]? = some ⟨0, len⟩

/-- The state of a queue whose buffer has gone round `k` times and is at a stage of the next round. -/
inductive At (p : Port) (k : Nat) : Stage → Prop
  | driver (counts : p.Counts k 0 0 0) (held : p.held = []) (returning : p.returning = none) : At p k .driver
  | offered {len : UInt32} {writable : Bool} (counts : p.Counts k 1 0 0) (held : p.held = []) (returning : p.returning = none)
      (entry : p.Enqueued k) (desc : p.Describes len writable) : At p k (.offered len writable)
  | taken {len : UInt32} {writable : Bool} (counts : p.Counts k 1 1 0) (held : p.held = [0])
      (returning : ∀ head reply, p.returning = some (head, reply) → head = 0 ∧ p.Reports k reply)
      (desc : p.Describes len writable) : At p k (.taken len writable)
  | returned {len : UInt32} (counts : p.Counts k 1 1 1) (held : p.held = []) (returning : p.returning = none)
      (reply : p.Reports k len) : At p k (.returned len)

variable {p p' : Port} {k : Nat} {stage : Stage}

/-- A counter of 16 bits leads to the same slot as one that does not wrap, since the ring divides its range. -/
theorem slot_eq (k : Nat) : (UInt16.ofNat k).toNat % queueSize = k % queueSize := by
  simp only [UInt16.toNat_ofNat', queueSize]
  omega

/-- Such a counter counts on with the number it stands for. -/
theorem ofNat_succ (k : Nat) : UInt16.ofNat k + 1 = UInt16.ofNat (k + 1) := (UInt16.ofNat_add k 1).symm

/-- An index and the next one differ, also where the index wraps. -/
theorem ofNat_add_one_ne (k : Nat) : UInt16.ofNat (k + 1) ≠ UInt16.ofNat k := by
  rw [← ofNat_succ]
  exact Link.ofNat_succ_ne k

/-- After `configure` the buffer is with the driver, and none has been published. -/
theorem at_start {q : VirtQueue} {transport : MmioDevice} (havail : q.availIdx = 0) (hused : q.lastUsedIdx = 0)
    (hnum : (transport.queues q.index).num.toNat = queueSize) : (start q transport).At 0 .driver :=
  .driver ⟨hnum, havail, rfl, rfl, rfl, rfl, hused⟩ rfl rfl

/-- The stage of the buffer gives all four counters. -/
theorem At.counts (h : p.At k stage) : p.Counts k stage.published stage.consumed stage.given := by
  cases h with
  | driver counts => exact counts
  | offered counts => exact counts
  | taken counts => exact counts
  | returned counts => exact counts

/-! ## The driver -/

/-- While the driver has the buffer it may write the rest of the memory. -/
theorem At.with_mem (h : p.At k .driver) {mem : QueueMem} (havail : mem.avail.idx = p.mem.avail.idx)
    (hused : mem.used.idx = p.mem.used.idx) : ({ p with mem } : Port).At k .driver := by
  cases h with
  | driver counts held returning =>
    refine .driver ?_ held returning
    exact { counts with memAvail := havail.trans counts.memAvail, memUsed := hused.trans counts.memUsed }

/-- The descriptor says what the driver has put in it. -/
theorem describes_describe (p : Port) (len : UInt32) (writable : Bool) :
    ({ p with mem := p.queue.describe p.mem len writable } : Port).Describes len writable := by
  simp [Describes, VirtQueue.describe, show 0 < queueSize by decide]

/-- The driver puts the buffer in the next slot of the available ring. -/
theorem At.enqueued_enqueue (h : p.At k .driver) : ({ p with mem := p.queue.enqueue p.mem } : Port).Enqueued k := by
  have hslot : p.queue.availSlot = k % queueSize := by
    rw [VirtQueue.availSlot, h.counts.driverAvail, slot_eq]
    rfl
  have hlt : k % queueSize < queueSize := Nat.mod_lt k (by decide)
  simp [Enqueued, VirtQueue.enqueue, hslot, hlt]

/-- With the descriptor and the slot filled in, publishing offers the buffer to the device. -/
theorem At.publish (h : p.At k .driver) (hentry : p.Enqueued k) {len : UInt32} {writable : Bool} (hdesc : p.Describes len writable) :
    ({ p with queue := (p.queue.publish p.mem).1, mem := (p.queue.publish p.mem).2 } : Port).At k (.offered len writable) := by
  cases h with
  | driver counts held returning =>
    have hidx : p.queue.availIdx + 1 = UInt16.ofNat (k + 1) := by rw [counts.driverAvail, ofNat_succ]
    refine .offered ?_ held returning hentry hdesc
    exact { counts with driverAvail := hidx, memAvail := hidx }

/-- `poll_used` sees the index change once the buffer has been given back. -/
theorem At.hasReturned_iff (h : p.At k stage) : p.queue.hasReturned p.mem = true ↔ ∃ len, stage = .returned len := by
  have hcounts := h.counts
  rw [VirtQueue.hasReturned, decide_eq_true_eq, hcounts.memUsed, hcounts.driverUsed]
  cases stage with
  | driver => simp [Stage.given]
  | offered len writable => simp [Stage.given]
  | taken len writable => simp [Stage.given]
  | returned len => simp [Stage.given]

/-- `poll_used` gets the length that the device reported, and the driver has the buffer. -/
theorem At.collect {len : UInt32} (h : p.At k (.returned len)) :
    (p.queue.collect p.mem).1 = len ∧ ({ p with queue := (p.queue.collect p.mem).2 } : Port).At (k + 1) .driver := by
  cases h with
  | returned counts held returning reply =>
    have hslot : p.queue.usedSlot = k % queueSize := by rw [VirtQueue.usedSlot, counts.driverUsed, slot_eq]
    have hidx : p.queue.lastUsedIdx + 1 = UInt16.ofNat (k + 1) := by rw [counts.driverUsed, ofNat_succ]
    refine ⟨?_, .driver ?_ held returning⟩
    · rw [VirtQueue.collect, hslot, reply]
      rfl
    · exact { counts with driverUsed := hidx }

/-! ## The device -/

/-- The device finds the buffer that was offered. -/
theorem At.next?_offered {len : UInt32} {writable : Bool} (h : p.At k (.offered len writable)) : p.next? = some 0 := by
  cases h with
  | offered counts held returning entry desc =>
    have hslot : p.device.nextAvailSlot = k % queueSize := by
      rw [RingDevice.nextAvailSlot, counts.num, counts.deviceAvail, slot_eq]
      rfl
    have hnew : p.mem.avail.idx ≠ p.device.availIdx := by
      rw [counts.memAvail, counts.deviceAvail]
      exact ofNat_add_one_ne k
    rw [next?, if_pos hnew, hslot, entry]
    rfl

/-- When all that was published is taken the device finds nothing. -/
theorem At.next?_of_published_eq (h : p.At k stage) (hstage : stage.published = stage.consumed) : p.next? = none := by
  rw [next?, h.counts.memAvail, h.counts.deviceAvail, hstage]
  exact if_neg (by simp)

/-- What the device has or can have is descriptor 0, and it has it only while the buffer is lent. -/
theorem At.lent (h : p.At k stage) {head : UInt16} (hhead : head ∈ p.held ++ p.next?.toList) :
    head = 0 ∧ ∃ len writable, stage.Lent len writable ∧ p.Describes len writable := by
  rw [List.mem_append] at hhead
  cases h with
  | driver counts held returning =>
    rw [held, (At.driver counts held returning).next?_of_published_eq rfl] at hhead
    simp at hhead
  | offered counts held returning entry desc =>
    rw [held, (At.offered counts held returning entry desc).next?_offered] at hhead
    exact ⟨by simpa using hhead, _, _, Or.inl rfl, desc⟩
  | taken counts held returning desc =>
    rw [held, (At.taken counts held returning desc).next?_of_published_eq rfl] at hhead
    exact ⟨by simpa using hhead, _, _, Or.inr rfl, desc⟩
  | returned counts held returning reply =>
    rw [held, (At.returned counts held returning reply).next?_of_published_eq rfl] at hhead
    simp at hhead

/-- The device reads the descriptor as it was filled in. -/
theorem Describes.descriptor? {len : UInt32} {writable : Bool} (h : p.Describes len writable) :
    p.descriptor? 0 = some ⟨QueueMem.bufferAddr p.queue.mem, len, if writable then virtqDescFWrite else 0, 0⟩ := by
  have hzero : p.mem.desc[(0 : UInt16).toNat]? = p.mem.desc[0]? := rfl
  rw [Port.descriptor?, hzero, h, Option.filter_some]
  simp

/-- The device takes the buffer when it is offered, and finds as many of its bytes as the driver said. -/
theorem At.take {bytes : List UInt8} (h : p.At k stage) (htake : p.take = some (bytes, p')) :
    ∃ len writable, stage = .offered len writable ∧ p'.At k (.taken len writable) ∧
      bytes = p.mem.buffer.toList.take len.toNat ∧ p'.mem = p.mem ∧ p'.queue = p.queue := by
  cases hnext : p.next? with
  | none => simp [Port.take, hnext] at htake
  | some head =>
    obtain ⟨rfl, len, writable, hlent, -⟩ := h.lent (show head ∈ _ by simp [hnext])
    have hoffered : stage = .offered len writable := by
      rcases hlent with hlent | hlent
      · exact hlent
      · subst hlent
        rw [h.next?_of_published_eq rfl] at hnext
        cases hnext
    subst hoffered
    simp only [Port.take, hnext, Option.bind_eq_bind, Option.bind_some, Option.pure_def, Option.some.injEq, Prod.mk.injEq] at htake
    obtain ⟨rfl, rfl⟩ := htake
    refine ⟨len, writable, rfl, ?_, ?_, rfl, rfl⟩
    · cases h with
      | offered counts held returning entry desc =>
        have hidx : p.device.availIdx + 1 = UInt16.ofNat (k + 1) := by rw [counts.deviceAvail, ofNat_succ]
        refine .taken { counts with deviceAvail := hidx } (by rw [held]; rfl) ?_ desc
        intro head reply hsome
        rw [returning] at hsome
        cases hsome
    · cases h with
      | offered counts held returning entry desc => rw [bytes, desc.descriptor?]

/-- The device writes the buffer while it is lent to it for writing. -/
theorem At.touch {buffer : Vector UInt8 bufSize} (h : p.At k stage) (htouch : p.touch buffer = some p') :
    (∃ len, stage.Lent len true) ∧ p'.At k stage ∧ p'.mem.buffer = buffer ∧ p'.queue = p.queue := by
  unfold Port.touch at htouch
  split at htouch
  case isFalse => cases htouch
  case isTrue hany =>
    cases htouch
    obtain ⟨head, hhead, hallows⟩ := List.any_eq_true.1 hany
    obtain ⟨rfl, len, writable, hlent, hdesc⟩ := h.lent hhead
    have hwritable : writable = true := by
      rw [allows, hdesc.descriptor?] at hallows
      cases writable with
      | true => rfl
      | false => simp [virtqDescFWrite] at hallows
    subst hwritable
    refine ⟨⟨len, hlent⟩, ?_, rfl, rfl⟩
    cases h with
    | driver counts held returning => exact .driver { counts with } held returning
    | offered counts held returning entry desc => exact .offered { counts with } held returning entry desc
    | taken counts held returning desc => exact .taken { counts with } held returning desc
    | returned counts held returning reply => exact .returned { counts with } held returning reply

/-- The device fills in the used ring while it has the buffer. -/
theorem At.put {head : UInt16} {len : UInt32} (h : p.At k stage) (hput : p.put head len = some p') :
    (∃ l writable, stage.Lent l writable) ∧ p'.At k stage ∧ p'.mem.buffer = p.mem.buffer ∧ p'.queue = p.queue := by
  unfold Port.put at hput
  split at hput
  case isFalse => cases hput
  case isTrue hheld =>
    cases hput
    cases h with
    | driver counts held returning => simp [held] at hheld
    | offered counts held returning entry desc => simp [held] at hheld
    | taken counts held returning desc =>
      obtain rfl : head = 0 := by simpa [held] using hheld.1
      refine ⟨⟨_, _, Or.inr rfl⟩, .taken { counts with } held ?_ desc, rfl, rfl⟩
      intro head reply hsome
      cases hsome
      refine ⟨rfl, ?_⟩
      have hslot : p.device.usedIdx.toNat % p.device.num = k % queueSize := by rw [counts.num, counts.deviceUsed, slot_eq]; rfl
      have hlt : k % queueSize < queueSize := Nat.mod_lt k (by decide)
      simp [Reports, hslot, hlt]
    | returned counts held returning reply => simp [held] at hheld

/-- The device gives the buffer back as it left it. -/
theorem At.give {len : UInt32} (h : p.At k stage) (hgive : p.give = some (len, p')) :
    (∃ l writable, stage = .taken l writable) ∧ p'.At k (.returned len) ∧ p'.mem.buffer = p.mem.buffer ∧ p'.queue = p.queue := by
  cases hret : p.returning with
  | none => simp [Port.give, hret] at hgive
  | some r =>
    obtain ⟨head, reply⟩ := r
    simp only [Port.give, hret, Option.bind_eq_bind, Option.bind_some, Option.pure_def, Option.some.injEq, Prod.mk.injEq] at hgive
    obtain ⟨rfl, rfl⟩ := hgive
    cases h with
    | driver counts held returning => rw [returning] at hret; cases hret
    | offered counts held returning entry desc => rw [returning] at hret; cases hret
    | taken counts held returning desc =>
      obtain ⟨rfl, hreply⟩ := returning head reply hret
      have hidx : p.device.usedIdx + 1 = UInt16.ofNat (k + 1) := by rw [counts.deviceUsed, ofNat_succ]
      refine ⟨⟨_, _, rfl⟩, ?_, rfl, rfl⟩
      exact .returned { counts with deviceUsed := hidx, memUsed := hidx } (by rw [held]; rfl) rfl hreply
    | returned counts held returning reply => rw [returning] at hret; cases hret

end Port

/-! ## What is seen of a run -/

def Turn.read? : Turn → Option (List UInt8)
  | .call (.readMessage out) => some out
  | _ => none

/-- The message of a call of `write_message` that is not refused. -/
def Turn.write? : Turn → Option (List UInt8)
  | .call (.writeMessage data) => if data.length > bufSize then none else some data
  | _ => none

namespace Obs

def reply? : Obs → Option (Nat × List UInt8)
  | .returned (.readMessage n out) => some (n, out)
  | _ => none

def published? (side : Side) : Obs → Option Unit
  | .published s => if s = side then some () else none
  | _ => none

def took? (side : Side) : Obs → Option (List UInt8)
  | .took s bytes => if s = side then some bytes else none
  | _ => none

def gave? (side : Side) : Obs → Option (Vector UInt8 bufSize × UInt32)
  | .gave s buffer len => if s = side then some (buffer, len) else none
  | _ => none

/-- A turn in which no call returns. -/
def Passing (obs : Obs) : Prop := ∀ reply, obs ≠ .returned reply

theorem passing_quiet : Passing .quiet := by
  intro reply h
  cases h

theorem passing_accessed (side : Side) : Passing (.accessed side) := by
  intro reply h
  cases h

theorem passing_published (side : Side) : Passing (.published side) := by
  intro reply h
  cases h

/-- Then nothing was read. -/
theorem Passing.reply?_eq_none {obs : Obs} (h : obs.Passing) : obs.reply? = none := by
  cases obs with
  | returned reply => exact absurd rfl (h reply)
  | _ => rfl

end Obs

namespace Channel

/-! ## What a turn does -/

/-- All turns of a channel, with what can be seen of them. -/
inductive Moves (c : Channel) : Turn → Obs → Channel → Prop
  | beginRead (out : List UInt8) (idle : c.phase = .idle) :
      Moves c (.call (.readMessage out)) .quiet { c with phase := .await (.read out) }
  | refuse (data : List UInt8) (idle : c.phase = .idle) (large : data.length > bufSize) :
      Moves c (.call (.writeMessage data)) (.returned (.writeMessage (.error .messageTooLarge))) c
  | beginWrite (data : List UInt8) (idle : c.phase = .idle) (small : ¬data.length > bufSize) :
      Moves c (.call (.writeMessage data)) .quiet { c with phase := .copyIn data 0 }
  | spin (w : Waiter) (phase : c.phase = .await w) (waits : ¬(c.port w.side).queue.hasReturned (c.port w.side).mem) :
      Moves c .driver .quiet c
  | see (w : Waiter) (phase : c.phase = .await w) (returned : (c.port w.side).queue.hasReturned (c.port w.side).mem) :
      Moves c .driver .quiet { c with phase := .collect w }
  | collectRead (out : List UInt8) (phase : c.phase = .collect (.read out)) :
      Moves c .driver .quiet
        { c with
          rx := { c.rx with queue := (c.rx.queue.collect c.rx.mem).2 }
          phase := .copyOut out (min (c.rx.queue.collect c.rx.mem).1.toNat (min out.length bufSize)) 0 }
  | collectWrite (phase : c.phase = .collect .write) :
      Moves c .driver (.returned (.writeMessage (.ok ())))
        { c with tx := { c.tx with queue := (c.tx.queue.collect c.tx.mem).2 }, phase := .idle }
  | copyOut (out : List UInt8) (n i : Nat) (phase : c.phase = .copyOut out n i) (more : i < n) :
      Moves c .driver (.accessed .rx) { c with phase := .copyOut (out.set i (c.rx.mem.buffer[i]?.getD 0)) n (i + 1) }
  | copiedOut (out : List UInt8) (n i : Nat) (phase : c.phase = .copyOut out n i) (done : ¬i < n) :
      Moves c .driver .quiet { c with phase := .submit .describe (.read n out) }
  | copyIn (data : List UInt8) (i : Nat) (phase : c.phase = .copyIn data i) (more : i < data.length) :
      Moves c .driver (.accessed .tx)
        { c with
          tx := { c.tx with mem := { c.tx.mem with buffer := c.tx.mem.buffer.setIfInBounds i (data[i]?.getD 0) } }
          phase := .copyIn data (i + 1) }
  | copiedIn (data : List UInt8) (i : Nat) (phase : c.phase = .copyIn data i) (done : ¬i < data.length) :
      Moves c .driver .quiet { c with phase := .submit .describe (.write data) }
  | describe (s : Submitter) (phase : c.phase = .submit .describe s) :
      Moves c .driver .quiet
        { c.setPort s.side
            { c.port s.side with mem := (c.port s.side).queue.describe (c.port s.side).mem s.len s.writable } with
          phase := .submit .enqueue s }
  | enqueue (s : Submitter) (phase : c.phase = .submit .enqueue s) :
      Moves c .driver .quiet
        { c.setPort s.side { c.port s.side with mem := (c.port s.side).queue.enqueue (c.port s.side).mem } with
          phase := .submit .publish s }
  | publish (s : Submitter) (phase : c.phase = .submit .publish s) :
      Moves c .driver (.published s.side)
        { c.setPort s.side
            { c.port s.side with
              queue := ((c.port s.side).queue.publish (c.port s.side).mem).1
              mem := ((c.port s.side).queue.publish (c.port s.side).mem).2 } with
          phase := .submit .notify s }
  | notifyInit (phase : c.phase = .submit .notify .init) (transport : MmioDevice) :
      Moves c .driver .quiet { c with transport, phase := .idle }
  | notifyRead (n : Nat) (out : List UInt8) (phase : c.phase = .submit .notify (.read n out)) (transport : MmioDevice) :
      Moves c .driver (.returned (.readMessage n out)) { c with transport, phase := .idle }
  | notifyWrite (data : List UInt8) (phase : c.phase = .submit .notify (.write data)) (transport : MmioDevice) :
      Moves c .driver .quiet { c with transport, phase := .await .write }
  | take (side : Side) (bytes : List UInt8) (p : Port) (took : (c.port side).take = some (bytes, p)) :
      Moves c (.take side) (.took side bytes) (c.setPort side p)
  | touch (side : Side) (buffer : Vector UInt8 bufSize) (p : Port) (touched : (c.port side).touch buffer = some p) :
      Moves c (.touch side buffer) .quiet (c.setPort side p)
  | put (side : Side) (head : UInt16) (len : UInt32) (p : Port) (filled : (c.port side).put head len = some p) :
      Moves c (.put side head len) .quiet (c.setPort side p)
  | give (side : Side) (len : UInt32) (p : Port) (gave : (c.port side).give = some (len, p)) :
      Moves c (.give side) (.gave side p.mem.buffer len) (c.setPort side p)

/-- A step of `submit` is one of the moves. -/
theorem submit_moves {c : Channel} {s : Submitter} {point : Point} (hphase : c.phase = .submit point s) :
    Moves c .driver (c.submit s point).1 (c.submit s point).2 := by
  cases point with
  | describe => exact .describe s hphase
  | enqueue => exact .enqueue s hphase
  | publish => exact .publish s hphase
  | notify =>
    cases s with
    | init => exact .notifyInit hphase _
    | read n out => exact .notifyRead n out hphase _
    | write data => exact .notifyWrite data hphase _

/-- A step of the driver is one of the moves. -/
theorem drive_moves {c c' : Channel} {obs : Obs} (h : c.drive = some (obs, c')) : Moves c .driver obs c' := by
  unfold drive at h
  split at h
  case h_1 => cases h
  case h_2 w hphase =>
    cases h
    split
    case isTrue hret => exact .see w hphase hret
    case isFalse hret => exact .spin w hphase hret
  case h_3 w hphase =>
    cases w with
    | read out => cases h; exact .collectRead out hphase
    | write => cases h; exact .collectWrite hphase
  case h_4 out n i hphase =>
    split at h
    case isTrue hi => cases h; exact .copyOut out n i hphase hi
    case isFalse hi => cases h; exact .copiedOut out n i hphase hi
  case h_5 data i hphase =>
    split at h
    case isTrue hi => cases h; exact .copyIn data i hphase hi
    case isFalse hi => cases h; exact .copiedIn data i hphase hi
  case h_6 point s hphase =>
    have hsubmit := submit_moves hphase
    rwa [Option.some.inj h] at hsubmit

/-- Every turn is one of the moves. -/
theorem step_moves {c c' : Channel} {turn : Turn} {obs : Obs} (h : c.step turn = some (obs, c')) : Moves c turn obs c' := by
  cases turn with
  | call request =>
    simp only [step] at h
    split at h
    case isFalse => cases h
    case isTrue hidle =>
      cases request with
      | readMessage out => cases h; exact .beginRead out hidle
      | writeMessage data =>
        simp only [begin] at h
        split at h
        case isTrue hlarge => cases h; exact .refuse data hidle hlarge
        case isFalse hsmall => cases h; exact .beginWrite data hidle hsmall
  | driver => exact drive_moves h
  | take side =>
    obtain ⟨⟨bytes, p⟩, htake, heq⟩ := Option.map_eq_some_iff.1 h
    cases heq
    exact .take side bytes p htake
  | touch side buffer =>
    obtain ⟨p, htouch, heq⟩ := Option.map_eq_some_iff.1 h
    cases heq
    exact .touch side buffer p htouch
  | put side head len =>
    obtain ⟨p, hput, heq⟩ := Option.map_eq_some_iff.1 h
    cases heq
    exact .put side head len p hput
  | give side =>
    obtain ⟨⟨len, p⟩, hgive, heq⟩ := Option.map_eq_some_iff.1 h
    cases heq
    exact .give side len p hgive

/-! ## The lists of a run -/

abbrev Events := List (Trace.Event Channel Turn Obs)

/-- The buffers of the calls of `read_message`. -/
def reads (evs : Events) : List (List UInt8) := evs.filterMap fun e => e.input.read?

/-- The messages of the calls of `write_message` that were not refused. -/
def writes (evs : Events) : List (List UInt8) := evs.filterMap fun e => e.input.write?

/-- What the calls of `read_message` returned. -/
def replies (evs : Events) : List (Nat × List UInt8) := evs.filterMap fun e => e.output.reply?

/-- How often the driver has offered the buffer of a queue. -/
def offers (side : Side) (evs : Events) : Nat := (evs.filterMap fun e => e.output.published? side).length

/-- What the device found in the buffers it took. -/
def taken (side : Side) (evs : Events) : List (List UInt8) := evs.filterMap fun e => e.output.took? side

/-- The buffers the device gave back, as it left them, with the lengths it reported. -/
def given (side : Side) (evs : Events) : List (Vector UInt8 bufSize × UInt32) := evs.filterMap fun e => e.output.gave? side

/-- What is picked from a list with one more element. -/
theorem filterMap_concat {α β : Type} (f : α → Option β) (l : List α) (a : α) :
    (l ++ [a]).filterMap f = l.filterMap f ++ (f a).toList := by
  rw [List.filterMap_append]
  cases h : f a <;> simp [h]

section

variable (evs : Events) (e : Trace.Event Channel Turn Obs)

/-- A call of `read_message` at the last event is the last one. -/
theorem reads_concat : reads (evs ++ [e]) = reads evs ++ e.input.read?.toList := filterMap_concat _ evs e

/-- A call of `write_message` at the last event is the last one. -/
theorem writes_concat : writes (evs ++ [e]) = writes evs ++ e.input.write?.toList := filterMap_concat _ evs e

/-- A message returned at the last event is the last one. -/
theorem replies_concat : replies (evs ++ [e]) = replies evs ++ e.output.reply?.toList := filterMap_concat _ evs e

/-- What the device takes at the last event comes last. -/
theorem taken_concat (side : Side) : taken side (evs ++ [e]) = taken side evs ++ (e.output.took? side).toList :=
  filterMap_concat _ evs e

/-- What the device gives at the last event comes last. -/
theorem given_concat (side : Side) : given side (evs ++ [e]) = given side evs ++ (e.output.gave? side).toList :=
  filterMap_concat _ evs e

/-- A buffer published at the last event is one more. -/
theorem offers_concat (side : Side) : offers side (evs ++ [e]) = offers side evs + (e.output.published? side).toList.length := by
  rw [offers, filterMap_concat, List.length_append]
  rfl

end

/-- What `read_message` makes of a buffer that was given back. -/
def received (buffer : Vector UInt8 bufSize) (len : UInt32) (out : List UInt8) : Nat × List UInt8 :=
  let n := min len.toNat (min out.length bufSize)
  (n, buffer.toList.take n ++ out.drop n)

/-! ## Submissions -/

/-- The accesses of `submit` that are done are to be seen in the memory, and the buffer is with the driver until the index is written. -/
def Submitting (p : Port) (k : Nat) (stage : Stage) (s : Submitter) : Point → Prop
  | .describe => stage = .driver
  | .enqueue => stage = .driver ∧ p.Describes s.len s.writable
  | .publish => stage = .driver ∧ p.Describes s.len s.writable ∧ p.Enqueued k
  | .notify => stage ≠ .driver

/-- The next access of `submit` is made. -/
theorem Submitting.describe {p : Port} {k : Nat} {stage : Stage} {s : Submitter} (hs : Submitting p k stage s .describe)
    (h : p.At k stage) :
    stage = .driver ∧ ({ p with mem := p.queue.describe p.mem s.len s.writable } : Port).At k stage ∧
      Submitting { p with mem := p.queue.describe p.mem s.len s.writable } k stage s .enqueue := by
  have hstage : stage = .driver := hs
  subst hstage
  exact ⟨rfl, h.with_mem rfl rfl, rfl, Port.describes_describe p s.len s.writable⟩

/-- At this point of `submit` the buffer is with the driver, and goes into the available ring. -/
theorem Submitting.enqueue {p : Port} {k : Nat} {stage : Stage} {s : Submitter} (hs : Submitting p k stage s .enqueue)
    (h : p.At k stage) :
    stage = .driver ∧ ({ p with mem := p.queue.enqueue p.mem } : Port).At k stage ∧
      Submitting { p with mem := p.queue.enqueue p.mem } k stage s .publish := by
  obtain ⟨rfl, hdesc⟩ := hs
  exact ⟨rfl, h.with_mem rfl rfl, rfl, hdesc, h.enqueued_enqueue⟩

/-- At the last point of `submit` the buffer is with the driver, and is offered. -/
theorem Submitting.publish {p : Port} {k : Nat} {stage : Stage} {s : Submitter} (hs : Submitting p k stage s .publish)
    (h : p.At k stage) :
    stage = .driver ∧
      ({ p with queue := (p.queue.publish p.mem).1, mem := (p.queue.publish p.mem).2 } : Port).At k (.offered s.len s.writable) ∧
      Submitting { p with queue := (p.queue.publish p.mem).1, mem := (p.queue.publish p.mem).2 } k (.offered s.len s.writable) s
        .notify := by
  obtain ⟨rfl, hdesc, hentry⟩ := hs
  exact ⟨rfl, h.publish hentry hdesc, nofun⟩

end Channel

end Sentinel

end GolemKernel
