import GolemKernel.Sentinel.VirtQueue
import GolemKernel.Lib.Trace

/-!
# The Sentinel channel, access by access

`Channel::read_message` and `Channel::write_message` of `src/sentinel/ipc.rs` run while the device reads and writes the same memory. Here
the driver makes one access to that memory at a turn, in the order of the source, and copies byte by byte; between any two accesses the
device may do anything a device may do. The fences keep the accesses in program order. A call in progress is a `Phase`, what is left of
it to do.

A device takes the entries of the available ring in order. It may write a buffer that it was offered for writing until it gives the
buffer back, which it does once, with any length: first the entry of the used ring, then the index.
-/

namespace GolemKernel

namespace Sentinel

namespace Mmio

def status : Nat := 0x070

/-- `ACKNOWLEDGE`, `DRIVER`, `FEATURES_OK` and `DRIVER_OK`. -/
def statusLive : UInt32 := 1 ||| 2 ||| 8 ||| 4

end Mmio

def sentinelRxQueue : UInt32 := 4

def sentinelTxQueue : UInt32 := 5

/-! ## The accesses of the driver -/

namespace VirtQueue

/-- `submit` writes descriptor 0. -/
def describe (q : VirtQueue) (mem : QueueMem) (len : UInt32) (writable : Bool) : QueueMem :=
  { mem with desc := mem.desc.setIfInBounds 0 ⟨QueueMem.bufferAddr q.mem, len, if writable then virtqDescFWrite else 0, 0⟩ }

/-- `submit` writes the slot of the available ring. -/
def enqueue (q : VirtQueue) (mem : QueueMem) : QueueMem :=
  { mem with avail := { mem.avail with ring := mem.avail.ring.setIfInBounds q.availSlot 0 } }

/-- `submit` counts the index up and writes it. -/
def publish (q : VirtQueue) (mem : QueueMem) : VirtQueue × QueueMem :=
  let availIdx := q.availIdx + 1
  ({ q with availIdx }, { mem with avail := { mem.avail with idx := availIdx } })

/-- `poll_used` reads the index of the used ring: whether it has changed. -/
def hasReturned (q : VirtQueue) (mem : QueueMem) : Bool := mem.used.idx ≠ q.lastUsedIdx

/-- `poll_used` reads the entry of the used ring and counts on. -/
def collect (q : VirtQueue) (mem : QueueMem) : UInt32 × VirtQueue :=
  (((mem.used.ring[q.usedSlot]?).getD ⟨0, 0⟩).len, { q with lastUsedIdx := q.lastUsedIdx + 1 })

/-- The accesses of `submit`, one after another. -/
theorem submit_eq {T : Type} [VirtioTransport T] (q : VirtQueue) (transport : T) (mem : QueueMem) (len : UInt32) (writable : Bool) :
    q.submit transport mem len writable =
      ((q.publish (q.enqueue (q.describe mem len writable))).1, write32 transport Mmio.queueNotify q.index,
        (q.publish (q.enqueue (q.describe mem len writable))).2) := rfl

/-- The accesses of `poll_used`, one after another. -/
theorem pollUsed_eq (q : VirtQueue) (mem : QueueMem) :
    q.pollUsed mem = if q.hasReturned mem then some (q.collect mem) else none := by
  by_cases h : mem.used.idx = q.lastUsedIdx <;> simp [pollUsed, hasReturned, collect, h]

end VirtQueue

/-! ## A queue and its two ends -/

/-- A queue: the driver's view, the memory, the device's view, the entries the device has taken and not given back, and the one for which
the device has filled in the used ring. -/
structure Port where
  queue : VirtQueue
  mem : QueueMem
  device : RingDevice
  held : List UInt16
  returning : Option (UInt16 × UInt32)

namespace Port

/-- A configured queue over fresh memory. -/
def start (q : VirtQueue) (transport : MmioDevice) : Port where
  queue := q
  mem := QueueMem.new
  device := ⟨(transport.queues q.index).num.toNat, 0, 0⟩
  held := []
  returning := none

/-- The entry of the available ring that the device takes next, if there is one. -/
def next? (p : Port) : Option UInt16 :=
  if p.mem.avail.idx ≠ p.device.availIdx then some ((p.mem.avail.ring[p.device.nextAvailSlot]?).getD 0) else none

/-- The descriptor of an entry, if it names the buffer of this queue. -/
def descriptor? (p : Port) (head : UInt16) : Option VirtqDesc :=
  (p.mem.desc[head.toNat]?).filter fun desc => desc.addr = QueueMem.bufferAddr p.queue.mem

/-- The bytes an entry stands for. -/
def bytes (p : Port) (head : UInt16) : List UInt8 :=
  match p.descriptor? head with
  | some desc => p.mem.buffer.toList.take desc.len.toNat
  | none => []

/-- The device takes the next entry, and finds these bytes. -/
def take (p : Port) : Option (List UInt8 × Port) := do
  let head ← p.next?
  return (p.bytes head, { p with device := { p.device with availIdx := p.device.availIdx + 1 }, held := p.held ++ [head] })

/-- Whether an entry lets the device change the buffer to this one. -/
def allows (p : Port) (buffer : Vector UInt8 bufSize) (head : UInt16) : Bool :=
  match p.descriptor? head with
  | some desc =>
    desc.flags = virtqDescFWrite && buffer.toList.drop desc.len.toNat = p.mem.buffer.toList.drop desc.len.toNat
  | none => false

/-- The device writes the buffer. -/
def touch (p : Port) (buffer : Vector UInt8 bufSize) : Option Port :=
  if (p.held ++ p.next?.toList).any (p.allows buffer) then some { p with mem := { p.mem with buffer } } else none

/-- The device writes the entry of the used ring for a buffer it has. -/
def put (p : Port) (head : UInt16) (len : UInt32) : Option Port :=
  if head ∈ p.held ∧ p.returning = none then
    let ring := p.mem.used.ring.setIfInBounds (p.device.usedIdx.toNat % p.device.num) ⟨head.toUInt32, len⟩
    some { p with mem := { p.mem with used := { p.mem.used with ring } }, returning := some (head, len) }
  else none

/-- The device writes the index of the used ring: the buffer goes back, with the length that was reported. -/
def give (p : Port) : Option (UInt32 × Port) := do
  let (head, len) ← p.returning
  let idx := p.device.usedIdx + 1
  return (len,
    { p with
      mem := { p.mem with used := { p.mem.used with idx } }
      device := { p.device with usedIdx := idx }
      held := p.held.erase head
      returning := none })

end Port

/-! ## The channel -/

inductive Side where
  | rx | tx
  deriving DecidableEq, Repr

/-- Who waits in `poll_used`. -/
inductive Waiter where
  | read (out : List UInt8)
  | write
  deriving DecidableEq, Repr

def Waiter.side : Waiter → Side
  | .read _ => .rx
  | .write => .tx

/-- The next access of `submit`. -/
inductive Point where
  | describe | enqueue | publish | notify
  deriving DecidableEq, Repr

/-- Who submits: `init`, or `read_message` when it has copied a message out, or `write_message`. -/
inductive Submitter where
  | init
  | read (n : Nat) (out : List UInt8)
  | write (data : List UInt8)
  deriving DecidableEq, Repr

namespace Submitter

def side : Submitter → Side
  | .init | .read _ _ => .rx
  | .write _ => .tx

def len : Submitter → UInt32
  | .init | .read _ _ => UInt32.ofNat bufSize
  | .write data => UInt32.ofNat data.length

def writable : Submitter → Bool
  | .init | .read _ _ => true
  | .write _ => false

end Submitter

/-- What the driver does next. `copyOut` and `copyIn` have copied `i` bytes. -/
inductive Phase where
  | idle
  | await (w : Waiter)
  | collect (w : Waiter)
  | copyOut (out : List UInt8) (n i : Nat)
  | copyIn (data : List UInt8) (i : Nat)
  | submit (point : Point) (s : Submitter)
  deriving DecidableEq, Repr

structure Channel where
  transport : MmioDevice
  rx : Port
  tx : Port
  phase : Phase

/-- A call of the channel. -/
inductive Request where
  | readMessage (out : List UInt8)
  | writeMessage (data : List UInt8)
  deriving DecidableEq, Repr

/-- What a call returns: how much was read, with `out` after the call, or whether a message was written. -/
inductive Reply where
  | readMessage (n : Nat) (out : List UInt8)
  | writeMessage (result : Except IpcError Unit)

/-- What can be seen of a turn. -/
inductive Obs where
  | quiet
  | returned (reply : Reply)
  | accessed (side : Side)
  | published (side : Side)
  | took (side : Side) (bytes : List UInt8)
  | gave (side : Side) (buffer : Vector UInt8 bufSize) (len : UInt32)

/-- Whose turn it is: a caller's, the driver's or the device's. -/
inductive Turn where
  | call (request : Request)
  | driver
  | take (side : Side)
  | touch (side : Side) (buffer : Vector UInt8 bufSize)
  | put (side : Side) (head : UInt16) (len : UInt32)
  | give (side : Side)

namespace Channel

/-- The part of `init` after discovery and negotiation. The channel is left at the first submission. -/
def init (transport : MmioDevice) (rxMem txMem : UInt64) : Except IpcError Channel :=
  match VirtQueue.configure transport sentinelRxQueue rxMem with
  | (.error e, _) => .error e
  | (.ok rx, transport) =>
    match VirtQueue.configure transport sentinelTxQueue txMem with
    | (.error e, _) => .error e
    | (.ok tx, transport) =>
      let transport := write32 transport Mmio.status Mmio.statusLive
      .ok { transport, rx := Port.start rx transport, tx := Port.start tx transport, phase := .submit .describe .init }

def port (c : Channel) : Side → Port
  | .rx => c.rx
  | .tx => c.tx

def setPort (c : Channel) (side : Side) (p : Port) : Channel :=
  match side with
  | .rx => { c with rx := p }
  | .tx => { c with tx := p }

/-- `read_message` and `write_message` begin. -/
def begin (c : Channel) : Request → Obs × Channel
  | .readMessage out => (.quiet, { c with phase := .await (.read out) })
  | .writeMessage data =>
    if data.length > bufSize then (.returned (.writeMessage (.error .messageTooLarge)), c)
    else (.quiet, { c with phase := .copyIn data 0 })

/-- `submit` goes on. When it is done, `init` and `read_message` return and `write_message` waits. -/
def submit (c : Channel) (s : Submitter) : Point → Obs × Channel
  | .describe =>
    let p := c.port s.side
    let p := { p with mem := p.queue.describe p.mem s.len s.writable }
    (.quiet, { c.setPort s.side p with phase := .submit .enqueue s })
  | .enqueue =>
    let p := c.port s.side
    let p := { p with mem := p.queue.enqueue p.mem }
    (.quiet, { c.setPort s.side p with phase := .submit .publish s })
  | .publish =>
    let p := c.port s.side
    let (queue, mem) := p.queue.publish p.mem
    (.published s.side, { c.setPort s.side { p with queue, mem } with phase := .submit .notify s })
  | .notify =>
    let c := { c with transport := write32 c.transport Mmio.queueNotify (c.port s.side).queue.index }
    match s with
    | .init => (.quiet, { c with phase := .idle })
    | .read n out => (.returned (.readMessage n out), { c with phase := .idle })
    | .write _ => (.quiet, { c with phase := .await .write })

/-- `poll_used` has seen the index change, and reads the entry. -/
def collect (c : Channel) : Waiter → Obs × Channel
  | .read out =>
    let (len, queue) := c.rx.queue.collect c.rx.mem
    (.quiet, { c with rx := { c.rx with queue }, phase := .copyOut out (min len.toNat (min out.length bufSize)) 0 })
  | .write =>
    let (_, queue) := c.tx.queue.collect c.tx.mem
    (.returned (.writeMessage (.ok ())), { c with tx := { c.tx with queue }, phase := .idle })

/-- The next access of the driver, if it is in a call. -/
def drive (c : Channel) : Option (Obs × Channel) :=
  match c.phase with
  | .idle => none
  | .await w =>
    let p := c.port w.side
    some (.quiet, if p.queue.hasReturned p.mem then { c with phase := .collect w } else c)
  | .collect w => some (c.collect w)
  | .copyOut out n i =>
    if i < n then some (.accessed .rx, { c with phase := .copyOut (out.set i (c.rx.mem.buffer[i]?.getD 0)) n (i + 1) })
    else some (.quiet, { c with phase := .submit .describe (.read n out) })
  | .copyIn data i =>
    if i < data.length then
      let buffer := c.tx.mem.buffer.setIfInBounds i (data[i]?.getD 0)
      some (.accessed .tx, { c with tx := { c.tx with mem := { c.tx.mem with buffer } }, phase := .copyIn data (i + 1) })
    else some (.quiet, { c with phase := .submit .describe (.write data) })
  | .submit point s => some (c.submit s point)

/-- One turn. -/
def step (c : Channel) : Turn → Option (Obs × Channel)
  | .call request => if c.phase = .idle then some (c.begin request) else none
  | .driver => c.drive
  | .take side => (c.port side).take.map fun (bytes, p) => (.took side bytes, c.setPort side p)
  | .touch side buffer => ((c.port side).touch buffer).map fun p => (.quiet, c.setPort side p)
  | .put side head len => ((c.port side).put head len).map fun p => (.quiet, c.setPort side p)
  | .give side => (c.port side).give.map fun (len, p) => (.gave side p.mem.buffer len, c.setPort side p)

/-- The runs of a channel: any turns in any order. -/
abbrev Run (start : Channel) : List (Trace.Event Channel Turn Obs) → Channel → Prop := Trace.Run step (fun _ _ => True) start

/-! ## Calls as one step -/

/-- `read_message` as one step, when there is a message. -/
def readMessage (c : Channel) (out : List UInt8) : Option (Nat × List UInt8 × Channel) := do
  let (len, queue) ← c.rx.queue.pollUsed c.rx.mem
  let (n, out) := VirtQueue.readRx c.rx.mem len out
  let (queue, transport, mem) := queue.submit c.transport c.rx.mem (UInt32.ofNat bufSize) true
  return (n, out, { c with transport, rx := { c.rx with queue, mem }, phase := .idle })

/-- `write_message` as one step, up to where it waits for the device. -/
def sendMessage (c : Channel) (data : List UInt8) : Except IpcError Channel := do
  let (len, mem) ← VirtQueue.fillTx c.tx.mem data
  let (queue, transport, mem) := c.tx.queue.submit c.transport mem len false
  return { c with transport, tx := { c.tx with queue, mem }, phase := .await .write }

end Channel

end Sentinel

end GolemKernel
