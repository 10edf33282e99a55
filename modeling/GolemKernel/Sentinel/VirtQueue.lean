import GolemKernel.Basic

/-!
# The virtqueues of the Sentinel channel

The split virtqueue of `src/sentinel/ipc.rs`: the memory the driver shares with the device, and the driver's operations on it. A pointer
to a `QueueMem` is its address; the memory itself is passed along, since the device reads and writes it too. The fences order accesses
that are already in program order here.

The other side of the queue is not in the source. `MmioDevice` is the part of a virtio-mmio device that answers the registers
`configure` touches, and `RingDevice` follows the split-virtqueue rule of the VIRTIO specification: free-running 16-bit indices, taken
modulo the `QUEUE_NUM` the driver negotiated.
-/

namespace GolemKernel

namespace Sentinel

inductive IpcError where
  | deviceNotFound | featureNegotiationFailed | queueSetupFailed | messageTooLarge | malformedRequest | notInitialised
  deriving DecidableEq, Repr

namespace Mmio

def queueSel : Nat := 0x030

def queueNumMax : Nat := 0x034

def queueNum : Nat := 0x038

def queueReady : Nat := 0x044

def queueNotify : Nat := 0x050

def queueDescLow : Nat := 0x080

def queueDescHigh : Nat := 0x084

def queueDriverLow : Nat := 0x090

def queueDriverHigh : Nat := 0x094

def queueDeviceLow : Nat := 0x0a0

def queueDeviceHigh : Nat := 0x0a4

end Mmio

/-- The bus that carries the virtqueues. -/
class VirtioTransport (T : Type) where
  read32 : T → Nat → UInt32
  write32 : T → Nat → UInt32 → T

export VirtioTransport (read32 write32)

def queueSize : Nat := 16

def bufSize : Nat := 4096

/-- The flag of a buffer that the device writes. -/
def virtqDescFWrite : UInt16 := 2

structure VirtqDesc where
  addr : UInt64
  len : UInt32
  flags : UInt16
  next : UInt16
  deriving DecidableEq, Repr

structure VirtqAvail where
  flags : UInt16
  idx : UInt16
  ring : Vector UInt16 queueSize
  usedEvent : UInt16

structure VirtqUsedElem where
  id : UInt32
  len : UInt32
  deriving DecidableEq, Repr

structure VirtqUsed where
  flags : UInt16
  idx : UInt16
  ring : Vector VirtqUsedElem queueSize
  availEvent : UInt16

structure QueueMem where
  desc : Vector VirtqDesc queueSize
  avail : VirtqAvail
  used : VirtqUsed
  buffer : Vector UInt8 bufSize

namespace QueueMem

def new : QueueMem where
  desc := Vector.replicate queueSize ⟨0, 0, 0, 0⟩
  avail := ⟨0, 0, Vector.replicate queueSize 0, 0⟩
  used := ⟨0, 0, Vector.replicate queueSize ⟨0, 0⟩, 0⟩
  buffer := Vector.replicate bufSize 0

/-! Where the fields lie in the `repr(C)` layout: 16 descriptors of 16 bytes, an available ring of 38 bytes, and a used ring of 136
bytes that is aligned to 4. -/

def descAddr (mem : UInt64) : UInt64 := mem

def availAddr (mem : UInt64) : UInt64 := mem + 256

def usedAddr (mem : UInt64) : UInt64 := mem + 296

def bufferAddr (mem : UInt64) : UInt64 := mem + 432

end QueueMem

structure VirtQueue where
  mem : UInt64
  index : UInt32
  availIdx : UInt16
  lastUsedIdx : UInt16
  deriving DecidableEq, Repr

namespace VirtQueue

section

variable {T : Type} [VirtioTransport T]

def configure (transport : T) (index : UInt32) (mem : UInt64) : Except IpcError VirtQueue × T :=
  let transport := write32 transport Mmio.queueSel index
  let max := read32 transport Mmio.queueNumMax
  if max = 0 then (.error .queueSetupFailed, transport)
  else
    let size := min max.toNat queueSize
    let transport := write32 transport Mmio.queueNum (UInt32.ofNat size)
    let descAddr := QueueMem.descAddr mem
    let availAddr := QueueMem.availAddr mem
    let usedAddr := QueueMem.usedAddr mem
    let transport := write32 transport Mmio.queueDescLow descAddr.toUInt32
    let transport := write32 transport Mmio.queueDescHigh (descAddr >>> 32).toUInt32
    let transport := write32 transport Mmio.queueDriverLow availAddr.toUInt32
    let transport := write32 transport Mmio.queueDriverHigh (availAddr >>> 32).toUInt32
    let transport := write32 transport Mmio.queueDeviceLow usedAddr.toUInt32
    let transport := write32 transport Mmio.queueDeviceHigh (usedAddr >>> 32).toUInt32
    let transport := write32 transport Mmio.queueReady 1
    if read32 transport Mmio.queueReady ≠ 1 then (.error .queueSetupFailed, transport)
    else (.ok ⟨mem, index, 0, 0⟩, transport)

/-- The slot of the available ring that `submit` fills. -/
def availSlot (q : VirtQueue) : Nat := q.availIdx.toNat % queueSize

/-- The slot of the used ring that `poll_used` reads. -/
def usedSlot (q : VirtQueue) : Nat := q.lastUsedIdx.toNat % queueSize

/-- `submit` publishes descriptor 0 and notifies the device. -/
def submit (q : VirtQueue) (transport : T) (mem : QueueMem) (len : UInt32) (writable : Bool) : VirtQueue × T × QueueMem :=
  let desc : VirtqDesc := ⟨QueueMem.bufferAddr q.mem, len, if writable then virtqDescFWrite else 0, 0⟩
  let availIdx := q.availIdx + 1
  let mem := { mem with
    desc := mem.desc.setIfInBounds 0 desc
    avail := { mem.avail with ring := mem.avail.ring.setIfInBounds q.availSlot 0, idx := availIdx } }
  ({ q with availIdx }, write32 transport Mmio.queueNotify q.index, mem)

end

/-- One turn of the loop of `poll_used`: the length the device reported, or `none` when it has not returned a descriptor yet. -/
def pollUsed (q : VirtQueue) (mem : QueueMem) : Option (UInt32 × VirtQueue) :=
  if mem.used.idx ≠ q.lastUsedIdx then
    some (((mem.used.ring[q.usedSlot]?).getD ⟨0, 0⟩).len, { q with lastUsedIdx := q.lastUsedIdx + 1 })
  else none

/-- `fill_tx` copies a message into the bounce buffer. -/
def fillTx (mem : QueueMem) (data : List UInt8) : Except IpcError (UInt32 × QueueMem) :=
  if data.length > bufSize then .error .messageTooLarge
  else .ok (UInt32.ofNat data.length, { mem with buffer := Vector.ofFn fun i => data[i]?.getD (mem.buffer.get i) })

/-- `read_rx` copies at most `len` bytes of the bounce buffer to the front of `out`: how many, and `out` after the call. -/
def readRx (mem : QueueMem) (len : UInt32) (out : List UInt8) : Nat × List UInt8 :=
  let n := min len.toNat (min out.length bufSize)
  (n, mem.buffer.toList.take n ++ out.drop n)

end VirtQueue

/-! ## The device -/

/-- The registers of one queue. -/
structure QueueRegs where
  num : UInt32
  descLow : UInt32
  descHigh : UInt32
  driverLow : UInt32
  driverHigh : UInt32
  deviceLow : UInt32
  deviceHigh : UInt32
  ready : UInt32
  deriving DecidableEq, Repr

/-- The registers of a virtio-mmio device that concern its queues. -/
structure MmioDevice where
  sel : UInt32
  numMax : UInt32 → UInt32
  /-- Whether the device takes the queue into use when it is asked to. -/
  accepts : UInt32 → Bool
  queues : UInt32 → QueueRegs
  notified : List UInt32

namespace MmioDevice

/-- A write to a register of the selected queue. -/
def setQueue (d : MmioDevice) (f : QueueRegs → QueueRegs) : MmioDevice :=
  { d with queues := Function.update d.queues d.sel (f (d.queues d.sel)) }

instance : VirtioTransport MmioDevice where
  read32 d offset :=
    if offset = Mmio.queueNumMax then d.numMax d.sel
    else if offset = Mmio.queueReady then (d.queues d.sel).ready
    else 0
  write32 d offset value :=
    if offset = Mmio.queueSel then { d with sel := value }
    else if offset = Mmio.queueNum then d.setQueue ({ · with num := value })
    else if offset = Mmio.queueDescLow then d.setQueue ({ · with descLow := value })
    else if offset = Mmio.queueDescHigh then d.setQueue ({ · with descHigh := value })
    else if offset = Mmio.queueDriverLow then d.setQueue ({ · with driverLow := value })
    else if offset = Mmio.queueDriverHigh then d.setQueue ({ · with driverHigh := value })
    else if offset = Mmio.queueDeviceLow then d.setQueue ({ · with deviceLow := value })
    else if offset = Mmio.queueDeviceHigh then d.setQueue ({ · with deviceHigh := value })
    else if offset = Mmio.queueReady then d.setQueue ({ · with ready := if d.accepts d.sel then value else 0 })
    else if offset = Mmio.queueNotify then { d with notified := d.notified ++ [value] }
    else d

end MmioDevice

/-- The device's side of a queue: the size negotiated for it, how many entries it took from the available ring and how many it put into
the used ring. -/
structure RingDevice where
  num : Nat
  availIdx : UInt16
  usedIdx : UInt16
  deriving DecidableEq, Repr

namespace RingDevice

/-- The slot of the available ring that the device reads next. -/
def nextAvailSlot (d : RingDevice) : Nat := d.availIdx.toNat % d.num

/-- The slot of the used ring that the device wrote last. -/
def lastUsedSlot (d : RingDevice) : Nat := (d.usedIdx - 1).toNat % d.num

/-- The device takes the next available descriptor, if there is one, and returns it with the length `len`. -/
def serve (d : RingDevice) (mem : QueueMem) (len : UInt32) : Option (RingDevice × QueueMem) :=
  if mem.avail.idx ≠ d.availIdx then
    let head := (mem.avail.ring[d.nextAvailSlot]?).getD 0
    let usedIdx := d.usedIdx + 1
    let ring := mem.used.ring.setIfInBounds (d.usedIdx.toNat % d.num) ⟨head.toUInt32, len⟩
    some (⟨d.num, d.availIdx + 1, usedIdx⟩, { mem with used := { mem.used with ring, idx := usedIdx } })
  else none

end RingDevice

end Sentinel

end GolemKernel
