import GolemKernel.Sentinel.VirtQueue

/-!
# The slots of the rings

Driver and device keep free-running indices of their own and never exchange a slot number, so they have to compute the same slot from
the same index. Both count rounds (`Link.At`); the driver takes its count modulo the compile-time ring size, the device modulo the size
that `configure` negotiated.
-/

namespace GolemKernel

namespace Sentinel

/-- A configured queue with its memory and the device at the other end. -/
structure Link where
  queue : VirtQueue
  transport : MmioDevice
  mem : QueueMem
  device : RingDevice

/-- One exchange: what the driver submits, and the length the device reports. -/
structure Round where
  len : UInt32
  writable : Bool
  reply : UInt32
  deriving DecidableEq, Repr

/-! ## What `configure` negotiates -/

namespace MmioDevice

variable (d : MmioDevice) (value : UInt32)

/-- The driver selects a queue. -/
theorem write32_queueSel : write32 d Mmio.queueSel value = { d with sel := value } := rfl

/-- The device says how large the queue may be. -/
theorem read32_queueNumMax : read32 d Mmio.queueNumMax = d.numMax d.sel := rfl

/-- The driver says how large it is. -/
theorem num_write32_queueNum : ((write32 d Mmio.queueNum value).queues d.sel).num = value := by
  have hset : write32 d Mmio.queueNum value = d.setQueue ({ · with num := value }) := rfl
  simp [hset, setQueue]

/-- The other registers leave that. -/
theorem num_setQueue {f : QueueRegs → QueueRegs} (hf : ∀ regs, (f regs).num = regs.num) (index : UInt32) :
    ((d.setQueue f).queues index).num = (d.queues index).num := by
  simp only [setQueue, Function.update_apply]
  split_ifs with hindex
  · rw [hf, hindex]
  · rfl

/-- A size that is negotiated stays until the register is written again. -/
theorem num_write32 {offset : Nat} (hoffset : offset ≠ Mmio.queueNum) (index : UInt32) :
    ((write32 d offset value).queues index).num = (d.queues index).num := by
  have hite : ∀ {c : Prop} [Decidable c] {a b : MmioDevice}, (a.queues index).num = (d.queues index).num →
      (b.queues index).num = (d.queues index).num → ((if c then a else b).queues index).num = (d.queues index).num := by
    intro c _ a b ha hb
    by_cases hc : c
    · rwa [if_pos hc]
    · rwa [if_neg hc]
  refine hite rfl ?_
  rw [if_neg hoffset]
  -- the seven other registers of the queue
  iterate 7 refine hite (num_setQueue d (by intro regs; rfl) index) ?_
  exact hite rfl rfl

end MmioDevice

/-- The size that `configure` leaves in the `QUEUE_NUM` register of the queue, when it succeeds. -/
theorem num_of_configure {d d' : MmioDevice} {index : UInt32} {mem : UInt64} {q : VirtQueue}
    (h : VirtQueue.configure d index mem = (.ok q, d')) :
    q = ⟨mem, index, 0, 0⟩ ∧ (d.numMax index).toNat ≠ 0 ∧ (d'.queues index).num.toNat = min (d.numMax index).toNat queueSize := by
  unfold VirtQueue.configure at h
  simp only [MmioDevice.write32_queueSel, MmioDevice.read32_queueNumMax] at h
  obtain ⟨-, h⟩ | ⟨hmax, h⟩ := ite_eq_iff.mp h
  · cases h
  obtain ⟨-, h⟩ | ⟨-, h⟩ := ite_eq_iff.mp h
  · cases h
  obtain ⟨hq, rfl⟩ := Prod.mk.inj h
  refine ⟨(Except.ok.inj hq).symm, fun hzero => hmax (UInt32.toNat_inj.mp hzero), ?_⟩
  have hsmall : min (d.numMax index).toNat queueSize ≤ 16 := Nat.min_le_right _ _
  -- none of the writes after the one of the size touches it
  simp (disch := decide) only [MmioDevice.num_write32]
  have hnum := MmioDevice.num_write32_queueNum { d with sel := index } (UInt32.ofNat (min (d.numMax index).toNat queueSize))
  exact (congrArg UInt32.toNat hnum).trans (Nat.mod_eq_of_lt (by omega))

namespace Link

/-- A queue that `configure` has programmed into the device, over fresh memory. -/
def start (d : MmioDevice) (index : UInt32) (mem : UInt64) : Except IpcError Link :=
  match VirtQueue.configure d index mem with
  | (.error e, _) => .error e
  | (.ok queue, d') => .ok ⟨queue, d', QueueMem.new, ⟨(d'.queues index).num.toNat, 0, 0⟩⟩

def submit (l : Link) (r : Round) : Link :=
  let (queue, transport, mem) := l.queue.submit l.transport l.mem r.len r.writable
  { l with queue, transport, mem }

def serve (l : Link) (r : Round) : Option Link :=
  (l.device.serve l.mem r.reply).map fun (device, mem) => { l with device, mem }

def poll (l : Link) : Option Link := (l.queue.pollUsed l.mem).map fun (_, queue) => { l with queue }

/-- The driver submits, the device serves, the driver polls. -/
def round (l : Link) (r : Round) : Option Link := ((l.submit r).serve r).bind poll

def run (l : Link) (rounds : List Round) : Option Link := rounds.foldlM round l

/-- In the next round `submit` writes the slot that the device reads next, and `poll_used` reads the slot that the device wrote last. -/
def Agree (l : Link) (r : Round) : Prop :=
  l.queue.availSlot = l.device.nextAvailSlot ∧
    ∃ l', (l.submit r).serve r = some l' ∧ l'.queue.usedSlot = l'.device.lastUsedSlot

/-- Every index counts the rounds. -/
structure At (num k : Nat) (l : Link) : Prop where
  num : l.device.num = num
  driverAvail : l.queue.availIdx = UInt16.ofNat k
  driverUsed : l.queue.lastUsedIdx = UInt16.ofNat k
  deviceAvail : l.device.availIdx = UInt16.ofNat k
  deviceUsed : l.device.usedIdx = UInt16.ofNat k
  used : l.mem.used.idx = UInt16.ofNat k

variable {d : MmioDevice} {index : UInt32} {mem : UInt64} {l : Link} {num k : Nat}

/-- After `configure` both ends have the size that was negotiated, and have counted nothing. -/
theorem at_start (h : start d index mem = .ok l) :
    (d.numMax index).toNat ≠ 0 ∧ l.At (min (d.numMax index).toNat queueSize) 0 := by
  unfold start at h
  split at h
  · cases h
  · rename_i queue d' hconfigure
    obtain ⟨rfl, hmax, hnum⟩ := num_of_configure hconfigure
    cases h
    exact ⟨hmax, hnum, rfl, rfl, rfl, rfl, rfl⟩

theorem ofNat_succ_ne (k : Nat) : UInt16.ofNat k + 1 ≠ UInt16.ofNat k := by
  intro h
  have := congrArg UInt16.toNat h
  simp at this
  omega

/-- The link after the driver has submitted and the device has served. -/
theorem at_serve (h : l.At num k) (r : Round) :
    ∃ l', (l.submit r).serve r = some l' ∧ l'.device.num = num ∧ l'.queue.availIdx = UInt16.ofNat (k + 1) ∧
      l'.queue.lastUsedIdx = UInt16.ofNat k ∧ l'.device.availIdx = UInt16.ofNat (k + 1) ∧
      l'.device.usedIdx = UInt16.ofNat (k + 1) ∧ l'.mem.used.idx = UInt16.ofNat (k + 1) := by
  simp [submit, serve, VirtQueue.submit, RingDevice.serve, h.num, h.driverAvail, h.driverUsed, h.deviceAvail, h.deviceUsed]

/-- A round goes through, and both ends have counted one more. -/
theorem at_round (h : l.At num k) (r : Round) : ∃ l', l.round r = some l' ∧ l'.At num (k + 1) := by
  obtain ⟨served, hserve, hnum, havail, hused, hdevAvail, hdevUsed, hidx⟩ := at_serve h r
  have hreturned : served.mem.used.idx ≠ served.queue.lastUsedIdx := by
    rw [hidx, hused, UInt16.ofNat_add]
    exact ofNat_succ_ne k
  refine ⟨{ served with queue := { served.queue with lastUsedIdx := served.queue.lastUsedIdx + 1 } }, ?_, ?_⟩
  · simp [round, hserve, poll, VirtQueue.pollUsed, hreturned]
  · exact ⟨hnum, havail, by simp [hused], hdevAvail, hdevUsed, hidx⟩

/-- So do any number of rounds. -/
theorem at_run (h : l.At num k) (rounds : List Round) : ∃ l', l.run rounds = some l' ∧ l'.At num (k + rounds.length) := by
  induction rounds generalizing l k with
  | nil => exact ⟨l, rfl, h⟩
  | cons r rounds ih =>
    obtain ⟨next, hround, hnext⟩ := at_round h r
    obtain ⟨l', hrun, hl'⟩ := ih hnext
    refine ⟨l', ?_, ?_⟩
    · rw [run, List.foldlM_cons, hround]
      exact hrun
    · rwa [List.length_cons, Nat.add_comm rounds.length, ← Nat.add_assoc]

/-- The two sides agree on the slots of a round exactly if both sizes leave the same remainder of its number. -/
theorem agree_iff (h : l.At num k) (r : Round) : l.Agree r ↔ k % 2 ^ 16 % queueSize = k % 2 ^ 16 % num := by
  obtain ⟨served, hserve, hnum, -, hused, -, hdevUsed, -⟩ := at_serve h r
  have havailSlots : l.queue.availSlot = l.device.nextAvailSlot ↔ k % 2 ^ 16 % queueSize = k % 2 ^ 16 % num := by
    rw [VirtQueue.availSlot, RingDevice.nextAvailSlot, h.num, h.driverAvail, h.deviceAvail]
    simp
  have husedSlots : served.queue.usedSlot = served.device.lastUsedSlot ↔ k % 2 ^ 16 % queueSize = k % 2 ^ 16 % num := by
    rw [VirtQueue.usedSlot, RingDevice.lastUsedSlot, hnum, hused, hdevUsed]
    simp
  rw [Agree, havailSlots, hserve]
  simp only [Option.some.injEq, exists_eq_left', husedSlots, and_self]

/-- The ring size and a smaller one first leave different remainders at the smaller one itself. -/
theorem forall_mod_eq_iff {num n : Nat} (hnum : num ≠ 0) :
    (∀ k < n, k % 2 ^ 16 % queueSize = k % 2 ^ 16 % min num queueSize) ↔ queueSize ≤ num ∨ n ≤ num := by
  simp only [queueSize]
  constructor
  · intro hall
    by_contra hnot
    push Not at hnot
    have hat := hall num hnot.2
    rw [Nat.min_eq_left (by omega), Nat.mod_eq_of_lt (a := num) (by omega), Nat.mod_self, Nat.mod_eq_of_lt (by omega)] at hat
    exact hnum hat
  · rintro (hlarge | hfew) k hk
    · rw [Nat.min_eq_right hlarge]
    · rcases Nat.le_total 16 num with hlarge | hsmall
      · rw [Nat.min_eq_right hlarge]
      · have hlt : k % 2 ^ 16 = k := Nat.mod_eq_of_lt (by omega)
        rw [Nat.min_eq_left hsmall, hlt, Nat.mod_eq_of_lt (by omega), Nat.mod_eq_of_lt (by omega)]

/-- For every queue that `configure` has set up and every sequence of rounds: in each of them `submit` writes the available slot that the
device reads next and `poll_used` reads the used slot that the device wrote last, exactly if the device offers at least the driver's
sixteen slots, or there are no more rounds than the slots it offers. -/
theorem slots_agree_iff (d : MmioDevice) (index : UInt32) (mem : UInt64) (l : Link) (hstart : start d index mem = .ok l)
    (rounds : List Round) :
    (∀ done r rest, rounds = done ++ r :: rest → ∃ l', l.run done = some l' ∧ l'.Agree r) ↔
      queueSize ≤ (d.numMax index).toNat ∨ rounds.length ≤ (d.numMax index).toNat := by
  obtain ⟨hmax, hat⟩ := at_start hstart
  rw [← forall_mod_eq_iff hmax]
  constructor
  · intro hall k hk
    -- the round with this number
    obtain ⟨l', hrun, hagree⟩ := hall (rounds.take k) rounds[k] (rounds.drop (k + 1)) (by simp)
    obtain ⟨l'', hrun', hat'⟩ := at_run hat (rounds.take k)
    obtain rfl := Option.some.inj (hrun.symm.trans hrun')
    rwa [agree_iff hat', Nat.zero_add, List.length_take_of_le hk.le] at hagree
  · rintro hall done r rest rfl
    obtain ⟨l', hrun, hat'⟩ := at_run hat done
    refine ⟨l', hrun, (agree_iff hat' r).mpr ?_⟩
    rw [Nat.zero_add]
    exact hall done.length (by simp)

/-- A device that offers `max` slots on every queue. -/
def deviceOf (max : UInt32) : MmioDevice where
  sel := 0
  numMax := fun _ => max
  accepts := fun _ => true
  queues := fun _ => ⟨0, 0, 0, 0, 0, 0, 0, 0⟩
  notified := []

/-- The link `configure` sets up with such a device, for the receive queue of the Sentinel port. -/
def linkOf (max : UInt32) : Link where
  queue := ⟨0x1000, 4, 0, 0⟩
  transport := (VirtQueue.configure (deviceOf max) 4 0x1000).2
  mem := QueueMem.new
  device := ⟨min max.toNat queueSize, 0, 0⟩

/-- A receive buffer into which the device puts 40 bytes. -/
def receive : Round := ⟨4096, true, 40⟩

/-- With eight slots the ninth round goes wrong: the driver fills slot 8 and the device looks into slot 0, and `poll_used` reads a used
entry that was never written and reports no bytes. -/
theorem slots_disagree_with_eight :
    start (deviceOf 8) 4 0x1000 = .ok (linkOf 8) ∧
    ((linkOf 8).run (List.replicate 8 receive)).map (fun l => (l.queue.availSlot, l.device.nextAvailSlot)) = some (8, 0) ∧
    ((linkOf 8).run (List.replicate 8 receive)).bind (fun l => ((l.submit receive).serve receive).map fun l =>
      (l.queue.usedSlot, l.device.lastUsedSlot, (l.queue.pollUsed l.mem).map (·.1))) = some (8, 0, some 0) := by
  refine ⟨rfl, ?_, ?_⟩ <;> decide

theorem slots_agree_iff_sixteen : ∃ l', (linkOf 16).run (List.replicate 20 receive) = some l' ∧ l'.Agree receive := by
  have hagree := (slots_agree_iff (deviceOf 16) 4 0x1000 (linkOf 16) rfl (List.replicate 21 receive)).mpr (.inl (by decide))
  exact hagree (List.replicate 20 receive) receive [] rfl

end Link

end Sentinel

end GolemKernel
