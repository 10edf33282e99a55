import GolemKernel.Lib.Bytes

/-!
# A fragment of the 64-bit x86

The general registers, the instruction pointer, the interrupt flag and a memory of bytes, with the instructions a switch of stacks is
made of. Addresses wrap at `2 ^ 64`: a word at an address is the eight bytes from there on, also where they pass the end of the
address space. `Bytes.Memory` has a byte at every natural number; the machine uses those below `2 ^ 64`.
-/

namespace X86

open Bytes (Memory)

/-! ## Machine -/

inductive Reg where
  | rax | rbx | rcx | rdx | rsi | rdi | rbp | rsp | r8 | r9 | r10 | r11 | r12 | r13 | r14 | r15
  deriving DecidableEq, Repr

/-- The word at an address, least significant byte first. -/
def loadWord (mem : Memory) (a : UInt64) : UInt64 :=
  UInt64.ofNat (Bytes.ofLe ((List.range 8).map fun i => mem (a + UInt64.ofNat i).toNat))

/-- Store a word at an address. -/
def storeWord (mem : Memory) (a w : UInt64) : Memory := fun x =>
  if x < 2 ^ 64 ∧ (UInt64.ofNat x - a).toNat < 8 then (Bytes.u64 w).getD (UInt64.ofNat x - a).toNat 0 else mem x

structure Machine where
  regs : Reg → UInt64
  rip : UInt64
  interrupts : Bool
  mem : Memory

/-- Instructions, with the operands in the order of the AT&T syntax. `store src base` is `movq %src, (%base)`. -/
inductive Instr where
  | push (r : Reg)
  | pop (r : Reg)
  | mov (src dst : Reg)
  | store (src base : Reg)
  | ret
  | sti
  | jmp (r : Reg)
  deriving DecidableEq, Repr

namespace Machine

/-- Push a word: the stack pointer moves down first. -/
def pushValue (m : Machine) (w : UInt64) : Machine :=
  { m with regs := Function.update m.regs .rsp (m.regs .rsp - 8), mem := storeWord m.mem (m.regs .rsp - 8) w }

/-- The word at the top of the stack, and the machine without it. -/
def popValue (m : Machine) : UInt64 × Machine :=
  (loadWord m.mem (m.regs .rsp), { m with regs := Function.update m.regs .rsp (m.regs .rsp + 8) })

/-- One instruction. The instruction pointer is set by transfers of control only: what runs is a list of instructions. -/
def exec (m : Machine) : Instr → Machine
  | .push r => m.pushValue (m.regs r)
  | .pop r =>
    let (w, m) := m.popValue
    { m with regs := Function.update m.regs r w }
  | .mov src dst => { m with regs := Function.update m.regs dst (m.regs src) }
  | .store src base => { m with mem := storeWord m.mem (m.regs base) (m.regs src) }
  | .ret =>
    let (w, m) := m.popValue
    { m with rip := w }
  | .sti => { m with interrupts := true }
  | .jmp r => { m with rip := m.regs r }

/-- Run instructions that follow one another. -/
def run (m : Machine) (code : List Instr) : Machine := code.foldl exec m

/-- Arrive in a routine: the call has pushed the address after itself. -/
def call (m : Machine) (returnAddress : UInt64) : Machine := m.pushValue returnAddress

end Machine

/-! ## Ranges of addresses -/

/-- The `n` bytes from an address on. -/
def span (a : UInt64) (n : Nat) : Set UInt64 := {b | (b - a).toNat < n}

/-- The `n` bytes that end right before an address. -/
def below (sp : UInt64) (n : Nat) : Set UInt64 := {b | (sp - 1 - b).toNat < n}

/-- An address is in the bytes from `a` on if it is less than `n` after it. -/
theorem mem_span {a b : UInt64} {n : Nat} : b ∈ span a n ↔ (b - a).toNat < n := Iff.rfl

/-- An address is in the bytes below `sp` if it is at most `n` before it. -/
theorem mem_below {sp b : UInt64} {n : Nat} : b ∈ below sp n ↔ (sp - 1 - b).toNat < n := Iff.rfl

/-- Two memories with the same bytes at these addresses. -/
def AgreeOn (R : Set UInt64) (mem mem' : Memory) : Prop := ∀ a ∈ R, mem' a.toNat = mem a.toNat

/-- Memories that agree with a third one in turn. -/
theorem AgreeOn.trans {R : Set UInt64} {mem mem' mem'' : Memory} (h : AgreeOn R mem mem') (h' : AgreeOn R mem' mem'') :
    AgreeOn R mem mem'' := fun a ha => (h' a ha).trans (h a ha)

/-- They agree on less. -/
theorem AgreeOn.mono {R S : Set UInt64} {mem mem' : Memory} (h : AgreeOn S mem mem') (hsub : R ⊆ S) : AgreeOn R mem mem' :=
  fun a ha => h a (hsub ha)

/-- The same bytes, counted from either end. -/
theorem span_sub (sp : UInt64) (n : Nat) : span (sp - UInt64.ofNat n) n = below sp n := by
  ext b
  have := sp.toNat_lt
  have := b.toNat_lt
  simp only [mem_span, mem_below, UInt64.toNat_sub, UInt64.toNat_ofNat', UInt64.reduceToNat]
  omega

/-- A word below the stack pointer. -/
theorem span_eight (sp : UInt64) : span (sp - 8) 8 = below sp 8 := span_sub sp 8

/-- The bytes below a word that is about to be pushed, and the bytes below the word after. -/
theorem mem_below_add {sp b : UInt64} {n : Nat} (hn : n + 8 ≤ 2 ^ 64) :
    b ∈ below sp (n + 8) ↔ b ∈ below sp 8 ∨ b ∈ below (sp - 8) n := by
  have := sp.toNat_lt
  have := b.toNat_lt
  simp only [mem_below, UInt64.toNat_sub, UInt64.reduceToNat]
  omega

/-- The word on top is not among those below it. -/
theorem not_mem_below_of_mem {sp b : UInt64} {n : Nat} (hn : n + 8 ≤ 2 ^ 64) (hb : b ∈ below sp 8) : b ∉ below (sp - 8) n := by
  have := sp.toNat_lt
  have := b.toNat_lt
  simp only [mem_below, UInt64.toNat_sub, UInt64.reduceToNat] at hb ⊢
  omega

/-- A word and the next one do not overlap. -/
theorem disjoint_span_next (a : UInt64) : Disjoint (span a 8) (span (a + 8) 8) := by
  refine Set.disjoint_left.2 ?_
  intro b hb hb'
  have := b.toNat_lt
  have := a.toNat_lt
  simp only [mem_span, UInt64.toNat_sub, UInt64.toNat_add, UInt64.reduceToNat] at hb hb'
  omega

/-! ## Words in memory -/

/-- A store leaves the bytes outside its word. -/
theorem storeWord_of_notMem {a b : UInt64} (mem : Memory) (w : UInt64) (hb : b ∉ span a 8) :
    storeWord mem a w b.toNat = mem b.toNat := by
  refine if_neg ?_
  rw [UInt64.ofNat_toNat]
  exact fun h => hb h.2

/-- And so every range that it misses. -/
theorem agreeOn_storeWord {R : Set UInt64} {a : UInt64} (mem : Memory) (w : UInt64) (hR : Disjoint R (span a 8)) :
    AgreeOn R mem (storeWord mem a w) := by
  intro b hb
  exact storeWord_of_notMem mem w (Set.disjoint_left.1 hR hb)

/-- The offset of a byte from the address it is counted from. -/
theorem toNat_add_sub (a : UInt64) {i : Nat} (hi : i < 2 ^ 64) : (a + UInt64.ofNat i - a).toNat = i := by
  rw [add_sub_cancel_left, UInt64.toNat_ofNat_of_lt' hi]

/-- A word depends on its own bytes only. -/
theorem loadWord_congr {a : UInt64} {mem mem' : Memory} (h : AgreeOn (span a 8) mem mem') : loadWord mem' a = loadWord mem a := by
  unfold loadWord
  congr 2
  refine List.map_congr_left ?_
  intro i hi
  have hlt : i < 8 := List.mem_range.1 hi
  apply h
  rwa [mem_span, toNat_add_sub a (by omega)]

@[simp] theorem loadWord_storeWord (mem : Memory) (a w : UInt64) : loadWord (storeWord mem a w) a = w := by
  have hbytes : ((List.range 8).map fun i => storeWord mem a w (a + UInt64.ofNat i).toNat) = Bytes.u64 w := by
    refine List.ext_getElem (by simp) fun i _ hi => ?_
    rw [Bytes.length_u64] at hi
    rw [List.getElem_map, List.getElem_range, storeWord, UInt64.ofNat_toNat, toNat_add_sub a (by omega),
      if_pos ⟨UInt64.toNat_lt _, hi⟩,
      List.getD_eq_getElem]
  have hlt : w.toNat < 256 ^ 8 := w.toNat_lt
  rw [loadWord, hbytes, Bytes.u64, Bytes.ofLe_le, Nat.mod_eq_of_lt hlt, UInt64.ofNat_toNat]

/-- A word that does not pass the end of the address space is stored as a run of bytes. -/
theorem storeWord_eq_write (mem : Memory) {a : UInt64} (w : UInt64) (ha : a.toNat + 8 ≤ 2 ^ 64) :
    storeWord mem a w = mem.write a.toNat (Bytes.u64 w) := by
  funext x
  have hin : (x < 2 ^ 64 ∧ (UInt64.ofNat x - a).toNat < 8) ↔ (a.toNat ≤ x ∧ x < a.toNat + (Bytes.u64 w).length) := by
    rw [Bytes.length_u64]
    simp only [UInt64.toNat_sub, UInt64.toNat_ofNat']
    omega
  unfold storeWord Memory.write
  by_cases hx : a.toNat ≤ x ∧ x < a.toNat + (Bytes.u64 w).length
  · have hoff : (UInt64.ofNat x - a).toNat = x - a.toNat := by
      rw [Bytes.length_u64] at hx
      simp only [UInt64.toNat_sub, UInt64.toNat_ofNat']
      omega
    rw [if_pos (hin.2 hx), if_pos hx, hoff]
  · rw [if_neg (mt hin.1 hx), if_neg hx]

/-! ## Words on a stack -/

/-- Memory after words are pushed from a stack pointer on. -/
def pushWords (mem : Memory) (sp : UInt64) : List UInt64 → Memory
  | [] => mem
  | w :: ws => pushWords (storeWord mem (sp - 8) w) (sp - 8) ws

/-- The words right below a stack pointer, the first of them at the top. -/
def Stacked (mem : Memory) (sp : UInt64) : List UInt64 → Prop
  | [] => True
  | w :: ws => loadWord mem (sp - 8) = w ∧ Stacked mem (sp - 8) ws

/-- Pushing changes the bytes below the stack pointer only. -/
theorem pushWords_of_notMem {mem : Memory} {sp b : UInt64} {ws : List UInt64} (hlen : 8 * ws.length ≤ 2 ^ 64)
    (hb : b ∉ below sp (8 * ws.length)) : pushWords mem sp ws b.toNat = mem b.toNat := by
  induction ws generalizing mem sp with
  | nil => rfl
  | cons w ws ih =>
    rw [List.length_cons, Nat.mul_succ] at hlen hb
    rw [mem_below_add hlen, not_or] at hb
    rw [pushWords, ih (by omega) hb.2]
    exact storeWord_of_notMem mem w (by rw [span_eight]; exact hb.1)

/-- Words stay on a stack as long as its bytes do. -/
theorem Stacked.congr {mem mem' : Memory} {sp : UInt64} {ws : List UInt64} (hlen : 8 * ws.length ≤ 2 ^ 64)
    (h : AgreeOn (below sp (8 * ws.length)) mem mem') (hs : Stacked mem sp ws) : Stacked mem' sp ws := by
  induction ws generalizing sp with
  | nil => trivial
  | cons w ws ih =>
    rw [List.length_cons, Nat.mul_succ] at hlen h
    refine ⟨?_, ih (by omega) (h.mono fun b hb => (mem_below_add hlen).2 (Or.inr hb)) hs.2⟩
    rw [← hs.1]
    refine loadWord_congr (h.mono fun b hb => (mem_below_add hlen).2 (Or.inl ?_))
    rwa [span_eight] at hb

/-- What was pushed is there to be popped. -/
theorem stacked_pushWords (mem : Memory) (sp : UInt64) {ws : List UInt64} (hlen : 8 * ws.length ≤ 2 ^ 64) :
    Stacked (pushWords mem sp ws) sp ws := by
  induction ws generalizing mem sp with
  | nil => trivial
  | cons w ws ih =>
    rw [List.length_cons, Nat.mul_succ] at hlen
    refine ⟨?_, ih _ _ (by omega)⟩
    -- the words after the first are pushed below it
    have hkeep : AgreeOn (span (sp - 8) 8) (storeWord mem (sp - 8) w) (pushWords (storeWord mem (sp - 8) w) (sp - 8) ws) := by
      intro b hb
      rw [span_eight] at hb
      exact pushWords_of_notMem (by omega) (not_mem_below_of_mem hlen hb)
    rw [pushWords, loadWord_congr hkeep, loadWord_storeWord]

end X86
