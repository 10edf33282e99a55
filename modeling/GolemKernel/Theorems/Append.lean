import GolemKernel.Fs.Vfs
import GolemKernel.Lemmas.RamFsFile

/-!
# Concurrent appends

A write through a handle that appends makes two calls: it asks for the size of the file, and writes at that offset. Any number of handles
write to one file, in any interleaving of their calls. The history of the calls determines the content of the file (`Appends`), and no
write leaves a gap, so the file is never longer than all the buffers together. It is as long exactly if every write came at the end of the
file as it was then, and that is so exactly if no write of another handle came between a write and the size it goes by (`Uninterrupted`).
-/

namespace GolemKernel

namespace Fs

open Concurrent

/-- The writes made through one handle. The lock of its offset keeps them apart, so they come one after the other. -/
def File.writeAll (f : File) : List (List UInt8) → Prog Call Call.Answer (List (FsResult Nat))
  | [] => .ret []
  | buf :: bufs => do
    let (r, f') ← f.write buf
    let rs ← f'.writeAll bufs
    return r :: rs

/-- A handle of the file that was opened with `write` and `append`. -/
structure File.Appending (fs : FsId) (inode : InodeNum) (f : File) : Prop where
  fs : f.fs = fs
  inode : f.inode = inode
  write : f.flags.write = true
  append : f.flags.append = true

/-! ## Histories of appends -/

section

variable {ι : Type} {fs : FsId} {inode : InodeNum}

/-! The calls of a write that appends, with their answers. -/
namespace Call

def sized (fs : FsId) (inode : InodeNum) (m : Metadata) : Answered Call Call.Answer := ⟨.metadata fs inode, .ok m⟩

def wrote (fs : FsId) (inode : InodeNum) (offset : Nat) (buf : List UInt8) : Answered Call Call.Answer :=
  ⟨.write fs inode offset buf, .ok buf.length⟩

def refused (fs : FsId) (inode : InodeNum) (offset : Nat) (buf : List UInt8) (e : FsError) : Answered Call Call.Answer :=
  ⟨.write fs inode offset buf, .error e⟩

end Call

/-- The size that a call reported. -/
def reportedSize (fs : FsId) (inode : InodeNum) : Answered Call Call.Answer → Option Nat
  | ⟨.metadata fs' inode', .ok m⟩ => if fs' = fs ∧ inode' = inode then some m.size else none
  | _ => none

/-- The bytes that a call wrote. -/
def written (fs : FsId) (inode : InodeNum) : Answered Call Call.Answer → Option (List UInt8)
  | ⟨.write fs' inode' _ buf, .ok _⟩ => if fs' = fs ∧ inode' = inode then some buf else none
  | _ => none

/-- What was written to the file, first to last. -/
def buffers (fs : FsId) (inode : InodeNum) (h : History ι Call Call.Answer) : List (List UInt8) :=
  h.filterMap fun e => written fs inode e.2

/-- No write of another handle comes between a write and the size it goes by: the size reported to the same handle, with no other call
of that handle in between. -/
def Uninterrupted (fs : FsId) (inode : InodeNum) (h : History ι Call Call.Answer) : Prop :=
  ∀ h₁ i a mid b h₂, h = h₁ ++ (i, a) :: mid ++ (i, b) :: h₂ → (reportedSize fs inode a).isSome → (written fs inode b).isSome →
    (∀ e ∈ mid, e.1 ≠ i) → ∀ e ∈ mid, written fs inode e.2 = none

@[simp] theorem reportedSize_sized (m : Metadata) : reportedSize fs inode (Call.sized fs inode m) = some m.size :=
  if_pos ⟨rfl, rfl⟩

@[simp] theorem reportedSize_wrote (offset : Nat) (buf : List UInt8) : reportedSize fs inode (Call.wrote fs inode offset buf) = none :=
  rfl

@[simp] theorem reportedSize_refused (offset : Nat) (buf : List UInt8) (e : FsError) :
    reportedSize fs inode (Call.refused fs inode offset buf e) = none := rfl

@[simp] theorem written_sized (m : Metadata) : written fs inode (Call.sized fs inode m) = none := rfl

@[simp] theorem written_wrote (offset : Nat) (buf : List UInt8) : written fs inode (Call.wrote fs inode offset buf) = some buf :=
  if_pos ⟨rfl, rfl⟩

@[simp] theorem written_refused (offset : Nat) (buf : List UInt8) (e : FsError) :
    written fs inode (Call.refused fs inode offset buf e) = none := rfl

/-- The histories of writes that append, each with the bytes it leaves in the file. -/
inductive Appends (fs : FsId) (inode : InodeNum) (initial : List UInt8) : History ι Call Call.Answer → List UInt8 → Prop where
  | nil : Appends fs inode initial [] initial
  | sized {h data} (hh : Appends fs inode initial h data) (i : ι) (m : Metadata) (hm : m.size = data.length) :
      Appends fs inode initial (h ++ [(i, Call.sized fs inode m)]) data
  | wrote {h data} (hh : Appends fs inode initial h data) {h₁ mid} {i : ι} {m : Metadata}
      (hlast : h = h₁ ++ (i, Call.sized fs inode m) :: mid) (hmid : ∀ e ∈ mid, e.1 ≠ i) {buf data' : List UInt8} (hbuf : buf ≠ [])
      (hwrite : RamFs.writeAt data m.size buf = some data') :
      Appends fs inode initial (h ++ [(i, Call.wrote fs inode m.size buf)]) data'
  | refused {h data} (hh : Appends fs inode initial h data) (i : ι) (offset : Nat) (buf : List UInt8) (e : FsError) :
      Appends fs inode initial (h ++ [(i, Call.refused fs inode offset buf e)]) data

/-- A write at the last turn comes last. -/
theorem buffers_concat (h : History ι Call Call.Answer) (i : ι) (a : Answered Call Call.Answer) :
    buffers fs inode (h ++ [(i, a)]) = buffers fs inode h ++ (written fs inode a).toList := by
  cases hw : written fs inode a <;> simp [buffers, hw]

/-- A list that ends in `e` and has `x` in it: `x` is the last element, or `e` ends what follows it. -/
theorem concat_eq_append_cons {α : Type} {l l₁ mid : List α} {e x : α} (h : l ++ [e] = l₁ ++ x :: mid) :
    (mid = [] ∧ l = l₁ ∧ e = x) ∨ ∃ mid', mid = mid' ++ [e] ∧ l = l₁ ++ x :: mid' := by
  rcases List.eq_nil_or_concat mid with rfl | ⟨mid', y, rfl⟩
  · obtain ⟨rfl, hx⟩ := List.append_inj' h rfl
    exact .inl ⟨rfl, rfl, (List.cons.inj hx).1⟩
  · have h' : l ++ [e] = (l₁ ++ x :: mid') ++ [y] := by simpa using h
    obtain ⟨rfl, hy⟩ := List.append_inj' h' rfl
    obtain rfl := (List.cons.inj hy).1
    exact .inr ⟨mid', by simp, rfl⟩

/-- There is only one last turn of a thread. -/
theorem after_last_eq {α : Type} {h₁ h₁' mid mid' : List (ι × α)} {i : ι} {a a' : α}
    (h : h₁ ++ (i, a) :: mid = h₁' ++ (i, a') :: mid') (hmid : ∀ e ∈ mid, e.1 ≠ i) (hmid' : ∀ e ∈ mid', e.1 ≠ i) :
    mid = mid' := by
  rcases List.append_eq_append_iff.mp h with ⟨c, -, hc⟩ | ⟨c, -, hc⟩
  · cases c with
    | nil => exact (List.cons.inj hc).2
    | cons x c =>
      obtain ⟨-, rfl⟩ := List.cons.inj hc
      exact absurd rfl (hmid (i, a') (by simp))
  · cases c with
    | nil => exact (List.cons.inj hc).2.symm
    | cons x c =>
      obtain ⟨-, rfl⟩ := List.cons.inj hc
      exact absurd rfl (hmid' (i, a) (by simp))

theorem uninterrupted_nil : Uninterrupted fs inode ([] : History ι Call Call.Answer) := by
  intro h₁ i a mid b h₂ heq
  have hlength := congrArg List.length heq
  simp at hlength

/-- One more turn leaves the appends uninterrupted unless it is a write for which another one came after its size was read. -/
theorem uninterrupted_concat (h : History ι Call Call.Answer) (i : ι) (b : Answered Call Call.Answer) :
    Uninterrupted fs inode (h ++ [(i, b)]) ↔ Uninterrupted fs inode h ∧
      ∀ h₁ a mid, h = h₁ ++ (i, a) :: mid → (reportedSize fs inode a).isSome → (written fs inode b).isSome →
        (∀ e ∈ mid, e.1 ≠ i) → ∀ e ∈ mid, written fs inode e.2 = none := by
  constructor
  · intro hun
    refine ⟨?_, ?_⟩
    · rintro h₁ j a mid c h₂ rfl
      exact hun h₁ j a mid c (h₂ ++ [(i, b)]) (by simp)
    · rintro h₁ a mid rfl
      exact hun h₁ i a mid b [] (by simp)
  · rintro ⟨hun, hnew⟩ h₁ j a mid c h₂ heq
    rcases concat_eq_append_cons heq with ⟨rfl, hh, hlast⟩ | ⟨h₂', rfl, hh⟩
    · cases hlast
      exact hnew h₁ a mid hh
    · exact hun h₁ j a mid c h₂' hh

/-- A step that writes nothing interrupts nothing. -/
theorem uninterrupted_concat_of_none (h : History ι Call Call.Answer) (i : ι) {b : Answered Call Call.Answer}
    (hb : written fs inode b = none) : Uninterrupted fs inode (h ++ [(i, b)]) ↔ Uninterrupted fs inode h := by
  rw [uninterrupted_concat, and_iff_left]
  intro h₁ a mid _ _ hsome
  simp [hb] at hsome

/-- For a write it is enough to look at the last turn of its handle. -/
theorem uninterrupted_concat_write {h h₁ mid : History ι Call Call.Answer} {i : ι} {a b : Answered Call Call.Answer}
    (hlast : h = h₁ ++ (i, a) :: mid) (hmid : ∀ e ∈ mid, e.1 ≠ i) (ha : (reportedSize fs inode a).isSome)
    (hb : (written fs inode b).isSome) :
    Uninterrupted fs inode (h ++ [(i, b)]) ↔ Uninterrupted fs inode h ∧ ∀ e ∈ mid, written fs inode e.2 = none := by
  rw [uninterrupted_concat]
  refine and_congr_right fun _ => ⟨fun hnew => hnew h₁ a mid hlast ha hb hmid, ?_⟩
  intro hnone h₁' a' mid' hlast' _ _ hmid'
  rw [after_last_eq (hlast'.symm.trans hlast) hmid' hmid]
  exact hnone

namespace Appends

variable {initial data : List UInt8} {h : History ι Call Call.Answer}

/-- The file does not shrink after its size was reported, and does not change unless something is written. -/
theorem reported_le (hh : Appends fs inode initial h data) {h₁ mid : History ι Call Call.Answer} {i : ι}
    {a : Answered Call Call.Answer} {size : Nat} (hlast : h = h₁ ++ (i, a) :: mid) (ha : reportedSize fs inode a = some size) :
    size ≤ data.length ∧ ((∀ e ∈ mid, written fs inode e.2 = none) → size = data.length) := by
  induction hh generalizing h₁ mid i a size with
  | nil => simp at hlast
  | @sized h data _ j m hm ih =>
    rcases concat_eq_append_cons hlast with ⟨rfl, -, heq⟩ | ⟨mid', rfl, hh⟩
    · cases heq
      rw [reportedSize_sized, Option.some.injEq] at ha
      exact ⟨by omega, fun _ => by omega⟩
    · obtain ⟨hle, hsame⟩ := ih hh ha
      exact ⟨hle, fun hnone => hsame fun e he => hnone e (List.mem_append_left _ he)⟩
  | @wrote h data _ _ _ j m hlast' _ buf _ _ hwrite ih =>
    rcases concat_eq_append_cons hlast with ⟨-, -, heq⟩ | ⟨mid', rfl, hh⟩
    · cases heq
      simp at ha
    · have hle := (ih hh ha).1
      have hoffset := (ih hlast' (reportedSize_sized m)).1
      rw [RamFs.length_writeAt hwrite]
      refine ⟨by omega, fun hnone => ?_⟩
      have hlast := hnone _ (List.mem_append_right mid' List.mem_cons_self)
      simp at hlast
  | @refused h data _ j offset buf e ih =>
    rcases concat_eq_append_cons hlast with ⟨-, -, heq⟩ | ⟨mid', rfl, hh⟩
    · cases heq
      simp at ha
    · obtain ⟨hle, hsame⟩ := ih hh ha
      exact ⟨hle, fun hnone => hsame fun e he => hnone e (List.mem_append_left _ he)⟩

/-- A write that is not interrupted comes at the end of the file. -/
theorem reported_eq (hh : Appends fs inode initial h data) {h₁ mid : History ι Call Call.Answer} {i : ι} {m : Metadata}
    (hlast : h = h₁ ++ (i, Call.sized fs inode m) :: mid) (hnone : ∀ e ∈ mid, written fs inode e.2 = none) :
    m.size = data.length :=
  (hh.reported_le hlast (reportedSize_sized m)).2 hnone

/-- A write comes before a last call that writes nothing. -/
theorem mem_of_written {mid : History ι Call Call.Answer} {e last : ι × Answered Call Call.Answer} (he : e ∈ mid ++ [last])
    (hlast : written fs inode last.2 = none) (hwritten : written fs inode e.2 ≠ none) : e ∈ mid := by
  rcases List.mem_append.mp he with he | he
  · exact he
  · rw [List.mem_singleton.mp he] at hwritten
    exact absurd hlast hwritten

/-- While no write is interrupted, each makes the file longer. -/
theorem reported_lt (hh : Appends fs inode initial h data) (hun : Uninterrupted fs inode h) {h₁ mid : History ι Call Call.Answer}
    {i : ι} {a : Answered Call Call.Answer} {size : Nat} (hlast : h = h₁ ++ (i, a) :: mid)
    (ha : reportedSize fs inode a = some size) {e : ι × Answered Call Call.Answer} (he : e ∈ mid)
    (hwritten : written fs inode e.2 ≠ none) : size < data.length := by
  induction hh generalizing mid with
  | nil => simp at hlast
  | @sized h data _ j m _ ih =>
    rcases concat_eq_append_cons hlast with ⟨rfl, -, -⟩ | ⟨mid', rfl, hh⟩
    · cases he
    · exact ih ((uninterrupted_concat_of_none h j rfl).mp hun) hh (mem_of_written he rfl hwritten)
  | @wrote h data hh' _ _ j m hlast' hmid buf _ hbuf hwrite _ =>
    rcases concat_eq_append_cons hlast with ⟨rfl, -, -⟩ | ⟨mid', rfl, hh⟩
    · cases he
    · obtain ⟨-, hnone⟩ := (uninterrupted_concat_write hlast' hmid (by simp) (by simp)).mp hun
      have hle := (hh'.reported_le hh ha).1
      have hlen := List.length_pos_of_ne_nil hbuf
      rw [hh'.reported_eq hlast' hnone] at hwrite
      rw [RamFs.writeAt_length hwrite, List.length_append]
      omega
  | @refused h data _ j offset buf err ih =>
    rcases concat_eq_append_cons hlast with ⟨rfl, -, -⟩ | ⟨mid', rfl, hh⟩
    · cases he
    · exact ih ((uninterrupted_concat_of_none h j rfl).mp hun) hh (mem_of_written he rfl hwritten)

/-- Writes that are not interrupted follow each other in the file. -/
theorem eq_append (hh : Appends fs inode initial h data) (hun : Uninterrupted fs inode h) :
    data = initial ++ (buffers fs inode h).flatten := by
  induction hh with
  | nil => simp [buffers]
  | @sized h data _ j m _ ih =>
    rw [ih ((uninterrupted_concat_of_none h j rfl).mp hun), buffers_concat]
    simp
  | @wrote h data hh' _ _ j m hlast' hmid buf _ _ hwrite ih =>
    obtain ⟨hun', hnone⟩ := (uninterrupted_concat_write hlast' hmid (by simp) (by simp)).mp hun
    rw [hh'.reported_eq hlast' hnone] at hwrite
    rw [RamFs.writeAt_length hwrite, ih hun', buffers_concat]
    simp
  | @refused h data _ j offset buf e ih =>
    rw [ih ((uninterrupted_concat_of_none h j rfl).mp hun), buffers_concat]
    simp

/-- The file is not longer than all that was written; if it is as long, no write was interrupted. -/
theorem length_le (hh : Appends fs inode initial h data) :
    data.length ≤ initial.length + (buffers fs inode h).flatten.length ∧
      (data.length = initial.length + (buffers fs inode h).flatten.length → Uninterrupted fs inode h) := by
  induction hh with
  | nil => exact ⟨by simp [buffers], fun _ => uninterrupted_nil⟩
  | @sized h data _ j m _ ih =>
    rw [uninterrupted_concat_of_none h j rfl, buffers_concat]
    simpa using ih
  | @wrote h data hh' h₁ mid j m hlast' hmid buf _ hbuf hwrite ih =>
    obtain ⟨hle, hun⟩ := ih
    have hoffset := (hh'.reported_le hlast' (reportedSize_sized m)).1
    rw [uninterrupted_concat_write hlast' hmid (by simp) (by simp), buffers_concat, RamFs.length_writeAt hwrite]
    simp only [written_wrote, Option.toList_some, List.flatten_append, List.length_append, List.flatten_singleton]
    refine ⟨by omega, fun heq => ?_⟩
    have hlen := List.length_pos_of_ne_nil hbuf
    have hun' := hun (by omega)
    refine ⟨hun', fun e he => ?_⟩
    by_contra hwritten
    have hlt := hh'.reported_lt hun' hlast' (reportedSize_sized m) he hwritten
    omega
  | @refused h data _ j offset buf e ih =>
    rw [uninterrupted_concat_of_none h j rfl, buffers_concat]
    simpa using ih

/-- All that was written is in the file, in some order, exactly if no write was interrupted. -/
theorem lossless_iff (hh : Appends fs inode initial h data) :
    (∃ order : List (List UInt8), order.Perm (buffers fs inode h) ∧ data = initial ++ order.flatten) ↔ Uninterrupted fs inode h := by
  constructor
  · rintro ⟨order, hperm, rfl⟩
    refine hh.length_le.2 ?_
    rw [List.length_append, hperm.flatten.length_eq]
  · exact fun hun => ⟨_, List.Perm.refl _, hh.eq_append hun⟩

end Appends

/-! ## Any number of handles -/

variable [DecidableEq ι] {i : ι} {initial : List UInt8}

/-- What one handle has written. -/
def buffersOf (fs : FsId) (inode : InodeNum) (i : ι) (h : History ι Call Call.Answer) : List (List UInt8) :=
  buffers fs inode (h.filter (·.1 = i))

/-- What the others write is not what this handle writes. -/
theorem buffersOf_others {h h' : History ι Call Call.Answer} (hothers : Others i h h') :
    buffersOf fs inode i h' = buffersOf fs inode i h := by
  obtain ⟨l, rfl, hl⟩ := hothers
  have hnone : l.filter (·.1 = i) = [] := List.filter_eq_nil_iff.mpr fun e he => by simp [hl e he]
  simp [buffersOf, hnone]

/-- What this handle writes at the last turn comes last. -/
theorem buffersOf_concat (h : History ι Call Call.Answer) (a : Answered Call Call.Answer) :
    buffersOf fs inode i (h ++ [(i, a)]) = buffersOf fs inode i h ++ (written fs inode a).toList := by
  simp [buffersOf, buffers_concat]

/-- The file holds what the history of appends leaves in it. -/
def AppendInv (fs : FsId) (inode : InodeNum) (initial : List UInt8) (h : History ι Call Call.Answer) (w : World) : Prop :=
  ∃ data, Appends fs inode initial h data ∧ (w.disk fs).content inode = some data

/-- The second call of a write: if it succeeds, the buffer is written. -/
theorem follows_writeAtOffset {f : File} (hf : f.Appending fs inode) {buf : List UInt8} (hbuf : buf ≠ []) {m : Metadata}
    (hoffset : f.offset = m.size) (h : History ι Call Call.Answer) :
    Follows (AppendInv fs inode initial) World.exec i
      (fun r h' => r.2.Appending fs inode ∧ (r.1.isOk = true → buffersOf fs inode i h' = buffersOf fs inode i h ++ [buf]))
      1 (f.writeAtOffset buf) (h ++ [(i, Call.sized fs inode m)]) := by
  obtain ⟨rfl, rfl, hwrite, happend⟩ := hf
  rintro h' w ⟨l, rfl, hl⟩ ⟨data, hdata, hcontent⟩
  have hlast : h ++ [(i, Call.sized f.fs f.inode m)] ++ l = h ++ (i, Call.sized f.fs f.inode m) :: l := by simp
  have hbefore : buffersOf f.fs f.inode i (h ++ [(i, Call.sized f.fs f.inode m)] ++ l) = buffersOf f.fs f.inode i h := by
    rw [buffersOf_others ⟨l, rfl, hl⟩, buffersOf_concat]
    simp
  rw [hoffset]
  rcases RamFs.write_content hcontent m.size buf with ⟨s', data', hs', hdata', hcontent'⟩ | ⟨e, he⟩
  · refine ⟨.ok buf.length, w.setDisk f.fs s', by simp [World.exec, hs'], ?_, ?_⟩
    · exact ⟨_, hdata.wrote hlast hl hbuf hdata', by simpa [World.setDisk] using hcontent'⟩
    · intro h' hothers
      refine ⟨⟨rfl, rfl, hwrite, happend⟩, fun _ => ?_⟩
      rw [buffersOf_others hothers, buffersOf_concat, hbefore]
      exact congrArg (_ ++ Option.toList ·) (written_wrote m.size buf)
  · refine ⟨.error e, w.setDisk f.fs (w.disk f.fs), by simp [World.exec, he], ?_, ?_⟩
    · exact ⟨_, hdata.refused i m.size buf e, by simpa [World.setDisk] using hcontent⟩
    · intro h' hothers
      exact ⟨⟨rfl, rfl, hwrite, happend⟩, fun hok => by cases hok⟩

/-- A write through a handle that appends. -/
theorem follows_write {f : File} (hf : f.Appending fs inode) {buf : List UInt8} (hbuf : buf ≠ []) (h : History ι Call Call.Answer) :
    Follows (AppendInv fs inode initial) World.exec i
      (fun r h' => r.2.Appending fs inode ∧ (r.1.isOk = true → buffersOf fs inode i h' = buffersOf fs inode i h ++ [buf]))
      2 (f.write buf) h := by
  obtain ⟨rfl, rfl, hwrite, happend⟩ := hf
  have hpermitted : ¬(!f.flags.write) = true := by simp [hwrite]
  unfold File.write
  rw [if_neg hpermitted, if_pos happend]
  rintro h' w hothers ⟨data, hdata, hcontent⟩
  obtain ⟨m, hm, hsize⟩ := RamFs.metadata_size hcontent
  refine ⟨.ok m, w, by simp [World.exec, hm], ⟨data, hdata.sized i m hsize, hcontent⟩, ?_⟩
  rw [← buffersOf_others hothers]
  exact follows_writeAtOffset (f := { f with offset := m.size }) ⟨rfl, rfl, hwrite, happend⟩ hbuf rfl h'

/-- All writes through a handle: if all succeed, all buffers are written. -/
theorem follows_writeAll {f : File} (hf : f.Appending fs inode) {bufs : List (List UInt8)} (hbufs : ∀ buf ∈ bufs, buf ≠ [])
    (h : History ι Call Call.Answer) :
    Follows (AppendInv fs inode initial) World.exec i
      (fun rs h' => (∀ r ∈ rs, r.isOk = true) → buffersOf fs inode i h' = buffersOf fs inode i h ++ bufs)
      (2 * bufs.length) (f.writeAll bufs) h := by
  induction bufs generalizing f h with
  | nil =>
    refine follows_ret_iff.mpr fun h' hothers _ => ?_
    rw [buffersOf_others hothers, List.append_nil]
  | cons buf bufs ih =>
    have hcalls : 2 * (buf :: bufs).length = 2 + (2 * bufs.length + 0) := by simp [Nat.mul_add, Nat.add_comm]
    rw [hcalls]
    refine Follows.bind ((follows_write hf (hbufs buf (by simp)) h).weaken ?_)
    rintro ⟨r, f'⟩ h₁ ⟨hf', hr⟩
    refine Follows.bind ((ih hf' (fun b hb => hbufs b (by simp [hb])) h₁).weaken ?_)
    intro rs h₂ hrs h₃ hothers hok
    rw [buffersOf_others hothers, hrs fun r hr => hok r (by simp [hr]), hr (hok r (by simp))]
    simp

/-- The turns of some threads, thread by thread, are a permutation of all their turns. -/
theorem flatMap_filter_perm {α : Type} (h : List (ι × α)) {is : List ι} (his : is.Nodup) :
    (is.flatMap fun i => h.filter (·.1 = i)).Perm (h.filter (·.1 ∈ is)) := by
  induction is with
  | nil => simp
  | cons i is ih =>
    obtain ⟨hi, his'⟩ := List.nodup_cons.mp his
    have hfirst : (h.filter (·.1 ∈ i :: is)).filter (·.1 = i) = h.filter (·.1 = i) := by
      rw [List.filter_filter]
      refine List.filter_congr fun e _ => ?_
      by_cases he : e.1 = i <;> simp [he]
    have hrest : (h.filter (·.1 ∈ i :: is)).filter (fun e => !decide (e.1 = i)) = h.filter (·.1 ∈ is) := by
      rw [List.filter_filter]
      refine List.filter_congr fun e _ => ?_
      by_cases he : e.1 = i
      · simp [he, hi]
      · simp [he]
    rw [List.flatMap_cons]
    refine ((ih his').append_left _).trans ?_
    rw [← hfirst, ← hrest]
    exact List.filter_append_perm _ _

end

/-- Concurrent appends lose nothing exactly if no write of another handle comes between the two calls of a write. -/
theorem appends_lossless_iff {n : Nat} {w : World} {fs : FsId} {inode : InodeNum} {initial : List UInt8}
    (hfile : (w.disk fs).content inode = some initial) {handles : Fin n → File} (hhandles : ∀ i, (handles i).Appending fs inode)
    {bufs : Fin n → List (List UInt8)} (hbufs : ∀ i, ∀ buf ∈ bufs i, buf ≠ []) {evs : List (Event (Fin n) _ _ _ _)}
    {cfg : Config (Fin n) _ _ _ _} (run : Run World.exec (fun i => (handles i).writeAll (bufs i), w) evs cfg)
    (hok : ∀ i, ∃ rs, cfg.1 i = .ret rs ∧ ∀ r ∈ rs, r.isOk = true) :
    (∃ order : List (List UInt8), order.Perm ((List.finRange n).flatMap bufs) ∧
      (cfg.2.disk fs).content inode = some (initial ++ order.flatten)) ↔ Uninterrupted fs inode (history evs) := by
  have hstart : AppendInv fs inode initial ([] : History (Fin n) Call Call.Answer) w := ⟨initial, .nil, hfile⟩
  obtain ⟨⟨data, hdata, hcontent⟩, hfollows⟩ := run.follows hstart fun i => follows_writeAll (hhandles i) (hbufs i) []
  have hbuffers : ∀ i, buffersOf fs inode i (history evs) = bufs i := by
    intro i
    obtain ⟨rs, hret, hrs⟩ := hok i
    obtain ⟨m, -, hpost⟩ := hfollows i
    rw [hret] at hpost
    simpa [buffersOf, buffers] using hpost.post_of_ret hrs
  have hperm : ((List.finRange n).flatMap bufs).Perm (buffers fs inode (history evs)) := by
    have hall := (flatMap_filter_perm (history evs) (List.nodup_finRange n)).filterMap fun e => written fs inode e.2
    have hthreads : ((List.finRange n).flatMap fun i => (history evs).filter (·.1 = i)).filterMap (fun e => written fs inode e.2) =
        (List.finRange n).flatMap bufs := by
      rw [List.filterMap_flatMap]
      exact List.flatMap_congr fun i _ => hbuffers i
    rw [hthreads] at hall
    simpa [buffers] using hall
  rw [← hdata.lossless_iff, hcontent]
  simp only [Option.some.injEq]
  constructor
  · rintro ⟨order, horder, heq⟩
    exact ⟨order, horder.trans hperm, heq⟩
  · rintro ⟨order, horder, heq⟩
    exact ⟨order, horder.trans hperm.symm, heq⟩

/-- A filesystem with one empty file, of inode number 2. -/
def World.withLog : World := ⟨⟨[⟨"/", 0⟩]⟩, fun _ => (RamFs.create RamFs.new rootInode "log" .regular 0o644).2⟩

/-- A handle that appends to that file. -/
def File.log : File := ⟨0, 2, 0, ⟨false, true, true, false, false, false⟩⟩

/-- Two handles that write one byte each. -/
def twoAppends : Config (Fin 2) Call Call.Answer (List (FsResult Nat)) World :=
  (fun i => File.log.writeAll [[UInt8.ofNat i.val]], World.withLog)

/-- Two handles ask for the size one after the other and then write: the second overwrites what the first wrote. -/
theorem interrupted_append_lost : ∃ evs cfg, Run World.exec twoAppends evs cfg ∧ (World.withLog.disk 0).content 2 = some [] ∧
    File.log.Appending 0 2 ∧ (∀ i, ∃ rs, cfg.1 i = .ret rs ∧ ∀ r ∈ rs, r.isOk = true) ∧
      ¬∃ order : List (List UInt8), order.Perm ((List.finRange 2).flatMap fun i => [[UInt8.ofNat i.val]]) ∧
        (cfg.2.disk 0).content 2 = some ([] ++ order.flatten) := by
  have hplay : (play World.exec twoAppends [0, 1, 0, 1]).isSome = true := rfl
  refine ⟨_, _, Run.of_play (Option.some_get hplay).symm, rfl, ⟨rfl, rfl, rfl, rfl⟩, ?_, ?_⟩
  · intro i
    fin_cases i <;> exact ⟨[.ok 1], rfl, by simp [Except.isOk, Except.toBool]⟩
  · rintro ⟨order, hperm, hcontent⟩
    have hone : some [1] = some ([] ++ order.flatten) := hcontent
    have hlength := congrArg List.length (Option.some.inj hone)
    rw [List.nil_append, hperm.flatten.length_eq] at hlength
    simp [List.finRange_succ] at hlength

/-- One handle after the other. -/
theorem appends_lossless_iff_two : ∃ evs cfg, Run World.exec twoAppends evs cfg ∧ (cfg.2.disk 0).content 2 = some [0, 1] ∧
    Uninterrupted 0 2 (history evs) := by
  have hplay : (play World.exec twoAppends [0, 0, 1, 1]).isSome = true := rfl
  refine ⟨_, _, Run.of_play (Option.some_get hplay).symm, rfl, ?_⟩
  refine (appends_lossless_iff (w := World.withLog) rfl (fun _ => ⟨rfl, rfl, rfl, rfl⟩) (fun i => by simp)
    (Run.of_play (Option.some_get hplay).symm) ?_).mp ⟨[[0], [1]], ?_, rfl⟩
  · intro i
    fin_cases i <;> exact ⟨[.ok 1], rfl, by simp [Except.isOk, Except.toBool]⟩
  · simp [List.finRange_succ]

end Fs

end GolemKernel
