import GolemKernel.Theorems.FsErrors

/-!
# The offset of a handle

`read` and `write` move the offset by what they transferred, and that never leaves the range of a `u64`: a read that transfers something
ends within the file, and a write whose end does not fit is refused. `seek` computes in an `i128`, which holds every sum, and refuses a
negative position. It does not refuse a position of `2 ^ 64` or more: the cast to a `u64` cuts it, and the call succeeds.
-/

namespace GolemKernel

namespace Fs

/-- The arguments of `seek` are a `u64` or an `i64`. -/
def SeekFrom.Fits : SeekFrom → Prop
  | .start p => p < 2 ^ 64
  | .end d => -2 ^ 63 ≤ d ∧ d < 2 ^ 63
  | .current d => -2 ^ 63 ≤ d ∧ d < 2 ^ 63

/-- What a seek counts from. `none`: the size of an inode that is gone. -/
def SeekFrom.base (w : World) (f : File) : SeekFrom → Option Nat
  | .start _ => some 0
  | .end _ => (RamFs.metadata (w.disk f.fs) f.inode).toOption.map (·.size)
  | .current _ => some f.offset

def SeekFrom.distance : SeekFrom → Int
  | .start p => p
  | .end d => d
  | .current d => d

namespace File

variable {w : World} {f : File}

/-- The offset and the size of the file are `u64`s. -/
structure Fits (w : World) (f : File) : Prop where
  offset : f.offset < 2 ^ 64
  size : ∀ m, RamFs.metadata (w.disk f.fs) f.inode = .ok m → m.size < 2 ^ 64

/-- The calls that move the offset. -/
inductive Use where
  | seek (pos : SeekFrom)
  | transfer (c : Transfer)

def Use.Fits : Use → Prop
  | .seek pos => pos.Fits
  | .transfer _ => True

def Use.run (w : World) (f : File) : Use → Option ((FsResult Nat × File) × World)
  | .seek pos => (f.seek pos).run World.exec w
  | .transfer c => c.run w f

/-- Where a read or a write begins. `none`: at the size of an inode that is gone. -/
def Transfer.position (w : World) (f : File) : Transfer → Option Nat
  | .read _ => some f.offset
  | .write _ => if f.flags.append then (RamFs.metadata (w.disk f.fs) f.inode).toOption.map (·.size) else some f.offset

/-- What a call that transferred `n` bytes leaves: the offset is where it began plus `n`, as integers. -/
def Use.Advances (w : World) (f : File) : Use → FsResult Nat → File → Prop
  | .seek _, _, _ => True
  | .transfer c, r, f' => ∀ n, r = .ok n → ∃ p, c.position w f = some p ∧ f'.offset = p + n

/-- Calls made one after the other all return, and none of them overflows when it advances the offset. -/
def NeverOverflows (w : World) (f : File) : List Use → Prop
  | [] => True
  | u :: us => ∃ r f' w', u.run w f = some ((r, f'), w') ∧ u.Advances w f r f' ∧ f'.NeverOverflows w' us

/-- A seek to a position that a `u64` can hold returns it and sets the offset to it; another one is refused and leaves the offset. -/
def SeekExact (w : World) (f : File) (pos : SeekFrom) : Prop :=
  ∀ b, pos.base w f = some b → (f.seek pos).run World.exec w = some (
    if 0 ≤ b + pos.distance ∧ b + pos.distance < 2 ^ 64 then
      (.ok (b + pos.distance).toNat, { f with offset := (b + pos.distance).toNat })
    else (.error .invalidOffset, f), w)

/-! ## Reads and writes -/

/-- Any offset of 64 bits fits. -/
theorem Fits.setOffset (h : Fits w f) {n : Nat} (hn : n < 2 ^ 64) : Fits w { f with offset := n } := ⟨hn, h.size⟩

/-- A read ends within the file, or transfers nothing. -/
theorem read_advance {s : Inner} {inode : InodeNum} {offset : Nat} {buf : List UInt8} {n : Nat} {out : List UInt8}
    (h : RamFs.read s inode offset buf = .ok (n, out)) (hoffset : offset < 2 ^ 64)
    (hsize : ∀ m, RamFs.metadata s inode = .ok m → m.size < 2 ^ 64) : offset + n < 2 ^ 64 := by
  unfold RamFs.read at h
  cases hnode : s.nodes[inode]? with
  | none => simp [hnode] at h
  | some node =>
    cases hkind : node.kind with
    | directory d => simp [hnode, hkind] at h
    | symlink t => simp [hnode, hkind] at h
    | file data =>
      have hlen : data.length < 2 ^ 64 := by
        obtain ⟨m, hm, hlength⟩ := RamFs.metadata_size (show s.content inode = some data by simp [Inner.content, hnode, hkind])
        have := hsize m hm
        omega
      simp only [hnode, hkind] at h
      split at h
      · cases h
        exact hoffset
      · cases h
        have := Nat.min_le_right buf.length (data.length - offset)
        omega

/-- The handle after a call that failed, or transferred `n` bytes from `p` on. -/
def Advanced (p : Nat) (out : Option ((FsResult Nat × File) × World)) : Prop :=
  ∃ r f' w', out = some ((r, f'), w') ∧ Fits w' f' ∧ ∀ n, r = .ok n → f'.offset = p + n

/-- A call that fails does not move the offset. -/
theorem Advanced.of_error (h : Fits w f) {p : Nat} {e : FsError} {out : Option ((FsResult Nat × File) × World)}
    (hout : out = some ((.error e, f), w)) : Advanced p out := by
  refine ⟨.error e, f, w, hout, h, ?_⟩
  intro n hn
  cases hn

/-- A read moves the offset by what it returns. -/
theorem advanced_read (h : Fits w f) (buf : List UInt8) : Advanced f.offset ((Transfer.read buf).run w f) := by
  cases hflag : f.flags.read with
  | false => exact .of_error h (run_read_denied hflag buf)
  | true =>
    cases hread : RamFs.read (w.disk f.fs) f.inode f.offset buf with
    | error e => exact .of_error h (run_read_error hflag hread)
    | ok out =>
      have hlt : f.offset + out.1 < 2 ^ 64 := read_advance hread h.offset h.size
      have hrun := run_read_ok hflag hread
      rw [Nat.mod_eq_of_lt hlt] at hrun
      refine ⟨_, _, _, hrun, h.setOffset hlt, ?_⟩
      intro n hn
      cases hn
      rfl

/-- So does a write at the offset. -/
theorem advanced_writeAtOffset (h : Fits w f) (buf : List UInt8) :
    Advanced f.offset ((f.writeAtOffset buf).run World.exec w) := by
  have hrun := run_writeAtOffset w f buf
  have hfail : ∀ {e}, RamFs.write (w.disk f.fs) f.inode f.offset buf = (.error e, w.disk f.fs) →
      Advanced f.offset ((f.writeAtOffset buf).run World.exec w) := by
    intro e he
    exact .of_error h (run_writeAtOffset_error he)
  cases hdata : (w.disk f.fs).content f.inode with
  | none =>
    obtain ⟨e, he, -⟩ := RamFs.write_of_content_eq_none hdata f.offset buf
    exact hfail he
  | some data =>
    by_cases hlt : f.offset + buf.length < 2 ^ 64
    · cases hwritten : RamFs.writeAt data f.offset buf with
      | none => exact hfail (RamFs.write_panic hdata hlt hwritten)
      | some data' =>
        obtain ⟨s, hs, hcontent, -⟩ := RamFs.write_file hdata hlt hwritten
        rw [hs] at hrun
        dsimp only at hrun
        rw [Nat.mod_eq_of_lt hlt] at hrun
        refine ⟨_, _, _, hrun, ⟨hlt, ?_⟩, ?_⟩
        · -- the file is at most as long as it was, or ends where the write ends
          intro m hm
          obtain ⟨m₀, hm₀, hlength⟩ := RamFs.metadata_size hdata
          have hbefore := h.size m₀ hm₀
          rw [World.disk_setDisk] at hm
          obtain ⟨m₁, hm₁, hsize⟩ := RamFs.metadata_size hcontent
          obtain rfl := Except.ok.inj (hm.symm.trans hm₁)
          rw [hsize, RamFs.length_writeAt hwritten]
          omega
        · intro n hn
          cases hn
          rfl
    · exact hfail (RamFs.write_full hdata hlt)

/-- A read or a write returns, keeps the handle within the range of a `u64`, and moves the offset by what it transferred. -/
theorem Transfer.run_spec (h : Fits w f) (c : Transfer) :
    ∃ r f' w', c.run w f = some ((r, f'), w') ∧ Fits w' f' ∧ (Use.transfer c).Advances w f r f' := by
  have hfrom : ∀ p, c.position w f = some p → Advanced p (c.run w f) →
      ∃ r f' w', c.run w f = some ((r, f'), w') ∧ Fits w' f' ∧ (Use.transfer c).Advances w f r f' := by
    rintro p hp ⟨r, f', w', hrun, hfits, hoffset⟩
    exact ⟨r, f', w', hrun, hfits, fun n hn => ⟨p, hp, hoffset n hn⟩⟩
  have hfail : ∀ e, c.run w f = some ((.error e, f), w) →
      ∃ r f' w', c.run w f = some ((r, f'), w') ∧ Fits w' f' ∧ (Use.transfer c).Advances w f r f' := by
    intro e he
    refine ⟨_, _, _, he, h, ?_⟩
    intro n hn
    cases hn
  cases c with
  | read buf => exact hfrom f.offset rfl (advanced_read h buf)
  | write buf =>
    cases hwrite : f.flags.write with
    | false => exact hfail _ (run_write_denied hwrite buf)
    | true =>
      cases happend : f.flags.append with
      | false =>
        refine hfrom f.offset (by simp [position, happend]) ?_
        rw [run_write_plain hwrite happend]
        exact advanced_writeAtOffset h buf
      | true =>
        cases hm : RamFs.metadata (w.disk f.fs) f.inode with
        | error e => exact hfail e (run_write_gone hwrite happend hm buf)
        | ok m =>
          refine hfrom m.size (by simp [position, happend, hm, Except.toOption]) ?_
          rw [run_write_append hwrite happend hm]
          obtain ⟨r, f', w', hrun, hfits, hoffset⟩ := advanced_writeAtOffset (h.setOffset (h.size m hm)) buf
          exact ⟨r, f', w', hrun, hfits, hoffset⟩

/-! ## Seeks -/

/-- A seek that succeeds or fails leaves an offset of 64 bits. -/
theorem seekTo_fits (h : Fits w f) (n : Int) : Fits w (f.seekTo n).2 := by
  unfold seekTo
  split
  · exact h
  · exact h.setOffset (Nat.mod_lt _ (by decide))

/-- A seek always returns, and changes nothing but the offset. -/
theorem seek_spec (h : Fits w f) {pos : SeekFrom} (hpos : pos.Fits) :
    ∃ r f', (f.seek pos).run World.exec w = some ((r, f'), w) ∧ Fits w f' := by
  cases pos with
  | start p => exact ⟨_, _, rfl, h.setOffset hpos⟩
  | current d => exact ⟨_, _, rfl, seekTo_fits h _⟩
  | «end» d =>
    cases hm : RamFs.metadata (w.disk f.fs) f.inode with
    | error e => exact ⟨.error e, f, by simp [seek, Concurrent.Prog.run_call, World.exec, hm], h⟩
    | ok m =>
      refine ⟨(f.seekTo (m.size + d)).1, (f.seekTo (m.size + d)).2, ?_, seekTo_fits h _⟩
      simp [seek, Concurrent.Prog.run_call, World.exec, hm]

/-- However the calls on a handle follow each other, none of them overflows. -/
theorem neverOverflows (h : Fits w f) (uses : List Use) (huses : ∀ u ∈ uses, u.Fits) : NeverOverflows w f uses := by
  induction uses generalizing w f with
  | nil => trivial
  | cons u us ih =>
    have hrest : ∀ v ∈ us, v.Fits := fun v hv => huses v (List.mem_cons_of_mem u hv)
    cases u with
    | seek pos =>
      obtain ⟨r, f', hrun, hfits⟩ := seek_spec h (huses (.seek pos) List.mem_cons_self)
      exact ⟨r, f', w, hrun, trivial, ih hfits hrest⟩
    | transfer c =>
      obtain ⟨r, f', w', hrun, hfits, hadvances⟩ := c.run_spec h
      exact ⟨r, f', w', hrun, hadvances, ih hfits hrest⟩

/-- The end of `seek` is exact unless the position is too large. -/
theorem seekTo_eq_iff (f : File) (n : Int) :
    f.seekTo n = (if 0 ≤ n ∧ n < 2 ^ 64 then (.ok n.toNat, { f with offset := n.toNat }) else (.error .invalidOffset, f)) ↔
      n < 2 ^ 64 := by
  unfold seekTo
  by_cases hneg : n < 0
  · rw [if_pos hneg, if_neg (by omega)]
    simp only [true_iff]
    omega
  · rw [if_neg hneg]
    by_cases hlt : n < 2 ^ 64
    · have hcut : n.toNat % 2 ^ 64 = n.toNat := Nat.mod_eq_of_lt (by omega)
      rw [if_pos ⟨by omega, hlt⟩, hcut]
      simp only [hlt]
    · rw [if_neg (by omega), iff_false_right hlt]
      intro heq
      cases (Prod.mk.inj heq).1

/-- A seek is exact exactly if the target is below 2^64. -/
theorem seekExact_iff (w : World) (f : File) {pos : SeekFrom} (hpos : pos.Fits) :
    SeekExact w f pos ↔ ∀ b, pos.base w f = some b → b + pos.distance < 2 ^ 64 := by
  unfold SeekExact
  refine forall_congr' fun b => forall_congr' fun hb => ?_
  have hrun : (f.seek pos).run World.exec w = some (f.seekTo (b + pos.distance), w) := by
    cases pos with
    | start p =>
      cases hb
      have hp : p % 2 ^ 64 = p := Nat.mod_eq_of_lt hpos
      have hto : f.seekTo ((0 : Nat) + (p : Int)) = (.ok p, { f with offset := p }) := by
        unfold seekTo
        rw [if_neg (by omega), Nat.cast_zero, zero_add, Int.toNat_natCast, hp]
      rw [SeekFrom.distance, hto]
      rfl
    | current d =>
      cases hb
      rfl
    | «end» d =>
      obtain ⟨m, hm, rfl⟩ := Option.map_eq_some_iff.mp hb
      have hm : RamFs.metadata (w.disk f.fs) f.inode = .ok m := by
        cases hmeta : RamFs.metadata (w.disk f.fs) f.inode with
        | error e => simp [hmeta, Except.toOption] at hm
        | ok m' => simpa [hmeta, Except.toOption] using hm
      simp [seek, Concurrent.Prog.run_call, World.exec, hm, SeekFrom.distance]
  rw [hrun, Option.some.injEq, Prod.mk.injEq, and_iff_left rfl]
  exact seekTo_eq_iff f (b + pos.distance)

end File

/-- A seek on a handle that calls of `seek`, `read` and `write` can have left with any offset: it is exact, and none of the calls that
follow it overflows, exactly if the position it asks for is below `2 ^ 64`. -/
theorem seek_exact_iff {w : World} {f : File} (h : File.Fits w f) {pos : SeekFrom} (hpos : pos.Fits) :
    (File.SeekExact w f pos ∧ ∀ uses : List File.Use, (∀ u ∈ uses, u.Fits) → File.NeverOverflows w f (.seek pos :: uses)) ↔
      ∀ b, pos.base w f = some b → b + pos.distance < 2 ^ 64 := by
  rw [File.seekExact_iff w f hpos, and_iff_left]
  intro uses huses
  refine File.neverOverflows h _ ?_
  intro u hu
  rcases List.mem_cons.mp hu with rfl | hu
  · exact hpos
  · exact huses u hu

/-- A handle that has just been opened and stands at the start. -/
theorem seek_exact_iff_openNew : ∃ w f, World.openNew = some (.ok f, w) ∧ File.SeekExact w f (.current 1) := by
  have hopen : World.openNew = some (.ok ⟨0, 2, 0, ⟨false, true, false, true, false, false⟩⟩, (World.openNew.get rfl).2) := rfl
  have hpos : (SeekFrom.current 1).Fits := ⟨by decide, by decide⟩
  refine ⟨_, _, hopen, ((seek_exact_iff ⟨by decide, ?_⟩ hpos).mpr ?_).1⟩
  · intro m hm
    cases hm
    decide
  · intro b hb
    cases hb
    decide

/-- The handle stands at the last offset. One position further is past the range of a `u64`, and the call returns zero. -/
theorem seek_past_last_wraps : ∃ w f f' f'', World.openNew = some (.ok f, w) ∧
    (f.seek (.start (2 ^ 64 - 1))).run World.exec w = some ((.ok (2 ^ 64 - 1), f'), w) ∧
      (f'.seek (.current 1)).run World.exec w = some ((.ok 0, f''), w) ∧ f''.offset = 0 ∧
        ¬File.SeekExact w f' (.current 1) := by
  have hopen : World.openNew = some (.ok ⟨0, 2, 0, ⟨false, true, false, true, false, false⟩⟩, (World.openNew.get rfl).2) := rfl
  refine ⟨_, _, ⟨0, 2, 2 ^ 64 - 1, ⟨false, true, false, true, false, false⟩⟩,
    ⟨0, 2, 0, ⟨false, true, false, true, false, false⟩⟩, hopen, rfl, rfl, rfl, ?_⟩
  intro hexact
  have hpos : (SeekFrom.current 1).Fits := ⟨by decide, by decide⟩
  have hbelow := (File.seekExact_iff _ _ hpos).mp hexact _ rfl
  revert hbelow
  decide

end Fs

end GolemKernel
