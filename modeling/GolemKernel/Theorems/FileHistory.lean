import GolemKernel.Theorems.FsErrors

/-!
# An inode over a whole run

Inode numbers are issued from a counter that no call turns back, so a number that was taken away is never issued again, and every call on it
finds nothing (`stale_inode_not_found`). The bytes of a file, as long as the file is there, are changed only by the writes and truncations
made on it, so they can be read off the history of these: each byte is what the last write over it stored, unless the file was cut below it
since (`file_follows_history`).
-/

namespace GolemKernel

namespace Fs

open GolemKernel.Fs.Inner

/-- What every change of the tree preserves holds after the changes of a call, -/
theorem Inner.Inv.changes_preserve {P : Inner → Prop} (hstep : ∀ {s s'}, s.Inv → P s → TreeChange s s' → P s') {s s' : Inner}
    (h : s.Inv) (hs : P s) (hc : Relation.ReflTransGen TreeChange s s') : P s' := by
  induction hc with
  | refl => exact hs
  | tail hfirst hlast ih => exact hstep (h.changes hfirst) ih hlast

/-- and after any sequence of calls. -/
theorem runOps_preserves {P : Inner → Prop} (hstep : ∀ {s s'}, s.Inv → P s → TreeChange s s' → P s') {s t : Inner} (h : s.Inv)
    (hs : P s) {ops : List Op} (hrun : runOps s ops = some t) : t.Inv ∧ P t := by
  induction ops generalizing s with
  | nil =>
    obtain rfl := Option.some.inj hrun
    exact ⟨h, hs⟩
  | cons op ops ih =>
    obtain ⟨r, s₁, hop, hc⟩ := op.run_change h
    simp only [runOps, hop, Option.bind_some] at hrun
    exact ih (h.changes hc) (h.changes_preserve hstep hs hc) hrun

/-- The counter of the inode numbers never goes back. -/
theorem TreeChange.nextInode_le {s s' : Inner} (hc : TreeChange s s') : s.nextInode ≤ s'.nextInode := by
  cases hc with
  | keep _ _ hnext => exact hnext.ge
  | graft _ _ _ _ _ _ _ hnext => exact hnext ▸ Nat.le_succ _
  | prune _ _ _ _ _ _ _ hnext => exact hnext.ge
  | move _ _ _ _ _ _ _ _ _ _ _ _ _ _ hnext => exact hnext.ge

/-! ## Inode numbers that were taken away -/

/-- The number was issued and is not in use. -/
def Inner.Gone (s : Inner) (i : InodeNum) : Prop := s.parentOf i = none ∧ i < s.nextInode

/-- A number that is gone stays gone: a new node takes the next number, and only a node that is there can be moved. -/
theorem TreeChange.gone {s s' : Inner} (h : s.Inv) {i : InodeNum} (hi : s.Gone i) (hc : TreeChange s s') : s'.Gone i := by
  obtain ⟨hnone, hlt⟩ := hi
  cases hc with
  | keep htree _ hnext =>
    have hpar : s'.parentOf = s.parentOf := congrArg NamedTree.parent htree
    exact ⟨by rw [hpar, hnone], by rw [hnext]; exact hlt⟩
  | graft d name _ _ _ htree _ hnext =>
    have hpar : s'.parentOf = Function.update s.parentOf s.nextInode (some d) := congrArg NamedTree.parent htree
    exact ⟨by rw [hpar, Function.update_of_ne hlt.ne, hnone], by rw [hnext]; exact Nat.lt_succ_of_lt hlt⟩
  | prune d name j _ _ htree _ hnext =>
    have hpar : s'.parentOf = Function.update s.parentOf j none := congrArg NamedTree.parent htree
    refine ⟨?_, by rw [hnext]; exact hlt⟩
    rw [hpar, Function.update_apply]
    split
    · rfl
    · exact hnone
  | move d name j d' name' l hj _ _ _ _ _ htree _ hnext =>
    have hpar : s'.parentOf = Function.update s.parentOf j (some d') := congrArg NamedTree.parent htree
    have hij : i ≠ j := by
      rintro rfl
      have hlive : s.parentOf i = some d := h.tree.entry_parent hj
      rw [hnone] at hlive
      cases hlive
    exact ⟨by rw [hpar, Function.update_of_ne hij, hnone], by rw [hnext]; exact hlt⟩

/-- The call takes the inode `i` away: `unlink` and `rmdir` succeed on its name, or `rename` puts another inode in its place. -/
inductive Op.Removes (s : Inner) (i : InodeNum) : Op → Prop where
  | unlink {d : InodeNum} {name : String} (hi : s.entryAt d name = some i) (hok : (RamFs.unlink s d name).1 = .ok ()) :
      Removes s i (.unlink d name)
  | rmdir {d : InodeNum} {name : String} (hi : s.entryAt d name = some i) (hok : (RamFs.rmdir s d name).1 = .ok ()) :
      Removes s i (.rmdir d name)
  | rename {d d' : InodeNum} {name name' : String} {s' : Inner} (hsource : s.entryAt d name ≠ some i)
      (hi : s.entryAt d' name' = some i) (hok : RamFs.rename s d name d' name' = some (.ok (), s')) :
      Removes s i (.rename d name d' name')

/-- What is removed has an entry. -/
theorem Op.Removes.entry {s : Inner} {i : InodeNum} {op : Op} (hop : op.Removes s i) : ∃ d name, s.entryAt d name = some i := by
  cases hop with
  | unlink hi _ => exact ⟨_, _, hi⟩
  | rmdir hi _ => exact ⟨_, _, hi⟩
  | rename _ hi _ => exact ⟨_, _, hi⟩

/-- The call leaves the table without the inode, and issues no number. -/
theorem Op.Removes.removed {s s' : Inner} {i : InodeNum} {op : Op} {r : FsResult Unit} (hop : op.Removes s i)
    (hrun : op.run s = some (r, s')) : s'.payloadOf i = none ∧ s'.nextInode = s.nextInode := by
  cases hop with
  | @unlink d name hi hok =>
    rcases RamFs.unlink_cases s d name with ⟨e, he⟩ | ⟨j, hj, hentry, -⟩
    · rw [he] at hok
      cases hok
    · obtain ⟨-, rfl⟩ := Prod.mk.inj (hj.symm.trans (Option.some.inj hrun))
      obtain rfl := Option.some.inj (hentry.symm.trans hi)
      exact ⟨by rw [payloadOf_removeNode, if_pos rfl], rfl⟩
  | @rmdir d name hi hok =>
    rcases RamFs.rmdir_cases s d name with ⟨e, he⟩ | ⟨j, hj, hentry, -⟩
    · rw [he] at hok
      cases hok
    · obtain ⟨-, rfl⟩ := Prod.mk.inj (hj.symm.trans (Option.some.inj hrun))
      obtain rfl := Option.some.inj (hentry.symm.trans hi)
      exact ⟨by rw [payloadOf_removeNode, if_pos rfl], rfl⟩
  | @rename d d' name name' s₁ hsource hi hok =>
    obtain ⟨-, rfl⟩ := Prod.mk.inj (Option.some.inj (hok.symm.trans hrun))
    rcases RamFs.rename_cases s d name d' name' with ⟨hnone, -⟩ | ⟨e, he⟩ | ⟨-, j, hj, hj'⟩ | ⟨j, s₂, hj, hr⟩
    · rw [hnone] at hok
      cases hok
    · rw [he] at hok
      cases hok
    · exact absurd (hj.trans (hj'.symm.trans hi)) hsource
    · obtain ⟨-, rfl⟩ := Prod.mk.inj (Option.some.inj (hok.symm.trans hj))
      rcases hr.moved with ⟨hfree, -⟩ | ⟨eid, s₃, heid, -, hrep, rfl⟩
      · rw [hfree] at hi
        cases hi
      · obtain ⟨-, -, rfl⟩ := RamFs.replaceTarget_ok hrep
        obtain rfl := Option.some.inj (heid.symm.trans hi)
        refine ⟨?_, rfl⟩
        rw [RamFs.payloadOf_moveEntry, payloadOf_modifyEntries, payloadOf_removeNode, if_pos rfl]

/-- Once removed it is gone. -/
theorem Op.Removes.gone {s s' : Inner} (h : s.Inv) {i : InodeNum} {op : Op} {r : FsResult Unit} (hop : op.Removes s i)
    (hrun : op.run s = some (r, s')) : s'.Gone i := by
  obtain ⟨hnone, hnext⟩ := hop.removed hrun
  obtain ⟨d, name, hi⟩ := hop.entry
  rw [payloadOf_eq_none_iff, ← parentOf_eq_none_iff] at hnone
  exact ⟨hnone, by rw [hnext]; exact h.below (h.tree.entry_parent hi)⟩

/-- What it means that a number is stale in a table: no call issues it, every call on it finds nothing and changes nothing, and so does every
call on a handle that still holds it and has the access the call needs. -/
structure Stale (t : Inner) (i : InodeNum) : Prop where
  create : ∀ d name ft mode, (RamFs.create t d name ft mode).1 ≠ .ok i
  symlink : ∀ d name target, (RamFs.symlink t d name target).1 ≠ .ok i
  metadata : RamFs.metadata t i = .error .notFound
  lookup : ∀ name, RamFs.lookup t i name = .error .notFound
  readdir : RamFs.readdir t i = .error .notFound
  read : ∀ offset buf, RamFs.read t i offset buf = .error .notFound
  write : ∀ offset buf, RamFs.write t i offset buf = (.error .notFound, t)
  truncate : ∀ size, RamFs.truncate t i size = (.error .notFound, t)
  readlink : RamFs.readlink t i = .error .notFound
  handleMetadata : ∀ (w : World) (f : File), w.disk f.fs = t → f.inode = i → w.run f.metadata = some (.error .notFound, w)
  handleReads : ∀ (w : World) (f : File), w.disk f.fs = t → f.inode = i → f.flags.read = true → ∀ buf,
    (f.read buf).run World.exec w = some ((.error .notFound, f), w) ∧
      ∀ offset, w.run (f.readAt offset buf) = some (.error .notFound, w)
  handleWrites : ∀ (w : World) (f : File), w.disk f.fs = t → f.inode = i → f.flags.write = true →
    (∀ buf, (f.write buf).run World.exec w = some ((.error .notFound, f), w) ∧
      ∀ offset, w.run (f.writeAt offset buf) = some (.error .notFound, w)) ∧
        ∀ size, w.run (f.truncate size) = some (.error .notFound, w)

/-- A number that is gone is not given again. -/
theorem Inner.Gone.not_issued {t : Inner} {i : InodeNum} (hi : t.Gone i) (d : InodeNum) (name : String) (kind : NodeKind) (mode : Mode) :
    (RamFs.addNode t d name kind mode).1 ≠ .ok i := by
  rcases RamFs.addNode_cases t d name kind mode with hfull | ⟨s', hadd⟩
  · rw [hfull]
    intro h
    cases h
  · rw [hadd]
    intro h
    exact hi.2.ne (Except.ok.inj h).symm

/-- Every call on it fails. -/
theorem Inner.Gone.stale {t : Inner} {i : InodeNum} (hi : t.Gone i) : Stale t i := by
  have hnone : t.nodes[i]? = none := (parentOf_eq_none_iff t i).mp hi.1
  refine ⟨?_, ?_, ?_, ?_, ?_, ?_, ?_, ?_, ?_, ?_, ?_, ?_⟩
  · intro d name ft mode
    rcases RamFs.create_cases t d name ft mode with ⟨e, he⟩ | ⟨kind, hadd, -⟩
    · rw [he]
      intro h
      cases h
    · rw [hadd]
      exact hi.not_issued d name kind mode
  · intro d name target
    rcases RamFs.symlink_cases t d name target with ⟨e, he⟩ | ⟨hadd, -⟩
    · rw [he]
      intro h
      cases h
    · rw [hadd]
      exact hi.not_issued d name _ _
  · simp [RamFs.metadata, hnone]
  · intro name
    simp [RamFs.lookup, hnone]
  · simp [RamFs.readdir, hnone]
  · intro offset buf
    simp [RamFs.read, hnone]
  · intro offset buf
    simp [RamFs.write, hnone]
  · intro size
    simp [RamFs.truncate, hnone]
  · simp [RamFs.readlink, hnone]
  · rintro w f rfl rfl
    rw [File.metadata, World.run_metadata, RamFs.metadata, hnone]
  · rintro w f rfl rfl hflag buf
    have hread : ∀ offset, RamFs.read (w.disk f.fs) f.inode offset buf = .error .notFound := by
      intro offset
      simp [RamFs.read, hnone]
    refine ⟨by simp [File.read, hflag, Concurrent.Prog.run_call, World.exec, hread], ?_⟩
    intro offset
    simp [File.readAt, hflag, World.run_read, hread]
  · rintro w f rfl rfl hflag
    have hmeta : RamFs.metadata (w.disk f.fs) f.inode = .error .notFound := by simp [RamFs.metadata, hnone]
    have hwrite : ∀ offset buf, RamFs.write (w.disk f.fs) f.inode offset buf = (.error .notFound, w.disk f.fs) := by
      intro offset buf
      simp [RamFs.write, hnone]
    refine ⟨fun buf => ⟨?_, ?_⟩, ?_⟩
    · cases happend : f.flags.append with
      | true => simp [File.write, hflag, happend, Concurrent.Prog.run_call, World.exec, hmeta]
      | false =>
        have hrun := File.run_writeAtOffset w f buf
        simp only [hwrite, World.setDisk_self] at hrun
        simpa [File.write, hflag, happend] using hrun
    · intro offset
      simp [File.writeAt, hflag, World.run_write, hwrite, World.setDisk_self]
    · intro size
      simp [File.truncate, hflag, World.run_truncate, RamFs.truncate, hnone, World.setDisk_self]

/-- Once a call of any run has taken an inode away, its number is stale in every later table. -/
theorem stale_inode_not_found (before : List Op) {s : Inner} (hs : runOps RamFs.new before = some s) {op : Op} {i : InodeNum}
    (hop : op.Removes s i) (later : List Op) : ∃ t, runOps s (op :: later) = some t ∧ Stale t i := by
  obtain ⟨s₀, hs₀, h⟩ := runOps_inv RamFs.new_inv before
  obtain rfl := Option.some.inj (hs₀.symm.trans hs)
  obtain ⟨r, s₁, hrun, hc⟩ := op.run_change h
  obtain ⟨t, ht, -⟩ := runOps_inv (h.changes hc) later
  obtain ⟨-, hgone⟩ := runOps_preserves (fun h hi hc => hc.gone h hi) (h.changes hc) (hop.gone h hrun) ht
  exact ⟨t, by simp [runOps, hrun, ht], hgone.stale⟩

/-- A file is made and unlinked, and another one made under its name. -/
theorem stale_inode_not_found_again : ∃ s, runOps RamFs.new [.create rootInode "f" .regular 0o644] = some s ∧
    (Op.unlink rootInode "f").Removes s 2 ∧ ∃ t, runOps s [.unlink rootInode "f", .create rootInode "f" .regular 0o644] = some t ∧
      RamFs.lookup t rootInode "f" = .ok 3 ∧ Stale t 2 := by
  have hremoves : (Op.unlink rootInode "f").Removes (RamFs.create RamFs.new rootInode "f" .regular 0o644).2 2 := .unlink rfl rfl
  obtain ⟨t, ht, hstale⟩ := stale_inode_not_found [.create rootInode "f" .regular 0o644] rfl hremoves
    [.create rootInode "f" .regular 0o644]
  refine ⟨_, rfl, hremoves, t, ht, ?_, hstale⟩
  obtain rfl := Option.some.inj ht
  rfl

/-! ## The bytes of a file -/

namespace RamFs

/-- A byte of a file, 0 where the file has none. -/
def byteAt (data : List UInt8) (p : Nat) : UInt8 := data[p]?.getD 0

/-- Past the end there are zeros. -/
theorem byteAt_of_length_le {data : List UInt8} {p : Nat} (h : data.length ≤ p) : byteAt data p = 0 := by
  rw [byteAt, List.getElem?_eq_none h]
  rfl

/-- What is below the new length stays, with zeros where there was nothing; the rest is cut off. -/
theorem byteAt_resize {data data' : List UInt8} {len : Nat} (h : resize data len = some data') (p : Nat) :
    byteAt data' p = if len ≤ p then 0 else byteAt data p := by
  split
  · rename_i hp
    exact byteAt_of_length_le (by rw [length_resize h]; exact hp)
  · rename_i hp
    rcases Nat.lt_or_ge p data.length with hin | hout
    · rw [byteAt, resize_eq_some h, List.getElem?_append_left (by rw [List.length_take]; omega), List.getElem?_take_of_lt (by omega)]
      rfl
    · rw [byteAt_of_length_le hout, byteAt, resize_eq_some h, List.getElem?_append_right (by rw [List.length_take]; omega)]
      simp only [List.getElem?_replicate]
      split <;> rfl

/-- What is between the beginning of a write and its end is replaced, and the rest is what it was. -/
theorem byteAt_writeAt {data data' : List UInt8} {offset : Nat} {buf : List UInt8} (h : writeAt data offset buf = some data') (p : Nat) :
    byteAt data' p = if offset ≤ p ∧ p < offset + buf.length then byteAt buf (p - offset) else byteAt data p := by
  obtain ⟨long, hcases, hlong⟩ := writeAt_eq_some h
  -- the zeros a sparse write adds are there before the write, as bytes past the end
  have hstop : offset + buf.length ≤ long.length := by
    rcases hcases with ⟨-, hresize⟩ | ⟨hle, rfl⟩
    · rw [length_resize hresize]
    · exact hle
  have hbyte : byteAt long p = byteAt data p := by
    rcases hcases with ⟨hlt, hresize⟩ | ⟨-, rfl⟩
    · rw [byteAt_resize hresize]
      split
      · rw [byteAt_of_length_le (by omega)]
      · rfl
    · rfl
  have hbefore : (long.take offset).length = offset := by
    rw [List.length_take]
    omega
  rw [hlong, ← hbyte]
  rcases Nat.lt_or_ge p offset with hp | hp
  · rw [if_neg (by omega), byteAt, List.append_assoc, List.getElem?_append_left (by omega), List.getElem?_take_of_lt hp]
    rfl
  · rcases Nat.lt_or_ge p (offset + buf.length) with hp' | hp'
    · rw [if_pos ⟨hp, hp'⟩, byteAt, List.append_assoc, List.getElem?_append_right (by omega), hbefore,
        List.getElem?_append_left (by omega)]
      rfl
    · have hskip : offset + buf.length + (p - (offset + buf.length)) = p := by omega
      rw [if_neg (by omega), byteAt, List.getElem?_append_right (by rw [List.length_append]; omega), List.length_append, hbefore,
        List.getElem?_drop, hskip]
      rfl

/-- What a read of a regular file returns. -/
theorem read_file {s : Inner} {inode : InodeNum} {data : List UInt8} (h : s.content inode = some data) (offset : Nat)
    (buf : List UInt8) :
    ∃ out, read s inode offset buf = .ok (min buf.length (data.length - offset), out) ∧
      ∀ k, out[k]? = if k < min buf.length (data.length - offset) then some (byteAt data (offset + k)) else buf[k]? := by
  obtain ⟨node, hnode, hkind⟩ := content_eq_some h
  simp only [read, hnode, hkind]
  split
  · rename_i hpast
    have hzero : min buf.length (data.length - offset) = 0 := by omega
    refine ⟨buf, by rw [hzero], ?_⟩
    intro k
    rw [if_neg (by omega)]
  · refine ⟨_, rfl, ?_⟩
    intro k
    have hcopied : ((data.drop offset).take (min buf.length (data.length - offset))).length = min buf.length (data.length - offset) := by
      rw [List.length_take, List.length_drop]
      omega
    split
    · rename_i hk
      have hin : offset + k < data.length := by omega
      rw [List.getElem?_append_left (by omega), List.getElem?_take_of_lt hk, List.getElem?_drop, byteAt,
        List.getElem?_eq_getElem hin]
      rfl
    · have hskip : min buf.length (data.length - offset) + (k - min buf.length (data.length - offset)) = k := by omega
      rw [List.getElem?_append_right (by omega), hcopied, List.getElem?_drop, hskip]

end RamFs

/-! ## The history of a file -/

namespace Op

/-- The size of a file after a call, as the history counts it. -/
def sizeAfter (i : InodeNum) (size : Nat) : Op → Nat
  | .write j offset buf => if j = i then max size (offset + buf.length) else size
  | .truncate j size' => if j = i then size' else size
  | _ => size

/-- What a call says about the byte at `p`: a write over it stores one, and a truncation below it leaves none. -/
def decides (i : InodeNum) (p : Nat) : Op → Option UInt8
  | .write j offset buf => if j = i ∧ offset ≤ p then buf[p - offset]? else none
  | .truncate j size => if j = i ∧ size ≤ p then some 0 else none
  | _ => none

/-- The writes and truncations of the file leave it no longer than a vector can be. -/
def Within (i : InodeNum) : Op → Prop
  | .write j offset buf => j = i → offset + buf.length ≤ RamFs.isizeMax
  | .truncate j size => j = i → size ≤ RamFs.isizeMax
  | _ => True

/-- Such a call does not panic. -/
theorem Within.edit {i : InodeNum} {op : Op} (h : op.Within i) (hop : op.edits = some i) (data : List UInt8) :
    ∃ data', op.edit data = some data' := by
  refine Option.ne_none_iff_exists'.mp ?_
  cases op with
  | write j offset buf =>
    have hle := h (Option.some.inj hop)
    exact fun hnone => Nat.not_lt_of_le hle (RamFs.writeAt_eq_none_iff.mp hnone).2
  | truncate j size =>
    have hle := h (Option.some.inj hop)
    exact fun hnone => Nat.not_lt_of_le hle (RamFs.resize_eq_none_iff.mp hnone)
  | create | symlink | unlink | rmdir | rename => cases hop

/-- What a call makes of the bytes of a file. A call that panics leaves them. -/
def editAt (op : Op) (i : InodeNum) (data : List UInt8) : List UInt8 := if op.edits = some i then (op.edit data).getD data else data

/-- The size of a file after a call is the one that the history counts, -/
theorem length_editAt {op : Op} {i : InodeNum} (h : op.Within i) (data : List UInt8) :
    (op.editAt i data).length = op.sizeAfter i data.length := by
  unfold editAt
  split
  · rename_i hop
    obtain ⟨data', hdata'⟩ := h.edit hop data
    rw [hdata', Option.getD_some]
    cases op with
    | write j offset buf =>
      rw [sizeAfter, if_pos (Option.some.inj hop)]
      exact RamFs.length_writeAt hdata'
    | truncate j size =>
      rw [sizeAfter, if_pos (Option.some.inj hop)]
      exact RamFs.length_resize hdata'
    | create | symlink | unlink | rmdir | rename => cases hop
  · rename_i hop
    cases op with
    | write j offset buf | truncate j size => rw [sizeAfter, if_neg (by rintro rfl; exact hop rfl)]
    | create | symlink | unlink | rmdir | rename => rfl

/-- and so are its bytes. -/
theorem byteAt_editAt {op : Op} {i : InodeNum} (h : op.Within i) (data : List UInt8) (p : Nat) :
    RamFs.byteAt (op.editAt i data) p = (op.decides i p).getD (RamFs.byteAt data p) := by
  unfold editAt
  split
  · rename_i hop
    obtain ⟨data', hdata'⟩ := h.edit hop data
    rw [hdata', Option.getD_some]
    cases op with
    | write j offset buf =>
      obtain rfl := Option.some.inj hop
      simp only [decides, true_and, RamFs.byteAt_writeAt hdata']
      by_cases hp : offset ≤ p
      · simp only [hp, if_true, true_and]
        split
        · rename_i hend
          rw [RamFs.byteAt, List.getElem?_eq_getElem (by omega)]
          rfl
        · rename_i hend
          rw [List.getElem?_eq_none (by omega)]
          rfl
      · simp only [hp, if_false, false_and, Option.getD_none]
    | truncate j size =>
      obtain rfl := Option.some.inj hop
      simp only [decides, true_and, RamFs.byteAt_resize hdata']
      split <;> rfl
    | create | symlink | unlink | rmdir | rename => cases hop
  · rename_i hop
    cases op with
    | write j offset buf | truncate j size =>
      have hj : j ≠ i := by
        rintro rfl
        exact hop rfl
      rw [decides, if_neg fun hand => hj hand.1]
      rfl
    | create | symlink | unlink | rmdir | rename => rfl

/-- One call: as long as the file is there its bytes are edited by the calls on it and by no other call. -/
theorem content_run {s s' : Inner} {op : Op} {r : FsResult Unit} (h : s.Inv) (hrun : op.run s = some (r, s')) {i : InodeNum}
    {data : List UInt8} (hdata : s.content i = some data) (hwithin : op.Within i) (hlive : s'.parentOf i ≠ none) :
    s'.content i = some (op.editAt i data) := by
  by_cases hop : op.edits = some i
  · obtain ⟨data', hdata'⟩ := hwithin.edit hop data
    rw [editAt, if_pos hop, hdata', Option.getD_some]
    cases op with
    | write j offset buf =>
      obtain rfl := Option.some.inj hop
      have hlt : offset + buf.length < 2 ^ 64 := Nat.lt_of_le_of_lt (hwithin rfl) (by decide)
      obtain ⟨s₁, hs₁, hcontent, -⟩ := RamFs.write_file hdata hlt hdata'
      have hsame : ((RamFs.write s j offset buf).1.map fun _ => (), (RamFs.write s j offset buf).2) = (r, s') := Option.some.inj hrun
      rw [hs₁] at hsame
      rw [← (Prod.mk.inj hsame).2]
      exact hcontent
    | truncate j size =>
      obtain rfl := Option.some.inj hop
      obtain ⟨s₁, hs₁, hcontent, -⟩ := RamFs.truncate_content hdata hdata'
      obtain ⟨-, rfl⟩ := Prod.mk.inj (hs₁.symm.trans (Option.some.inj hrun))
      exact hcontent
    | create | symlink | unlink | rmdir | rename => cases hop
  · have hnew : i ≠ s.nextInode := by
      rintro rfl
      obtain ⟨node, hnode, -⟩ := RamFs.content_eq_some hdata
      rw [(parentOf_eq_none_iff s _).mp h.parentOf_nextInode] at hnode
      cases hnode
    rw [editAt, if_neg hop, ← hdata]
    rcases (run_effect hrun).payloadOf hnew hop with hnone | hsame
    · rw [payloadOf_eq_none_iff, ← parentOf_eq_none_iff] at hnone
      exact absurd hnone hlive
    · exact content_of_payloadOf hsame

end Op

/-- The size of a file after its history. -/
def sizeAfter (i : InodeNum) (ops : List Op) : Nat := ops.foldl (Op.sizeAfter i) 0

/-- The byte of a file at `p` after its history: what the last call that says anything about it says, and 0 if none does. -/
def byteAfter (i : InodeNum) (ops : List Op) (p : Nat) : UInt8 := (ops.reverse.findSome? (Op.decides i p)).getD 0

/-- The bytes of a file that is still there are the edits of its history, one after the other. -/
theorem content_runOps {s t : Inner} (h : s.Inv) {i : InodeNum} {data : List UInt8} (hdata : s.content i = some data) {ops : List Op}
    (hwithin : ∀ op ∈ ops, op.Within i) (hrun : runOps s ops = some t) (hlive : t.parentOf i ≠ none) :
    t.content i = some (ops.foldl (fun data op => op.editAt i data) data) := by
  induction ops generalizing s data with
  | nil =>
    obtain rfl := Option.some.inj hrun
    exact hdata
  | cons op ops ih =>
    obtain ⟨r, s₁, hop, hc⟩ := op.run_change h
    simp only [runOps, hop, Option.bind_some] at hrun
    have h₁ := h.changes hc
    -- a file that were gone after this call would be gone at the end
    have hlive₁ : s₁.parentOf i ≠ none := by
      intro hnone
      obtain ⟨node, hnode, -⟩ := RamFs.content_eq_some hdata
      have hlt : i < s.nextInode := h.below (p := node.parent) (by simp [parentOf, hnode])
      have hlt₁ := h.changes_preserve (fun _ hlt hc => Nat.lt_of_lt_of_le hlt hc.nextInode_le) hlt hc
      obtain ⟨-, hgone⟩ := runOps_preserves (fun h hi hc => hc.gone h hi) h₁ ⟨hnone, hlt₁⟩ hrun
      exact hlive hgone.1
    exact ih h₁ (Op.content_run h hop hdata (hwithin op List.mem_cons_self) hlive₁)
      (fun op hmem => hwithin op (List.mem_cons_of_mem _ hmem)) hrun

/-- A run of edits and the history they come from. -/
theorem foldl_editAt {i : InodeNum} {ops : List Op} (hwithin : ∀ op ∈ ops, op.Within i) :
    let data := ops.foldl (fun data op => op.editAt i data) []
    data.length = sizeAfter i ops ∧ ∀ p, RamFs.byteAt data p = byteAfter i ops p := by
  induction ops using List.reverseRecOn with
  | nil => exact ⟨rfl, fun p => rfl⟩
  | append_singleton ops op ih =>
    obtain ⟨hsize, hbytes⟩ := ih fun op hmem => hwithin op (List.mem_append_left _ hmem)
    have hop := hwithin op (List.mem_append_right _ List.mem_cons_self)
    simp only [sizeAfter, byteAfter, List.foldl_append, List.foldl_cons, List.foldl_nil, List.reverse_append, List.reverse_singleton,
      List.singleton_append, List.findSome?_cons]
    refine ⟨?_, ?_⟩
    · rw [Op.length_editAt hop, hsize]
      rfl
    · intro p
      rw [Op.byteAt_editAt hop, hbytes]
      cases op.decides i p <;> rfl

/-- A regular file is created in any table that can be reached, and then any calls are made, of which the writes and truncations of the file
leave it no longer than a vector can be. If the file is still there, its size and its bytes are those of its history. -/
theorem file_follows_history (before : List Op) {s s₁ : Inner} (hs : runOps RamFs.new before = some s) {d i : InodeNum} {name : String}
    {mode : Mode} (hcreate : RamFs.create s d name .regular mode = (.ok i, s₁)) (ops : List Op) (hwithin : ∀ op ∈ ops, op.Within i)
    {t : Inner} (ht : runOps s₁ ops = some t) (hlive : i ∈ t.nodes) :
    (∃ m, RamFs.metadata t i = .ok m ∧ m.fileType = .regular ∧ m.size = sizeAfter i ops) ∧
      ∀ offset buf, ∃ out, RamFs.read t i offset buf = .ok (min buf.length (sizeAfter i ops - offset), out) ∧
        ∀ k, out[k]? = if k < min buf.length (sizeAfter i ops - offset) then some (byteAfter i ops (offset + k)) else buf[k]? := by
  obtain ⟨s₀, hs₀, h⟩ := runOps_inv RamFs.new_inv before
  obtain rfl := Option.some.inj (hs₀.symm.trans hs)
  have hmade : (Op.create d name .regular mode).run s₀ = some (.ok (), s₁) := by
    simp [Op.run, hcreate, Except.map]
  have h₁ : s₁.Inv := h.changes ((Op.run_effect hmade).changes h)
  have hlive' : t.parentOf i ≠ none := by
    rw [Ne, parentOf_eq_none_iff]
    intro hnone
    rw [Std.ExtTreeMap.mem_iff_isSome_getElem?, hnone] at hlive
    cases hlive
  have hcontent := content_runOps h₁ (RamFs.create_content h hcreate) hwithin ht hlive'
  obtain ⟨hsize, hbytes⟩ := foldl_editAt hwithin
  generalize ops.foldl (fun data op => op.editAt i data) [] = data at hcontent hsize hbytes
  refine ⟨?_, ?_⟩
  · obtain ⟨node, hnode, hkind⟩ := RamFs.content_eq_some hcontent
    simp [RamFs.metadata, hnode, hkind, NodeKind.fileType, hsize]
  · intro offset buf
    obtain ⟨out, hread, hout⟩ := RamFs.read_file hcontent offset buf
    rw [hsize] at hread hout
    refine ⟨out, hread, ?_⟩
    intro k
    rw [hout k, hbytes]

/-- A sparse write, a cut in the middle of it, another name, and a write past the new end. -/
def cutHistory : List Op := [.write 2 1 [7, 8, 9], .truncate 2 2, .rename rootInode "f" rootInode "g", .write 2 4 [5]]

/-- What was cut off does not come back. -/
theorem file_follows_history_cut : ∃ s₁ t, RamFs.create RamFs.new rootInode "f" .regular 0o644 = (.ok 2, s₁) ∧
    runOps s₁ cutHistory = some t ∧ RamFs.read t 2 0 [1, 1, 1, 1, 1, 1] = .ok (5, [0, 7, 0, 0, 5, 1]) ∧
      ∃ m, RamFs.metadata t 2 = .ok m ∧ m.fileType = .regular ∧ m.size = sizeAfter 2 cutHistory := by
  have hcreate : RamFs.create RamFs.new rootInode "f" .regular 0o644 = (.ok 2, (RamFs.create RamFs.new rootInode "f" .regular 0o644).2) := rfl
  generalize hs₁ : (RamFs.create RamFs.new rootInode "f" .regular 0o644).2 = s₁ at hcreate
  have hsome : (runOps s₁ cutHistory).isSome = true := by
    subst hs₁
    rfl
  have hrun := (Option.some_get hsome).symm
  refine ⟨s₁, _, hcreate, hrun, by subst hs₁; rfl, (file_follows_history [] rfl hcreate cutHistory ?_ hrun ?_).1⟩
  · simp [cutHistory, Op.Within, RamFs.isizeMax]
  · rw [Std.ExtTreeMap.mem_iff_isSome_getElem?]
    subst hs₁
    rfl

/-- One byte past what a vector can hold, though within the address space: the write and the truncation panic, and the file stays empty. -/
theorem long_file_panics : ∃ s₁, RamFs.create RamFs.new rootInode "f" .regular 0o644 = (.ok 2, s₁) ∧
    2 ^ 63 - 1 + [(7 : UInt8)].length < 2 ^ 64 ∧ RamFs.write s₁ 2 (2 ^ 63 - 1) [7] = (.error .panic, s₁) ∧
      RamFs.truncate s₁ 2 (2 ^ 63) = (.error .panic, s₁) ∧ sizeAfter 2 [.write 2 (2 ^ 63 - 1) [7]] = 2 ^ 63 ∧ s₁.content 2 = some [] :=
  ⟨_, rfl, by decide, rfl, rfl, rfl, rfl⟩

end Fs

end GolemKernel
