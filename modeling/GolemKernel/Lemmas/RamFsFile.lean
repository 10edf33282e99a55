import GolemKernel.Lemmas.RamFsTree

/-!
# Names and files of a RamFs

What `lookup`, `metadata`, `write`, `truncate` and `create` do, said in terms of the tree of the table and of the bytes of its regular
files (`Inner.content`).
-/

namespace GolemKernel

namespace Fs

open GolemKernel.Fs.Inner

/-- The bytes of a regular file. -/
def Inner.content (s : Inner) (inode : InodeNum) : Option (List UInt8) :=
  match s.nodes[inode]? with
  | none => none
  | some node =>
    match node.kind with
    | .file data => some data
    | _ => none

/-- Storing what is already there changes nothing. -/
theorem Inner.insert_self {s : Inner} {i : InodeNum} {node : Node} (h : s.nodes[i]? = some node) :
    ({ s with nodes := s.nodes.insert i node } : Inner) = s := by
  have hnodes : s.nodes.insert i node = s.nodes := by
    refine Std.ExtTreeMap.ext_getElem? fun j => ?_
    simp only [Std.ExtTreeMap.getElem?_insert, Std.LawfulEqCmp.compare_eq_iff_eq]
    split
    · rename_i hj
      rw [← hj, h]
    · rfl
  rw [hnodes]

namespace RamFs

/-- Contents are those of a file. -/
theorem content_eq_some {s : Inner} {inode : InodeNum} {data : List UInt8} (h : s.content inode = some data) :
    ∃ node, s.nodes[inode]? = some node ∧ node.kind = .file data := by
  unfold Inner.content at h
  cases hnode : s.nodes[inode]? with
  | none => simp [hnode] at h
  | some node =>
    refine ⟨node, rfl, ?_⟩
    cases hkind : node.kind <;> simp_all

/-- `metadata` gives the length of the contents. -/
theorem metadata_size {s : Inner} {inode : InodeNum} {data : List UInt8} (h : s.content inode = some data) :
    ∃ m, metadata s inode = .ok m ∧ m.size = data.length := by
  obtain ⟨node, hnode, hkind⟩ := content_eq_some h
  simp [metadata, hnode, hkind]

/-- A write to a regular file that ends within the address space succeeds, unless the file would become too long for a vector. -/
theorem write_file {s : Inner} {inode : InodeNum} {data data' : List UInt8} (h : s.content inode = some data) {offset : Nat}
    {buf : List UInt8} (hlt : offset + buf.length < 2 ^ 64) (hdata : writeAt data offset buf = some data') :
    ∃ s', write s inode offset buf = (.ok buf.length, s') ∧ s'.content inode = some data' ∧ (data' = data → s' = s) := by
  obtain ⟨node, hnode, hkind⟩ := content_eq_some h
  simp only [write, hnode, hkind, if_pos hlt, hdata, storeFile]
  refine ⟨_, rfl, by simp [Inner.content], ?_⟩
  intro hsame
  rw [hsame, ← hkind]
  exact Inner.insert_self hnode

/-- Then it panics. -/
theorem write_panic {s : Inner} {inode : InodeNum} {data : List UInt8} (h : s.content inode = some data) {offset : Nat}
    {buf : List UInt8} (hlt : offset + buf.length < 2 ^ 64) (hnone : writeAt data offset buf = none) :
    write s inode offset buf = (.error .panic, s) := by
  obtain ⟨node, hnode, hkind⟩ := content_eq_some h
  simp only [write, hnode, hkind, if_pos hlt, hnone, storeFile]

/-- A write that ends outside the address space is refused. -/
theorem write_full {s : Inner} {inode : InodeNum} {data : List UInt8} (h : s.content inode = some data) {offset : Nat}
    {buf : List UInt8} (hge : ¬offset + buf.length < 2 ^ 64) : write s inode offset buf = (.error .noSpace, s) := by
  obtain ⟨node, hnode, hkind⟩ := content_eq_some h
  simp only [write, hnode, hkind, if_neg hge]

/-- A write to a regular file, whole or not at all. -/
theorem write_content {s : Inner} {inode : InodeNum} {data : List UInt8} (h : s.content inode = some data) (offset : Nat)
    (buf : List UInt8) :
    (∃ s' data', write s inode offset buf = (.ok buf.length, s') ∧ writeAt data offset buf = some data' ∧
      s'.content inode = some data') ∨ ∃ e, write s inode offset buf = (.error e, s) := by
  by_cases hlt : offset + buf.length < 2 ^ 64
  · cases hdata : writeAt data offset buf with
    | none => exact .inr ⟨_, write_panic h hlt hdata⟩
    | some data' =>
      obtain ⟨s', hs', hcontent, -⟩ := write_file h hlt hdata
      exact .inl ⟨s', data', hs', rfl, hcontent⟩
  · exact .inr ⟨_, write_full h hlt⟩

/-- What is not a regular file cannot be written. -/
theorem write_of_content_eq_none {s : Inner} {inode : InodeNum} (h : s.content inode = none) (offset : Nat) (buf : List UInt8) :
    ∃ e, write s inode offset buf = (.error e, s) ∧ e ≠ .panic := by
  unfold Inner.content at h
  unfold write
  split
  · exact ⟨_, rfl, by simp⟩
  · rename_i node hnode
    rw [hnode] at h
    split
    · rename_i data hkind
      simp [hkind] at h
    · exact ⟨_, rfl, by simp⟩
    · exact ⟨_, rfl, by simp⟩

/-- A vector can be resized to at most `isize::MAX` bytes. -/
theorem resize_eq_none_iff {data : List UInt8} {len : Nat} : resize data len = none ↔ isizeMax < len := by
  unfold resize
  split
  · simpa using by omega
  · simpa using by omega

/-- What a vector is after it was resized. -/
theorem resize_eq_some {data data' : List UInt8} {len : Nat} (h : resize data len = some data') :
    data' = data.take len ++ List.replicate (len - data.length) 0 := by
  unfold resize at h
  split at h
  · exact (Option.some.inj h).symm
  · cases h

/-- A vector that was resized has the length asked for. -/
theorem length_resize {data data' : List UInt8} {len : Nat} (h : resize data len = some data') : data'.length = len := by
  rw [resize_eq_some h, List.length_append, List.length_take, List.length_replicate]
  omega

/-- A write overwrites the file, or the longer file that it makes of it first. -/
theorem writeAt_eq_some {data data' : List UInt8} {offset : Nat} {buf : List UInt8} (h : writeAt data offset buf = some data') :
    ∃ long, (data.length < offset + buf.length ∧ resize data (offset + buf.length) = some long ∨
        offset + buf.length ≤ data.length ∧ long = data) ∧
      data' = long.take offset ++ buf ++ long.drop (offset + buf.length) := by
  obtain ⟨long, hlong, heq⟩ := Option.map_eq_some_iff.mp h
  refine ⟨long, ?_, heq.symm⟩
  split at hlong
  · rename_i hlt
    exact .inl ⟨hlt, hlong⟩
  · rename_i hle
    exact .inr ⟨Nat.le_of_not_lt hle, (Option.some.inj hlong).symm⟩

/-- A write panics if it makes the file longer than a vector can be. -/
theorem writeAt_eq_none_iff {data : List UInt8} {offset : Nat} {buf : List UInt8} :
    writeAt data offset buf = none ↔ data.length < offset + buf.length ∧ isizeMax < offset + buf.length := by
  refine Option.map_eq_none_iff.trans ?_
  split
  · rename_i hlt
    rw [resize_eq_none_iff, and_iff_right hlt]
  · rename_i hle
    simp [hle]

/-- A write makes the file longer if it ends past its end. -/
theorem length_writeAt {data data' : List UInt8} {offset : Nat} {buf : List UInt8} (h : writeAt data offset buf = some data') :
    data'.length = max data.length (offset + buf.length) := by
  obtain ⟨long, hlong, rfl⟩ := writeAt_eq_some h
  rw [List.length_append, List.length_append, List.length_take, List.length_drop]
  rcases hlong with ⟨hlt, hresize⟩ | ⟨hle, rfl⟩
  · rw [length_resize hresize]
    omega
  · omega

/-- An empty write stores nothing, but extends the file up to its offset. -/
theorem writeAt_nil (data : List UInt8) (offset : Nat) :
    writeAt data offset [] = if data.length < offset then resize data offset else some data := by
  simp only [writeAt, List.length_nil, Nat.add_zero, List.append_nil, List.take_append_drop, Option.map_id']

/-- A write at the end of a file appends to it. -/
theorem writeAt_length {data data' buf : List UInt8} (h : writeAt data data.length buf = some data') : data' = data ++ buf := by
  obtain ⟨long, ⟨hlt, hresize⟩ | ⟨hle, rfl⟩, rfl⟩ := writeAt_eq_some h
  · rw [resize_eq_some hresize, List.take_of_length_le hlt.le]
    simp
  · obtain rfl : buf = [] := List.eq_nil_of_length_eq_zero (by omega)
    simp

/-- To truncate a regular file to a length that a vector can have succeeds, and other files, names and directories do not see it. -/
theorem truncate_content {s : Inner} {inode : InodeNum} {data data' : List UInt8} (h : s.content inode = some data) {size : Nat}
    (hdata : resize data size = some data') :
    ∃ s', truncate s inode size = (.ok (), s') ∧ s'.content inode = some data' ∧ s'.tree = s.tree ∧ ∀ j, s'.isDir j = s.isDir j := by
  obtain ⟨node, hnode, hkind⟩ := content_eq_some h
  simp only [truncate, hnode, hkind, hdata, storeFile]
  exact ⟨_, rfl, by simp [Inner.content], tree_insert hnode (by simp [hkind, NodeKind.entries?]) (by simp [hkind, NodeKind.isDirectory])⟩

/-- Any vector can be emptied. -/
theorem resize_zero (data : List UInt8) : resize data 0 = some [] := by
  simp [resize]

/-- To truncate an empty file changes nothing. -/
theorem truncate_empty {s : Inner} {inode : InodeNum} (h : s.content inode = some []) : truncate s inode 0 = (.ok (), s) := by
  obtain ⟨node, hnode, hkind⟩ := content_eq_some h
  have hsame : { node with kind := .file [] } = node := by
    rw [← hkind]
  simp only [truncate, hnode, hkind, resize_zero, storeFile, hsame, Inner.insert_self hnode]

/-- `lookup` in terms of the tree: `.` and `..` are the directory and its parent, and any other name is an entry. -/
theorem lookup_eq (s : Inner) (d : InodeNum) (name : String) :
    lookup s d name =
      if s.parentOf d = none then .error .notFound
      else if s.isDir d = false then .error .notADirectory
      else if name = "." then .ok d
      else if name = ".." then .ok ((s.parentOf d).getD rootInode)
      else match s.entryAt d name with
        | some i => .ok i
        | none => .error .notFound := by
  unfold lookup Inner.isDir Inner.parentOf Inner.entryAt Inner.entriesOf
  cases hnode : s.nodes[d]? with
  | none => rfl
  | some node =>
    cases hkind : node.kind with
    | directory entries =>
      cases hentry : entries[name]? <;> simp [hkind, hentry, NodeKind.isDirectory, NodeKind.entries?]
    | file data => simp [hkind, NodeKind.isDirectory]
    | symlink target => simp [hkind, NodeKind.isDirectory]

/-- A lookup in a directory: the directory, its parent or one of its entries. -/
theorem lookup_directory {s : Inner} {d : InodeNum} (hd : s.isDir d = true) (name : String) :
    lookup s d name =
      if name = "." then .ok d
      else if name = ".." then .ok ((s.parentOf d).getD rootInode)
      else match s.entryAt d name with
        | some i => .ok i
        | none => .error .notFound := by
  obtain ⟨p, hp⟩ := parentOf_of_isDir hd
  rw [lookup_eq, if_neg (by simp [hp]), if_neg (by simp [hd])]

/-- What a lookup that succeeds has found. -/
theorem lookup_eq_ok_iff {s : Inner} {d i : InodeNum} {name : String} :
    lookup s d name = .ok i ↔ s.isDir d = true ∧
      if name = "." then i = d else if name = ".." then s.parentOf d = some i else s.entryAt d name = some i := by
  cases hd : s.isDir d with
  | false =>
    rw [lookup_eq, if_pos hd]
    split <;> simp
  | true =>
    obtain ⟨p, hp⟩ := parentOf_of_isDir hd
    rw [lookup_directory hd]
    split
    · simp [eq_comm]
    · split
      · simp [hp]
      · cases s.entryAt d name <;> simp

/-- A name other than `..` is looked up in the entries of the directory. -/
theorem lookup_congr {s s' : Inner} {d : InodeNum} {name : String} (hname : name ≠ "..")
    (hlive : s'.parentOf d = none ↔ s.parentOf d = none) (hdir : s'.isDir d = s.isDir d)
    (hentry : s'.entryAt d name = s.entryAt d name) : lookup s' d name = lookup s d name := by
  simp only [lookup_eq, hlive, hdir, hentry, if_neg hname]

/-- What is found depends on the tree and on what is a directory. -/
theorem lookup_eq_ok_congr {s t : Inner} (htree : s.tree = t.tree) (hdir : ∀ j, s.isDir j = t.isDir j) {d i : InodeNum}
    {name : String} : lookup s d name = .ok i ↔ lookup t d name = .ok i := by
  have hparent : s.parentOf = t.parentOf := congrArg NamedTree.parent htree
  have hentry : s.entryAt = t.entryAt := congrArg NamedTree.entry htree
  rw [lookup_eq_ok_iff, lookup_eq_ok_iff, hparent, hentry, hdir]

/-! ## Creating a file -/

/-- The check of `create` on a directory: whether the name is taken. -/
theorem checkVacant_eq {s : Inner} {d : InodeNum} (hd : s.isDir d = true) (name : String) :
    checkVacant s d name = if (s.entryAt d name).isSome then .error .alreadyExists else .ok () := by
  obtain ⟨node, entries, hnode, hkind⟩ := exists_directory hd
  simp only [checkVacant, Inner.entryAt, Inner.entriesOf, hnode, hkind, NodeKind.entries?, Option.bind_some,
    Std.ExtTreeMap.mem_iff_isSome_getElem?]

/-- A name that is taken is refused. -/
theorem create_taken {s : Inner} {d i : InodeNum} {name : String} (hname : validateName name = .ok ()) (hd : s.isDir d = true)
    (htaken : s.entryAt d name = some i) (fileType : FileType) (mode : Mode) :
    create s d name fileType mode = (.error .alreadyExists, s) := by
  simp [create, hname, checkVacant_eq hd, htaken]

/-- Under a valid and vacant name an empty file is added. -/
theorem create_vacant {s : Inner} {d : InodeNum} {name : String} (hname : validateName name = .ok ()) (hd : s.isDir d = true)
    (hfree : s.entryAt d name = none) (mode : Mode) : create s d name .regular mode = addNode s d name (.file []) mode := by
  simp [create, hname, checkVacant_eq hd, hfree, newKind]

/-- A new regular file is an empty file, grafted under its parent. -/
theorem create_file {s : Inner} {d : InodeNum} {name : String} (hname : validateName name = .ok ()) (hd : s.isDir d = true)
    (hfree : s.entryAt d name = none) (hnew : s.nodes[s.nextInode]? = none) (hspace : s.nextInode + 1 < 2 ^ 64) (mode : Mode) :
    ∃ s', create s d name .regular mode = (.ok s.nextInode, s') ∧ s'.tree = s.tree.graft d name s.nextInode ∧
      (∀ j, j ≠ s.nextInode → s'.isDir j = s.isDir j) ∧ s'.content s.nextInode = some [] := by
  have hdn : d ≠ s.nextInode := by
    rintro rfl
    simp [Inner.isDir, hnew] at hd
  rw [create_vacant hname hd hfree]
  cases hadd : addNode s d name (.file []) mode with
  | mk r s' =>
    have hok := hadd
    simp only [addNode, if_pos hspace] at hok
    obtain ⟨rfl, hs'⟩ := Prod.mk.inj hok
    obtain ⟨-, -, htree, hdir⟩ := addNode_ok hadd hd hnew fun m => by simp [NodeKind.entries?]
    refine ⟨s', rfl, htree, hdir, ?_⟩
    rw [← hs', Inner.content, nodes_modifyEntries, if_neg hdn]
    simp

end RamFs

end Fs

end GolemKernel
