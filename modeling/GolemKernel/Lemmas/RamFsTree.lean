import GolemKernel.Fs.RamFs
import GolemKernel.Lib.ParentTree

/-!
# The tree of a RamFs

An inode table read as a `NamedTree`: the parent fields of its nodes and the entries of its directories. The statements here say
what the steps of the operations (`modifyEntries`, `removeNode`, `addNode`, `moveEntry`) do to that tree, to which inodes are
directories, and to the next inode number.
-/

namespace GolemKernel

namespace Fs

namespace Inner

/-- The parent field of an inode, if the table has it. -/
def parentOf (s : Inner) (i : InodeNum) : Option InodeNum := s.nodes[i]?.map (·.parent)

/-- The entries of an inode, if it is a directory of the table. -/
def entriesOf (s : Inner) (d : InodeNum) : Option (BTreeMap String InodeNum) := s.nodes[d]?.bind (·.kind.entries?)

/-- What the directory `d` holds under a name. -/
def entryAt (s : Inner) (d : InodeNum) (name : String) : Option InodeNum := (s.entriesOf d).bind (·[name]?)

/-- The tree an inode table stores, once in its parent fields and once in its directories. -/
def tree (s : Inner) : NamedTree InodeNum String := ⟨s.parentOf, s.entryAt⟩

@[simp] theorem tree_parent (s : Inner) : s.tree.parent = s.parentOf := rfl

@[simp] theorem tree_entry (s : Inner) : s.tree.entry = s.entryAt := rfl

/-- An inode has a parent exactly if it is in the table. -/
theorem parentOf_eq_none_iff (s : Inner) (i : InodeNum) : s.parentOf i = none ↔ s.nodes[i]? = none := by
  simp [parentOf]

/-- A directory is an inode with entries. -/
theorem isDir_iff (s : Inner) (d : InodeNum) : s.isDir d = true ↔ ∃ es, s.entriesOf d = some es := by
  unfold isDir entriesOf
  cases h : s.nodes[d]? with
  | none => simp
  | some n => cases hk : n.kind <;> simp [NodeKind.isDirectory, NodeKind.entries?, hk]

/-- A directory is a node of the table with its entries. -/
theorem exists_directory {s : Inner} {d : InodeNum} (h : s.isDir d = true) : ∃ n es, s.nodes[d]? = some n ∧ n.kind = .directory es := by
  unfold isDir at h
  cases hn : s.nodes[d]? with
  | none => simp [hn] at h
  | some n =>
    cases hk : n.kind with
    | directory es => exact ⟨n, es, rfl, hk⟩
    | file data => simp [hn, hk, NodeKind.isDirectory] at h
    | symlink target => simp [hn, hk, NodeKind.isDirectory] at h

/-- A directory is present. -/
theorem parentOf_of_isDir {s : Inner} {d : InodeNum} (h : s.isDir d = true) : ∃ p, s.parentOf d = some p := by
  obtain ⟨n, es, hn, -⟩ := exists_directory h
  exact ⟨n.parent, by simp [parentOf, hn]⟩

/-- An inode that is not a directory has no entries. -/
theorem entryAt_of_not_isDir {s : Inner} {d : InodeNum} (h : s.isDir d = false) (name : String) : s.entryAt d name = none := by
  have hno : s.entriesOf d = none := by
    cases he : s.entriesOf d with
    | none => rfl
    | some es =>
      rw [(isDir_iff s d).2 ⟨es, he⟩] at h
      nomatch h
  simp [entryAt, hno]

/-- An empty map holds nothing under any name. -/
theorem getElem?_of_isEmpty {es : BTreeMap String InodeNum} (h : es.isEmpty = true) (name : String) : es[name]? = none := by
  rw [Std.ExtTreeMap.isEmpty_iff.mp h]
  exact Std.ExtTreeMap.getElem?_empty

/-! ## The two primitive updates -/

@[simp] theorem modifyEntries_nextInode (s : Inner) (d : InodeNum) (f : BTreeMap String InodeNum → BTreeMap String InodeNum) :
    (s.modifyEntries d f).nextInode = s.nextInode := rfl

/-- A change of the entries of a directory changes its node and no other. -/
theorem nodes_modifyEntries (s : Inner) (d i : InodeNum) (f : BTreeMap String InodeNum → BTreeMap String InodeNum) :
    (s.modifyEntries d f).nodes[i]? =
      if d = i then s.nodes[i]?.map (fun n => { n with kind := n.kind.mapEntries f }) else s.nodes[i]? := by
  simp only [modifyEntries, Std.ExtTreeMap.getElem?_modify, Std.LawfulEqCmp.compare_eq_iff_eq]
  by_cases h : d = i
  · subst h; rfl
  · simp [h]

/-- A node that is removed is gone, and the others are there. -/
theorem nodes_removeNode (s : Inner) (j i : InodeNum) :
    (s.removeNode j).nodes[i]? = if j = i then none else s.nodes[i]? := by
  simp only [removeNode, Std.ExtTreeMap.getElem?_erase, Std.LawfulEqCmp.compare_eq_iff_eq]

@[simp] theorem parentOf_modifyEntries (s : Inner) (d : InodeNum)
    (f : BTreeMap String InodeNum → BTreeMap String InodeNum) (i : InodeNum) :
    (s.modifyEntries d f).parentOf i = s.parentOf i := by
  simp only [parentOf, nodes_modifyEntries]
  split
  · cases s.nodes[i]? <;> rfl
  · rfl

@[simp] theorem isDir_modifyEntries (s : Inner) (d : InodeNum) (f : BTreeMap String InodeNum → BTreeMap String InodeNum)
    (i : InodeNum) : (s.modifyEntries d f).isDir i = s.isDir i := by
  simp only [isDir, nodes_modifyEntries]
  split
  · cases h : s.nodes[i]? with
    | none => rfl
    | some n => cases hk : n.kind <;> simp [NodeKind.isDirectory, NodeKind.mapEntries, hk]
  · rfl

/-- The entries of the other directories stay. -/
theorem entriesOf_modifyEntries (s : Inner) (d : InodeNum) (f : BTreeMap String InodeNum → BTreeMap String InodeNum)
    (e : InodeNum) : (s.modifyEntries d f).entriesOf e = if d = e then (s.entriesOf e).map f else s.entriesOf e := by
  simp only [entriesOf, nodes_modifyEntries]
  split
  · cases h : s.nodes[e]? with
    | none => rfl
    | some n => cases hk : n.kind <;> simp [NodeKind.entries?, NodeKind.mapEntries, hk]
  · rfl

/-- Erasing a name from a directory. -/
theorem entryAt_eraseName (s : Inner) (d e : InodeNum) (name m : String) :
    (s.modifyEntries d (·.erase name)).entryAt e m = if e = d ∧ m = name then none else s.entryAt e m := by
  simp only [entryAt, entriesOf_modifyEntries]
  by_cases hd : d = e
  · subst hd
    cases s.entriesOf d with
    | none => simp
    | some es =>
      simp only [if_true, Option.map_some, Option.bind_some, Std.ExtTreeMap.getElem?_erase,
        Std.LawfulEqCmp.compare_eq_iff_eq, true_and, eq_comm (a := m)]
  · simp [hd, Ne.symm hd]

/-- Entering a name in a directory. -/
theorem entryAt_insertName (s : Inner) (d e : InodeNum) (name m : String) (i : InodeNum) (hd : s.isDir d = true) :
    (s.modifyEntries d (·.insert name i)).entryAt e m = if e = d ∧ m = name then some i else s.entryAt e m := by
  simp only [entryAt, entriesOf_modifyEntries]
  by_cases h : d = e
  · subst h
    obtain ⟨es, hes⟩ := (isDir_iff s d).1 hd
    simp only [hes, if_true, Option.map_some, Option.bind_some, Std.ExtTreeMap.getElem?_insert,
      Std.LawfulEqCmp.compare_eq_iff_eq, true_and, eq_comm (a := m)]
  · simp [h, Ne.symm h]

@[simp] theorem parentOf_removeNode (s : Inner) (j : InodeNum) :
    (s.removeNode j).parentOf = Function.update s.parentOf j none := by
  funext i
  simp only [parentOf, nodes_removeNode, Function.update_apply, eq_comm]
  split <;> rfl

/-- What the others are stays. -/
theorem isDir_removeNode (s : Inner) (j i : InodeNum) (h : i ≠ j) : (s.removeNode j).isDir i = s.isDir i := by
  simp [isDir, nodes_removeNode, h.symm]

/-- Removing a node without entries takes no entry away. -/
theorem entryAt_removeNode (s : Inner) (j : InodeNum) (hleaf : ∀ m, s.entryAt j m = none) :
    (s.removeNode j).entryAt = s.entryAt := by
  funext e m
  by_cases h : j = e
  · subst h
    rw [hleaf m]
    simp [entryAt, entriesOf, nodes_removeNode]
  · simp [entryAt, entriesOf, nodes_removeNode, h]

end Inner

open GolemKernel.Fs.Inner

namespace RamFs

/-! ## What the shared pieces of the operations do to the tree -/

/-- A child that was found has an entry. -/
theorem childOf_ok {s : Inner} {d : InodeNum} {name : String} {i : InodeNum} (h : childOf s d name = .ok i) :
    s.entryAt d name = some i := by
  unfold childOf at h
  unfold Inner.entryAt Inner.entriesOf
  cases hn : s.nodes[d]? with
  | none => simp [hn] at h
  | some n =>
    cases hk : n.kind with
    | directory es =>
      simp only [hn, hk] at h
      cases he : es[name]? with
      | none => simp [he] at h
      | some j =>
        simp only [he, Except.ok.injEq] at h
        simp [NodeKind.entries?, hk, he, h]
    | file _ => simp [hn, hk] at h
    | symlink _ => simp [hn, hk] at h

/-- A name that is vacant is so in a directory. -/
theorem checkVacant_ok {s : Inner} {d : InodeNum} {name : String} (h : checkVacant s d name = .ok ()) :
    s.isDir d = true ∧ s.entryAt d name = none := by
  unfold checkVacant at h
  unfold Inner.entryAt Inner.entriesOf Inner.isDir
  cases hn : s.nodes[d]? with
  | none => simp [hn] at h
  | some n =>
    cases hk : n.kind with
    | directory es =>
      simp only [hn, hk] at h
      split at h
      · nomatch h
      · rename_i hmem
        rw [Std.ExtTreeMap.mem_iff_isSome_getElem?] at hmem
        have he : es[name]? = none := Option.not_isSome_iff_eq_none.mp hmem
        simp [NodeKind.isDirectory, NodeKind.entries?, hk, he]
    | file _ => simp [hn, hk] at h
    | symlink _ => simp [hn, hk] at h

/-- The node a call makes has no entries. -/
theorem newKind_ok {ft : FileType} {kind : NodeKind} (h : newKind ft = .ok kind) (name : String) :
    kind.entries?.bind (·[name]?) = none := by
  cases ft <;> simp only [newKind, Except.ok.injEq, reduceCtorEq] at h <;> subst h <;> simp [NodeKind.entries?]

/-- A node of the same type with the same parent and entries: the tree does not see the difference. -/
theorem tree_insert {s : Inner} {inode : InodeNum} {node : Node} (hn : s.nodes[inode]? = some node) {kind : NodeKind}
    (hent : kind.entries? = node.kind.entries?) (hdir : kind.isDirectory = node.kind.isDirectory) :
    ({ s with nodes := s.nodes.insert inode { node with kind := kind } } : Inner).tree = s.tree ∧
      ∀ j, ({ s with nodes := s.nodes.insert inode { node with kind := kind } } : Inner).isDir j = s.isDir j := by
  have hget : ∀ j : InodeNum, (s.nodes.insert inode { node with kind := kind })[j]? =
      if inode = j then some { node with kind := kind } else s.nodes[j]? := by
    intro j
    simp only [Std.ExtTreeMap.getElem?_insert, Std.LawfulEqCmp.compare_eq_iff_eq]
  refine ⟨?_, ?_⟩
  · simp only [Inner.tree, NamedTree.mk.injEq]
    constructor
    · funext j
      by_cases hj : inode = j
      · subst hj
        simp [Inner.parentOf, hn]
      · simp [Inner.parentOf, hget, hj]
    · funext e m
      by_cases he : inode = e
      · subst he
        simp [Inner.entryAt, Inner.entriesOf, hn, hent]
      · simp [Inner.entryAt, Inner.entriesOf, hget, he]
  · intro j
    by_cases hj : inode = j
    · subst hj
      simp [Inner.isDir, hn, hdir]
    · simp [Inner.isDir, hget, hj]

/-- A new node is grafted under its parent, and takes the next inode number. -/
theorem addNode_ok {s s' : Inner} {d : InodeNum} {name : String} {kind : NodeKind} {mode : Mode} {i : InodeNum}
    (h : addNode s d name kind mode = (.ok i, s')) (hd : s.isDir d = true) (hnew : s.nodes[s.nextInode]? = none)
    (hkind : ∀ m : String, kind.entries?.bind (·[m]?) = none) :
    i = s.nextInode ∧ s'.nextInode = s.nextInode + 1 ∧ s'.tree = s.tree.graft d name s.nextInode ∧
      ∀ j, j ≠ s.nextInode → s'.isDir j = s.isDir j := by
  unfold addNode at h
  simp only at h
  split at h
  · rename_i hlt
    simp only [Prod.mk.injEq, Except.ok.injEq] at h
    obtain ⟨rfl, rfl⟩ := h
    obtain ⟨node, hnode⟩ : ∃ node : Node, node = ⟨d, kind, mode, 0, 0, 0, 0, 0⟩ := ⟨_, rfl⟩
    obtain ⟨s1, hs1⟩ : ∃ s1 : Inner, s1 = ⟨s.nodes.insert s.nextInode node, s.nextInode + 1⟩ := ⟨_, rfl⟩
    rw [← hnode, ← hs1]
    have hget : ∀ j, s1.nodes[j]? = if s.nextInode = j then some node else s.nodes[j]? := by
      intro j
      simp only [hs1, Std.ExtTreeMap.getElem?_insert, Std.LawfulEqCmp.compare_eq_iff_eq]
    have hdir : ∀ j, j ≠ s.nextInode → s1.isDir j = s.isDir j := by
      intro j hj
      simp [Inner.isDir, hget, hj.symm]
    have hdn : d ≠ s.nextInode := by
      rintro rfl
      simp [Inner.isDir, hnew] at hd
    have hpar : s1.parentOf = Function.update s.parentOf s.nextInode (some d) := by
      funext j
      simp only [Inner.parentOf, hget, Function.update_apply, eq_comm]
      split
      · simp [hnode]
      · rfl
    have hent : s1.entryAt = s.entryAt := by
      funext e m
      by_cases he : s.nextInode = e
      · subst he
        simp only [Inner.entryAt, Inner.entriesOf, hget, if_true, hnew]
        simpa [hnode] using hkind m
      · simp [Inner.entryAt, Inner.entriesOf, hget, he]
    refine ⟨rfl, by simp [hs1], ?_, fun j hj => by simp [hdir j hj]⟩
    simp only [Inner.tree, NamedTree.graft, NamedTree.mk.injEq]
    refine ⟨by funext j; simp [hpar], ?_⟩
    funext e m
    rw [entryAt_insertName s1 d e name m s.nextInode (by rw [hdir d hdn]; exact hd), hent]
  · cases h

/-- Erasing an entry and the leaf it names prunes the leaf, in either order. -/
theorem tree_eraseName_removeNode {s : Inner} {d : InodeNum} {name : String} {i : InodeNum}
    (hleaf : ∀ m, s.entryAt i m = none) :
    ((s.modifyEntries d (·.erase name)).removeNode i).tree = s.tree.prune d name i := by
  have hleaf' : ∀ m, (s.modifyEntries d (·.erase name)).entryAt i m = none := by
    intro m
    rw [entryAt_eraseName, hleaf m]
    simp
  simp only [Inner.tree, NamedTree.prune, NamedTree.mk.injEq]
  refine ⟨?_, ?_⟩
  · funext j
    simp [Function.update_apply]
  · funext e m
    rw [entryAt_removeNode _ _ hleaf', entryAt_eraseName]

/-- On the tree, to remove a node and its entry is to prune. -/
theorem tree_removeNode_eraseName {s : Inner} {d : InodeNum} {name : String} {i : InodeNum}
    (hleaf : ∀ m, s.entryAt i m = none) :
    ((s.removeNode i).modifyEntries d (·.erase name)).tree = s.tree.prune d name i := by
  simp only [Inner.tree, NamedTree.prune, NamedTree.mk.injEq]
  refine ⟨by funext j; simp, ?_⟩
  funext e m
  rw [entryAt_eraseName, entryAt_removeNode s i hleaf]

/-- A moved entry changes the two directories and the parent of the child. -/
theorem nodes_moveEntry (s : Inner) (d : InodeNum) (n : String) (d' : InodeNum) (n' : String) (i j : InodeNum) :
    (moveEntry s d n d' n' i).nodes[j]? =
      if i = j then (((s.modifyEntries d (·.erase n)).modifyEntries d' (·.insert n' i)).nodes[j]?).map
        (fun c => { c with parent := d' })
      else ((s.modifyEntries d (·.erase n)).modifyEntries d' (·.insert n' i)).nodes[j]? := by
  simp only [moveEntry, Std.ExtTreeMap.getElem?_modify, Std.LawfulEqCmp.compare_eq_iff_eq]
  by_cases h : i = j
  · subst h; rfl
  · simp [h]

/-- The end of `rename` moves the node. -/
theorem tree_moveEntry {s : Inner} {d d' : InodeNum} {n n' : String} {i p : InodeNum} (hi : s.parentOf i = some p)
    (hd' : s.isDir d' = true) : (moveEntry s d n d' n' i).tree = s.tree.move d n i d' n' := by
  have hp : ∀ j, ((s.modifyEntries d (·.erase n)).modifyEntries d' (·.insert n' i)).nodes[j]?.map (·.parent) =
      s.parentOf j := by
    intro j
    exact (parentOf_modifyEntries _ d' _ j).trans (parentOf_modifyEntries s d _ j)
  simp only [Inner.tree, NamedTree.move, NamedTree.mk.injEq]
  constructor
  · funext j
    simp only [Inner.parentOf, nodes_moveEntry, Function.update_apply]
    by_cases h : i = j
    · subst h
      obtain ⟨c, hc, -⟩ := Option.map_eq_some_iff.mp ((hp i).trans hi)
      simp [hc]
    · simp only [if_neg h, if_neg (Ne.symm h)]
      exact hp j
  · funext e m
    have he : (moveEntry s d n d' n' i).entryAt e m =
        ((s.modifyEntries d (·.erase n)).modifyEntries d' (·.insert n' i)).entryAt e m := by
      simp only [Inner.entryAt, Inner.entriesOf, nodes_moveEntry]
      by_cases h : i = e
      · subst h
        simp only [if_true, Option.bind_map]
        rfl
      · simp [h]
    rw [he, entryAt_insertName _ d' e n' m i (by simp [hd']), entryAt_eraseName]

/-- And leaves which nodes are directories. -/
theorem isDir_moveEntry (s : Inner) (d : InodeNum) (n : String) (d' : InodeNum) (n' : String) (i j : InodeNum) :
    (moveEntry s d n d' n' i).isDir j = s.isDir j := by
  have h1 : (moveEntry s d n d' n' i).isDir j =
      ((s.modifyEntries d (·.erase n)).modifyEntries d' (·.insert n' i)).isDir j := by
    simp only [Inner.isDir, nodes_moveEntry]
    by_cases h : i = j
    · subst h
      simp only [if_true, Option.map_map]
      rfl
    · simp [h]
  rw [h1, isDir_modifyEntries, isDir_modifyEntries]

/-- What `rename` has checked of a target it replaces: the two are both directories or both not, and the target is a leaf. -/
theorem replaceTarget_ok {s s' : Inner} {i d' : InodeNum} {n' : String} {eid : InodeNum}
    (h : replaceTarget s i d' n' eid = .ok s') :
    s.isDir i = s.isDir eid ∧ (∀ m, s.entryAt eid m = none) ∧
      s' = (s.removeNode eid).modifyEntries d' (·.erase n') := by
  unfold replaceTarget at h
  split at h
  · nomatch h
  · rename_i hsame
    split at h
    · nomatch h
    · rename_i hempty
      refine ⟨not_ne_iff.mp hsame, fun m => ?_, (Except.ok.inj h).symm⟩
      cases hd : s.isDir eid with
      | false => exact entryAt_of_not_isDir hd m
      | true =>
        obtain ⟨es, hes⟩ := (isDir_iff s eid).1 hd
        have hes' := hes
        unfold Inner.entriesOf at hes'
        simp only [hd, hes', Option.map_some, Option.getD_some, true_and, Bool.not_eq_false] at hempty
        simp [Inner.entryAt, hes, getElem?_of_isEmpty hempty m]

/-! ## What the calls do, in their order of checks -/

/-- A call that makes a node either fails and changes nothing, or is the insertion of the node under a free and valid name. -/
theorem create_cases (s : Inner) (d : InodeNum) (name : String) (ft : FileType) (mode : Mode) :
    (∃ e, create s d name ft mode = (.error e, s)) ∨
      ∃ kind, create s d name ft mode = addNode s d name kind mode ∧ validateName name = .ok () ∧
        checkVacant s d name = .ok () ∧ newKind ft = .ok kind := by
  unfold create
  split
  · exact .inl ⟨_, rfl⟩
  · rename_i hname
    split
    · exact .inl ⟨_, rfl⟩
    · rename_i hvac
      split
      · exact .inl ⟨_, rfl⟩
      · rename_i kind hk
        exact .inr ⟨kind, rfl, hname, hvac, hk⟩

/-- `symlink` fails and leaves the table, or adds a node under a valid and vacant name. -/
theorem symlink_cases (s : Inner) (d : InodeNum) (name target : String) :
    (∃ e, symlink s d name target = (.error e, s)) ∨
      symlink s d name target = addNode s d name (.symlink target) 0o777 ∧ validateName name = .ok () ∧
        checkVacant s d name = .ok () := by
  unfold symlink
  split
  · exact .inl ⟨_, rfl⟩
  · rename_i hname
    split
    · exact .inl ⟨_, rfl⟩
    · rename_i hvac
      exact .inr ⟨rfl, hname, hvac⟩

/-- A node gets the next number, if there is one. -/
theorem addNode_cases (s : Inner) (d : InodeNum) (name : String) (kind : NodeKind) (mode : Mode) :
    addNode s d name kind mode = (.error .noSpace, s) ∨ ∃ s', addNode s d name kind mode = (.ok s.nextInode, s') := by
  unfold addNode
  dsimp only
  split
  · exact .inr ⟨_, rfl⟩
  · exact .inl rfl

/-- `unlink` and `rmdir` fail and change nothing, or erase the entry of a leaf and its node. -/
theorem unlink_cases (s : Inner) (d : InodeNum) (name : String) :
    (∃ e, unlink s d name = (.error e, s)) ∨
      ∃ i, unlink s d name = (.ok (), (s.modifyEntries d (·.erase name)).removeNode i) ∧ s.entryAt d name = some i ∧
        ∀ m, s.entryAt i m = none := by
  unfold unlink
  split
  · exact .inl ⟨_, rfl⟩
  · rename_i i hi
    split
    · exact .inl ⟨_, rfl⟩
    · rename_i target ht
      split
      · exact .inl ⟨_, rfl⟩
      · rename_i hk
        exact .inr ⟨i, rfl, childOf_ok hi, entryAt_of_not_isDir (by simpa [Inner.isDir, ht] using hk)⟩

/-- `rmdir` fails and leaves the table, or removes an empty directory and its entry. -/
theorem rmdir_cases (s : Inner) (d : InodeNum) (name : String) :
    (∃ e, rmdir s d name = (.error e, s)) ∨
      ∃ i, rmdir s d name = (.ok (), (s.modifyEntries d (·.erase name)).removeNode i) ∧ s.entryAt d name = some i ∧
        ∀ m, s.entryAt i m = none := by
  unfold rmdir
  split
  · exact .inl ⟨_, rfl⟩
  · rename_i i hi
    split
    · exact .inl ⟨_, rfl⟩
    · rename_i target ht
      split
      · rename_i es hk
        split
        · rename_i hempty
          refine .inr ⟨i, rfl, childOf_ok hi, ?_⟩
          intro m
          simp [Inner.entryAt, Inner.entriesOf, ht, hk, NodeKind.entries?, getElem?_of_isEmpty hempty m]
        · exact .inl ⟨_, rfl⟩
      · exact .inl ⟨_, rfl⟩

/-- What a `rename` that moves something has checked, and what it does. -/
structure Renamed (s : Inner) (d : InodeNum) (name : String) (d' : InodeNum) (name' : String) (i : InodeNum) (s' : Inner) :
    Prop where
  valid : validateName name' = .ok ()
  source : s.entryAt d name = some i
  newDir : s.isDir d' = true
  outside : ancestorCheck s i d' = some (.ok ())
  moved : s.entryAt d' name' = none ∧ s' = moveEntry s d name d' name' i ∨
    ∃ eid s₁, s.entryAt d' name' = some eid ∧ eid ≠ i ∧ replaceTarget s i d' name' eid = .ok s₁ ∧
      s' = moveEntry s₁ d name d' name' i

/-- `rename` does not return from its ancestor check, fails and changes nothing, finds the source already at its destination, or moves
it. -/
theorem rename_cases (s : Inner) (d : InodeNum) (name : String) (d' : InodeNum) (name' : String) :
    (rename s d name d' name' = none ∧ ∃ i, s.entryAt d name = some i ∧ s.isDir d' = true ∧ ancestorCheck s i d' = none) ∨
      (∃ e, rename s d name d' name' = some (.error e, s)) ∨
      (rename s d name d' name' = some (.ok (), s) ∧ ∃ i, s.entryAt d name = some i ∧ s.entryAt d' name' = some i) ∨
      ∃ i s', rename s d name d' name' = some (.ok (), s') ∧ Renamed s d name d' name' i s' := by
  unfold rename
  split
  · exact .inr (.inl ⟨_, rfl⟩)
  · rename_i hname
    split
    · exact .inr (.inl ⟨_, rfl⟩)
    · rename_i i hi
      have hi := childOf_ok hi
      split
      · rename_i hd'
        split
        · rename_i hcheck
          exact .inl ⟨rfl, i, hi, hd', hcheck⟩
        · exact .inr (.inl ⟨_, rfl⟩)
        · rename_i hcheck
          split
          · rename_i eid heid
            split
            · rename_i heq
              exact .inr (.inr (.inl ⟨rfl, i, hi, heq ▸ heid⟩))
            · rename_i hne
              split
              · exact .inr (.inl ⟨_, rfl⟩)
              · rename_i s₁ hrep
                exact .inr (.inr (.inr ⟨i, _, rfl, hname, hi, hd', hcheck, .inr ⟨eid, s₁, heid, hne, hrep, rfl⟩⟩))
          · rename_i hfree
            exact .inr (.inr (.inr ⟨i, _, rfl, hname, hi, hd', hcheck, .inl ⟨hfree, rfl⟩⟩))
      · exact .inr (.inl ⟨_, rfl⟩)

/-- `write` fails and changes nothing, or stores the new bytes of a regular file. -/
theorem write_cases (s : Inner) (inode offset : Nat) (buf : List UInt8) :
    (∃ e, write s inode offset buf = (.error e, s)) ∨
      ∃ node data data', s.nodes[inode]? = some node ∧ node.kind = .file data ∧ writeAt data offset buf = some data' ∧
        write s inode offset buf = storeFile s inode node buf.length (some data') := by
  unfold write
  split
  · exact .inl ⟨_, rfl⟩
  · rename_i node hnode
    split
    · rename_i data hk
      split
      · cases hwrite : writeAt data offset buf with
        | none => exact .inl ⟨_, rfl⟩
        | some data' => exact .inr ⟨node, data, data', hnode, hk, hwrite, rfl⟩
      · exact .inl ⟨_, rfl⟩
    · exact .inl ⟨_, rfl⟩
    · exact .inl ⟨_, rfl⟩

/-- `truncate` fails and changes nothing, or stores the new bytes of a regular file. -/
theorem truncate_cases (s : Inner) (inode size : Nat) :
    (∃ e, truncate s inode size = (.error e, s)) ∨
      ∃ node data data', s.nodes[inode]? = some node ∧ node.kind = .file data ∧ resize data size = some data' ∧
        truncate s inode size = storeFile s inode node () (some data') := by
  unfold truncate
  split
  · exact .inl ⟨_, rfl⟩
  · rename_i node hnode
    split
    · rename_i data hk
      cases hresize : resize data size with
      | none => exact .inl ⟨_, rfl⟩
      | some data' => exact .inr ⟨node, data, data', hnode, hk, hresize, rfl⟩
    · exact .inl ⟨_, rfl⟩
    · exact .inl ⟨_, rfl⟩

end RamFs

/-! ## What a call does -/

namespace Op

/-- The inode whose bytes a call changes. -/
def edits : Op → Option InodeNum
  | .write inode _ _ | .truncate inode _ => some inode
  | _ => none

/-- What it makes of them. `none`: it panics. -/
def edit : Op → List UInt8 → Option (List UInt8)
  | .write _ offset buf, data => RamFs.writeAt data offset buf
  | .truncate _ size, data => RamFs.resize data size
  | _, data => some data

/-- Everything a call can do to the table: nothing, with an error or because there is nothing to do; a new node under a free and valid
name; a leaf taken away; an inode moved; new bytes for a regular file. -/
inductive Effect (s : Inner) (op : Op) : FsResult Unit → Inner → Prop where
  | fail (e : FsError) : Effect s op (.error e) s
  | stay (hop : op.edits = none) : Effect s op (.ok ()) s
  | add (d : InodeNum) (name : String) (kind : NodeKind) (mode : Mode) (s' : Inner) (hop : op.edits = none)
      (hname : validateName name = .ok ()) (hvac : RamFs.checkVacant s d name = .ok ())
      (hkind : ∀ m : String, kind.entries?.bind (·[m]?) = none)
      (hadd : RamFs.addNode s d name kind mode = (.ok s.nextInode, s')) : Effect s op (.ok ()) s'
  | remove (d : InodeNum) (name : String) (i : InodeNum) (hop : op.edits = none) (hi : s.entryAt d name = some i)
      (hleaf : ∀ m, s.entryAt i m = none) : Effect s op (.ok ()) ((s.modifyEntries d (·.erase name)).removeNode i)
  | move (d : InodeNum) (name : String) (d' : InodeNum) (name' : String) (i : InodeNum) (s' : Inner) (hop : op.edits = none)
      (hr : RamFs.Renamed s d name d' name' i s') : Effect s op (.ok ()) s'
  | store (i : InodeNum) (node : Node) (data data' : List UInt8) (hop : op.edits = some i) (hnode : s.nodes[i]? = some node)
      (hkind : node.kind = .file data) (hedit : op.edit data = some data') :
      Effect s op (.ok ()) { s with nodes := s.nodes.insert i { node with kind := .file data' } }

/-- What `create` and `symlink` end with, as an effect. -/
theorem Effect.of_addNode {s : Inner} {op : Op} (hop : op.edits = none) {d : InodeNum} {name : String} (kind : NodeKind) (mode : Mode)
    (hname : validateName name = .ok ()) (hvac : RamFs.checkVacant s d name = .ok ())
    (hkind : ∀ m : String, kind.entries?.bind (·[m]?) = none) :
    op.Effect s ((RamFs.addNode s d name kind mode).1.map fun _ => ()) (RamFs.addNode s d name kind mode).2 := by
  rcases RamFs.addNode_cases s d name kind mode with hfull | ⟨s', hadd⟩
  · rw [hfull]
    exact .fail .noSpace
  · rw [hadd]
    exact .add d name kind mode s' hop hname hvac hkind hadd

/-- Every call has one of the effects. -/
theorem run_effect {s s' : Inner} {op : Op} {r : FsResult Unit} (h : op.run s = some (r, s')) : op.Effect s r s' := by
  cases op with
  | create d name ft mode =>
    have hrun : ((RamFs.create s d name ft mode).1.map fun _ => (), (RamFs.create s d name ft mode).2) = (r, s') := Option.some.inj h
    obtain ⟨rfl, rfl⟩ := Prod.mk.inj hrun
    rcases RamFs.create_cases s d name ft mode with ⟨e, he⟩ | ⟨kind, heq, hname, hvac, hk⟩
    · rw [he]
      exact .fail e
    · rw [heq]
      exact Effect.of_addNode rfl kind mode hname hvac (RamFs.newKind_ok hk)
  | symlink d name target =>
    have hrun : ((RamFs.symlink s d name target).1.map fun _ => (), (RamFs.symlink s d name target).2) = (r, s') := Option.some.inj h
    obtain ⟨rfl, rfl⟩ := Prod.mk.inj hrun
    rcases RamFs.symlink_cases s d name target with ⟨e, he⟩ | ⟨heq, hname, hvac⟩
    · rw [he]
      exact .fail e
    · rw [heq]
      exact Effect.of_addNode rfl _ _ hname hvac (by simp [NodeKind.entries?])
  | unlink d name =>
    rcases RamFs.unlink_cases s d name with ⟨e, he⟩ | ⟨i, hok, hi, hleaf⟩
    · obtain ⟨rfl, rfl⟩ := Prod.mk.inj (he.symm.trans (Option.some.inj h))
      exact .fail e
    · obtain ⟨rfl, rfl⟩ := Prod.mk.inj (hok.symm.trans (Option.some.inj h))
      exact .remove d name i rfl hi hleaf
  | rmdir d name =>
    rcases RamFs.rmdir_cases s d name with ⟨e, he⟩ | ⟨i, hok, hi, hleaf⟩
    · obtain ⟨rfl, rfl⟩ := Prod.mk.inj (he.symm.trans (Option.some.inj h))
      exact .fail e
    · obtain ⟨rfl, rfl⟩ := Prod.mk.inj (hok.symm.trans (Option.some.inj h))
      exact .remove d name i rfl hi hleaf
  | rename d name d' name' =>
    have hrun : RamFs.rename s d name d' name' = some (r, s') := h
    rcases RamFs.rename_cases s d name d' name' with ⟨hnone, -⟩ | ⟨e, he⟩ | ⟨hsame, -⟩ | ⟨i, s₁, hok, hr⟩
    · rw [hnone] at hrun
      cases hrun
    · obtain ⟨rfl, rfl⟩ := Prod.mk.inj (Option.some.inj (he.symm.trans hrun))
      exact .fail e
    · obtain ⟨rfl, rfl⟩ := Prod.mk.inj (Option.some.inj (hsame.symm.trans hrun))
      exact .stay rfl
    · obtain ⟨rfl, rfl⟩ := Prod.mk.inj (Option.some.inj (hok.symm.trans hrun))
      exact .move d name d' name' i s₁ rfl hr
  | write inode offset buf =>
    have hrun : ((RamFs.write s inode offset buf).1.map fun _ => (), (RamFs.write s inode offset buf).2) = (r, s') := Option.some.inj h
    obtain ⟨rfl, rfl⟩ := Prod.mk.inj hrun
    rcases RamFs.write_cases s inode offset buf with ⟨e, he⟩ | ⟨node, data, data', hnode, hkind, hedit, hok⟩
    · rw [he]
      exact .fail e
    · rw [hok]
      exact .store inode node data data' rfl hnode hkind hedit
  | truncate inode size =>
    rcases RamFs.truncate_cases s inode size with ⟨e, he⟩ | ⟨node, data, data', hnode, hkind, hedit, hok⟩
    · obtain ⟨rfl, rfl⟩ := Prod.mk.inj (he.symm.trans (Option.some.inj h))
      exact .fail e
    · obtain ⟨rfl, rfl⟩ := Prod.mk.inj (hok.symm.trans (Option.some.inj h))
      exact .store inode node data data' rfl hnode hkind hedit

/-- A call that fails changes nothing. -/
theorem Effect.of_error {s s' : Inner} {op : Op} {e : FsError} (h : op.Effect s (.error e) s') : s' = s := by
  cases h
  rfl

end Op

end Fs

end GolemKernel
