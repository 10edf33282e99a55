import GolemKernel.Lemmas.RamFsTree

/-!
# RamFs keeps a tree

Every call changes the tree of the table in one of four ways, or in two of them one after the other (`TreeChange`): not at all,
a graft, a prune, a move. Each keeps the invariant `Inner.Inv`, so every table a RamFs reaches satisfies it, whatever the calls
and whether they succeed or fail; and no call runs forever, since the walk of `rename` meets no inode twice.
-/

namespace GolemKernel

namespace Fs

open GolemKernel.Fs.Inner

/-- The invariant of an inode table: its two structures are one tree below the root, the root is a directory, the names in the
directories are names `validate_name` accepts, and the inode numbers in use are below the next one. -/
structure Inner.Inv (s : Inner) : Prop where
  tree : s.tree.WellFormed rootInode
  rootDir : s.isDir rootInode = true
  names : ∀ {d name i}, s.entryAt d name = some i → validateName name = .ok ()
  below : ∀ {i p}, s.parentOf i = some p → i < s.nextInode

/-- What one step of a call does to the table, with what the call has checked. -/
inductive TreeChange (s s' : Inner) : Prop where
  | keep (htree : s'.tree = s.tree) (hdir : ∀ j, s'.isDir j = s.isDir j) (hnext : s'.nextInode = s.nextInode)
  | graft (d : InodeNum) (name : String) (hname : validateName name = .ok ()) (hd : s.isDir d = true)
      (hfree : s.entryAt d name = none) (htree : s'.tree = s.tree.graft d name s.nextInode)
      (hdir : ∀ j, j ≠ s.nextInode → s'.isDir j = s.isDir j) (hnext : s'.nextInode = s.nextInode + 1)
  | prune (d : InodeNum) (name : String) (i : InodeNum) (hi : s.entryAt d name = some i) (hleaf : ∀ m, s.entryAt i m = none)
      (htree : s'.tree = s.tree.prune d name i) (hdir : ∀ j, j ≠ i → s'.isDir j = s.isDir j)
      (hnext : s'.nextInode = s.nextInode)
  | move (d : InodeNum) (name : String) (i d' : InodeNum) (name' : String) (l : List InodeNum)
      (hi : s.entryAt d name = some i) (hname : validateName name' = .ok ()) (hd' : s.isDir d' = true)
      (hfree : s.entryAt d' name' = none) (hl : Climb s.parentOf rootInode l d') (hil : i ∉ l)
      (htree : s'.tree = s.tree.move d name i d' name') (hdir : ∀ j, s'.isDir j = s.isDir j)
      (hnext : s'.nextInode = s.nextInode)

/-- A node at a new place under a valid name keeps what the invariant says of names and inode numbers. -/
theorem Inner.Inv.of_hung {s s' : Inner} (h : s.Inv) {d i : InodeNum} {name : String} (hung : s.tree.Hung s'.tree d name i)
    (hname : validateName name = .ok ()) (htree : s'.tree.WellFormed rootInode) (hroot : s'.isDir rootInode = true)
    (hi : i < s'.nextInode) (hnext : s.nextInode ≤ s'.nextInode) : s'.Inv := by
  refine ⟨htree, hroot, ?_, ?_⟩
  · intro e m j he
    rcases (hung.entry e m j).mp he with ⟨-, rfl, -⟩ | ⟨hold, -⟩
    · exact hname
    · exact h.names hold
  · intro j q hj
    by_cases hji : j = i
    · exact hji ▸ hi
    · have hold : s.parentOf j = some q := (hung.parent j hji).symm.trans hj
      exact (h.below hold).trans_le hnext

/-- The next inode number is not in use. -/
theorem Inner.Inv.parentOf_nextInode {s : Inner} (h : s.Inv) : s.parentOf s.nextInode = none := by
  cases hn : s.parentOf s.nextInode with
  | none => rfl
  | some q => exact absurd (h.below hn) (Nat.lt_irrefl _)

/-- The parent of an inode is a directory. -/
theorem Inner.Inv.isDir_parent {s : Inner} (h : s.Inv) {i p : InodeNum} (hp : s.parentOf i = some p) : s.isDir p = true := by
  by_cases hr : i = rootInode
  · subst hr
    obtain rfl := Option.some.inj (h.tree.root_parent.symm.trans hp)
    exact h.rootDir
  · obtain ⟨n, hn⟩ := h.tree.named hp hr
    by_contra hdir
    rw [tree_entry, entryAt_of_not_isDir (by simpa using hdir)] at hn
    cases hn

/-- Only directories have entries. -/
theorem Inner.Inv.isDir_of_entryAt {s : Inner} (h : s.Inv) {d i : InodeNum} {name : String}
    (hi : s.entryAt d name = some i) : s.isDir d = true :=
  h.isDir_parent (h.tree.entry_parent hi)

/-- Each change keeps the invariant. -/
theorem TreeChange.inv {s s' : Inner} (hc : TreeChange s s') (h : s.Inv) : s'.Inv := by
  cases hc with
  | keep htree hdir hnext =>
    have hp : s'.parentOf = s.parentOf := congrArg NamedTree.parent htree
    have he : s'.entryAt = s.entryAt := congrArg NamedTree.entry htree
    refine ⟨htree ▸ h.tree, (hdir _).trans h.rootDir, fun hn => h.names (he ▸ hn), fun hn => ?_⟩
    rw [hnext]
    exact h.below (hp ▸ hn)
  | graft d name hname hd hfree htree hdir hnext =>
    obtain ⟨p, hp⟩ := parentOf_of_isDir hd
    have hnew := h.parentOf_nextInode
    have hroot : rootInode ≠ s.nextInode := Nat.ne_of_lt (h.below h.tree.root_parent)
    exact h.of_hung (htree ▸ h.tree.hung_graft hnew hfree) hname (htree ▸ h.tree.graft hp hnew hfree)
      ((hdir _ hroot).trans h.rootDir) (hnext ▸ Nat.lt_succ_self _) (hnext ▸ Nat.le_succ _)
  | prune d name i hi hleaf htree hdir hnext =>
    have hpar : s'.parentOf = Function.update s.parentOf i none := congrArg NamedTree.parent htree
    have hent : s'.entryAt = fun e m => if e = d ∧ m = name then none else s.entryAt e m := congrArg NamedTree.entry htree
    refine ⟨htree ▸ h.tree.prune hi hleaf, ?_, fun {e m j} hn => ?_, fun {j q} hn => ?_⟩
    · have hri : rootInode ≠ i := fun hri => h.tree.root_unnamed d name (hri ▸ hi)
      rw [hdir _ hri]
      exact h.rootDir
    · rw [hent] at hn
      by_cases hem : e = d ∧ m = name
      · simp [hem] at hn
      · simp only [hem, if_false] at hn
        exact h.names hn
    · rw [hpar, Function.update_apply] at hn
      split at hn
      · nomatch hn
      · rw [hnext]
        exact h.below hn
  | move d name i d' name' l hi hname hd' hfree hl hil htree hdir hnext =>
    have hbelow : i < s.nextInode := h.below (h.tree.entry_parent hi)
    exact h.of_hung (htree ▸ h.tree.hung_move hi hfree) hname (htree ▸ h.tree.move hi hfree hl hil)
      ((hdir _).trans h.rootDir) (hnext ▸ hbelow) hnext.ge

/-! ## The walk of `rename` -/

namespace RamFs

/-- The walk of `rename` along a climb answers whether the source lies on it, given as many turns as the climb is long. -/
theorem cycleCheck_of_climb {s : Inner} (hroot : s.parentOf rootInode = some rootInode) (inum : InodeNum)
    {l : List InodeNum} {cur : InodeNum} (hc : Climb s.parentOf rootInode l cur) :
    ∀ turns, l.length ≤ turns →
      cycleCheck s inum turns cur = some (if inum ∈ l then .error .invalidArgument else .ok ()) := by
  induction hc with
  | root =>
    intro turns hlen
    obtain ⟨t, rfl⟩ := Nat.exists_eq_add_of_le' hlen
    obtain ⟨n, hn, hpar⟩ := Option.map_eq_some_iff.mp hroot
    by_cases hri : rootInode = inum
    · simp [cycleCheck, hri]
    · simp [cycleCheck, hri, hn, hpar, Ne.symm hri]
  | @step l i p hne hp hc ih =>
    intro turns hlen
    obtain ⟨t, rfl⟩ := Nat.exists_eq_add_of_le' (Nat.le_trans (Nat.le_add_left 1 l.length) hlen)
    obtain ⟨n, hn, hpar⟩ := Option.map_eq_some_iff.mp hp
    have hpi : p ≠ i := fun hpi => (Climb.step hne hp hc).parent_ne_self hne (hpi ▸ hp)
    by_cases hi : i = inum
    · simp [cycleCheck, hi]
    · simp only [cycleCheck, if_neg hi, hn, hpar, if_neg hpi, List.mem_cons, Ne.symm hi, false_or]
      exact ih t (by simpa using hlen)

/-- A climb is no longer than the table is large. -/
theorem climb_length_le {s : Inner} (h : s.Inv) {l : List InodeNum} {i : InodeNum}
    (hc : Climb s.parentOf rootInode l i) : l.length ≤ s.nodes.size := by
  have hsub : l ⊆ s.nodes.keys := by
    intro j hj
    have hp : ∃ p, s.parentOf j = some p := by
      by_cases hr : j = rootInode
      · exact ⟨rootInode, hr ▸ h.tree.root_parent⟩
      · obtain ⟨p, -, hp⟩ := hc.parent_mem hj hr
        exact ⟨p, hp⟩
    obtain ⟨p, hp⟩ := hp
    obtain ⟨n, hn, -⟩ := Option.map_eq_some_iff.mp hp
    rw [Std.ExtTreeMap.mem_keys, Std.ExtTreeMap.mem_iff_isSome_getElem?, hn]
    rfl
  have hle := (List.subperm_of_subset hc.nodup hsub).length_le
  rwa [Std.ExtTreeMap.length_keys] at hle

/-- The ancestor check of `rename` always ends; it passes exactly when the source is not on the climb from the new parent. -/
theorem ancestorCheck_spec {s : Inner} (h : s.Inv) {d i d' : InodeNum} {name : String} (hi : s.entryAt d name = some i)
    (hd' : s.isDir d' = true) :
    ∃ l, Climb s.parentOf rootInode l d' ∧
      ancestorCheck s i d' = some (if i ∈ l then .error .invalidArgument else .ok ()) := by
  obtain ⟨p, hp⟩ := parentOf_of_isDir hd'
  obtain ⟨l, hl⟩ := h.tree.climbs hp
  refine ⟨l, hl, ?_⟩
  unfold ancestorCheck
  cases hdir : s.isDir i with
  | true =>
    have hlen := climb_length_le h hl
    exact cycleCheck_of_climb h.tree.root_parent i hl _ (by omega)
  | false =>
    have hir : i ≠ rootInode := fun hir => h.tree.root_unnamed d name (hir ▸ hi)
    have hdi : d' ≠ i := by
      rintro rfl
      rw [hd'] at hdir
      nomatch hdir
    have hil : i ∉ l := hl.not_mem_of_childless (h.tree.childless hir (entryAt_of_not_isDir hdir)) hdi
    simp [hil]

end RamFs

/-! ## What each call does -/

namespace RamFs

/-- A node of the same type with the same parent and entries: the tree does not see the difference. -/
theorem treeChange_insert {s : Inner} {inode : InodeNum} {node : Node} (hn : s.nodes[inode]? = some node) {kind : NodeKind}
    (hent : kind.entries? = node.kind.entries?) (hdir : kind.isDirectory = node.kind.isDirectory) :
    TreeChange s { s with nodes := s.nodes.insert inode { node with kind := kind } } := by
  obtain ⟨htree, hisDir⟩ := tree_insert hn hent hdir
  exact TreeChange.keep htree hisDir rfl

/-- Erasing the entry of a leaf and its node prunes the leaf. -/
theorem treeChange_prune {s : Inner} {d i : InodeNum} {name : String} (hi : s.entryAt d name = some i)
    (hleaf : ∀ m, s.entryAt i m = none) : TreeChange s ((s.modifyEntries d (·.erase name)).removeNode i) := by
  refine TreeChange.prune d name i hi hleaf (tree_eraseName_removeNode hleaf) (fun j hj => ?_) rfl
  rw [isDir_removeNode _ _ _ hj, isDir_modifyEntries]

/-- A new node under a free name is a graft. -/
theorem treeChange_graft {s s' : Inner} (h : s.Inv) {d i : InodeNum} {name : String} {kind : NodeKind} {mode : Mode}
    (hname : validateName name = .ok ()) (hvac : checkVacant s d name = .ok ())
    (hkind : ∀ m : String, kind.entries?.bind (·[m]?) = none) (hadd : addNode s d name kind mode = (.ok i, s')) :
    TreeChange s s' := by
  obtain ⟨hd, hfree⟩ := checkVacant_ok hvac
  have hnew : s.nodes[s.nextInode]? = none := by
    rw [← Inner.parentOf_eq_none_iff]
    exact h.parentOf_nextInode
  obtain ⟨-, hnext, htree, hdir⟩ := addNode_ok hadd hd hnew hkind
  exact TreeChange.graft d name hname hd hfree htree hdir hnext

/-- A rename onto an entry that may be replaced: the entry's node is pruned, then the source is moved. -/
theorem replace_change {s s₁ : Inner} (h : s.Inv) {d i d' eid : InodeNum} {name name' : String} {l : List InodeNum}
    (hname : validateName name' = .ok ()) (hi : s.entryAt d name = some i) (heid : s.entryAt d' name' = some eid) (hne : eid ≠ i)
    (hleaf : ∀ m, s.entryAt eid m = none) (hd' : s.isDir d' = true) (hl : Climb s.parentOf rootInode l d') (hil : i ∉ l)
    (hs₁ : s₁ = (s.removeNode eid).modifyEntries d' (·.erase name')) :
    TreeChange s s₁ ∧ TreeChange s₁ (moveEntry s₁ d name d' name' i) := by
  have htree : s₁.tree = s.tree.prune d' name' eid := hs₁ ▸ tree_removeNode_eraseName hleaf
  have hpar : s₁.parentOf = Function.update s.parentOf eid none := congrArg NamedTree.parent htree
  have hent : s₁.entryAt = fun e m => if e = d' ∧ m = name' then none else s.entryAt e m := congrArg NamedTree.entry htree
  have hdir : ∀ j, j ≠ eid → s₁.isDir j = s.isDir j := by
    intro j hj
    rw [hs₁, isDir_modifyEntries, isDir_removeNode _ _ _ hj]
  -- the replaced target lies neither on the climb of its own parent nor at the source
  have her : eid ≠ rootInode := fun her => h.tree.root_unnamed _ _ (her ▸ heid)
  have hed : d' ≠ eid := by
    rintro rfl
    exact hl.parent_ne_self her (h.tree.entry_parent heid)
  have hel : eid ∉ l := hl.not_mem_of_childless (h.tree.childless her hleaf) hed
  refine ⟨TreeChange.prune d' name' eid heid hleaf htree hdir (by rw [hs₁]; rfl), ?_⟩
  have hi₁ : s₁.entryAt d name = some i := by
    have hdn : ¬(d = d' ∧ name = name') := by
      rintro ⟨rfl, rfl⟩
      exact hne (Option.some.inj (heid.symm.trans hi))
    rw [hent]
    simp only [hdn, if_false]
    exact hi
  have hpi₁ : s₁.parentOf i = some d := by rw [hpar, Function.update_of_ne hne.symm, ← tree_parent, h.tree.entry_parent hi]
  have hd₁ : s₁.isDir d' = true := (hdir d' hed).trans hd'
  have hl₁ : Climb s₁.parentOf rootInode l d' := by
    refine hl.congr fun j hj _ => ?_
    have hje : j ≠ eid := fun hje => hel (hje ▸ hj)
    rw [hpar, Function.update_of_ne hje]
  exact TreeChange.move d name i d' name' l hi₁ hname hd₁ (by rw [hent]; simp) hl₁ hil (tree_moveEntry hpi₁ hd₁)
    (isDir_moveEntry s₁ d name d' name' i) rfl

/-- What a rename that moves something does: a move, or the prune of the replaced target and then a move. -/
theorem Renamed.changes {s s' : Inner} (h : s.Inv) {d i d' : InodeNum} {name name' : String}
    (hr : Renamed s d name d' name' i s') : Relation.ReflTransGen TreeChange s s' := by
  obtain ⟨l, hl, hcheck⟩ := ancestorCheck_spec h hr.source hr.newDir
  have hil : i ∉ l := by
    intro hil
    rw [hr.outside, if_pos hil] at hcheck
    cases hcheck
  rcases hr.moved with ⟨hfree, rfl⟩ | ⟨eid, s₁, heid, hne, hrep, rfl⟩
  · exact .single (TreeChange.move d name i d' name' l hr.source hr.valid hr.newDir hfree hl hil
      (tree_moveEntry (h.tree.entry_parent hr.source) hr.newDir) (isDir_moveEntry s d name d' name' i) rfl)
  · obtain ⟨-, hleaf, hs₁⟩ := replaceTarget_ok hrep
    obtain ⟨hprune, hmove⟩ := replace_change h hr.valid hr.source heid hne hleaf hr.newDir hl hil hs₁
    exact (Relation.ReflTransGen.single hprune).tail hmove

end RamFs

namespace Op

/-- What a call does changes the tree by a sequence of the four changes. -/
theorem Effect.changes {s s' : Inner} (h : s.Inv) {op : Op} {r : FsResult Unit} (he : op.Effect s r s') :
    Relation.ReflTransGen TreeChange s s' := by
  cases he with
  | fail e => exact .refl
  | stay hop => exact .refl
  | add d name kind mode _ hop hname hvac hkind hadd => exact .single (RamFs.treeChange_graft h hname hvac hkind hadd)
  | remove d name i hop hi hleaf => exact .single (RamFs.treeChange_prune hi hleaf)
  | move d name d' name' i _ hop hr => exact hr.changes h
  | store i node data data' hop hnode hkind hedit =>
    exact .single (RamFs.treeChange_insert hnode (by simp [hkind, NodeKind.entries?]) (by simp [hkind, NodeKind.isDirectory]))

/-- Every call ends: the walk of a `rename` is a climb. -/
theorem run_returns {s : Inner} (h : s.Inv) (op : Op) : ∃ r s', op.run s = some (r, s') := by
  cases op with
  | rename d name d' name' =>
    rcases RamFs.rename_cases s d name d' name' with ⟨-, i, hi, hd', hnone⟩ | ⟨e, he⟩ | ⟨hsame, -⟩ | ⟨i, s', hok, -⟩
    · obtain ⟨l, -, hcheck⟩ := RamFs.ancestorCheck_spec h hi hd'
      rw [hcheck] at hnone
      cases hnone
    · exact ⟨_, _, he⟩
    · exact ⟨_, _, hsame⟩
    · exact ⟨_, _, hok⟩
  | create | symlink | unlink | rmdir | write | truncate => exact ⟨_, _, rfl⟩

/-- Every call ends, and changes the tree by a sequence of the four changes. -/
theorem run_change {s : Inner} (h : s.Inv) (op : Op) :
    ∃ r s', op.run s = some (r, s') ∧ Relation.ReflTransGen TreeChange s s' := by
  obtain ⟨r, s', hrun⟩ := run_returns h op
  exact ⟨r, s', hrun, (run_effect hrun).changes h⟩

end Op

/-- The changes of one call, one after the other, keep the invariant. -/
theorem Inner.Inv.changes {s s' : Inner} (h : s.Inv) (hc : Relation.ReflTransGen TreeChange s s') : s'.Inv := by
  induction hc with
  | refl => exact h
  | tail _ hstep ih => exact hstep.inv ih

/-- A sequence of calls always ends, in a table that satisfies the invariant. -/
theorem runOps_inv {s : Inner} (h : s.Inv) (ops : List Op) : ∃ s', runOps s ops = some s' ∧ s'.Inv := by
  induction ops generalizing s with
  | nil => exact ⟨s, rfl, h⟩
  | cons op ops ih =>
    obtain ⟨r, s1, hrun, hc⟩ := op.run_change h
    obtain ⟨s', hrest, hs'⟩ := ih (h.changes hc)
    exact ⟨s', by simp [runOps, hrun, hrest], hs'⟩

theorem RamFs.nodes_new (j : InodeNum) : RamFs.new.nodes[j]? =
    if rootInode = j then some ⟨rootInode, .directory ∅, 0o755, 0, 0, 0, 0, 0⟩ else none := by
  simp only [RamFs.new, Std.ExtTreeMap.getElem?_insert, Std.LawfulEqCmp.compare_eq_iff_eq, Std.ExtTreeMap.getElem?_empty]

/-- The table of a new RamFs satisfies the invariant. -/
theorem RamFs.new_inv : RamFs.new.Inv := by
  have hget := RamFs.nodes_new
  have hent : ∀ d name, RamFs.new.entryAt d name = none := by
    intro d name
    by_cases hd : rootInode = d
    · simp [Inner.entryAt, Inner.entriesOf, hget, hd, NodeKind.entries?]
    · simp [Inner.entryAt, Inner.entriesOf, hget, hd]
  have hpar : ∀ {i p}, RamFs.new.parentOf i = some p → i = rootInode ∧ p = rootInode := by
    intro i p hp
    by_cases hi : rootInode = i
    · simp only [Inner.parentOf, hget, if_pos hi, Option.map_some, Option.some.injEq] at hp
      exact ⟨hi.symm, hp.symm⟩
    · simp [Inner.parentOf, hget, hi] at hp
  refine ⟨⟨?_, ?_, ?_, ?_, ?_, ?_⟩, ?_, ?_, ?_⟩
  · simp [Inner.parentOf, hget]
  · intro d n i he
    simp [hent] at he
  · intro d n he
    simp [hent] at he
  · intro i p hp hr
    exact absurd (hpar hp).1 hr
  · intro d n n' i he
    simp [hent] at he
  · intro i p hp
    obtain ⟨rfl, -⟩ := hpar hp
    exact ⟨_, Climb.root⟩
  · simp [Inner.isDir, hget, NodeKind.isDirectory]
  · intro d n i he
    simp [hent] at he
  · intro i p hp
    rw [(hpar hp).1]
    exact Nat.lt_succ_self _

/-! ## The tree invariant -/

/-- `k` steps along the parent fields. -/
def Inner.ascend (s : Inner) : Nat → InodeNum → Option InodeNum
  | 0, i => some i
  | k + 1, i => (s.parentOf i).bind (s.ascend k)

/-- What an inode table is meant to be: inode 1 is a directory and its own parent; every entry of every directory has a valid
name and names a node of the table whose parent field is that directory; every node but the root is named by exactly one entry
of the whole table; the parent fields lead from every node to the root; every inode number is below the next one. -/
structure TreeInv (s : Inner) : Prop where
  root : ∃ node, s.nodes[rootInode]? = some node ∧ node.kind.isDirectory = true ∧ node.parent = rootInode
  entries : ∀ (d : InodeNum) (dir : Node) (es : BTreeMap String InodeNum) (name : String) (i : InodeNum),
    s.nodes[d]? = some dir → dir.kind = .directory es → es[name]? = some i →
      validateName name = .ok () ∧ ∃ node, s.nodes[i]? = some node ∧ node.parent = d
  named : ∀ i ∈ s.nodes, i ≠ rootInode → ∃! e : InodeNum × String,
    ∃ dir es, s.nodes[e.1]? = some dir ∧ dir.kind = .directory es ∧ es[e.2]? = some i
  climbs : ∀ i ∈ s.nodes, ∃ k, s.ascend k i = some rootInode
  below : ∀ i ∈ s.nodes, i < s.nextInode

/-- What a directory holds under a name, spelled out. -/
theorem Inner.entryAt_eq_some_iff (s : Inner) (d : InodeNum) (name : String) (i : InodeNum) :
    s.entryAt d name = some i ↔ ∃ dir es, s.nodes[d]? = some dir ∧ dir.kind = .directory es ∧ es[name]? = some i := by
  unfold Inner.entryAt Inner.entriesOf
  constructor
  · intro h
    obtain ⟨es, hes, hi⟩ := Option.bind_eq_some_iff.mp h
    obtain ⟨dir, hdir, hk⟩ := Option.bind_eq_some_iff.mp hes
    refine ⟨dir, es, hdir, ?_, hi⟩
    cases hkind : dir.kind <;> simp_all [NodeKind.entries?]
  · rintro ⟨dir, es, hdir, hk, hi⟩
    simp [hdir, hk, NodeKind.entries?, hi]

/-- A climb is a number of steps along the parent fields. -/
theorem Inner.ascend_of_climb {s : Inner} {l : List InodeNum} {i : InodeNum} (hc : Climb s.parentOf rootInode l i) :
    ∃ k, s.ascend k i = some rootInode := by
  induction hc with
  | root => exact ⟨0, rfl⟩
  | step _ hp _ ih =>
    obtain ⟨k, hk⟩ := ih
    exact ⟨k + 1, by simp [Inner.ascend, hp, hk]⟩

/-- The invariant of the tables, as it is stated of the table alone. -/
theorem Inner.Inv.treeInv {s : Inner} (h : s.Inv) : TreeInv s := by
  have hpresent : ∀ i ∈ s.nodes, ∃ p, s.parentOf i = some p := by
    intro i hi
    obtain ⟨n, hn⟩ := Option.isSome_iff_exists.mp (Std.ExtTreeMap.mem_iff_isSome_getElem?.mp hi)
    exact ⟨n.parent, by simp [Inner.parentOf, hn]⟩
  refine ⟨?_, ?_, ?_, ?_, ?_⟩
  · obtain ⟨node, hn, hp⟩ := Option.map_eq_some_iff.mp h.tree.root_parent
    exact ⟨node, hn, by simpa [Inner.isDir, hn] using h.rootDir, hp⟩
  · intro d dir es name i hd hk hi
    have he : s.entryAt d name = some i := (s.entryAt_eq_some_iff d name i).2 ⟨dir, es, hd, hk, hi⟩
    obtain ⟨node, hn, hp⟩ := Option.map_eq_some_iff.mp (h.tree.entry_parent he)
    exact ⟨h.names he, node, hn, hp⟩
  · intro i hi hr
    obtain ⟨p, hp⟩ := hpresent i hi
    obtain ⟨name, hname⟩ := h.tree.named hp hr
    refine ⟨(p, name), (s.entryAt_eq_some_iff p name i).1 hname, ?_⟩
    rintro ⟨d, m⟩ hd
    obtain ⟨rfl, rfl⟩ := h.tree.entry_unique ((s.entryAt_eq_some_iff d m i).2 hd) hname
    rfl
  · intro i hi
    obtain ⟨p, hp⟩ := hpresent i hi
    obtain ⟨l, hc⟩ := h.tree.climbs hp
    exact Inner.ascend_of_climb hc
  · intro i hi
    obtain ⟨p, hp⟩ := hpresent i hi
    exact h.below hp

/-- Any sequence of calls on a new RamFs, with any arguments, succeeding or failing, returns and leaves a tree. -/
theorem ramfs_tree_invariant (ops : List Op) : ∃ s, runOps RamFs.new ops = some s ∧ TreeInv s := by
  obtain ⟨s, hrun, hinv⟩ := runOps_inv RamFs.new_inv ops
  exact ⟨s, hrun, hinv.treeInv⟩

/-! ## The cycle check of `rename` -/

namespace RamFs

/-- An inode is on the climb if and only if some number of steps along the parent fields leads to it. -/
theorem mem_climb_iff {s : Inner} (hroot : s.parentOf rootInode = some rootInode) {l : List InodeNum} {i j : InodeNum}
    (hc : Climb s.parentOf rootInode l i) : j ∈ l ↔ ∃ k, s.ascend k i = some j := by
  constructor
  · intro hj
    induction hc with
    | root =>
      obtain rfl := List.mem_singleton.1 hj
      exact ⟨0, rfl⟩
    | step _ hp _ ih =>
      rcases List.mem_cons.1 hj with rfl | hj
      · exact ⟨0, rfl⟩
      · obtain ⟨k, hk⟩ := ih hj
        exact ⟨k + 1, by rw [Inner.ascend, hp, Option.bind_some, hk]⟩
  · rintro ⟨k, hk⟩
    induction k generalizing l i with
    | zero =>
      obtain rfl := Option.some.inj hk
      exact hc.mem_self
    | succ k ih =>
      rw [Inner.ascend] at hk
      cases hc with
      | root =>
        rw [hroot, Option.bind_some] at hk
        exact ih Climb.root hk
      | step hne hp hc =>
        rw [hp, Option.bind_some] at hk
        exact List.mem_cons_of_mem _ (ih hc hk)

end RamFs

/-- In every state that calls lead to from a new RamFs, for every directory `src` and every directory `newParent` of the table: the walk
of `rename` ends after at most as many turns as there are inodes, finds every inode it looks up, and answers `InvalidArgument` if and
only if `src` is `newParent` or an ancestor of it. -/
theorem cycle_check_decides_ancestry {ops : List Op} {s : Inner} (hrun : runOps RamFs.new ops = some s) {src newParent : InodeNum}
    (hsrc : s.isDir src = true) (hnew : s.isDir newParent = true) :
    ∃ r, (∀ turns, s.nodes.size ≤ turns → RamFs.cycleCheck s src turns newParent = some r) ∧
      RamFs.ancestorCheck s src newParent = some r ∧ r ≠ .error .notFound ∧
      (r = .error .invalidArgument ↔ ∃ k, s.ascend k newParent = some src) ∧ (r = .error .invalidArgument ∨ r = .ok ()) := by
  obtain ⟨s', hrun', hinv⟩ := runOps_inv RamFs.new_inv ops
  obtain rfl : s = s' := Option.some.inj (hrun.symm.trans hrun')
  obtain ⟨p, hp⟩ := parentOf_of_isDir hnew
  obtain ⟨l, hl⟩ := hinv.tree.climbs hp
  have hcheck := RamFs.cycleCheck_of_climb hinv.tree.root_parent src hl
  have hsize := RamFs.climb_length_le hinv hl
  rw [← RamFs.mem_climb_iff hinv.tree.root_parent hl]
  refine ⟨if src ∈ l then .error .invalidArgument else .ok (), ?_, ?_, ?_, ?_, ?_⟩
  · exact fun turns hturns => hcheck turns (hsize.trans hturns)
  · rw [RamFs.ancestorCheck, if_pos hsrc]
    exact hcheck _ (by omega)
  all_goals split <;> simp [*]

/-- A directory in a directory, and a third one beside them. -/
def nestedDirectories : List Op :=
  [.create rootInode "a" .directory 0o755, .create 2 "b" .directory 0o755, .create rootInode "c" .directory 0o755]

/-- The first directory cannot be moved into the second, which is inside it; it can be moved into the third. -/
theorem cycle_check_decides_ancestry_nested : ∃ s, runOps RamFs.new nestedDirectories = some s ∧
    RamFs.ancestorCheck s 2 3 = some (.error .invalidArgument) ∧ RamFs.ancestorCheck s 2 4 = some (.ok ()) := by
  have hsome : (runOps RamFs.new nestedDirectories).isSome = true := rfl
  have hrun := (Option.some_get hsome).symm
  have ha : Inner.isDir ((runOps RamFs.new nestedDirectories).get hsome) 2 = true := rfl
  have hb : Inner.isDir ((runOps RamFs.new nestedDirectories).get hsome) 3 = true := rfl
  have hc : Inner.isDir ((runOps RamFs.new nestedDirectories).get hsome) 4 = true := rfl
  obtain ⟨r, -, hinside, -, hiff, -⟩ := cycle_check_decides_ancestry hrun ha hb
  obtain ⟨r', -, hbeside, -, hiff', hr'⟩ := cycle_check_decides_ancestry hrun ha hc
  refine ⟨_, hrun, by rw [hinside, hiff.mpr ⟨1, rfl⟩], ?_⟩
  have hroot : ∀ k, Inner.ascend ((runOps RamFs.new nestedDirectories).get hsome) k rootInode = some rootInode := by
    intro k
    induction k with
    | zero => rfl
    | succ k ih => exact ih
  have hnot : r' ≠ .error .invalidArgument := by
    intro heq
    obtain ⟨k, hk⟩ := hiff'.mp heq
    cases k with
    | zero => cases hk
    | succ k => cases (hroot k).symm.trans hk
  rw [hbeside, hr'.resolve_left hnot]

end Fs

end GolemKernel
