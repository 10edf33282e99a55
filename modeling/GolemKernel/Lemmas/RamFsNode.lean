import GolemKernel.Lemmas.RamFsFile
import GolemKernel.Theorems.RamFs

/-!
# What a call does to one inode

The tree of a table says where an inode hangs; its payload is everything else its node stores. A call that fails changes nothing. A
call that succeeds changes payloads only where it says so: `write` and `truncate` at the inode they name, and every other call at the
inodes it adds or takes away.
-/

namespace GolemKernel

namespace Fs

open GolemKernel.Fs.Inner

/-! ## Payloads -/

/-- What a node stores besides its place in the tree: the bytes of a file, the target of a link, the attributes. -/
def Node.payload (n : Node) : Node := { n with parent := rootInode, kind := n.kind.mapEntries fun _ => ∅ }

/-- The payload of an inode, if the table has it. -/
def Inner.payloadOf (s : Inner) (i : InodeNum) : Option Node := s.nodes[i]?.map Node.payload

theorem NodeKind.mapEntries_mapEntries (k : NodeKind) (f g : BTreeMap String InodeNum → BTreeMap String InodeNum) :
    (k.mapEntries f).mapEntries g = k.mapEntries fun es => g (f es) := by
  cases k <;> rfl

namespace Inner

/-- An inode has a payload exactly if it is in the table. -/
theorem payloadOf_eq_none_iff (s : Inner) (i : InodeNum) : s.payloadOf i = none ↔ s.nodes[i]? = none := by
  simp [payloadOf]

@[simp] theorem payloadOf_modifyEntries (s : Inner) (d : InodeNum)
    (f : BTreeMap String InodeNum → BTreeMap String InodeNum) (i : InodeNum) :
    (s.modifyEntries d f).payloadOf i = s.payloadOf i := by
  simp only [payloadOf, nodes_modifyEntries]
  split
  · cases s.nodes[i]? with
    | none => rfl
    | some n => simp [Node.payload, NodeKind.mapEntries_mapEntries]
  · rfl

/-- Removing a node leaves the payloads of the others. -/
theorem payloadOf_removeNode (s : Inner) (j i : InodeNum) :
    (s.removeNode j).payloadOf i = if j = i then none else s.payloadOf i := by
  simp only [payloadOf, nodes_removeNode]
  split <;> rfl

/-- Inodes of one payload are both unknown or are both nodes, whose kinds differ in their entries only. -/
theorem payloadOf_cases {s t : Inner} {i : InodeNum} (h : s.payloadOf i = t.payloadOf i) :
    (s.nodes[i]? = none ∧ t.nodes[i]? = none) ∨
      ∃ m n, s.nodes[i]? = some m ∧ t.nodes[i]? = some n ∧ (m.kind.mapEntries fun _ => ∅) = n.kind.mapEntries fun _ => ∅ := by
  unfold payloadOf at h
  cases hs : s.nodes[i]? with
  | none =>
    rw [hs, Option.map_none] at h
    exact Or.inl ⟨rfl, Option.map_eq_none_iff.1 h.symm⟩
  | some m =>
    rw [hs, Option.map_some] at h
    obtain ⟨n, ht, hn⟩ := Option.map_eq_some_iff.1 h.symm
    exact Or.inr ⟨m, n, rfl, ht, (congrArg Node.kind hn).symm⟩

/-- The bytes of a file are part of its payload. -/
theorem content_of_payloadOf {s t : Inner} {i : InodeNum} (h : s.payloadOf i = t.payloadOf i) : s.content i = t.content i := by
  obtain ⟨hs, ht⟩ | ⟨m, n, hs, ht, hkind⟩ := payloadOf_cases h
  · simp [content, hs, ht]
  · cases hm : m.kind <;> cases hn : n.kind <;> simp_all [content, NodeKind.mapEntries]

/-- So is the target of a link. -/
theorem readlink_of_payloadOf {s t : Inner} {i : InodeNum} (h : s.payloadOf i = t.payloadOf i) :
    RamFs.readlink s i = RamFs.readlink t i := by
  obtain ⟨hs, ht⟩ | ⟨m, n, hs, ht, hkind⟩ := payloadOf_cases h
  · simp [RamFs.readlink, hs, ht]
  · cases hm : m.kind <;> cases hn : n.kind <;> simp_all [RamFs.readlink, NodeKind.mapEntries]

end Inner

namespace RamFs

/-- Moving an entry leaves all payloads. -/
theorem payloadOf_moveEntry (s : Inner) (d : InodeNum) (n : String) (d' : InodeNum) (n' : String) (i j : InodeNum) :
    (moveEntry s d n d' n' i).payloadOf j = s.payloadOf j := by
  have hmoved : (moveEntry s d n d' n' i).payloadOf j =
      ((s.modifyEntries d (·.erase n)).modifyEntries d' (·.insert n' i)).payloadOf j := by
    simp only [Inner.payloadOf, nodes_moveEntry]
    split
    · rw [Option.map_map]
      rfl
    · rfl
  rw [hmoved, payloadOf_modifyEntries, payloadOf_modifyEntries]

/-- A new node leaves the others alone. -/
theorem payloadOf_addNode (s : Inner) (d : InodeNum) (name : String) (kind : NodeKind) (mode : Mode) {i : InodeNum}
    (hi : i ≠ s.nextInode) : (addNode s d name kind mode).2.payloadOf i = s.payloadOf i := by
  unfold addNode
  dsimp only
  split
  · rw [payloadOf_modifyEntries]
    simp [Inner.payloadOf, Std.ExtTreeMap.getElem?_insert, hi.symm]
  · rfl

/-- A regular file that `create` made is there, and empty. -/
theorem create_content {s s' : Inner} (h : s.Inv) {d i : InodeNum} {name : String} {mode : Mode}
    (hcreate : create s d name .regular mode = (.ok i, s')) : s'.content i = some [] := by
  rcases create_cases s d name .regular mode with ⟨e, he⟩ | ⟨kind, hadd, hname, hvac, -⟩
  · cases (Prod.mk.inj (he.symm.trans hcreate)).1
  · obtain ⟨hd, hfree⟩ := checkVacant_ok hvac
    have hspace : s.nextInode + 1 < 2 ^ 64 := by
      by_contra hfull
      rw [hadd, addNode, if_neg hfull] at hcreate
      cases (Prod.mk.inj hcreate).1
    have hnew := (Inner.parentOf_eq_none_iff _ _).mp h.parentOf_nextInode
    obtain ⟨s₁, hs₁, -, -, hcontent⟩ := create_file hname hd hfree hnew hspace mode
    obtain ⟨hi, rfl⟩ := Prod.mk.inj (hcreate.symm.trans hs₁)
    rw [Except.ok.inj hi]
    exact hcontent

end RamFs

/-! ## Every call -/

/-- What a call does to the payload of an inode whose bytes it does not edit: nothing, unless it takes the inode away. -/
theorem Op.Effect.payloadOf {s s' : Inner} {op : Op} {r : FsResult Unit} (h : op.Effect s r s') {i : InodeNum}
    (hnew : i ≠ s.nextInode) (hop : op.edits ≠ some i) : s'.payloadOf i = none ∨ s'.payloadOf i = s.payloadOf i := by
  cases h with
  | fail e => exact .inr rfl
  | stay _ => exact .inr rfl
  | add d name kind mode _ _ _ _ _ hadd =>
    have hsame := RamFs.payloadOf_addNode s d name kind mode hnew
    rw [hadd] at hsame
    exact .inr hsame
  | remove d name j _ _ _ =>
    rw [payloadOf_removeNode, payloadOf_modifyEntries]
    split
    · exact .inl rfl
    · exact .inr rfl
  | move d name d' name' j _ _ hr =>
    rcases hr.moved with ⟨-, rfl⟩ | ⟨eid, s₁, -, -, hrep, rfl⟩
    · exact .inr (RamFs.payloadOf_moveEntry s d name d' name' j i)
    · obtain ⟨-, -, rfl⟩ := RamFs.replaceTarget_ok hrep
      rw [RamFs.payloadOf_moveEntry, payloadOf_modifyEntries, payloadOf_removeNode]
      split
      · exact .inl rfl
      · exact .inr rfl
  | store j node data data' hj _ _ _ =>
    have hji : j ≠ i := by
      rintro rfl
      exact hop hj
    exact .inr (by simp [Inner.payloadOf, Std.ExtTreeMap.getElem?_insert, hji])

end Fs

end GolemKernel
