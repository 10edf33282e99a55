import GolemKernel.Lemmas.RamFsFile
import GolemKernel.Theorems.RamFs

/-!
# What a RamFs shows of its tree

`readdir`, `lookup` and `metadata` read different parts of the table: the entries of a directory, the parent field of its node, the nodes the
entries name. On a table that stores one tree they agree. The link count of a directory is computed from its own entries; over all listings
it counts the entries that name the directory: its own `.`, its entry in its parent, and the `..` of each of its subdirectories. The root
has no entry in a parent, and its own `..` names it instead.
-/

namespace GolemKernel

namespace Fs

open GolemKernel.Fs.Inner

/-- The values of an ordered map, in the order of its keys. -/
theorem values_eq_map_toList {κ β : Type} {cmp : κ → κ → Ordering} [Std.TransCmp cmp] (m : Std.ExtTreeMap κ β cmp) :
    m.values = m.toList.map Prod.snd := by
  have hfold : m.values = m.foldr (fun _ b l => b :: l) [] := by
    obtain ⟨⟨q⟩⟩ := m
    induction q using Quotient.ind
    rfl
  rw [hfold, Std.ExtTreeMap.foldr_eq_foldr_toList, List.map_eq_foldr]

/-! ## Directories and their children -/

namespace Inner

/-- The directories of a table. -/
def directories (s : Inner) : List InodeNum := s.nodes.keys.filter s.isDir

/-- The inodes that the entries of a directory name. -/
def children (s : Inner) (d : InodeNum) : List InodeNum := ((s.entriesOf d).map (·.values)).getD []

variable {s : Inner}

/-- The directories are listed. -/
theorem mem_directories {d : InodeNum} : d ∈ s.directories ↔ s.isDir d = true := by
  rw [directories, List.mem_filter, and_iff_right_of_imp]
  intro hd
  obtain ⟨p, hp⟩ := parentOf_of_isDir hd
  obtain ⟨n, hn, -⟩ := Option.map_eq_some_iff.mp hp
  rw [Std.ExtTreeMap.mem_keys, Std.ExtTreeMap.mem_iff_isSome_getElem?, hn]
  rfl

/-- Each of them once. -/
theorem nodup_directories (s : Inner) : s.directories.Nodup := Std.ExtTreeMap.nodup_keys.filter _

/-- So an inode is counted once if it is a directory. -/
theorem count_directories (s : Inner) (i : InodeNum) : s.directories.count i = if s.isDir i then 1 else 0 := by
  split
  · rename_i hi
    exact List.count_eq_one_of_mem s.nodup_directories (mem_directories.mpr hi)
  · rename_i hi
    exact List.count_eq_zero_of_not_mem fun hmem => hi (mem_directories.mp hmem)

/-- The children of a directory are those that it has entries for. -/
theorem mem_children {d i : InodeNum} : i ∈ s.children d ↔ ∃ name, s.entryAt d name = some i := by
  unfold children entryAt
  cases s.entriesOf d with
  | none => simp
  | some es =>
    simp only [Option.map_some, Option.getD_some, Option.bind_some, values_eq_map_toList, List.mem_map, Prod.exists,
      Std.ExtTreeMap.mem_toList_iff_getElem?_eq_some, exists_eq_right]

end Inner

namespace Inner.Inv

variable {s : Inner} (h : s.Inv)

include h

/-- A directory names no inode twice, -/
theorem nodup_children (d : InodeNum) : (s.children d).Nodup := by
  unfold children
  cases hes : s.entriesOf d with
  | none => exact List.nodup_nil
  | some es =>
    rw [Option.map_some, Option.getD_some, values_eq_map_toList]
    have hpairs : es.toList.Nodup := by
      refine Std.ExtTreeMap.distinct_keys_toList.imp ?_
      rintro a b hne rfl
      exact hne Std.ReflCmp.compare_self
    refine hpairs.map_on ?_
    rintro ⟨n, i⟩ hn ⟨n', i'⟩ hn' (rfl : i = i')
    rw [Std.ExtTreeMap.mem_toList_iff_getElem?_eq_some] at hn hn'
    have hname : n = n' := h.tree.named_once (d := d) (i := i) (by simp [entryAt, hes, hn]) (by simp [entryAt, hes, hn'])
    rw [hname]

/-- and no two directories name the same. -/
theorem nodup_flatMap_children : (s.directories.flatMap s.children).Nodup := by
  rw [List.nodup_flatMap]
  refine ⟨fun d _ => h.nodup_children d, s.nodup_directories.imp ?_⟩
  intro d d' hne i hi hi'
  obtain ⟨n, hn⟩ := mem_children.mp hi
  obtain ⟨n', hn'⟩ := mem_children.mp hi'
  exact hne (h.tree.entry_unique hn hn').1

end Inner.Inv

/-! ## Links -/

namespace RamFs

/-- What `readdir` lists. -/
def listing (s : Inner) (d : InodeNum) : List DirEntry :=
  match readdir s d with
  | .ok entries => entries
  | .error _ => []

/-- The entries, over the listings of all directories, that name the inode `i`. -/
def links (s : Inner) (i : InodeNum) : Nat := (s.directories.flatMap (listing s)).countP (·.inode = i)

variable {s : Inner}

/-- The inodes a listing names: the directory, its parent, and its children. -/
theorem map_inode_listing {d : InodeNum} (hd : s.isDir d = true) :
    (listing s d).map (·.inode) = [d] ++ ([(s.parentOf d).getD rootInode] ++ s.children d) := by
  obtain ⟨n, es, hn, hk⟩ := Inner.exists_directory hd
  simp [listing, readdir, Inner.children, Inner.entriesOf, Inner.parentOf, hn, hk, NodeKind.entries?, values_eq_map_toList,
    Function.comp_def]

/-- The links of an inode are its own `.`, the `..` that lead to it, and its entries. -/
theorem links_eq (s : Inner) (i : InodeNum) :
    links s i = s.directories.count i + ((s.directories.map fun d => (s.parentOf d).getD rootInode).count i +
      (s.directories.flatMap s.children).count i) := by
  have hinodes : (s.directories.flatMap (listing s)).map (·.inode) =
      s.directories.flatMap fun d => [d] ++ ([(s.parentOf d).getD rootInode] ++ s.children d) := by
    rw [List.map_flatMap]
    exact List.flatMap_congr fun d hd => map_inode_listing (Inner.mem_directories.mp hd)
  have hcount : links s i = ((s.directories.flatMap (listing s)).map (·.inode)).count i := by
    rw [links, List.count, List.countP_map]
    rfl
  rw [hcount, hinodes, ← (List.flatMap_append_perm _ _ _).count_eq, List.count_append,
    ← (List.flatMap_append_perm _ _ _).count_eq, List.count_append]
  rw [List.flatMap_singleton', List.map_eq_flatMap]

end RamFs

namespace Inner.Inv

variable {s : Inner} (h : s.Inv)

include h

/-- Every inode but the root has one entry. -/
theorem count_children {i p : InodeNum} (hi : s.parentOf i = some p) :
    (s.directories.flatMap s.children).count i = if i = rootInode then 0 else 1 := by
  split
  · rename_i hr
    refine List.count_eq_zero_of_not_mem fun hmem => ?_
    obtain ⟨d, -, hd⟩ := List.mem_flatMap.mp hmem
    obtain ⟨name, hname⟩ := mem_children.mp hd
    exact h.tree.root_unnamed d name (hr ▸ hname)
  · rename_i hr
    obtain ⟨name, hname⟩ := h.tree.named hi hr
    refine List.count_eq_one_of_mem h.nodup_flatMap_children (List.mem_flatMap.mpr ⟨p, ?_, mem_children.mpr ⟨name, hname⟩⟩)
    exact mem_directories.mpr (h.isDir_of_entryAt hname)

/-- The directories whose `..` leads to `i` are its subdirectories, and the root if `i` is the root. -/
theorem count_parents (i : InodeNum) :
    (s.directories.map fun d => (s.parentOf d).getD rootInode).count i =
      (if i = rootInode then 1 else 0) + ((s.children i).filter s.isDir).length := by
  have hperm : (s.directories.filter fun d => (s.parentOf d).getD rootInode == i).Perm
      ((if i = rootInode then [rootInode] else []) ++ (s.children i).filter s.isDir) := by
    refine (List.perm_ext_iff_of_nodup (s.nodup_directories.filter _) ?_).mpr ?_
    · rw [List.nodup_append]
      refine ⟨by split <;> simp, (h.nodup_children i).filter _, ?_⟩
      rintro a ha b hb rfl
      obtain ⟨name, hname⟩ := mem_children.mp (List.mem_filter.mp hb).1
      split at ha
      · obtain rfl := List.mem_singleton.mp ha
        exact h.tree.root_unnamed _ _ hname
      · cases ha
    · intro j
      rw [List.mem_filter, mem_directories, List.mem_append, List.mem_filter, mem_children, beq_iff_eq]
      constructor
      · rintro ⟨hj, hpar⟩
        obtain ⟨p, hp⟩ := parentOf_of_isDir hj
        rw [hp, Option.getD_some] at hpar
        subst hpar
        by_cases hr : j = rootInode
        · subst hr
          obtain rfl := Option.some.inj (h.tree.root_parent.symm.trans hp)
          exact .inl (by simp)
        · exact .inr ⟨h.tree.named hp hr, hj⟩
      · rintro (hroot | ⟨⟨name, hname⟩, hj⟩)
        · split at hroot
          · rename_i hr
            obtain rfl := List.mem_singleton.mp hroot
            have hp : s.parentOf rootInode = some rootInode := h.tree.root_parent
            exact ⟨h.rootDir, by rw [hp, hr]; rfl⟩
          · cases hroot
        · have hp : s.parentOf j = some i := h.tree.entry_parent hname
          exact ⟨hj, by rw [hp]; rfl⟩
  have hlength := hperm.length_eq
  rw [List.length_append, ← List.countP_eq_length_filter] at hlength
  rw [List.count, List.countP_map]
  refine Eq.trans ?_ (hlength.trans ?_)
  · rfl
  · split <;> rfl

/-- What `metadata` computes as the link count of a directory is the number of its links. -/
theorem links_directory {i : InodeNum} (hi : s.isDir i = true) : RamFs.links s i = 2 + ((s.children i).filter s.isDir).length := by
  obtain ⟨p, hp⟩ := parentOf_of_isDir hi
  rw [RamFs.links_eq, s.count_directories, h.count_parents, h.count_children hp, if_pos hi]
  split <;> omega

/-- What is not a directory has one link. -/
theorem links_other {i p : InodeNum} (hp : s.parentOf i = some p) (hi : s.isDir i = false) : RamFs.links s i = 1 := by
  have hr : i ≠ rootInode := by
    rintro rfl
    rw [h.rootDir] at hi
    cases hi
  have hleaf : s.children i = [] := by
    rw [List.eq_nil_iff_forall_not_mem]
    intro j hj
    obtain ⟨name, hname⟩ := mem_children.mp hj
    rw [entryAt_of_not_isDir hi] at hname
    cases hname
  rw [RamFs.links_eq, s.count_directories, h.count_parents, h.count_children hp, hi, if_neg hr, if_neg hr, hleaf]
  rfl

/-- The subdirectories of a directory are among the inodes of the table. -/
theorem length_subdirectories_le (i : InodeNum) : ((s.children i).filter s.isDir).length ≤ s.nodes.size := by
  have hsub : (s.children i).filter s.isDir ⊆ s.nodes.keys := by
    intro j hj
    exact (List.mem_filter.mp (mem_directories.mpr (List.mem_filter.mp hj).2)).1
  have hle := (List.subperm_of_subset ((h.nodup_children i).filter _) hsub).length_le
  rwa [Std.ExtTreeMap.length_keys] at hle

end Inner.Inv

/-! ## The views -/

namespace RamFs

variable {s : Inner}

/-- What a directory lists: itself, its parent, and its entries. -/
theorem readdir_directory {d : InodeNum} (hd : s.isDir d = true) : ∃ p es, s.parentOf d = some p ∧ s.entriesOf d = some es ∧
    readdir s d = .ok (⟨".", d, .directory⟩ :: ⟨"..", p, .directory⟩ ::
      es.toList.map fun e => ⟨e.1, e.2, (s.nodes[e.2]?.map (·.kind.fileType)).getD .regular⟩) := by
  obtain ⟨n, es, hn, hk⟩ := Inner.exists_directory hd
  exact ⟨n.parent, es, by simp [Inner.parentOf, hn], by simp [Inner.entriesOf, hn, hk, NodeKind.entries?], by simp [readdir, hn, hk]⟩

/-- `metadata` gives the type of the node. -/
theorem metadata_fileType {i : InodeNum} {n : Node} (hn : s.nodes[i]? = some n) :
    ∃ m, metadata s i = .ok m ∧ m.fileType = n.kind.fileType := by
  simp [metadata, hn]

/-- For a directory it gives two links and one for each child that is a directory, in 32 bits. -/
theorem metadata_directory {d : InodeNum} (hd : s.isDir d = true) : ∃ m, metadata s d = .ok m ∧ m.fileType = .directory ∧
    m.nlink = (2 + ((s.children d).filter s.isDir).length % 2 ^ 32) % 2 ^ 32 := by
  obtain ⟨n, es, hn, hk⟩ := Inner.exists_directory hd
  simp [metadata, Inner.children, Inner.entriesOf, hn, hk, NodeKind.fileType, NodeKind.entries?]

/-- For anything else it gives one link. -/
theorem metadata_other {i p : InodeNum} (hp : s.parentOf i = some p) (hi : s.isDir i = false) :
    ∃ m, metadata s i = .ok m ∧ m.nlink = 1 := by
  obtain ⟨n, hn, -⟩ := Option.map_eq_some_iff.mp hp
  unfold Inner.isDir at hi
  unfold metadata
  cases hk : n.kind with
  | directory es => simp [hn, hk, NodeKind.isDirectory] at hi
  | file data => simp [hn, hk]
  | symlink target => simp [hn, hk]

/-- What a directory shows: its listing is `.`, `..` and its names in increasing order; `lookup` finds what is listed and nothing else; and
`metadata` knows what is listed by the type it is listed with. -/
structure Shows (s : Inner) (d : InodeNum) (listed : List DirEntry) : Prop where
  readdir : RamFs.readdir s d = .ok listed
  names : ∃ children : List String, listed.map (·.name) = "." :: ".." :: children ∧ children.Pairwise (· < ·)
  lookup : ∀ e ∈ listed, RamFs.lookup s d e.name = .ok e.inode
  missing : ∀ name, name ∉ listed.map (·.name) → RamFs.lookup s d name = .error .notFound
  types : ∀ e ∈ listed, ∃ m, RamFs.metadata s e.inode = .ok m ∧ m.fileType = e.fileType

/-- The listing of a directory shows its children. -/
theorem shows_listing (h : s.Inv) {d : InodeNum} (hd : s.isDir d = true) : ∃ listed, Shows s d listed := by
  obtain ⟨p, es, hp, hes, hread⟩ := readdir_directory hd
  have hentry : ∀ name, s.entryAt d name = es[name]? := by
    intro name
    rw [Inner.entryAt, hes, Option.bind_some]
  refine ⟨_, hread, ⟨es.keys, ?_, ?_⟩, ?_, ?_, ?_⟩
  · rw [← Std.ExtTreeMap.map_fst_toList_eq_keys]
    simp [Function.comp_def]
  · refine Std.ExtTreeMap.ordered_keys.imp ?_
    intro a b hab
    exact compare_lt_iff_lt.mp hab
  · intro e he
    rw [lookup_directory hd]
    rcases List.mem_cons.mp he with rfl | he
    · rfl
    · rcases List.mem_cons.mp he with rfl | he
      · simp [hp]
      · obtain ⟨⟨name, i⟩, hmem, rfl⟩ := List.mem_map.mp he
        rw [Std.ExtTreeMap.mem_toList_iff_getElem?_eq_some, ← hentry] at hmem
        -- no entry is called `.` or `..`
        have hvalid := h.names hmem
        have hdot : name ≠ "." := by
          rintro rfl
          simp [validateName] at hvalid
        have hdots : name ≠ ".." := by
          rintro rfl
          simp [validateName] at hvalid
        dsimp only
        rw [if_neg hdot, if_neg hdots, hmem]
  · intro name hname
    simp only [List.map_cons, List.map_map, List.mem_cons, not_or] at hname
    obtain ⟨hdot, hdots, hnot⟩ := hname
    have hnone : s.entryAt d name = none := by
      cases he : s.entryAt d name with
      | none => rfl
      | some i =>
        rw [hentry, ← Std.ExtTreeMap.mem_toList_iff_getElem?_eq_some] at he
        exact absurd (List.mem_map.mpr ⟨(name, i), he, rfl⟩) hnot
    rw [lookup_directory hd, if_neg hdot, if_neg hdots, hnone]
  · intro e he
    rcases List.mem_cons.mp he with rfl | he
    · obtain ⟨m, hm, htype, -⟩ := metadata_directory hd
      exact ⟨m, hm, htype⟩
    · rcases List.mem_cons.mp he with rfl | he
      · obtain ⟨m, hm, htype, -⟩ := metadata_directory (h.isDir_parent hp)
        exact ⟨m, hm, htype⟩
      · obtain ⟨⟨name, i⟩, hmem, rfl⟩ := List.mem_map.mp he
        rw [Std.ExtTreeMap.mem_toList_iff_getElem?_eq_some, ← hentry] at hmem
        obtain ⟨n, hn, -⟩ := Option.map_eq_some_iff.mp (h.tree.entry_parent hmem)
        obtain ⟨m, hm, htype⟩ := metadata_fileType hn
        exact ⟨m, hm, by simp [htype, hn]⟩

end RamFs

/-- In every table that can be reached, of fewer than `2 ^ 32 - 2` inodes, every directory shows what it holds, and the link count of every
inode is the number of entries that name it over the listings of all directories. -/
theorem directory_views_agree (ops : List Op) {s : Inner} (hs : runOps RamFs.new ops = some s) (hsize : s.nodes.size < 2 ^ 32 - 2) :
    (∀ d, s.isDir d = true → ∃ listed, RamFs.Shows s d listed) ∧
      ∀ i ∈ s.nodes, ∃ m, RamFs.metadata s i = .ok m ∧ m.nlink = RamFs.links s i := by
  obtain ⟨s₀, hs₀, h⟩ := runOps_inv RamFs.new_inv ops
  obtain rfl := Option.some.inj (hs₀.symm.trans hs)
  refine ⟨fun d hd => RamFs.shows_listing h hd, ?_⟩
  intro i hi
  obtain ⟨n, hn⟩ := Option.isSome_iff_exists.mp (Std.ExtTreeMap.mem_iff_isSome_getElem?.mp hi)
  have hp : s₀.parentOf i = some n.parent := by simp [parentOf, hn]
  cases hdir : s₀.isDir i with
  | false =>
    obtain ⟨m, hm, hnlink⟩ := RamFs.metadata_other hp hdir
    exact ⟨m, hm, by rw [hnlink, h.links_other hp hdir]⟩
  | true =>
    obtain ⟨m, hm, -, hnlink⟩ := RamFs.metadata_directory hdir
    have hle := h.length_subdirectories_le i
    refine ⟨m, hm, ?_⟩
    rw [hnlink, h.links_directory hdir, Nat.mod_eq_of_lt (by omega), Nat.mod_eq_of_lt (by omega)]

/-- A directory with a file and a directory in it. -/
theorem directory_views_agree_nested : ∃ s,
    runOps RamFs.new [.create rootInode "d" .directory 0o755, .create 2 "f" .regular 0o644, .create 2 "e" .directory 0o755] = some s ∧
      s.nodes.size < 2 ^ 32 - 2 ∧ RamFs.links s 2 = 3 ∧ (∃ listed, RamFs.Shows s 2 listed) ∧
        ∃ m, RamFs.metadata s 2 = .ok m ∧ m.nlink = RamFs.links s 2 := by
  have hsome : (runOps RamFs.new [.create rootInode "d" .directory 0o755, .create 2 "f" .regular 0o644,
    .create 2 "e" .directory 0o755]).isSome = true := rfl
  have hsize : ((runOps RamFs.new [.create rootInode "d" .directory 0o755, .create 2 "f" .regular 0o644,
    .create 2 "e" .directory 0o755]).get hsome).nodes.size = 4 := rfl
  have hrun := (Option.some_get hsome).symm
  obtain ⟨hshows, hlinks⟩ := directory_views_agree _ hrun (by rw [hsize]; decide)
  refine ⟨_, hrun, by rw [hsize]; decide, rfl, hshows 2 rfl, hlinks 2 ?_⟩
  exact Std.ExtTreeMap.mem_iff_isSome_getElem?.mpr rfl

end Fs

end GolemKernel
