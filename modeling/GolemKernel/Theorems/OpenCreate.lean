import GolemKernel.Lemmas.OpenCreate
import GolemKernel.Lemmas.RamFsFile
import GolemKernel.Theorems.RamFs

/-!
# Concurrent `open` calls that create

If the path does not exist at the beginning, the table is as it was until one call creates the file, and then as that call left it
(`raceAbsent`); if it names a regular file, only the bytes of that file change (`racePresent`). With `exclusive`, one call returns a handle
and all others `AlreadyExists`. Without it, a call that finds the file missing and is then overtaken by another returns `AlreadyExists` as
well, so all calls share the file exactly if at most one of them finds it missing.
-/

namespace GolemKernel

namespace Fs

open GolemKernel.Fs.Inner Concurrent

namespace Target

variable {w : World} {path : Text} (T : Target w path)

/-- The table is sound. -/
theorem inv_table : T.table.Inv := by
  obtain ⟨ops, hops⟩ := T.reachable
  obtain ⟨s, hs, hinv⟩ := runOps_inv RamFs.new_inv ops
  obtain rfl := Option.some.inj (hops.symm.trans hs)
  exact hinv

/-- The next number is not in use. -/
theorem nextInode_vacant : T.table.nodes[T.table.nextInode]? = none :=
  (Inner.parentOf_eq_none_iff _ _).mp T.inv_table.parentOf_nextInode

/-- A valid name is neither `.` nor `..`, so it is looked up in the entries. -/
theorem lookup_name_eq_ok_iff {s : Inner} (hd : s.isDir T.dir = true) {i : InodeNum} :
    RamFs.lookup s T.dir T.name = .ok i ↔ s.entryAt T.dir T.name = some i := by
  have hvalid := T.valid
  have hdot : T.name ≠ "." := by
    intro hname
    rw [← Target.name, hname] at hvalid
    cases hvalid
  have hdots : T.name ≠ ".." := by
    intro hname
    rw [← Target.name, hname] at hvalid
    cases hvalid
  rw [RamFs.lookup_eq_ok_iff, if_neg hdot, if_neg hdots, hd]
  simp

/-- The parent is a directory. -/
theorem isDir_table : T.table.isDir T.dir = true := T.isDir

/-- A path that is not found is missing in its parent. -/
theorem lookup_of_absent (habsent : w.resolve path = some (.error .notFound)) :
    RamFs.lookup T.table T.dir T.name = .error .notFound := by
  rw [T.resolve_path, Option.some.injEq] at habsent
  cases hlookup : RamFs.lookup T.table T.dir T.name with
  | ok i =>
    rw [hlookup] at habsent
    cases habsent
  | error e =>
    rw [hlookup] at habsent
    cases habsent
    rfl

/-- A path that is found is an entry of its parent. -/
theorem lookup_of_present {inode : InodeNum} (hpresent : w.resolve path = some (.ok (T.fs, inode))) :
    RamFs.lookup T.table T.dir T.name = .ok inode := by
  rw [T.resolve_path, Option.some.injEq] at hpresent
  cases hlookup : RamFs.lookup T.table T.dir T.name with
  | ok i =>
    rw [hlookup] at hpresent
    cases hpresent
    rfl
  | error e =>
    rw [hlookup] at hpresent
    cases hpresent

/-- The path does not exist: the directory has no such entry. -/
theorem entryAt_of_absent (habsent : w.resolve path = some (.error .notFound)) : T.table.entryAt T.dir T.name = none := by
  cases hentry : T.table.entryAt T.dir T.name with
  | none => rfl
  | some i =>
    have hlookup := (T.lookup_name_eq_ok_iff T.isDir_table).mpr hentry
    rw [T.lookup_of_absent habsent] at hlookup
    cases hlookup

/-- The table in which one call has created the file. -/
def CreatedTable (s : Inner) : Prop := RamFs.create T.table T.dir T.name .regular 0o644 = (.ok T.table.nextInode, s)

/-- It has one new file, empty and grafted under the directory. -/
theorem exists_createdTable (habsent : w.resolve path = some (.error .notFound)) (hspace : T.Space) :
    ∃ s, T.CreatedTable s ∧ s.tree = T.table.tree.graft T.dir T.name T.table.nextInode ∧
      (∀ j, j ≠ T.table.nextInode → s.isDir j = T.table.isDir j) ∧ s.content T.table.nextInode = some [] :=
  RamFs.create_file T.valid T.isDir_table (T.entryAt_of_absent habsent) T.nextInode_vacant hspace 0o644

/-- The create hangs an empty file into the tree. -/
theorem CreatedTable.spec {T : Target w path} {s : Inner} (hs : T.CreatedTable s) (habsent : w.resolve path = some (.error .notFound))
    (hspace : T.Space) : s.tree = T.table.tree.graft T.dir T.name T.table.nextInode ∧
      (∀ j, j ≠ T.table.nextInode → s.isDir j = T.table.isDir j) ∧ s.content T.table.nextInode = some [] := by
  obtain ⟨s', hs', hspec⟩ := T.exists_createdTable habsent hspace
  obtain ⟨-, rfl⟩ := Prod.mk.inj (hs.symm.trans hs')
  exact hspec

/-- The directory is not the new inode. -/
theorem ne_nextInode_of_isDir {d : InodeNum} (hd : T.table.isDir d = true) : d ≠ T.table.nextInode := by
  rintro rfl
  simp [Inner.isDir, T.nextInode_vacant] at hd

/-- The names that were there are still there. -/
theorem CreatedTable.lookup {T : Target w path} {s : Inner} (hs : T.CreatedTable s)
    (habsent : w.resolve path = some (.error .notFound)) (hspace : T.Space) {c k : InodeNum} {m : String}
    (hlookup : RamFs.lookup T.table c m = .ok k) : RamFs.lookup s c m = .ok k := by
  obtain ⟨htree, hdir, -⟩ := hs.spec habsent hspace
  obtain ⟨hc, hfound⟩ := RamFs.lookup_eq_ok_iff.mp hlookup
  have hne := T.ne_nextInode_of_isDir hc
  have hparent : s.parentOf c = T.table.parentOf c := by
    have hgraft := congrFun (congrArg NamedTree.parent htree) c
    exact hgraft.trans (Function.update_of_ne hne _ _)
  have hentry : T.table.entryAt c m = some k → s.entryAt c m = some k := by
    intro hk
    have hgraft := congrFun (congrFun (congrArg NamedTree.entry htree) c) m
    refine hgraft.trans ((if_neg ?_).trans hk)
    rintro ⟨rfl, rfl⟩
    rw [T.entryAt_of_absent habsent] at hk
    cases hk
  refine RamFs.lookup_eq_ok_iff.mpr ⟨(hdir c hne).trans hc, ?_⟩
  rw [hparent]
  split
  · rename_i hdot
    rwa [if_pos hdot] at hfound
  · rename_i hdot
    rw [if_neg hdot] at hfound
    split
    · rename_i hdots
      rwa [if_pos hdots] at hfound
    · rename_i hdots
      rw [if_neg hdots] at hfound
      exact hentry hfound

/-- It has an entry in the parent. -/
theorem CreatedTable.entryAt {T : Target w path} {s : Inner} (hs : T.CreatedTable s)
    (habsent : w.resolve path = some (.error .notFound)) (hspace : T.Space) : s.entryAt T.dir T.name = some T.table.nextInode := by
  have hgraft := congrFun (congrFun (congrArg NamedTree.entry (hs.spec habsent hspace).1) T.dir) T.name
  exact hgraft.trans (if_pos ⟨rfl, rfl⟩)

/-- The parent stays a directory. -/
theorem CreatedTable.isDir {T : Target w path} {s : Inner} (hs : T.CreatedTable s)
    (habsent : w.resolve path = some (.error .notFound)) (hspace : T.Space) : s.isDir T.dir = true :=
  ((hs.spec habsent hspace).2.1 T.dir (T.ne_nextInode_of_isDir T.isDir_table)).trans T.isDir_table

/-- The path does not exist at the beginning. -/
def raceAbsent (habsent : w.resolve path = some (.error .notFound)) : Race T where
  inode := T.table.nextInode
  absent s := s = T.table
  present s := T.Space ∧ T.CreatedTable s
  start := .inl rfl
  found := by
    rintro s c m k (rfl | ⟨hspace, hs⟩) hlookup
    · exact hlookup
    · exact hs.lookup habsent hspace hlookup
  lookup_absent := by
    rintro s rfl
    exact T.lookup_of_absent habsent
  lookup_present := by
    rintro s ⟨hspace, hs⟩
    exact (T.lookup_name_eq_ok_iff (hs.isDir habsent hspace)).mpr (hs.entryAt habsent hspace)
  create_absent := by
    rintro s rfl
    by_cases hspace : T.Space
    · obtain ⟨s, hs, -⟩ := T.exists_createdTable habsent hspace
      exact .inl ⟨hspace, s, hs, hspace, hs⟩
    · refine .inr ⟨hspace, ?_⟩
      exact (RamFs.create_vacant T.valid T.isDir_table (T.entryAt_of_absent habsent) _).trans (if_neg hspace)
  create_present := by
    rintro s ⟨hspace, hs⟩
    exact RamFs.create_taken T.valid (hs.isDir habsent hspace) (hs.entryAt habsent hspace) _ _
  truncate_present := by
    rintro s ⟨hspace, hs⟩
    exact ⟨s, RamFs.truncate_empty (hs.spec habsent hspace).2.2, hspace, hs⟩
  metadata_present := by
    rintro s ⟨hspace, hs⟩
    obtain ⟨m, hm, -⟩ := RamFs.metadata_size (hs.spec habsent hspace).2.2
    exact ⟨m, hm⟩

/-- The path names a regular file at the beginning. -/
def racePresent {inode : InodeNum} (hpresent : w.resolve path = some (.ok (T.fs, inode)))
    (hfile : (T.table.content inode).isSome = true) : Race T where
  inode := inode
  absent _ := False
  present s := s.tree = T.table.tree ∧ (∀ j, s.isDir j = T.table.isDir j) ∧ (s.content inode).isSome = true
  start := .inr ⟨rfl, fun _ => rfl, hfile⟩
  found := by
    rintro s c m k (habsent | ⟨htree, hdir, -⟩) hlookup
    · exact habsent.elim
    · exact (RamFs.lookup_eq_ok_congr htree hdir).mpr hlookup
  lookup_absent := fun habsent => habsent.elim
  lookup_present := by
    rintro s ⟨htree, hdir, -⟩
    exact (RamFs.lookup_eq_ok_congr htree hdir).mpr (T.lookup_of_present hpresent)
  create_absent := fun habsent => habsent.elim
  create_present := by
    rintro s ⟨htree, hdir, -⟩
    have hd : s.isDir T.dir = true := (hdir T.dir).trans T.isDir_table
    have hlookup := (RamFs.lookup_eq_ok_congr htree hdir).mpr (T.lookup_of_present hpresent)
    exact RamFs.create_taken T.valid hd ((T.lookup_name_eq_ok_iff hd).mp hlookup) _ _
  truncate_present := by
    rintro s ⟨htree, hdir, hcontent⟩
    obtain ⟨data, hdata⟩ := Option.isSome_iff_exists.mp hcontent
    obtain ⟨s', hs', hcontent', htree', hdir'⟩ := RamFs.truncate_content hdata (RamFs.resize_zero data)
    exact ⟨s', hs', htree'.trans htree, fun j => (hdir' j).trans (hdir j), by rw [hcontent']; rfl⟩
  metadata_present := by
    rintro s ⟨-, -, hcontent⟩
    obtain ⟨data, hdata⟩ := Option.isSome_iff_exists.mp hcontent
    obtain ⟨m, hm, -⟩ := RamFs.metadata_size hdata
    exact ⟨m, hm⟩

end Target

/-! ## Every interleaving -/

section

variable {n : Nat} {w : World} {path : Text} {T : Target w path} {flags : Fin n → OpenFlags}
  {evs : List (Event (Fin n) Call Call.Answer (FsResult File) World)} {cfg : Config (Fin n) Call Call.Answer (FsResult File) World}

/-- The calls at the beginning. -/
def opens (w : World) (path : Text) (flags : Fin n → OpenFlags) : Config (Fin n) Call Call.Answer (FsResult File) World :=
  (fun i => (Vfs.open path (flags i)).run, w)

/-- A call that is given its turn is never stuck, and returns within so many turns. -/
def Returning (path : Text) (evs : List (Event (Fin n) Call Call.Answer (FsResult File) World))
    (cfg : Config (Fin n) Call Call.Answer (FsResult File) World) (i : Fin n) : Prop :=
  (history evs).countP (·.1 = i) ≤ 2 * (components path).length + 4 ∧
    ((∃ r, cfg.1 i = .ret r) ∨ ∃ out cfg', step World.exec cfg i = some (out, cfg'))

/-- The three things a call can return. -/
theorem Race.Outcome.result {R : Race T} {exclusive : Bool} {i : Fin n} {h : History (Fin n) Call Call.Answer} {r : FsResult File}
    (hr : R.Outcome exclusive i h (r.map fun f => (f.fs, f.inode))) :
    (∃ f, r = .ok f ∧ f.fs = T.fs ∧ f.inode = R.inode ∧ (R.Created i h ∨ exclusive = false ∧ ¬T.Missed i h)) ∨
      (r = .error .alreadyExists ∧ ¬R.Created i h ∧ (exclusive = true ∨ T.Missed i h) ∧ R.InPlace h) ∨
      (r = .error .noSpace ∧ T.Missed i h ∧ ¬T.Space) := by
  generalize hresult : r.map (fun f => (f.fs, f.inode)) = result at hr
  cases r with
  | ok f =>
    cases hr with
    | opened hpart _ =>
      obtain ⟨hfs, hinode⟩ := Prod.mk.inj (Except.ok.inj hresult)
      exact .inl ⟨f, rfl, hfs, hinode, hpart⟩
    | refused _ _ _ => cases hresult
    | full _ _ => cases hresult
  | error e =>
    cases hr with
    | opened _ _ => cases hresult
    | refused hcreated hpart hplace =>
      cases hresult
      exact .inr (.inl ⟨rfl, hcreated, hpart, hplace⟩)
    | full hmissed hspace =>
      cases hresult
      exact .inr (.inr ⟨rfl, hmissed, hspace⟩)

/-- What holds in every interleaving of the calls. -/
theorem Race.run (R : Race T) (hflags : ∀ i, (flags i).create = true) (run : Run World.exec (opens w path flags) evs cfg) :
    R.Inv (history evs) cfg.2 ∧ (∀ i, Returning path evs cfg i) ∧
      ∀ i r, cfg.1 i = .ret r → R.Outcome (flags i).exclusive i (history evs) (r.map fun f => (f.fs, f.inode)) := by
  obtain ⟨hinv, hfollows⟩ := run.follows R.inv_nil fun i => R.follows_open (hflags i)
  refine ⟨hinv, fun i => ?_, fun i r hret => ?_⟩
  · obtain ⟨m, hm, hfollow⟩ := hfollows i
    exact ⟨by omega, hfollow.progress hinv⟩
  · obtain ⟨m, -, hfollow⟩ := hfollows i
    rw [hret] at hfollow
    exact hfollow.post_of_ret

/-- There is one file more than at the beginning: empty, with a new inode number, as one `create` made it. -/
structure Target.NewFile (T : Target w path) (inode : InodeNum) (w' : World) : Prop where
  fresh : inode ∉ T.table.nodes
  nodes : ∀ j, j ∈ (w'.disk T.fs).nodes ↔ j = inode ∨ j ∈ T.table.nodes
  empty : (w'.disk T.fs).content inode = some []
  create : RamFs.create T.table T.dir T.name .regular 0o644 = (.ok inode, w'.disk T.fs)
  elsewhere : w' = w.setDisk T.fs (w'.disk T.fs)

/-- What the path leads to after the create. -/
theorem Target.newFile (T : Target w path) (habsent : w.resolve path = some (.error .notFound)) (hspace : T.Space) {w' : World}
    (hdisk : T.CreatedTable (w'.disk T.fs)) (hw' : w' = w.setDisk T.fs (w'.disk T.fs)) : T.NewFile T.table.nextInode w' := by
  obtain ⟨htree, -, hempty⟩ := hdisk.spec habsent hspace
  have hmem : ∀ (s : Inner) (j : InodeNum), j ∈ s.nodes ↔ (s.parentOf j).isSome = true := by
    intro s j
    rw [Std.ExtTreeMap.mem_iff_isSome_getElem?, Inner.parentOf, Option.isSome_map]
  have hparent : (w'.disk T.fs).parentOf = Function.update T.table.parentOf T.table.nextInode (some T.dir) :=
    congrArg NamedTree.parent htree
  refine ⟨?_, ?_, hempty, hdisk, hw'⟩
  · rw [hmem, T.inv_table.parentOf_nextInode]
    exact Bool.false_ne_true
  · intro j
    rw [hmem, hmem, hparent]
    by_cases hj : j = T.table.nextInode
    · simp [hj]
    · simp [hj]

/-- Of concurrent exclusive creations of one file exactly one succeeds, if an inode number is left. -/
theorem exclusive_create_atomic (hn : 0 < n) (habsent : w.resolve path = some (.error .notFound)) (hspace : T.Space)
    (hflags : ∀ i, (flags i).create = true ∧ (flags i).exclusive = true) (run : Run World.exec (opens w path flags) evs cfg) :
    (∀ i, Returning path evs cfg i) ∧ ((∀ i, ∃ r, cfg.1 i = .ret r) →
      ∃ i f, cfg.1 i = .ret (.ok f) ∧ (∀ j, j ≠ i → cfg.1 j = .ret (.error .alreadyExists)) ∧ f.fs = T.fs ∧
        T.NewFile f.inode cfg.2) := by
  obtain ⟨hinv, hreturning, houtcome⟩ := (T.raceAbsent habsent).run (fun i => (hflags i).1) run
  refine ⟨hreturning, fun hret => ?_⟩
  have hnot : ¬(T.raceAbsent habsent).present T.table := (T.raceAbsent habsent).not_present_of_absent rfl
  -- a call returns a handle if it created the file, and otherwise comes after the one that did
  have hcases : ∀ i, (∃ f, cfg.1 i = .ret (.ok f) ∧ f.fs = T.fs ∧ f.inode = T.table.nextInode ∧
      (T.raceAbsent habsent).Created i (history evs)) ∨
      (cfg.1 i = .ret (.error .alreadyExists) ∧ ¬(T.raceAbsent habsent).Created i (history evs) ∧
        ∃ j, (T.raceAbsent habsent).Created j (history evs)) := by
    intro i
    obtain ⟨r, hr⟩ := hret i
    rcases (houtcome i r hr).result with ⟨f, rfl, hfs, hinode, hpart⟩ | ⟨rfl, hcreated, -, hplace⟩ | ⟨-, -, hfull⟩
    · rcases hpart with hcreated | ⟨hshared, -⟩
      · exact .inl ⟨f, hr, hfs, hinode, hcreated⟩
      · rw [(hflags i).2] at hshared
        cases hshared
    · rcases hplace with hpresent | hcreator
      · exact absurd hpresent hnot
      · exact .inr ⟨hr, hcreated, hcreator⟩
    · exact absurd hspace hfull
  obtain ⟨i, hi⟩ : ∃ i, (T.raceAbsent habsent).Created i (history evs) := by
    rcases hcases ⟨0, hn⟩ with ⟨-, -, -, -, hcreated⟩ | ⟨-, -, hcreator⟩
    · exact ⟨_, hcreated⟩
    · exact hcreator
  rcases hcases i with ⟨f, hf, hfs, hinode, -⟩ | ⟨-, hcreated, -⟩
  · refine ⟨i, f, hf, ?_, hfs, ?_⟩
    · intro j hj
      rcases hcases j with ⟨-, -, -, -, hcreated⟩ | ⟨hrefused, -⟩
      · exact absurd (hinv.unique j i hcreated hi) hj
      · exact hrefused
    · rw [hinode]
      exact T.newFile habsent hspace (hinv.present (.inr ⟨i, hi⟩)).2 hinv.world
  · exact absurd hi hcreated

/-- Concurrent calls that create without `exclusive` all return a handle of the same file exactly if at most one of them finds the file
missing, and an inode number is left for it if one does. -/
theorem shared_create_iff (hstart : w.resolve path = some (.error .notFound) ∨
      ∃ inode, w.resolve path = some (.ok (T.fs, inode)) ∧ (T.table.content inode).isSome = true)
    (hflags : ∀ i, (flags i).create = true ∧ (flags i).exclusive = false) (run : Run World.exec (opens w path flags) evs cfg) :
    (∀ i, Returning path evs cfg i) ∧ ((∀ i, ∃ r, cfg.1 i = .ret r) →
      ((∃ inode, ∀ i, ∃ f, cfg.1 i = .ret (.ok f) ∧ f.fs = T.fs ∧ f.inode = inode) ↔
        (∀ i j, T.Missed i (history evs) → T.Missed j (history evs) → i = j) ∧
          ((∃ i, T.Missed i (history evs)) → T.Space))) := by
  obtain ⟨R⟩ : Nonempty (Race T) := by
    rcases hstart with habsent | ⟨inode, hpresent, hfile⟩
    · exact ⟨T.raceAbsent habsent⟩
    · exact ⟨T.racePresent hpresent hfile⟩
  obtain ⟨hinv, hreturning, houtcome⟩ := R.run (fun i => (hflags i).1) run
  refine ⟨hreturning, fun hret => ⟨?_, ?_⟩⟩
  · rintro ⟨inode, hall⟩
    -- a call that found the file missing and still returned a handle has created it
    have hcreated : ∀ i, T.Missed i (history evs) → R.Created i (history evs) := by
      intro i hmissed
      obtain ⟨f, hf, -⟩ := hall i
      rcases (houtcome i _ hf).result with ⟨-, -, -, -, hcreated | ⟨-, hnot⟩⟩ | ⟨hne, -⟩ | ⟨hne, -⟩
      · exact hcreated
      · exact absurd hmissed hnot
      · cases hne
      · cases hne
    refine ⟨fun i j hi hj => hinv.unique i j (hcreated i hi) (hcreated j hj), ?_⟩
    rintro ⟨i, hi⟩
    exact (hinv.missed i (hcreated i hi)).2
  · rintro ⟨hone, hspace⟩
    refine ⟨R.inode, fun i => ?_⟩
    obtain ⟨r, hr⟩ := hret i
    rcases (houtcome i r hr).result with ⟨f, rfl, hfs, hinode, -⟩ | ⟨-, hcreated, hpart, hplace⟩ | ⟨-, hmissed, hfull⟩
    · exact ⟨f, hr, hfs, hinode⟩
    · -- it was refused, so it and another call found the file missing
      have hmissed : T.Missed i (history evs) := by
        rcases hpart with hexclusive | hmissed
        · rw [(hflags i).2] at hexclusive
          cases hexclusive
        · exact hmissed
      rcases hplace with hpresent | ⟨j, hj⟩
      · exact absurd hpresent (R.not_present_of_absent (hinv.absent i hmissed))
      · rw [hone i j hmissed (hinv.missed j hj).1] at hcreated
        exact absurd hj hcreated
    · exact absurd (hspace ⟨i, hmissed⟩) hfull

end

/-! ## Runs -/

/-- A filesystem without files at `/`, with a given next inode number. -/
def emptyWorld (next : Nat) : World := ⟨⟨[⟨"/", 0⟩]⟩, fun _ => ⟨RamFs.new.nodes, next⟩⟩

/-- To create a file and remove it again uses up an inode number and nothing else. -/
theorem create_unlink_eq {next : Nat} (hnext : 2 ≤ next) (hspace : next + 1 < 2 ^ 64) (ops : List Op) :
    runOps ⟨RamFs.new.nodes, next⟩ (.create rootInode "a" .regular 0o644 :: .unlink rootInode "a" :: ops) =
      runOps ⟨RamFs.new.nodes, next + 1⟩ ops := by
  have hroot : rootInode ≠ next := Nat.ne_of_lt hnext
  have hnew : RamFs.new.nodes[next]? = none := (RamFs.nodes_new next).trans (if_neg hroot)
  obtain ⟨s, hs⟩ : ∃ s, s = Inner.modifyEntries ⟨RamFs.new.nodes.insert next ⟨rootInode, .file [], 0o644, 0, 0, 0, 0, 0⟩, next + 1⟩
      rootInode (·.insert "a" next) := ⟨_, rfl⟩
  have hcreate : RamFs.create ⟨RamFs.new.nodes, next⟩ rootInode "a" .regular 0o644 = (.ok next, s) := by
    rw [hs]
    exact (RamFs.create_vacant rfl rfl rfl _).trans (if_pos hspace)
  have hget : ∀ j : InodeNum, s.nodes[j]? =
      if rootInode = j then some ⟨rootInode, .directory ((∅ : BTreeMap String InodeNum).insert "a" next), 0o755, 0, 0, 0, 0, 0⟩
      else if next = j then some ⟨rootInode, .file [], 0o644, 0, 0, 0, 0, 0⟩ else none := by
    intro j
    rw [hs, nodes_modifyEntries]
    simp only [Std.ExtTreeMap.getElem?_insert, Std.LawfulEqCmp.compare_eq_iff_eq, RamFs.nodes_new]
    by_cases hj : rootInode = j
    · subst hj
      simp [hroot.symm, NodeKind.mapEntries]
    · simp [hj]
  have hunlink : RamFs.unlink s rootInode "a" = (.ok (), ⟨RamFs.new.nodes, next + 1⟩) := by
    have hchild : RamFs.childOf s rootInode "a" = .ok next := by
      simp [RamFs.childOf, hget]
    have hnode : s.nodes[next]? = some ⟨rootInode, .file [], 0o644, 0, 0, 0, 0, 0⟩ := by
      rw [hget, if_neg hroot, if_pos rfl]
    have hnodes : ((s.modifyEntries rootInode (·.erase "a")).removeNode next).nodes = RamFs.new.nodes := by
      refine Std.ExtTreeMap.ext_getElem? fun j => ?_
      rw [nodes_removeNode, nodes_modifyEntries, hget, RamFs.nodes_new]
      by_cases hj : rootInode = j
      · subst hj
        have hempty : ((∅ : BTreeMap String InodeNum).insert "a" next).erase "a" = ∅ := by
          refine Std.ExtTreeMap.ext_getElem? fun name => ?_
          simp only [Std.ExtTreeMap.getElem?_erase, Std.ExtTreeMap.getElem?_insert, Std.LawfulEqCmp.compare_eq_iff_eq,
            Std.ExtTreeMap.getElem?_empty]
          split <;> simp_all
        simp [hroot.symm, NodeKind.mapEntries, hempty]
      · simp only [if_neg hj]
        split <;> simp_all
    simp only [RamFs.unlink, hchild, hnode, NodeKind.isDirectory, Bool.false_eq_true, if_false]
    rw [Prod.mk.injEq]
    refine ⟨rfl, ?_⟩
    rw [← hnodes, hs]
    rfl
  simp only [runOps, Op.run, hcreate, hunlink, Option.bind_some]

/-- Files that are made and removed use numbers up, and leave no trace but that. -/
theorem exists_ops_next (k : Nat) {next : Nat} (hnext : 2 ≤ next) (hspace : next + k < 2 ^ 64) :
    ∃ ops, runOps ⟨RamFs.new.nodes, next⟩ ops = some ⟨RamFs.new.nodes, next + k⟩ := by
  induction k generalizing next with
  | zero => exact ⟨[], rfl⟩
  | succ k ih =>
    obtain ⟨ops, hops⟩ := @ih (next + 1) (by omega) (by omega)
    refine ⟨.create rootInode "a" .regular 0o644 :: .unlink rootInode "a" :: ops, ?_⟩
    rw [create_unlink_eq hnext (by omega), hops, Nat.add_assoc, Nat.add_comm 1 k]

/-- The path `/a` there. -/
def emptyTarget {next : Nat} (hnext : 2 ≤ next) (hlt : next < 2 ^ 64) : Target (emptyWorld next) "/a" where
  fs := 0
  parentPath := "/"
  lastComponent := "a"
  dir := rootInode
  mounted := rfl
  reachable := by
    obtain ⟨k, rfl⟩ := Nat.exists_eq_add_of_le hnext
    exact exists_ops_next k (Nat.le_refl 2) hlt
  split := rfl
  parent := rfl
  isDir := rfl
  valid := rfl

/-- `create` and perhaps `exclusive`. -/
def createFlags (exclusive : Bool) : OpenFlags := ⟨false, true, false, true, false, exclusive⟩

/-- When the inode numbers are used up, no exclusive creation succeeds. -/
theorem exclusive_create_used_up : Nonempty (Target (emptyWorld (2 ^ 64 - 1)) "/a") ∧
    (emptyWorld (2 ^ 64 - 1)).resolve "/a" = some (.error .notFound) ∧
    ∃ evs cfg, Run World.exec (opens (emptyWorld (2 ^ 64 - 1)) "/a" fun _ : Fin 1 => createFlags true) evs cfg ∧
      cfg.1 0 = .ret (.error .noSpace) := by
  refine ⟨⟨emptyTarget (by norm_num) (by norm_num)⟩, rfl, ?_⟩
  have hplay : (play World.exec (opens (emptyWorld (2 ^ 64 - 1)) "/a" fun _ : Fin 1 => createFlags true) [0, 0, 0, 0]).isSome = true :=
    rfl
  exact ⟨_, _, Run.of_play (Option.some_get hplay).symm, rfl⟩

/-- Two exclusive creations, the second between the steps of the first. -/
theorem exclusive_create_atomic_two : ∃ evs cfg,
    Run World.exec (opens (emptyWorld 2) "/a" fun _ : Fin 2 => createFlags true) evs cfg ∧
      ∃ i f, cfg.1 i = .ret (.ok f) ∧ ∀ j, j ≠ i → cfg.1 j = .ret (.error .alreadyExists) := by
  have hplay : (play World.exec (opens (emptyWorld 2) "/a" fun _ : Fin 2 => createFlags true) [0, 0, 1, 1, 1, 1, 0, 0]).isSome = true :=
    rfl
  have run := Run.of_play (Option.some_get hplay).symm
  obtain ⟨i, f, hf, hothers, -⟩ := (exclusive_create_atomic (T := emptyTarget (Nat.le_refl 2) (by norm_num)) (by norm_num) rfl
    (by norm_num [Target.Space, Target.table, emptyTarget, emptyWorld]) (fun _ => ⟨rfl, rfl⟩) run).2 fun i => by
      fin_cases i <;> exact ⟨_, rfl⟩
  exact ⟨_, _, run, i, f, hf, hothers⟩

/-- Two calls find the file missing one after the other, and then both create it: the second is told that it exists. -/
theorem shared_create_refused : Nonempty (Target (emptyWorld 2) "/a") ∧ (emptyWorld 2).resolve "/a" = some (.error .notFound) ∧
    ∃ evs cfg, Run World.exec (opens (emptyWorld 2) "/a" fun _ : Fin 2 => createFlags false) evs cfg ∧
      cfg.1 1 = .ret (.error .alreadyExists) := by
  refine ⟨⟨emptyTarget (Nat.le_refl 2) (by norm_num)⟩, rfl, ?_⟩
  have hplay : (play World.exec (opens (emptyWorld 2) "/a" fun _ : Fin 2 => createFlags false) [0, 0, 1, 1, 0, 0, 1, 1]).isSome = true :=
    rfl
  exact ⟨_, _, Run.of_play (Option.some_get hplay).symm, rfl⟩

/-- One call after the other: only the first finds the file missing. -/
theorem shared_create_iff_two : ∃ evs cfg, Run World.exec (opens (emptyWorld 2) "/a" fun _ : Fin 2 => createFlags false) evs cfg ∧
    ∀ i j, (emptyTarget (Nat.le_refl 2) (by norm_num)).Missed i (history evs) →
      (emptyTarget (Nat.le_refl 2) (by norm_num)).Missed j (history evs) → i = j := by
  have hplay : (play World.exec (opens (emptyWorld 2) "/a" fun _ : Fin 2 => createFlags false) [0, 0, 0, 0, 1, 1]).isSome = true :=
    rfl
  have run := Run.of_play (Option.some_get hplay).symm
  refine ⟨_, _, run, ((((shared_create_iff (T := emptyTarget (Nat.le_refl 2) (by norm_num)) (.inl rfl) (fun _ => ⟨rfl, rfl⟩) run).2
    fun i => ?_).mp ⟨2, fun i => ?_⟩).1)⟩
  · fin_cases i <;> exact ⟨_, rfl⟩
  · fin_cases i <;> exact ⟨_, rfl, rfl, rfl⟩

end Fs

end GolemKernel
