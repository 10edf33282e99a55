import GolemKernel.Lemmas.Vfs

/-!
# `open` calls that create, side by side

Any number of `open` calls with `create` on one path, on one filesystem mounted at `/`. Each resolves the path; if the last component is
missing it resolves the parent and creates the file; and it may then truncate the file and ask for its size. While they run the file is
first absent and then present, or present all the time, and the calls need nothing else of the table (`Race`). Who found the file missing
and who created it can be read off the history; the invariant (`RaceInv`) ties the phase of the table to it, and what a call returns is
determined by its own part in it (`Outcome`).
-/

namespace GolemKernel

namespace Fs

open Text Concurrent

/-! ## Programs with errors, among others -/

section

variable {ι : Type} {inv : History ι Call Call.Answer → World → Prop} {i : ι} {α β : Type} {m n : Nat}
  {post : FsResult β → History ι Call Call.Answer → Prop} {h : History ι Call Call.Answer}

/-- `?`: go on with a result, return an error. -/
theorem follows_bind {x : VfsM α} {f : α → VfsM β} (post₁ : FsResult α → History ι Call Call.Answer → Prop)
    (hx : Follows inv World.exec i post₁ m x.run h)
    (hok : ∀ a h', post₁ (.ok a) h' → Follows inv World.exec i post n (f a).run h')
    (herror : ∀ e h' h'', post₁ (.error e) h' → Others i h' h'' → post (.error e) h'') :
    Follows inv World.exec i post (m + n) (x >>= f).run h := by
  show Follows inv World.exec i post (m + n) (x.run >>= ExceptT.bindCont f) h
  refine Follows.bind (hx.weaken ?_)
  intro r h' hr
  cases r with
  | ok a => exact hok a h' hr
  | error e => exact follows_ret_iff.mpr fun h'' hothers => herror e h' h'' hr hothers

end

namespace Vfs

/-- A walk along two lists is two walks. -/
theorem walk_append (fs : FsId) (current : InodeNum) (l l' : List Text) :
    walk fs current (l ++ l') = walk fs current l >>= fun next => walk fs next l' := by
  induction l generalizing current with
  | nil => simp [walk]
  | cons c l ih =>
    simp only [List.cons_append, walk]
    split
    · exact ih current
    · simp only [bind_assoc]
      congr 1
      funext next
      exact ih next

/-- A walk of one proper component is a lookup. -/
theorem walk_singleton {fs : FsId} {current : InodeNum} {c : Text} (hc : (c.isEmpty || decide (c = ".".toList)) = false) :
    walk fs current [c] = FileSystem.lookup fs current (String.ofList c) := by
  rw [walk, hc, if_neg Bool.false_ne_true]
  exact bind_pure _

/-- `resolve` in two parts: choose the mount, walk the components. -/
theorem resolve_eq_walk {path : Text} (habs : path.startsWith '/' = true) :
    resolve path = selectMount path >>= fun mount =>
      walk mount.1 rootInode (components mount.2) >>= fun inode => pure (mount.1, inode) := by
  have habs' : (!path.startsWith '/') = false := by rw [habs]; rfl
  rw [resolve, habs', if_neg Bool.false_ne_true]
  congr 1
  funext mount
  obtain ⟨fs, rel⟩ := mount
  dsimp only
  rw [walk_filter fs rootInode (rel.split '/'), ← components_eq]

/-- The end of `open` in its three parts. -/
theorem handle_eq (flags : OpenFlags) (fs : FsId) (inode : InodeNum) :
    handle flags fs inode =
      (if flags.truncate && flags.write then FileSystem.truncate fs inode 0 else pure ()) >>= fun _ =>
        (if flags.append then (·.size) <$> FileSystem.metadata fs inode else pure 0) >>= fun offset =>
          pure ⟨fs, inode, offset, flags⟩ := by
  unfold handle
  cases flags.truncate && flags.write <;> cases flags.append <;> rfl

end Vfs

/-- A component of a path is neither empty nor a dot. -/
theorem proper_of_mem_components {path c : Text} (hc : c ∈ components path) : (c.isEmpty || decide (c = ".".toList)) = false := by
  rw [components_eq] at hc
  simpa using (List.mem_filter.mp hc).2

/-! ## The path -/

/-- A path in the only filesystem, mounted at `/`, that `open` can create: its parent resolves to a directory, and its last component is a
valid name. -/
structure Target (w : World) (path : Text) where
  fs : FsId
  parentPath : Text
  lastComponent : Text
  dir : InodeNum
  mounted : w.vfs = ⟨[⟨"/", fs⟩]⟩
  reachable : ∃ ops, runOps RamFs.new ops = some (w.disk fs)
  split : splitParent path = .ok (parentPath, lastComponent)
  parent : w.resolve parentPath = some (.ok (fs, dir))
  isDir : (w.disk fs).isDir dir = true
  valid : validateName (String.ofList lastComponent) = .ok ()

namespace Target

variable {w : World} {path : Text} (T : Target w path) {ι : Type}

/-- The table at the beginning. -/
def table : Inner := w.disk T.fs

/-- The name to be looked up and created. -/
def name : String := String.ofList T.lastComponent

/-- The next inode number is not the last one. -/
def Space : Prop := T.table.nextInode + 1 < 2 ^ 64

/-- The call that finds the name missing. -/
def missing : Answered Call Call.Answer := ⟨.lookup T.fs T.dir T.name, .error .notFound⟩

/-- This thread looked the name up and did not find it. -/
def Missed (i : ι) (h : History ι Call Call.Answer) : Prop := (i, T.missing) ∈ h

/-- All paths are of the one mount. -/
theorem owner_eq {p : Text} : w.vfs.owner p = some ⟨"/", T.fs⟩ := by
  rw [T.mounted]
  exact Vfs.owner_root T.fs p

/-- The components of the path are those of the parent, and the last one. -/
theorem components_path : components path = components T.parentPath ++ [T.lastComponent] := by
  have hdot : T.lastComponent ≠ ".".toList := by
    intro hdot
    have hvalid := T.valid
    rw [hdot] at hvalid
    simp [validateName] at hvalid
  rw [components_of_splitParent T.split, if_neg hdot]

/-- The path is absolute. -/
theorem startsWith_path (T : Target w path) : path.startsWith '/' = true := (splitParent_eq_ok T.split).1

/-- And so is that of its parent. -/
theorem startsWith_parentPath : T.parentPath.startsWith '/' = true := startsWith_of_splitParent T.split

/-- The parent is reached by its components. -/
theorem walk_parent : walkIn T.table rootInode (components T.parentPath) = .ok T.dir := by
  have hparent := T.parent
  rw [World.resolve_root_mount T.mounted T.startsWith_parentPath, Option.some.injEq] at hparent
  cases hwalk : walkIn (w.disk T.fs) rootInode (components T.parentPath) with
  | ok d =>
    rw [hwalk] at hparent
    cases hparent
    exact hwalk
  | error e =>
    rw [hwalk] at hparent
    cases hparent

/-- What the path resolves to is what the parent holds under the name. -/
theorem resolve_path : w.resolve path = some ((RamFs.lookup T.table T.dir T.name).map (T.fs, ·)) := by
  have hwalk : walkIn (w.disk T.fs) rootInode (components T.parentPath) = .ok T.dir := T.walk_parent
  rw [World.resolve_root_mount T.mounted T.startsWith_path, T.components_path, walkIn_append, hwalk]
  exact congrArg (some ∘ Except.map _) (walkIn_singleton _ _ _)

end Target

/-! ## The two phases -/

/-- What the calls need of the table. In one phase the file is absent and in the other it is present, with always the same inode number;
a creation, if an inode number is left for it, leads from the first to the second, and nothing leads back. -/
structure Race {w : World} {path : Text} (T : Target w path) where
  inode : InodeNum
  absent : Inner → Prop
  present : Inner → Prop
  start : absent T.table ∨ present T.table
  found : ∀ {s c m k}, absent s ∨ present s → RamFs.lookup T.table c m = .ok k → RamFs.lookup s c m = .ok k
  lookup_absent : ∀ {s}, absent s → RamFs.lookup s T.dir T.name = .error .notFound
  lookup_present : ∀ {s}, present s → RamFs.lookup s T.dir T.name = .ok inode
  create_absent : ∀ {s}, absent s →
    (T.Space ∧ ∃ s', RamFs.create s T.dir T.name .regular 0o644 = (.ok inode, s') ∧ present s') ∨
      (¬T.Space ∧ RamFs.create s T.dir T.name .regular 0o644 = (.error .noSpace, s))
  create_present : ∀ {s}, present s → RamFs.create s T.dir T.name .regular 0o644 = (.error .alreadyExists, s)
  truncate_present : ∀ {s}, present s → ∃ s', RamFs.truncate s inode 0 = (.ok (), s') ∧ present s'
  metadata_present : ∀ {s}, present s → ∃ m, RamFs.metadata s inode = .ok m

namespace Race

variable {w : World} {path : Text} {T : Target w path} (R : Race T) {ι : Type} {h h' : History ι Call Call.Answer} {w' : World} {i : ι}
  {a : Answered Call Call.Answer}

/-- The call that creates the file. -/
def created : Answered Call Call.Answer := ⟨.create T.fs T.dir T.name .regular 0o644, .ok R.inode⟩

/-- This thread created the file. -/
def Created (i : ι) (h : History ι Call Call.Answer) : Prop := (i, R.created) ∈ h

/-- The file was there at the beginning, or was created. -/
def InPlace (h : History ι Call Call.Answer) : Prop := R.present T.table ∨ ∃ j, R.Created j h

/-- The history and the table agree: the file is absent and nobody created it, or it is present and in place. At most one thread created
it, and it had found it missing; and it is found missing only if it was absent at the beginning. -/
structure Inv (h : History ι Call Call.Answer) (w' : World) : Prop where
  world : w' = w.setDisk T.fs (w'.disk T.fs)
  phase : (R.absent T.table ∧ R.absent (w'.disk T.fs) ∧ ∀ j, ¬R.Created j h) ∨ (R.present (w'.disk T.fs) ∧ R.InPlace h)
  unique : ∀ j k, R.Created j h → R.Created k h → j = k
  missed : ∀ j, R.Created j h → T.Missed j h ∧ T.Space
  absent : ∀ j, T.Missed j h → R.absent T.table

/-- The file is not there before it has been created. -/
theorem not_present_of_absent {s : Inner} (habsent : R.absent s) : ¬R.present s := by
  intro hpresent
  have hlookup := (R.lookup_absent habsent).symm.trans (R.lookup_present hpresent)
  cases hlookup

/-- At any time the file is not there yet, or is there. -/
theorem Inv.absent_or_present {R : Race T} (hinv : R.Inv h w') : R.absent (w'.disk T.fs) ∨ R.present (w'.disk T.fs) := by
  rcases hinv.phase with ⟨-, habsent, -⟩ | ⟨hpresent, -⟩
  · exact .inl habsent
  · exact .inr hpresent

/-- A file that is in place is in the table. -/
theorem Inv.present {R : Race T} (hinv : R.Inv h w') (hplace : R.InPlace h) : R.present (w'.disk T.fs) := by
  rcases hinv.phase with ⟨habsent, -, hnone⟩ | ⟨hpresent, -⟩
  · rcases hplace with hpresent | ⟨j, hj⟩
    · exact absurd hpresent (R.not_present_of_absent habsent)
    · exact absurd hj (hnone j)
  · exact hpresent

/-- Before any turn the world is what it was. -/
theorem inv_nil : R.Inv ([] : History ι Call Call.Answer) w := by
  refine ⟨by simp [World.setDisk], ?_, ?_, ?_, ?_⟩
  · rcases R.start with habsent | hpresent
    · exact .inl ⟨habsent, habsent, fun j hj => by cases hj⟩
    · exact .inr ⟨hpresent, .inl hpresent⟩
  · intro j k hj
    cases hj
  · intro j hj
    cases hj
  · intro j hj
    cases hj

/-! ### What a turn does to the history -/

/-- A thread has missed the file earlier or at the last turn. -/
theorem missed_concat {j : ι} : T.Missed j (h ++ [(i, a)]) ↔ T.Missed j h ∨ j = i ∧ T.missing = a := by
  simp [Target.Missed]

/-- A turn that does not miss the file leaves who has. -/
theorem missed_concat_of_ne (hne : T.missing ≠ a) (j : ι) : T.Missed j (h ++ [(i, a)]) ↔ T.Missed j h := by
  simp [missed_concat, hne]

/-- A thread has created the file earlier or at the last turn. -/
theorem created_concat {j : ι} : R.Created j (h ++ [(i, a)]) ↔ R.Created j h ∨ j = i ∧ R.created = a := by
  simp [Created]

/-- A turn that does not create the file leaves who has. -/
theorem created_concat_of_ne (hne : R.created ≠ a) (j : ι) : R.Created j (h ++ [(i, a)]) ↔ R.Created j h := by
  simp [created_concat, hne]

/-- A lookup that fails is not a create that succeeds. -/
theorem missing_ne_created : T.missing ≠ R.created := by
  intro heq
  cases heq

/-- Only the one filesystem has changed since the start. -/
theorem Inv.world_setDisk {R : Race T} (hinv : R.Inv h w') (s : Inner) :
    w'.setDisk T.fs s = w.setDisk T.fs ((w'.setDisk T.fs s).disk T.fs) := by
  rw [World.disk_setDisk, hinv.world, World.setDisk_setDisk]

/-- The own part of a thread: whether it found the file missing, and whether it created it. -/
def SamePart (i : ι) (h h' : History ι Call Call.Answer) : Prop :=
  (T.Missed i h' ↔ T.Missed i h) ∧ (R.Created i h' ↔ R.Created i h)

/-- Turns that leave the part of a thread in the race can be put together. -/
theorem SamePart.trans {R : Race T} {h₁ h₂ h₃ : History ι Call Call.Answer} (first : R.SamePart i h₁ h₂)
    (second : R.SamePart i h₂ h₃) : R.SamePart i h₁ h₃ := ⟨second.1.trans first.1, second.2.trans first.2⟩

/-- Others do not change it. -/
theorem samePart_others (hothers : Others i h h') : R.SamePart i h h' := by
  obtain ⟨l, rfl, hl⟩ := hothers
  have hnot : ∀ a, (i, a) ∉ l := fun a ha => hl (i, a) ha rfl
  simp [SamePart, Target.Missed, Created, hnot]

/-- A file that is in place stays in place. -/
theorem inPlace_append (hplace : R.InPlace h) (l : History ι Call Call.Answer) : R.InPlace (h ++ l) := by
  rcases hplace with hpresent | ⟨j, hj⟩
  · exact .inl hpresent
  · exact .inr ⟨j, List.mem_append_left l hj⟩

/-- And also while the others go on. -/
theorem inPlace_others (hothers : Others i h h') (hplace : R.InPlace h) : R.InPlace h' := by
  obtain ⟨l, rfl, -⟩ := hothers
  exact R.inPlace_append hplace l

/-- A call that neither finds the file missing nor creates it. -/
structure Neutral (a : Answered Call Call.Answer) : Prop where
  missing : T.missing ≠ a
  created : R.created ≠ a

variable {R}

/-- A neutral turn leaves the part that a thread has had in the race. -/
theorem Neutral.samePart (hneutral : R.Neutral a) (hothers : Others i h h') : R.SamePart i h (h' ++ [(i, a)]) := by
  exact (R.samePart_others hothers).trans
    ⟨missed_concat_of_ne hneutral.missing i, R.created_concat_of_ne hneutral.created i⟩

/-- Such a call keeps the invariant if it does not change the phase. -/
theorem Inv.neutral (hinv : R.Inv h w') (hneutral : R.Neutral a) {s : Inner} (habsent : R.absent (w'.disk T.fs) → R.absent s)
    (hpresent : R.present (w'.disk T.fs) → R.present s) : R.Inv (h ++ [(i, a)]) (w'.setDisk T.fs s) := by
  have hcreated := R.created_concat_of_ne (h := h) (i := i) hneutral.created
  have hmissed := missed_concat_of_ne (h := h) (i := i) hneutral.missing
  refine ⟨hinv.world_setDisk s, ?_, ?_, ?_, ?_⟩
  · rw [World.disk_setDisk, InPlace]
    simp only [hcreated]
    exact hinv.phase.imp (fun ⟨h₁, h₂, h₃⟩ => ⟨h₁, habsent h₂, h₃⟩) fun ⟨h₁, h₂⟩ => ⟨hpresent h₁, h₂⟩
  · simpa only [hcreated] using hinv.unique
  · simpa only [hcreated, hmissed] using hinv.missed
  · simpa only [hmissed] using hinv.absent

/-- Such a call that only reads keeps the invariant. -/
theorem Inv.read (hinv : R.Inv h w') (hneutral : R.Neutral a) : R.Inv (h ++ [(i, a)]) w' := by
  have hsame := hinv.neutral (i := i) hneutral (s := w'.disk T.fs) id id
  rwa [World.setDisk, Function.update_eq_self] at hsame

/-- To find the file missing keeps the invariant. -/
theorem Inv.miss (hinv : R.Inv h w') (habsent : R.absent (w'.disk T.fs)) : R.Inv (h ++ [(i, T.missing)]) w' := by
  have hcreated := R.created_concat_of_ne (h := h) (i := i) R.missing_ne_created.symm
  rcases hinv.phase with hphase | ⟨hpresent, -⟩
  · refine ⟨hinv.world, .inl ?_, ?_, ?_, fun _ _ => hphase.1⟩
    · simpa only [hcreated] using hphase
    · simpa only [hcreated] using hinv.unique
    · intro j hj
      obtain ⟨hmissed, hspace⟩ := hinv.missed j ((hcreated j).mp hj)
      exact ⟨missed_concat.mpr (.inl hmissed), hspace⟩
  · exact absurd hpresent (R.not_present_of_absent habsent)

/-- The creation, by a thread that found the file missing, keeps the invariant. -/
theorem Inv.create (hinv : R.Inv h w') (habsent : R.absent (w'.disk T.fs)) (hmissed : T.Missed i h) (hspace : T.Space) {s : Inner}
    (hpresent : R.present s) : R.Inv (h ++ [(i, R.created)]) (w'.setDisk T.fs s) := by
  have hnone : ∀ j, ¬R.Created j h := by
    rcases hinv.phase with hphase | ⟨hpresent', -⟩
    · exact hphase.2.2
    · exact absurd hpresent' (R.not_present_of_absent habsent)
  have hcreated : ∀ j, R.Created j (h ++ [(i, R.created)]) ↔ j = i := by
    intro j
    simp [created_concat, hnone]
  have hmissed' := missed_concat_of_ne (h := h) (i := i) R.missing_ne_created
  refine ⟨hinv.world_setDisk s, ?_, ?_, ?_, ?_⟩
  · rw [World.disk_setDisk]
    exact .inr ⟨hpresent, .inr ⟨i, (hcreated i).mpr rfl⟩⟩
  · intro j k hj hk
    rw [(hcreated j).mp hj, (hcreated k).mp hk]
  · intro j hj
    rw [(hcreated j).mp hj]
    exact ⟨(hmissed' i).mpr hmissed, hspace⟩
  · simpa only [hmissed'] using hinv.absent

/-! ### Resolving -/

/-- A lookup that succeeds is neutral. -/
theorem neutral_lookup {fs : FsId} {c k : InodeNum} {m : String} : R.Neutral ⟨.lookup fs c m, .ok k⟩ := by
  constructor
  · intro heq
    have hok := congrArg (fun a : Answered Call Call.Answer => a.2.isOk) heq
    cases hok
  · intro heq
    cases heq

/-- A create that fails is neutral. -/
theorem neutral_create {fs : FsId} {dir : InodeNum} {name : String} {fileType : FileType} {mode : Mode} {e : FsError} :
    R.Neutral ⟨.create fs dir name fileType mode, .error e⟩ := by
  constructor
  · intro heq
    cases heq
  · intro heq
    have hok := congrArg (fun a : Answered Call Call.Answer => a.2.isOk) heq
    cases hok

/-- The access to the mount table. -/
theorem follows_selectMount {p : Text} (habs : p.startsWith '/' = true) :
    Follows R.Inv World.exec i
      (fun r h' => ∃ rel, r = .ok (T.fs, rel) ∧ components rel = components p ∧ R.SamePart i h h') 1 (Vfs.selectMount p).run h := by
  intro h' w' hothers hinv
  have hvfs : w'.vfs = w.vfs := by
    rw [hinv.world]
    rfl
  have hneutral : R.Neutral ⟨.select p, .ok (T.fs, trimStartMatches (p.drop ("/" : Text).length) '/')⟩ := by
    constructor <;>
    · intro heq
      cases heq
  refine ⟨.ok (T.fs, trimStartMatches (p.drop ("/" : Text).length) '/'), w', ?_, hinv.read hneutral, ?_⟩
  · simp only [World.exec, hvfs, Vfs.select_eq _ habs, T.owner_eq]
    rfl
  · refine follows_ret_iff.mpr fun h'' hothers' => ⟨_, rfl, ?_, (hneutral.samePart hothers).trans (R.samePart_others hothers')⟩
    rw [components_trimStart, components_drop habs]

/-- A walk along names that are found at the beginning. -/
theorem follows_walk {current d : InodeNum} {cs : List Text} (hcs : ∀ c ∈ cs, (c.isEmpty || decide (c = ".".toList)) = false)
    (hwalk : walkIn T.table current cs = .ok d) :
    Follows R.Inv World.exec i (fun r h' => r = .ok d ∧ R.SamePart i h h') cs.length (Vfs.walk T.fs current cs).run h := by
  induction cs generalizing current h with
  | nil =>
    cases hwalk
    exact follows_ret_iff.mpr fun h' hothers => ⟨rfl, R.samePart_others hothers⟩
  | cons c cs ih =>
    simp only [walkIn] at hwalk
    cases hlookup : RamFs.lookup T.table current (String.ofList c) with
    | error e =>
      rw [hlookup] at hwalk
      cases hwalk
    | ok next =>
      rw [hlookup] at hwalk
      rw [Vfs.walk, hcs c (by simp), if_neg Bool.false_ne_true, List.length_cons, Nat.add_comm]
      have hneutral : R.Neutral ⟨.lookup T.fs current (String.ofList c), .ok next⟩ := neutral_lookup
      refine follows_bind (fun r h' => r = .ok next ∧ R.SamePart i h h') ?_ ?_ ?_
      · intro h' w' hothers hinv
        refine ⟨.ok next, w', ?_, hinv.read hneutral, ?_⟩
        · simp only [World.exec, R.found hinv.absent_or_present hlookup]
        · exact follows_ret_iff.mpr fun h'' hothers' =>
            ⟨rfl, (hneutral.samePart hothers).trans (R.samePart_others hothers')⟩
      · rintro a h' ⟨heq, hsame⟩
        cases heq
        refine (ih (fun c hc => hcs c (by simp [hc])) hwalk).weaken ?_
        rintro r h'' ⟨hr, hsame'⟩
        exact ⟨hr, hsame.trans hsame'⟩
      · rintro e h' h'' ⟨heq, -⟩
        cases heq

/-- The parent resolves to the directory, whatever the others do. -/
theorem follows_resolve_parent :
    Follows R.Inv World.exec i (fun r h' => r = .ok (T.fs, T.dir) ∧ R.SamePart i h h') (1 + ((components T.parentPath).length + 0))
      (Vfs.resolve T.parentPath).run h := by
  rw [Vfs.resolve_eq_walk T.startsWith_parentPath]
  refine follows_bind _ (follows_selectMount T.startsWith_parentPath) ?_ ?_
  · rintro mount h₁ ⟨rel, hmount, hrel, hsame⟩
    cases hmount
    rw [hrel]
    refine follows_bind _ (follows_walk (fun c hc => proper_of_mem_components hc) T.walk_parent) ?_ ?_
    · rintro inode h₂ ⟨hinode, hsame'⟩
      cases hinode
      exact follows_ret_iff.mpr fun h₃ hothers => ⟨rfl, (hsame.trans hsame').trans (R.samePart_others hothers)⟩
    · rintro e h₂ h₃ ⟨herror, -⟩
      cases herror
  · rintro e h₁ h₂ ⟨rel, herror, -⟩
    cases herror

/-- What the first resolution of a thread can answer. -/
inductive Resolved (R : Race T) (i : ι) (h : History ι Call Call.Answer) : FsResult InodeNum → Prop where
  | found (hmissed : ¬T.Missed i h) (hplace : R.InPlace h) : R.Resolved i h (.ok R.inode)
  | missing (hmissed : T.Missed i h) : R.Resolved i h (.error .notFound)

/-- What a thread has resolved is not changed by turns of the others. -/
theorem Resolved.others {r : FsResult InodeNum} (hothers : Others i h h') (hr : R.Resolved i h r) : R.Resolved i h' r := by
  have hpart := R.samePart_others hothers
  cases hr with
  | found hmissed hplace => exact .found (fun hmissed' => hmissed (hpart.1.mp hmissed')) (R.inPlace_others hothers hplace)
  | missing hmissed => exact .missing (hpart.1.mpr hmissed)

/-- The lookup of the last component. -/
theorem follows_lookup (hmissed : ¬T.Missed i h) (hcreated : ¬R.Created i h) :
    Follows R.Inv World.exec i (fun r h' => ¬R.Created i h' ∧ R.Resolved i h' r) 1
      (FileSystem.lookup T.fs T.dir T.name).run h := by
  intro h' w' hothers hinv
  have hpart := R.samePart_others hothers
  have hcreated' : ¬R.Created i h' := fun hc => hcreated (hpart.2.mp hc)
  rcases hinv.phase with ⟨-, habsent, -⟩ | ⟨hpresent, hplace⟩
  · refine ⟨.error .notFound, w', by simp only [World.exec, R.lookup_absent habsent], hinv.miss habsent, ?_⟩
    refine follows_ret_iff.mpr fun h'' hothers' => ⟨?_, Resolved.others hothers' (.missing (missed_concat.mpr (.inr ⟨rfl, rfl⟩)))⟩
    intro hc
    have hc' := (R.samePart_others hothers').2.mp hc
    exact hcreated' ((R.created_concat_of_ne R.missing_ne_created.symm i).mp hc')
  · have hneutral : R.Neutral ⟨.lookup T.fs T.dir T.name, .ok R.inode⟩ := neutral_lookup
    have hsame := hneutral.samePart (i := i) hothers
    refine ⟨.ok R.inode, w', by simp only [World.exec, R.lookup_present hpresent], hinv.read hneutral, ?_⟩
    refine follows_ret_iff.mpr fun h'' hothers' => ⟨?_, Resolved.others hothers' (.found ?_ ?_)⟩
    · exact fun hc => hcreated ((hsame.trans (R.samePart_others hothers')).2.mp hc)
    · exact fun hm => hmissed (hsame.1.mp hm)
    · exact R.inPlace_append hplace _

/-- The first resolution of a thread. -/
theorem follows_resolve_path (hmissed : ¬T.Missed i h) (hcreated : ¬R.Created i h) :
    Follows R.Inv World.exec i (fun r h' => ¬R.Created i h' ∧ ∃ r', R.Resolved i h' r' ∧ r = r'.map (T.fs, ·))
      (1 + ((components T.parentPath).length + 1 + 0)) (Vfs.resolve path).run h := by
  rw [Vfs.resolve_eq_walk T.startsWith_path]
  refine follows_bind _ (follows_selectMount T.startsWith_path) ?_ ?_
  · rintro mount h₁ ⟨rel, hmount, hrel, hsame⟩
    cases hmount
    dsimp only
    rw [hrel]
    -- the walk reaches the parent and looks the last component up
    have hwalk : Vfs.walk T.fs rootInode (components path) =
        Vfs.walk T.fs rootInode (components T.parentPath) >>= fun d => FileSystem.lookup T.fs d T.name := by
      rw [T.components_path, Vfs.walk_append]
      congr 1
      funext d
      exact Vfs.walk_singleton (proper_of_mem_components (by rw [T.components_path]; simp))
    rw [hwalk]
    refine follows_bind (fun r h' => ¬R.Created i h' ∧ R.Resolved i h' r) ?_ ?_ ?_
    · refine follows_bind _ (follows_walk (fun c hc => proper_of_mem_components hc) T.walk_parent) ?_ ?_
      · rintro d h₂ ⟨hd, hsame'⟩
        cases hd
        have hpart := hsame.trans hsame'
        exact follows_lookup (fun hm => hmissed (hpart.1.mp hm)) fun hc => hcreated (hpart.2.mp hc)
      · rintro e h₂ h₃ ⟨herror, -⟩
        cases herror
    · rintro inode h₂ ⟨hnot, hresolved⟩
      refine follows_ret_iff.mpr fun h₃ hothers => ⟨?_, _, hresolved.others hothers, rfl⟩
      exact fun hc => hnot ((R.samePart_others hothers).2.mp hc)
    · rintro e h₂ h₃ ⟨hnot, hresolved⟩ hothers
      refine ⟨?_, _, hresolved.others hothers, rfl⟩
      exact fun hc => hnot ((R.samePart_others hothers).2.mp hc)
  · rintro e h₁ h₂ ⟨rel, herror, -⟩
    cases herror

/-! ### What a call returns -/

/-- What an `open` call can return, by its own part in the history. -/
inductive Outcome (R : Race T) (exclusive : Bool) (i : ι) (h : History ι Call Call.Answer) : FsResult (FsId × InodeNum) → Prop where
  | opened (hpart : R.Created i h ∨ exclusive = false ∧ ¬T.Missed i h) (hplace : R.InPlace h) :
      R.Outcome exclusive i h (.ok (T.fs, R.inode))
  | refused (hcreated : ¬R.Created i h) (hpart : exclusive = true ∨ T.Missed i h) (hplace : R.InPlace h) :
      R.Outcome exclusive i h (.error .alreadyExists)
  | full (hmissed : T.Missed i h) (hspace : ¬T.Space) : R.Outcome exclusive i h (.error .noSpace)

/-- It depends on the own part of the thread and on whether the file is in place. -/
theorem Outcome.samePart {exclusive : Bool} {r : FsResult (FsId × InodeNum)} (hr : R.Outcome exclusive i h r) (hpart : R.SamePart i h h')
    (hplace : R.InPlace h → R.InPlace h') : R.Outcome exclusive i h' r := by
  cases hr with
  | opened hown hplace' =>
    exact .opened (hown.imp hpart.2.mpr fun ⟨hex, hmissed⟩ => ⟨hex, fun hm => hmissed (hpart.1.mp hm)⟩) (hplace hplace')
  | refused hcreated hown hplace' =>
    exact .refused (fun hc => hcreated (hpart.2.mp hc)) (hown.imp id hpart.1.mpr) (hplace hplace')
  | full hmissed hspace => exact .full (hpart.1.mpr hmissed) hspace

/-- Nor is what its call has come to. -/
theorem Outcome.others {exclusive : Bool} {r : FsResult (FsId × InodeNum)} (hothers : Others i h h') (hr : R.Outcome exclusive i h r) :
    R.Outcome exclusive i h' r :=
  hr.samePart (R.samePart_others hothers) (R.inPlace_others hothers)

/-- A neutral call of the thread itself. -/
theorem Outcome.neutral {exclusive : Bool} {r : FsResult (FsId × InodeNum)} (hr : R.Outcome exclusive i h r) (hneutral : R.Neutral a)
    (hothers : Others i h h') : R.Outcome exclusive i (h' ++ [(i, a)]) r := by
  refine hr.samePart (hneutral.samePart hothers) ?_
  intro hplace
  exact R.inPlace_append (R.inPlace_others hothers hplace) _

/-- A handle is of the file, and the file is in place. -/
theorem Outcome.of_ok {exclusive : Bool} {found : FsId × InodeNum} (hr : R.Outcome exclusive i h (.ok found)) :
    found = (T.fs, R.inode) ∧ R.InPlace h := by
  cases hr with
  | opened _ hplace => exact ⟨rfl, hplace⟩

/-- The creation. -/
theorem follows_create (exclusive : Bool) (hmissed : T.Missed i h) (hcreated : ¬R.Created i h) :
    Follows R.Inv World.exec i (fun r h' => R.Outcome exclusive i h' (r.map (T.fs, ·))) 1
      (FileSystem.create T.fs T.dir T.name .regular 0o644).run h := by
  intro h' w' hothers hinv
  have hpart := R.samePart_others hothers
  have hmissed' : T.Missed i h' := hpart.1.mpr hmissed
  have hcreated' : ¬R.Created i h' := fun hc => hcreated (hpart.2.mp hc)
  rcases hinv.phase with ⟨-, habsent, -⟩ | ⟨hpresent, hplace⟩
  · rcases R.create_absent habsent with ⟨hspace, s', hcreate, hpresent⟩ | ⟨hspace, hcreate⟩
    · have hnow : R.Created i (h' ++ [(i, R.created)]) := R.created_concat.mpr (.inr ⟨rfl, rfl⟩)
      refine ⟨.ok R.inode, w'.setDisk T.fs s', by simp only [World.exec, hcreate],
        hinv.create habsent hmissed' hspace hpresent, ?_⟩
      exact follows_ret_iff.mpr fun h'' hothers' => Outcome.others hothers' (.opened (.inl hnow) (.inr ⟨i, hnow⟩))
    · have hneutral : R.Neutral ⟨.create T.fs T.dir T.name .regular 0o644, .error .noSpace⟩ := neutral_create
      refine ⟨.error .noSpace, w'.setDisk T.fs (w'.disk T.fs), by simp only [World.exec, hcreate], hinv.neutral hneutral id id, ?_⟩
      exact follows_ret_iff.mpr fun h'' hothers' =>
        Outcome.others hothers' (Outcome.neutral (.full hmissed' hspace) hneutral (Others.refl i h'))
  · have hneutral : R.Neutral ⟨.create T.fs T.dir T.name .regular 0o644, .error .alreadyExists⟩ := neutral_create
    refine ⟨.error .alreadyExists, w'.setDisk T.fs (w'.disk T.fs), by simp only [World.exec, R.create_present hpresent],
      hinv.neutral hneutral id id, ?_⟩
    exact follows_ret_iff.mpr fun h'' hothers' =>
      Outcome.others hothers' (Outcome.neutral (.refused hcreated' (.inr hmissed') hplace) hneutral (Others.refl i h'))

/-- What `open` does with what the path resolved to. -/
theorem follows_found {flags : OpenFlags} (hflags : flags.create = true) (hcreated : ¬R.Created i h) {r : FsResult InodeNum}
    (hr : R.Resolved i h r) :
    Follows R.Inv World.exec i (fun r h' => R.Outcome flags.exclusive i h' r) (1 + ((components T.parentPath).length + 0) + (1 + 0))
      (Vfs.found path flags (r.map (T.fs, ·))).run h := by
  cases hr with
  | found hmissed hplace =>
    show Follows _ _ _ _ _ (if flags.exclusive && flags.create then throw .alreadyExists else pure (T.fs, R.inode) : VfsM _).run h
    cases hex : flags.exclusive with
    | true =>
      rw [hflags]
      exact follows_ret_iff.mpr fun h' hothers => Outcome.others hothers (.refused hcreated (.inl rfl) hplace)
    | false => exact follows_ret_iff.mpr fun h' hothers => Outcome.others hothers (.opened (.inr ⟨rfl, hmissed⟩) hplace)
  | missing hmissed =>
    have hfound : Vfs.found path flags (Except.map (T.fs, ·) (.error .notFound)) =
        Vfs.resolve T.parentPath >>= fun parent =>
          FileSystem.create parent.1 parent.2 T.name .regular 0o644 >>= fun inode => pure (parent.1, inode) := by
      show (if flags.create then _ else _) = _
      rw [if_pos hflags, T.split]
      rfl
    rw [hfound]
    refine follows_bind _ follows_resolve_parent ?_ ?_
    · rintro parent h₁ ⟨hparent, hsame⟩
      cases hparent
      refine follows_bind _ (follows_create flags.exclusive (hsame.1.mpr hmissed) fun hc => hcreated (hsame.2.mp hc)) ?_ ?_
      · intro inode h₂ houtcome
        exact follows_ret_iff.mpr fun h₃ hothers => houtcome.others hothers
      · intro e h₂ h₃ houtcome hothers
        exact houtcome.others hothers
    · rintro e h₁ h₂ ⟨herror, -⟩
      cases herror

/-- The end of `open`, on a file that is in place. -/
theorem follows_handle (flags : OpenFlags) (houtcome : R.Outcome flags.exclusive i h (.ok (T.fs, R.inode))) :
    Follows R.Inv World.exec i (fun r h' => R.Outcome flags.exclusive i h' (r.map fun f => (f.fs, f.inode))) (1 + (1 + 0))
      (Vfs.handle flags T.fs R.inode).run h := by
  rw [Vfs.handle_eq]
  refine follows_bind (fun r h' => r = .ok () ∧ R.Outcome flags.exclusive i h' (.ok (T.fs, R.inode))) ?_ ?_ ?_
  · split
    · intro h' w' hothers hinv
      have hplace : R.InPlace h' := (houtcome.others hothers).of_ok.2
      obtain ⟨s', htruncate, hpresent⟩ := R.truncate_present (hinv.present hplace)
      have hneutral : R.Neutral ⟨.truncate T.fs R.inode 0, .ok ()⟩ := by
        constructor <;>
        · intro heq
          cases heq
      refine ⟨.ok (), w'.setDisk T.fs s', by simp only [World.exec, htruncate], hinv.neutral hneutral ?_ fun _ => hpresent, ?_⟩
      · exact fun habsent => absurd (hinv.present hplace) (R.not_present_of_absent habsent)
      · exact follows_ret_iff.mpr fun h'' hothers' => ⟨rfl, (houtcome.neutral hneutral hothers).others hothers'⟩
    · exact follows_ret_iff.mpr fun h' hothers => ⟨rfl, houtcome.others hothers⟩
  · rintro _ h₁ ⟨-, houtcome₁⟩
    refine follows_bind (fun r h' => (∃ offset, r = .ok offset) ∧ R.Outcome flags.exclusive i h' (.ok (T.fs, R.inode))) ?_ ?_ ?_
    · split
      · intro h' w' hothers hinv
        have hplace : R.InPlace h' := (houtcome₁.others hothers).of_ok.2
        obtain ⟨m, hmetadata⟩ := R.metadata_present (hinv.present hplace)
        have hneutral : R.Neutral ⟨.metadata T.fs R.inode, .ok m⟩ := by
          constructor <;>
          · intro heq
            cases heq
        refine ⟨.ok m, w', by simp only [World.exec, hmetadata], hinv.read hneutral, ?_⟩
        exact follows_ret_iff.mpr fun h'' hothers' => ⟨⟨m.size, rfl⟩, (houtcome₁.neutral hneutral hothers).others hothers'⟩
      · exact follows_ret_iff.mpr fun h' hothers => ⟨⟨0, rfl⟩, houtcome₁.others hothers⟩
    · rintro offset h₂ ⟨-, houtcome₂⟩
      exact follows_ret_iff.mpr fun h₃ hothers => houtcome₂.others hothers
    · rintro e h₂ h₃ ⟨⟨offset, herror⟩, -⟩
      cases herror
  · rintro e h₁ h₂ ⟨herror, -⟩
    cases herror

/-- A whole `open` call with `create`, among any others. -/
theorem follows_open {flags : OpenFlags} (hflags : flags.create = true) :
    Follows R.Inv World.exec i (fun r h' => R.Outcome flags.exclusive i h' (r.map fun f => (f.fs, f.inode)))
      (2 * (components path).length + 4) (Vfs.open path flags).run ([] : History ι Call Call.Answer) := by
  have hcalls : 2 * (components path).length + 4 =
      (1 + ((components T.parentPath).length + 1 + 0) + (1 + ((components T.parentPath).length + 0) + (1 + 0))) + (1 + (1 + 0)) := by
    rw [T.components_path, List.length_append, List.length_singleton]
    omega
  rw [hcalls]
  refine follows_bind (fun r h' => R.Outcome flags.exclusive i h' r) ?_ ?_ ?_
  · refine Follows.bind ((follows_resolve_path (fun hm => by cases hm) fun hc => by cases hc).weaken ?_)
    rintro r h₁ ⟨hcreated, r', hresolved, rfl⟩
    exact follows_found hflags hcreated hresolved
  · rintro found h₁ houtcome
    obtain ⟨rfl, -⟩ := houtcome.of_ok
    exact follows_handle flags houtcome
  · intro e h₁ h₂ houtcome hothers
    exact houtcome.others hothers

end Race

end Fs

end GolemKernel
