import GolemKernel.Fs.Vfs
import GolemKernel.Lemmas.Text

/-!
# Paths, mounts and what `resolve` computes

A path is walked by its components (`components`). The mount that `resolve` chooses is the longest one that covers the path (`owner`), and
`resolve` then walks the components that the mount's own path leaves over in the mount's filesystem (`resolve_eq`). The slices of the
source never panic on the way.
-/

namespace GolemKernel

namespace Fs

open Text

/-! ## Components -/

/-- The non-empty components of a path. -/
def nonEmptyComponents (path : Text) : List Text := (path.split '/').filter fun c => !c.isEmpty

/-- The components of a path that name something: neither empty nor `.`. -/
def components (path : Text) : List Text := (nonEmptyComponents path).filter fun c => c ≠ "."

/-- A slash separates the components before it from those after it. -/
theorem nonEmptyComponents_append_slash (a b : Text) :
    nonEmptyComponents (a ++ '/' :: b) = nonEmptyComponents a ++ nonEmptyComponents b := by
  simp [nonEmptyComponents, split, List.splitOn_append_cons_self]

/-- A leading slash adds no component. -/
theorem nonEmptyComponents_slash (a : Text) : nonEmptyComponents ('/' :: a) = nonEmptyComponents a :=
  nonEmptyComponents_append_slash [] a

/-- Nor do all leading slashes. -/
theorem nonEmptyComponents_trimStart (a : Text) : nonEmptyComponents (a.trimStartMatches '/') = nonEmptyComponents a := by
  induction a with
  | nil => rfl
  | cons c a ih =>
    by_cases hc : c = '/'
    · subst hc
      rw [nonEmptyComponents_slash, ← ih]
      simp [trimStartMatches]
    · simp [trimStartMatches, hc]

/-- Nor do all trailing slashes. -/
theorem nonEmptyComponents_trimEnd (a : Text) : nonEmptyComponents (a.trimEndMatches '/') = nonEmptyComponents a := by
  induction a using List.reverseRecOn with
  | nil => rfl
  | append_singleton a c ih =>
    by_cases hc : c = '/'
    · subst hc
      rw [nonEmptyComponents_append_slash, ← ih]
      simp [trimEndMatches, nonEmptyComponents, split]
    · simp [trimEndMatches, hc]

@[simp] theorem components_nil : components [] = [] := rfl

/-- A slash separates the components, also without the dots. -/
theorem components_append_slash (a b : Text) : components (a ++ '/' :: b) = components a ++ components b := by
  rw [components, nonEmptyComponents_append_slash, List.filter_append, components, components]

/-- A leading slash adds no component. -/
theorem components_slash (a : Text) : components ('/' :: a) = components a := by
  rw [components, nonEmptyComponents_slash, components]

/-- Nor do all leading slashes. -/
theorem components_trimStart (a : Text) : components (a.trimStartMatches '/') = components a := by
  rw [components, nonEmptyComponents_trimStart, components]

/-- Any number of slashes before a path makes no difference. -/
theorem components_replicate_slash (n : Nat) (a : Text) : components (List.replicate n '/' ++ a) = components a := by
  induction n with
  | zero => rfl
  | succ n ih => rw [List.replicate_succ, List.cons_append, components_slash, ih]

/-- The components are the pieces between slashes that are neither empty nor a dot. -/
theorem components_eq (path : Text) : components path = (path.split '/').filter fun c : Text => !(c.isEmpty || c = ".") := by
  rw [components, nonEmptyComponents, List.filter_filter]
  congr 1
  funext c
  cases c.isEmpty <;> simp

/-! ## The walk -/

/-- The walk over components in one table. -/
def walkIn (t : Inner) (current : InodeNum) : List Text → FsResult InodeNum
  | [] => .ok current
  | c :: cs =>
    match RamFs.lookup t current (String.ofList c) with
    | .ok next => walkIn t next cs
    | .error e => .error e

/-- A walk along two lists goes along the first and then, from where it leads, along the second. -/
theorem walkIn_append (t : Inner) (current : InodeNum) (cs ds : List Text) :
    walkIn t current (cs ++ ds) = (walkIn t current cs).bind fun next => walkIn t next ds := by
  induction cs generalizing current with
  | nil => rfl
  | cons c cs ih =>
    simp only [List.cons_append, walkIn]
    cases RamFs.lookup t current (String.ofList c) with
    | ok next => exact ih next
    | error e => rfl

/-- A walk of one step is a lookup. -/
theorem walkIn_singleton (t : Inner) (current : InodeNum) (c : Text) :
    walkIn t current [c] = RamFs.lookup t current (String.ofList c) := by
  unfold walkIn
  cases RamFs.lookup t current (String.ofList c) <;> rfl

/-- The loop of `resolve` skips what does not name anything. -/
theorem walk_filter (fs : FsId) (current : InodeNum) (l : List Text) :
    Vfs.walk fs current l = Vfs.walk fs current (l.filter fun c => !(c.isEmpty || c = ".")) := by
  induction l generalizing current with
  | nil => rfl
  | cons c l ih =>
    cases hc : (c.isEmpty || decide (c = (".".toList : Text))) with
    | true =>
      simp only [List.filter_cons, hc, Bool.not_true, Bool.false_eq_true, if_false, Vfs.walk, if_true]
      exact ih current
    | false =>
      simp only [List.filter_cons, hc, Bool.not_false, if_true, Vfs.walk, Bool.false_eq_true, if_false]
      congr 1
      funext next
      exact ih next

/-! ## Operations that nobody interferes with -/

namespace World

variable {α β : Type} (w : World)

@[simp] theorem run_pure (a : α) : w.run (pure a) = some (.ok a, w) := rfl

/-- Two programs one after the other, without interference: the second runs in the world that the first has left. -/
theorem run_bind (x : VfsM α) (f : α → VfsM β) :
    w.run (x >>= f) = (w.run x).bind fun
      | (.ok a, w') => w'.run (f a)
      | (.error e, w') => some (.error e, w') := by
  unfold run
  show Concurrent.Prog.run exec (x.run >>= ExceptT.bindCont f) w = _
  rw [Concurrent.Prog.run_bind]
  congr 1
  funext p
  obtain ⟨r, w'⟩ := p
  cases r <;> rfl

/-- After a success the second program runs. -/
theorem run_bind_ok {x : VfsM α} {a : α} {w' : World} (h : w.run x = some (.ok a, w')) (f : α → VfsM β) :
    w.run (x >>= f) = w'.run (f a) := by
  rw [run_bind, h]
  rfl

/-- After a failure it does not. -/
theorem run_bind_error {x : VfsM α} {e : FsError} {w' : World} (h : w.run x = some (.error e, w')) (f : α → VfsM β) :
    w.run (x >>= f) = some (.error e, w') := by
  rw [run_bind, h]
  rfl

/-- What succeeds as a whole succeeds in both its parts. -/
theorem run_bind_eq_ok {x : VfsM α} {f : α → VfsM β} {b : β} {w' : World} :
    w.run (x >>= f) = some (.ok b, w') ↔ ∃ a w₁, w.run x = some (.ok a, w₁) ∧ w₁.run (f a) = some (.ok b, w') := by
  rw [run_bind]
  constructor
  · intro h
    obtain ⟨⟨r, w₁⟩, hx, hf⟩ := Option.bind_eq_some_iff.mp h
    cases r with
    | ok a => exact ⟨a, w₁, hx, hf⟩
    | error e => cases hf
  · rintro ⟨a, w₁, hx, hf⟩
    rw [hx]
    exact hf

/-- A function of the answer changes nothing but the answer. -/
theorem run_bind_pure {x : VfsM α} {r : FsResult α} {w' : World} (h : w.run x = some (r, w')) (f : α → β) :
    w.run (x >>= fun a => pure (f a)) = some (r.map f, w') := by
  cases r with
  | ok a => rw [run_bind_ok w h]; rfl
  | error e => rw [run_bind_error w h]; rfl

/-- A single call is its execution. -/
theorem run_make (c : Call) : w.run c.make = exec c w := by
  simp [run, Call.make, ExceptT.run_mk, Concurrent.Prog.run_call]

@[simp] theorem disk_setDisk (fs : FsId) (s : Inner) : (w.setDisk fs s).disk fs = s := by
  simp [setDisk]

/-- Of two changes of a filesystem the second counts. -/
theorem setDisk_setDisk (fs : FsId) (s s' : Inner) : (w.setDisk fs s).setDisk fs s' = w.setDisk fs s' := by
  simp [setDisk]

/-- Storing what is there changes nothing. -/
theorem setDisk_self (fs : FsId) : w.setDisk fs (w.disk fs) = w := by
  simp [setDisk, Function.update_eq_self]

/-- `select_mount` reads the mount table and changes nothing. -/
theorem run_selectMount (path : Text) : w.run (Vfs.selectMount path) = (w.vfs.select path).map (·, w) := run_make w (.select path)

/-- `lookup` through the interface is that of the filesystem, and changes nothing. -/
theorem run_lookup (fs : FsId) (parent : InodeNum) (name : String) :
    w.run (FileSystem.lookup fs parent name) = some (RamFs.lookup (w.disk fs) parent name, w) :=
  run_make w (.lookup fs parent name)

/-- `create` through the interface is that of the filesystem. -/
theorem run_create (fs : FsId) (d : InodeNum) (name : String) (ft : FileType) (mode : Mode) :
    w.run (FileSystem.create fs d name ft mode) =
      some ((RamFs.create (w.disk fs) d name ft mode).1, w.setDisk fs (RamFs.create (w.disk fs) d name ft mode).2) :=
  run_make w (.create fs d name ft mode)

/-- `truncate` through the interface is that of the filesystem. -/
theorem run_truncate (fs : FsId) (inode : InodeNum) (size : Nat) :
    w.run (FileSystem.truncate fs inode size) =
      some ((RamFs.truncate (w.disk fs) inode size).1, w.setDisk fs (RamFs.truncate (w.disk fs) inode size).2) :=
  run_make w (.truncate fs inode size)

/-- `metadata` through the interface is that of the filesystem, and changes nothing. -/
theorem run_metadata (fs : FsId) (inode : InodeNum) :
    w.run (FileSystem.metadata fs inode) = some (RamFs.metadata (w.disk fs) inode, w) :=
  run_make w (.metadata fs inode)

/-- `read` through the interface is that of the filesystem, and changes nothing. -/
theorem run_read (fs : FsId) (inode : InodeNum) (offset : Nat) (buf : List UInt8) :
    w.run (FileSystem.read fs inode offset buf) = some (RamFs.read (w.disk fs) inode offset buf, w) :=
  run_make w (.read fs inode offset buf)

/-- `write` through the interface is that of the filesystem. -/
theorem run_write (fs : FsId) (inode : InodeNum) (offset : Nat) (buf : List UInt8) :
    w.run (FileSystem.write fs inode offset buf) =
      some ((RamFs.write (w.disk fs) inode offset buf).1, w.setDisk fs (RamFs.write (w.disk fs) inode offset buf).2) :=
  run_make w (.write fs inode offset buf)

/-- Without interference the walk of `resolve` is a walk in the table as it is, past empty and dot components. -/
theorem run_walk (fs : FsId) (current : InodeNum) (l : List Text) :
    w.run (Vfs.walk fs current l) = some (walkIn (w.disk fs) current (l.filter fun c => !(c.isEmpty || c = ".")), w) := by
  have hproper : ∀ c ∈ l.filter fun c => !(c.isEmpty || c = (".".toList : Text)), (c.isEmpty || decide (c = ".".toList)) = false := by
    intro c hc
    simpa using (List.mem_filter.mp hc).2
  rw [walk_filter]
  generalize (l.filter fun c => !(c.isEmpty || c = (".".toList : Text))) = cs at hproper ⊢
  induction cs generalizing current with
  | nil => rfl
  | cons c cs ih =>
    rw [Vfs.walk, hproper c List.mem_cons_self, if_neg Bool.false_ne_true, run_bind, run_lookup, Option.bind_some, walkIn]
    cases RamFs.lookup (w.disk fs) current (String.ofList c) with
    | ok next => exact ih next fun c hc => hproper c (List.mem_cons_of_mem _ hc)
    | error e => rfl

end World

/-! ## The mount of a path -/

/-- A mount covers a path: it is the root, or the path is its path, alone or continued with a slash. -/
def Covers (mount path : Text) : Prop := mount = "/" ∨ path = mount ∨ ∃ rest, path = mount ++ '/' :: rest

/-- An absolute path that a mount covers is the mount's path and a rest, and the rest has the remaining components. -/
theorem Covers.rest {mount path : Text} (h : Covers mount path) (habs : path.startsWith '/' = true) :
    ∃ rest, path = mount ++ rest ∧ components path = components mount ++ components rest := by
  obtain ⟨t, rfl⟩ := startsWith_iff.mp habs
  rcases h with rfl | h | ⟨rest, h⟩
  · exact ⟨t, rfl, components_slash t⟩
  · exact ⟨[], by simpa using h, by simp [← h]⟩
  · refine ⟨'/' :: rest, h, ?_⟩
    rw [h, components_append_slash, components_slash]

/-- A mount covers a path if it is the root, or the path goes on after it with a slash or not at all. -/
theorem covers_iff {mount path : Text} :
    Covers mount path ↔ mount = "/" ∨ ∃ after, path = mount ++ after ∧ (after = [] ∨ after.startsWith '/' = true) := by
  unfold Covers
  refine or_congr_right ⟨?_, ?_⟩
  · rintro (h | ⟨rest, h⟩)
    · exact ⟨[], by simpa using h, .inl rfl⟩
    · exact ⟨_, h, .inr rfl⟩
  · rintro ⟨after, h, rfl | hafter⟩
    · exact .inl (by simpa using h)
    · obtain ⟨rest, rfl⟩ := startsWith_iff.mp hafter
      exact .inr ⟨rest, h⟩

/-- `path_starts_with_mount` decides whether a mount covers a path, and does not panic. -/
theorem pathStartsWithMount_eq (path mount : Text) :
    ∃ b, pathStartsWithMount path mount = some b ∧ (b = true ↔ Covers mount path) := by
  unfold pathStartsWithMount
  by_cases hroot : mount = "/"
  · exact ⟨true, by rw [if_pos hroot], by simp [Covers, hroot]⟩
  · rw [if_neg hroot, covers_iff, or_iff_right hroot]
    by_cases hpre : mount <+: path
    · obtain ⟨after, rfl⟩ := hpre
      have hmatch : (!mount.isPrefixOf (mount ++ after)) = false := by simp
      refine ⟨after.isEmpty || startsWith after '/', ?_, ?_⟩
      · rw [hmatch, sliceFrom_append]
        rfl
      · simp only [Bool.or_eq_true, List.isEmpty_iff, List.append_cancel_left_eq, exists_eq_left']
    · refine ⟨false, by simp [hpre], ?_⟩
      simp only [Bool.false_eq_true, false_iff]
      rintro ⟨after, rfl, -⟩
      exact hpre (List.prefix_append _ _)

instance (mount path : Text) : Decidable (Covers mount path) :=
  match h : pathStartsWithMount path mount with
  | some b => decidable_of_iff (b = true) (by
      obtain ⟨b', hb', hiff⟩ := pathStartsWithMount_eq path mount
      rwa [Option.some.inj (h.symm.trans hb')])
  | none => absurd h (by
      obtain ⟨b', hb', -⟩ := pathStartsWithMount_eq path mount
      simp [hb'])

/-- The mount of an absolute path is a beginning of it. -/
theorem Covers.isPrefix {mount path : Text} (h : Covers mount path) (habs : path.startsWith '/' = true) : mount <+: path := by
  obtain ⟨rest, hrest, -⟩ := h.rest habs
  exact ⟨rest, hrest.symm⟩

/-- Of two mounts that cover a path, neither is longer only if they have the same path. -/
theorem Covers.eq_of_len_eq {m m' path : Text} (h : Covers m path) (h' : Covers m' path) (habs : path.startsWith '/' = true)
    (hlen : m.len = m'.len) : m = m' := by
  rcases List.prefix_or_prefix_of_prefix (h.isPrefix habs) (h'.isPrefix habs) with ⟨t, rfl⟩ | ⟨t, rfl⟩ <;>
  · rw [len_append] at hlen
    have ht : t = [] := len_eq_zero_iff.mp (by omega)
    simp [ht]

/-- What covers the root path. -/
theorem Covers.of_root {m : Text} (h : Covers m "/") : m = "/" ∨ m = [] := by
  rcases h with h | h | ⟨rest, h⟩
  · exact .inl h
  · exact .inl h.symm
  · have hlen := congrArg List.length h
    simp at hlen
    exact .inr (List.eq_nil_of_length_eq_zero (by omega))

/-! ## The parent of a path -/

/-- What `split_parent` returns: the path without trailing slashes is the parent, a slash and the name. -/
theorem splitParent_eq_ok {p q n : Text} (h : splitParent p = .ok (q, n)) :
    p.startsWith '/' = true ∧ n ≠ [] ∧ '/' ∉ n ∧
      ∃ parent, p.trimEndMatches '/' = parent ++ '/' :: n ∧ (parent = [] ∧ q = "/" ∨ parent ≠ [] ∧ q = parent) := by
  unfold splitParent at h
  split at h
  · cases h
  · rename_i habs
    dsimp only at h
    split at h
    · cases h
    · split at h
      · rename_i parent name hsplit
        obtain ⟨htrimmed, hname⟩ := rsplitOnce_eq_some hsplit
        split at h
        · cases h
        · rename_i hempty
          obtain ⟨rfl, rfl⟩ := Prod.mk.inj (Except.ok.inj h)
          refine ⟨by simpa using habs, by simpa using hempty, hname, parent, htrimmed, ?_⟩
          cases parent with
          | nil => exact .inl ⟨rfl, rfl⟩
          | cons c parent => exact .inr ⟨List.cons_ne_nil c parent, rfl⟩
      · cases h

/-- The parent is an absolute path. -/
theorem startsWith_of_splitParent {p q n : Text} (h : splitParent p = .ok (q, n)) : q.startsWith '/' = true := by
  obtain ⟨habs, -, -, parent, htrimmed, ⟨-, rfl⟩ | ⟨hne, rfl⟩⟩ := splitParent_eq_ok h
  · rfl
  · obtain ⟨t, rfl⟩ := startsWith_iff.mp habs
    obtain ⟨c, s, rfl⟩ := List.exists_cons_of_ne_nil hne
    have hpre : trimEndMatches ('/' :: t) '/' <+: '/' :: t := List.rdropWhile_prefix _ _
    rw [htrimmed] at hpre
    obtain ⟨rfl, -⟩ := List.cons_prefix_cons.mp hpre
    rfl

/-- A path is split before its last component. -/
theorem nonEmptyComponents_of_splitParent {p q n : Text} (h : splitParent p = .ok (q, n)) :
    nonEmptyComponents p = nonEmptyComponents q ++ [n] := by
  obtain ⟨-, hne, hslash, parent, htrimmed, hq⟩ := splitParent_eq_ok h
  have hparent : nonEmptyComponents parent = nonEmptyComponents q := by
    rcases hq with ⟨rfl, rfl⟩ | ⟨-, rfl⟩ <;> rfl
  have hname : nonEmptyComponents n = [n] := by
    simp [nonEmptyComponents, split, List.splitOn_eq_singleton hslash, hne]
  rw [← nonEmptyComponents_trimEnd, htrimmed, nonEmptyComponents_append_slash, hname, hparent]

/-- So the last component is the one that was split off, unless that is a dot. -/
theorem components_of_splitParent {p q n : Text} (h : splitParent p = .ok (q, n)) :
    components p = components q ++ if n = "." then [] else [n] := by
  rw [components, nonEmptyComponents_of_splitParent h, List.filter_append, ← components]
  congr 1
  split
  · rename_i hn
    rw [hn]
    rfl
  · rename_i hn
    exact List.filter_cons_of_pos (decide_eq_true hn)

/-- A path that ends before a slash of `parent/name` ends within the parent. -/
theorem before_slash {m y parent n : Text} (h : m ++ '/' :: y = parent ++ '/' :: n) (hslash : '/' ∉ n) :
    m = parent ∨ ∃ z, parent = m ++ '/' :: z := by
  rcases List.append_eq_append_iff.mp h with ⟨d, hparent, hd⟩ | ⟨d, hm, hd⟩
  · cases d with
    | nil => exact .inl (by simpa using hparent.symm)
    | cons c z =>
      obtain rfl := (List.cons.inj hd).1
      exact .inr ⟨z, hparent⟩
  · cases d with
    | nil => exact .inl (by simpa using hm)
    | cons c z =>
      obtain ⟨-, hn⟩ := List.cons.inj hd
      exact absurd (hn ▸ List.mem_append_right z List.mem_cons_self) hslash

/-- A mount that is not at the path itself covers the path exactly if it covers its parent. -/
theorem covers_splitParent_iff {p q n : Text} (h : splitParent p = .ok (q, n)) {m : Text}
    (hlast : m = "/" ∨ m.getLast? ≠ some '/') (hm : m ≠ p.trimEndMatches '/') : Covers m p ↔ Covers m q := by
  obtain ⟨habs, hne, hslash, parent, htrimmed, hq⟩ := splitParent_eq_ok h
  obtain ⟨k, hp⟩ := trimEndMatches_append p '/'
  rw [htrimmed] at hp hm
  rcases hlast with hroot | hlast
  · exact ⟨fun _ => .inl hroot, fun _ => .inl hroot⟩
  constructor
  · -- the slash after the mount in the path is not one of those at its end, so it comes before the name
    have hends : ∀ d, m = (parent ++ '/' :: n) ++ d → (∀ c ∈ d, c = '/') → False := by
      rintro d rfl hd
      cases d using List.reverseRecOn with
      | nil => exact hm (List.append_nil _)
      | append_singleton d c =>
        refine hlast ?_
        rw [← List.append_assoc, List.getLast?_concat, hd c (by simp)]
    rintro (hroot | hsame | ⟨rest, hrest⟩)
    · exact .inl hroot
    · exact (hends (List.replicate k '/') (hsame.symm.trans hp) fun c hc => List.eq_of_mem_replicate hc).elim
    · rcases List.append_eq_append_iff.mp (hrest.symm.trans hp) with ⟨d, hpath, hd⟩ | ⟨d, hpath, hd⟩
      · cases d with
        | nil => exact (hm (by simpa using hpath.symm)).elim
        | cons c y =>
          obtain rfl := (List.cons.inj hd).1
          rcases before_slash hpath.symm hslash with rfl | ⟨z, rfl⟩
          · rcases hq with ⟨rfl, rfl⟩ | ⟨-, rfl⟩
            · exact .inr (.inr ⟨[], rfl⟩)
            · exact .inr (.inl rfl)
          · rcases hq with ⟨hnil, -⟩ | ⟨-, rfl⟩
            · simp at hnil
            · exact .inr (.inr ⟨z, rfl⟩)
      · refine (hends d hpath ?_).elim
        intro c hc
        exact List.eq_of_mem_replicate (hd ▸ List.mem_append_left _ hc)
  · rcases hq with ⟨rfl, rfl⟩ | ⟨-, rfl⟩
    · intro hcovers
      rcases hcovers.of_root with hroot | hnil
      · exact .inl hroot
      · exact .inr (.inr ⟨n ++ List.replicate k '/', by rw [hp, hnil]; rfl⟩)
    · rintro (hroot | rfl | ⟨rest, rfl⟩)
      · exact .inl hroot
      · exact .inr (.inr ⟨n ++ List.replicate k '/', by rw [hp]; simp⟩)
      · exact .inr (.inr ⟨rest ++ '/' :: n ++ List.replicate k '/', by rw [hp]; simp⟩)

/-! ## The longest mount -/

section

variable {α : Type} {key : α → Nat}

/-- The best so far is one of those that were seen, and none of them has a larger key. -/
theorem foldl_best (l : List α) (a : α) :
    let best := l.foldl (fun best x => if key best ≤ key x then x else best) a
    best ∈ a :: l ∧ ∀ b ∈ a :: l, key b ≤ key best := by
  induction l generalizing a with
  | nil => simp
  | cons x l ih =>
    obtain ⟨hmem, hmax⟩ := ih (if key a ≤ key x then x else a)
    refine ⟨?_, ?_⟩
    · rcases List.mem_cons.mp hmem with heq | hl
      · rw [List.foldl_cons, heq]
        split <;> simp
      · exact List.mem_cons_of_mem _ (List.mem_cons_of_mem _ hl)
    · have hfirst := hmax _ List.mem_cons_self
      intro b hb
      rcases List.mem_cons.mp hb with rfl | hb
      · refine le_trans ?_ hfirst
        split <;> omega
      · rcases List.mem_cons.mp hb with rfl | hb
        · refine le_trans ?_ hfirst
          split <;> omega
        · exact hmax b (List.mem_cons_of_mem _ hb)

/-- There is a best element exactly if there is any. -/
theorem maxByKey_eq_none_iff {l : List α} : maxByKey key l = none ↔ l = [] := by
  cases l <;> simp [maxByKey]

/-- The best element is in the list, and no other has a larger key. -/
theorem maxByKey_mem {l : List α} {a : α} (h : maxByKey key l = some a) : a ∈ l ∧ ∀ b ∈ l, key b ≤ key a := by
  cases l with
  | nil => cases h
  | cons x l =>
    obtain rfl := Option.some.inj h
    exact foldl_best l x

/-- Where no two elements have the same key there is only one greatest. -/
theorem maxByKey_eq_some_iff {l : List α} (hinj : ∀ a ∈ l, ∀ b ∈ l, key a = key b → a = b) {a : α} :
    maxByKey key l = some a ↔ a ∈ l ∧ ∀ b ∈ l, key b ≤ key a := by
  refine ⟨maxByKey_mem, ?_⟩
  rintro ⟨hmem, hmax⟩
  cases hbest : maxByKey key l with
  | none =>
    rw [maxByKey_eq_none_iff.mp hbest] at hmem
    cases hmem
  | some b =>
    obtain ⟨hb, hbmax⟩ := maxByKey_mem hbest
    rw [hinj b hb a hmem (Nat.le_antisymm (hmax b hb) (hbmax a hmem))]

end

namespace Vfs

/-- The mount that `resolve` chooses. -/
def owner (v : Vfs) (path : Text) : Option MountEntry := maxByKey (·.path.len) (v.mounts.filter fun m => Covers m.path path)

/-- The loop over the mount table collects the mounts that cover the path. -/
theorem candidates_eq (path : Text) (mounts : List MountEntry) :
    candidates path mounts = some (mounts.filter fun m => Covers m.path path) := by
  induction mounts with
  | nil => rfl
  | cons m mounts ih =>
    obtain ⟨b, hb, hiff⟩ := pathStartsWithMount_eq path m.path
    have hcovers : decide (Covers m.path path) = b := by
      rw [Bool.eq_iff_iff, decide_eq_true_iff, hiff]
    simp [candidates, hb, ih, List.filter_cons, hcovers]

/-- The access to the mount table never panics. -/
theorem select_eq (v : Vfs) {path : Text} (habs : path.startsWith '/' = true) :
    v.select path = some (match v.owner path with
      | none => .error .notFound
      | some m => .ok (m.fs, trimStartMatches (path.drop m.path.length) '/')) := by
  simp only [select, candidates_eq, owner, Option.bind_eq_bind, Option.bind_some]
  cases howner : maxByKey (·.path.len) (v.mounts.filter fun m => Covers m.path path) with
  | none => rfl
  | some m =>
    have hcovers : Covers m.path path := by simpa using (List.mem_filter.mp (maxByKey_mem howner).1).2
    obtain ⟨rest, rfl, -⟩ := hcovers.rest habs
    simp only [List.drop_left]
    split
    · rename_i hroot
      have hslice : (m.path ++ rest).sliceFrom 1 = some rest := by
        rw [hroot]
        exact sliceFrom_append "/" rest
      rw [hslice]
      rfl
    · rw [sliceFrom_append]
      rfl

end Vfs

/-- What `resolve` computes: the components that the mount leaves over, walked in its filesystem. It changes nothing. -/
theorem World.run_resolve (w : World) {path : Text} (habs : path.startsWith '/' = true) :
    w.run (Vfs.resolve path) = some (match w.vfs.owner path with
      | none => .error .notFound
      | some m => (walkIn (w.disk m.fs) rootInode (components (path.drop m.path.length))).map (m.fs, ·), w) := by
  have habs' : (!path.startsWith '/') = false := by rw [habs]; rfl
  have hselect := run_selectMount w path
  rw [w.vfs.select_eq habs] at hselect
  rw [Vfs.resolve, habs', if_neg Bool.false_ne_true]
  cases howner : w.vfs.owner path with
  | none =>
    rw [howner] at hselect
    rw [run_bind_error w hselect]
  | some m =>
    rw [howner] at hselect
    have hwalk := run_walk w m.fs rootInode ((trimStartMatches (path.drop m.path.length) '/').split '/')
    rw [run_bind_ok w hselect, run_bind_pure w hwalk]
    dsimp only
    rw [← components_trimStart, components_eq]

/-- An absolute path is resolved in the filesystem of its mount, by a walk along what comes after the mount path. -/
theorem World.resolve_eq (w : World) {path : Text} (habs : path.startsWith '/' = true) :
    w.resolve path = some (match w.vfs.owner path with
      | none => .error .notFound
      | some m => (walkIn (w.disk m.fs) rootInode (components (path.drop m.path.length))).map (m.fs, ·)) := by
  rw [World.resolve, w.run_resolve habs]
  rfl

/-- A path that is not absolute is refused. -/
theorem World.run_resolve_relative (w : World) {path : Text} (hrel : path.startsWith '/' = false) :
    w.run (Vfs.resolve path) = some (.error .invalidPath, w) := by
  rw [Vfs.resolve, hrel]
  rfl

/-- On any path `resolve` returns and changes nothing. -/
theorem World.resolve_returns (w : World) (path : Text) : ∃ r, w.run (Vfs.resolve path) = some (r, w) := by
  cases habs : path.startsWith '/' with
  | true => exact ⟨_, w.run_resolve habs⟩
  | false => exact ⟨_, w.run_resolve_relative habs⟩

/-! ## One filesystem at the root -/

/-- Only the root mount covers anything. -/
theorem Vfs.owner_root (fs : FsId) (path : Text) : (⟨[⟨"/", fs⟩]⟩ : Vfs).owner path = some ⟨"/", fs⟩ := by
  have hcovers : Covers ("/" : Text) path := .inl rfl
  have hall : [(⟨"/", fs⟩ : MountEntry)].filter (fun m => Covers m.path path) = [⟨"/", fs⟩] :=
    List.filter_cons_of_pos (decide_eq_true hcovers)
  rw [Vfs.owner, hall]
  rfl

/-- The root mount leaves over all components. -/
theorem components_drop {path : Text} (habs : path.startsWith '/' = true) :
    components (path.drop ("/" : Text).length) = components path := by
  obtain ⟨rest, rfl⟩ := startsWith_iff.mp habs
  exact (components_slash rest).symm

/-- `resolve` walks the components of the path. -/
theorem World.run_resolve_root {w : World} {fs : FsId} (hmounted : w.vfs = ⟨[⟨"/", fs⟩]⟩) {path : Text}
    (habs : path.startsWith '/' = true) :
    w.run (Vfs.resolve path) = some ((walkIn (w.disk fs) rootInode (components path)).map (fs, ·), w) := by
  rw [w.run_resolve habs, hmounted, Vfs.owner_root]
  dsimp only
  rw [components_drop habs]

/-- With one filesystem, at the root, a path is resolved by a walk along its components. -/
theorem World.resolve_root_mount {w : World} {fs : FsId} (hmounted : w.vfs = ⟨[⟨"/", fs⟩]⟩) {path : Text}
    (habs : path.startsWith '/' = true) :
    w.resolve path = some ((walkIn (w.disk fs) rootInode (components path)).map (fs, ·)) := by
  rw [World.resolve, World.run_resolve_root hmounted habs]
  rfl

end Fs

end GolemKernel
