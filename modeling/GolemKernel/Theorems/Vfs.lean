import GolemKernel.Lemmas.Vfs
import GolemKernel.Lemmas.RamFsFile

/-!
# The mount table and path resolution

What the tables are that `mount` and `unmount` can build, which mount a path goes to, and what that means for the ways to write a path.
The mount of a path is chosen by the text of the path, the walk after it goes by components; where the two notions differ, so do the
results (`mount_table_iff`, `resolve_by_components_iff`, `parent_split_iff`).
-/

namespace GolemKernel

namespace Fs

open Text

/-! ## The tables -/

/-- A path without its trailing slashes does not end in one. -/
theorem trimEndMatches_getLast? (p : Text) : (p.trimEndMatches '/').getLast? ≠ some '/' := by
  intro h
  have hne : p.trimEndMatches '/' ≠ [] := by
    intro hnil
    rw [hnil] at h
    cases h
  have hlast := List.rdropWhile_last_not (fun c => decide (c = '/')) p hne
  rw [List.getLast?_eq_some_getLast hne, Option.some.injEq] at h
  exact hlast (by simpa [trimEndMatches] using h)

/-- A mount path has the components of the mount point. -/
theorem nonEmptyComponents_normalizeMountPath (p : Text) : nonEmptyComponents (normalizeMountPath p) = nonEmptyComponents p := by
  unfold normalizeMountPath
  split
  · rename_i hroot
    rw [hroot]
  · exact nonEmptyComponents_trimEnd p

/-- What `normalize_mount_path` makes of an absolute path: the root, nothing at all, or an absolute path that does not end in a slash. -/
theorem normalizeMountPath_cases {p : Text} (habs : p.startsWith '/' = true) :
    normalizeMountPath p = "/" ∨ (normalizeMountPath p).getLast? ≠ some '/' ∧
      (normalizeMountPath p = [] ∨ (normalizeMountPath p).startsWith '/' = true) := by
  by_cases hroot : p = "/"
  · left
    rw [normalizeMountPath, if_pos hroot]
  · right
    rw [normalizeMountPath, if_neg hroot]
    refine ⟨trimEndMatches_getLast? p, ?_⟩
    obtain ⟨t, rfl⟩ := startsWith_iff.mp habs
    cases htrim : trimEndMatches ('/' :: t) '/' with
    | nil => exact .inl rfl
    | cons c s =>
      -- what is left is a prefix of the path
      have hpre : trimEndMatches ('/' :: t) '/' <+: '/' :: t := List.rdropWhile_prefix _ _
      rw [htrim] at hpre
      obtain ⟨rfl, -⟩ := List.cons_prefix_cons.mp hpre
      exact .inr rfl

/-- What every table is like that is built with mount points from a set: its paths differ and come from those mount points. -/
structure Vfs.Built (S : Set Text) (v : Vfs) : Prop where
  nodup : (v.mounts.map (·.path)).Nodup
  normal : ∀ m ∈ v.mounts, ∃ p ∈ S, p.startsWith '/' = true ∧ m.path = normalizeMountPath p

namespace Vfs

variable {S : Set Text} {v : Vfs}

/-- A mount that changes the table appends one entry, at a new path. -/
theorem mounts_mount (v : Vfs) (mountPoint : Text) (fs : FsId) :
    (v.mount mountPoint fs).2 = v ∨
      mountPoint.startsWith '/' = true ∧ normalizeMountPath mountPoint ∉ v.mounts.map (·.path) ∧
        (v.mount mountPoint fs).2.mounts = v.mounts ++ [⟨normalizeMountPath mountPoint, fs⟩] := by
  unfold mount
  split
  · exact .inl rfl
  · rename_i habs
    dsimp only
    split
    · exact .inl rfl
    · rename_i hvacant
      refine .inr ⟨by simpa using habs, ?_, rfl⟩
      intro htaken
      obtain ⟨m, hm, hpath⟩ := List.mem_map.mp htaken
      exact hvacant (List.any_eq_true.mpr ⟨m, hm, decide_eq_true hpath⟩)

/-- An unmount only takes entries away. -/
theorem mounts_unmount (v : Vfs) (mountPoint : Text) : (v.unmount mountPoint).2.mounts.Sublist v.mounts := by
  unfold unmount
  dsimp only
  split
  · exact List.Sublist.refl _
  · exact List.eraseIdx_sublist _ _

/-- One call keeps the table well built. -/
theorem Built.apply (h : v.Built S) (c : MountCall) (hc : c.mountPoint ∈ S) : (v.apply c).Built S := by
  cases c with
  | mount mountPoint fs =>
    rcases mounts_mount v mountPoint fs with heq | ⟨habs, hvacant, hmounts⟩
    · rwa [Vfs.apply, heq]
    · refine ⟨?_, ?_⟩
      · rw [Vfs.apply, hmounts, List.map_append, List.map_singleton]
        refine List.nodup_append.mpr ⟨h.nodup, List.nodup_singleton _, ?_⟩
        rintro path hpath _ hnew rfl
        rw [List.mem_singleton.mp hnew] at hpath
        exact hvacant hpath
      · intro m hm
        rw [Vfs.apply, hmounts] at hm
        rcases List.mem_append.mp hm with hm | hm
        · exact h.normal m hm
        · obtain rfl := List.mem_singleton.mp hm
          exact ⟨mountPoint, hc, habs, rfl⟩
  | unmount mountPoint =>
    have hsub := mounts_unmount v mountPoint
    exact ⟨h.nodup.sublist (hsub.map _), fun m hm => h.normal m (hsub.subset hm)⟩

/-- So every table that calls have made is well built. -/
theorem built_after (calls : List MountCall) (hcalls : ∀ c ∈ calls, c.mountPoint ∈ S) : (after calls).Built S := by
  induction calls using List.reverseRecOn with
  | nil => exact ⟨List.nodup_nil, by simp [after, new]⟩
  | append_singleton calls c ih =>
    rw [after, List.foldl_append]
    exact (ih fun c' hc' => hcalls c' (List.mem_append_left _ hc')).apply c (hcalls c (by simp))

/-- The documented form of the table: every path begins with a slash and has no trailing one unless it is the root, and no two entries
denote the same directory. -/
structure Documented (v : Vfs) : Prop where
  absolute : ∀ m ∈ v.mounts, m.path.startsWith '/' = true
  trimmed : ∀ m ∈ v.mounts, m.path ≠ "/" → m.path.getLast? ≠ some '/'
  distinct : v.mounts.Pairwise fun m m' => nonEmptyComponents m.path ≠ nonEmptyComponents m'.path

/-- For every set of strings that the callers of `mount` and `unmount` use as mount points: every table they can build has the documented
form, exactly if no absolute string among them consists of several slashes only, and any two absolute ones with the same non-empty
components are the same up to trailing slashes. -/
theorem mount_table_iff (S : Set Text) :
    (∀ calls : List MountCall, (∀ c ∈ calls, c.mountPoint ∈ S) → (after calls).Documented) ↔
      (∀ p ∈ S, p.startsWith '/' = true → p ≠ "/" → p.trimEndMatches '/' ≠ []) ∧
      ∀ p ∈ S, ∀ q ∈ S, p.startsWith '/' = true → q.startsWith '/' = true → nonEmptyComponents p = nonEmptyComponents q →
        normalizeMountPath p = normalizeMountPath q := by
  constructor
  · intro hall
    refine ⟨?_, ?_⟩
    · intro p hp habs hroot hempty
      -- mounted at this path, a filesystem is entered under the empty one
      have htable : (after [.mount p 0]).mounts = [⟨normalizeMountPath p, 0⟩] := by simp [after, Vfs.apply, mount, new, habs]
      have hdoc := hall [.mount p 0] (by simpa [MountCall.mountPoint] using hp)
      have hslash := hdoc.absolute ⟨normalizeMountPath p, 0⟩ (by simp [htable])
      rw [normalizeMountPath, if_neg hroot, hempty] at hslash
      cases hslash
    · intro p hp q hq habs habs' hsame
      by_contra hne
      have htable : (after [.mount p 0, .mount q 0]).mounts = [⟨normalizeMountPath p, 0⟩, ⟨normalizeMountPath q, 0⟩] := by
        simp [after, Vfs.apply, mount, new, habs, habs', hne]
      have hdoc := hall [.mount p 0, .mount q 0] (by simp [MountCall.mountPoint, hp, hq])
      have hdistinct := hdoc.distinct
      rw [htable] at hdistinct
      simp [nonEmptyComponents_normalizeMountPath, hsame] at hdistinct
  · rintro ⟨hslashes, hspelling⟩ calls hcalls
    obtain ⟨hnodup, hnormal⟩ := built_after calls hcalls
    refine ⟨?_, ?_, ?_⟩
    · intro m hm
      obtain ⟨p, hp, habs, hpath⟩ := hnormal m hm
      rw [hpath]
      rcases normalizeMountPath_cases habs with hroot | ⟨-, hempty | hslash⟩
      · rw [hroot]
        rfl
      · have hnotroot : p ≠ "/" := by
          rintro rfl
          cases hempty
        rw [normalizeMountPath, if_neg hnotroot] at hempty
        exact absurd hempty (hslashes p hp habs hnotroot)
      · exact hslash
    · intro m hm hnotroot
      obtain ⟨p, -, habs, hpath⟩ := hnormal m hm
      rw [hpath] at hnotroot ⊢
      rcases normalizeMountPath_cases habs with hroot | ⟨hlast, -⟩
      · exact absurd hroot hnotroot
      · exact hlast
    · have hpaths : (after calls).mounts.Pairwise fun m m' => m.path ≠ m'.path := List.pairwise_map.mp hnodup
      refine hpaths.imp_of_mem ?_
      intro m m' hm hm' hne hsame
      obtain ⟨p, hp, habs, hpath⟩ := hnormal m hm
      obtain ⟨q, hq, habs', hpath'⟩ := hnormal m' hm'
      rw [hpath, hpath', nonEmptyComponents_normalizeMountPath, nonEmptyComponents_normalizeMountPath] at hsame
      exact hne (by rw [hpath, hpath', hspelling p hp q hq habs habs' hsame])

/-- The path `//` is entered as the empty one, and `/a/b` and `/a//b` can be mounted side by side. -/
theorem mount_table_undocumented :
    (after [.mount "//" 0]).mounts = [⟨[], 0⟩] ∧
    (after [.mount "/a/b" 0, .mount "/a//b" 1]).mounts = [⟨"/a/b", 0⟩, ⟨"/a//b", 1⟩] ∧
    nonEmptyComponents "/a/b" = nonEmptyComponents "/a//b" := by
  decide

/-! ## The mount of a path -/

/-- A path has no mount exactly if none covers it. -/
theorem owner_eq_none_iff (v : Vfs) (path : Text) : v.owner path = none ↔ ∀ m ∈ v.mounts, ¬Covers m.path path := by
  rw [owner, maxByKey_eq_none_iff, List.filter_eq_nil_iff]
  simp

/-- The mount of a path is the one longest mount that covers it. -/
theorem owner_eq_some_iff (hnodup : (v.mounts.map (·.path)).Nodup) {path : Text} (habs : path.startsWith '/' = true)
    {m : MountEntry} :
    v.owner path = some m ↔
      m ∈ v.mounts ∧ Covers m.path path ∧ ∀ m' ∈ v.mounts, Covers m'.path path → m'.path.len ≤ m.path.len := by
  have hinj : ∀ a ∈ v.mounts.filter (fun m => Covers m.path path), ∀ b ∈ v.mounts.filter (fun m => Covers m.path path),
      a.path.len = b.path.len → a = b := by
    intro a ha b hb hlen
    simp only [List.mem_filter, decide_eq_true_eq] at ha hb
    exact List.inj_on_of_nodup_map hnodup ha.1 hb.1 (ha.2.eq_of_len_eq hb.2 habs hlen)
  rw [owner, maxByKey_eq_some_iff hinj]
  simp only [List.mem_filter, decide_eq_true_eq, and_imp, and_assoc]

/-- The order of the mount table does not matter. -/
theorem owner_perm (v v' : Vfs) (hnodup : (v.mounts.map (·.path)).Nodup) (hperm : v'.mounts.Perm v.mounts) {path : Text}
    (habs : path.startsWith '/' = true) : v'.owner path = v.owner path := by
  have hnodup' : (v'.mounts.map (·.path)).Nodup := (hperm.map _).nodup_iff.mpr hnodup
  ext m
  simp only [owner_eq_some_iff hnodup habs, owner_eq_some_iff hnodup' habs, hperm.mem_iff]

/-- `resolve` at the mount of a path. -/
theorem resolve_of_owner {w : World} {path : Text} (habs : path.startsWith '/' = true) {m : MountEntry}
    (howner : w.vfs.owner path = some m) (hcovers : Covers m.path path) :
    ∃ rest, path = m.path ++ rest ∧ components path = components m.path ++ components rest ∧
      w.resolve path = some ((walkIn (w.disk m.fs) rootInode (components rest)).map (m.fs, ·)) := by
  obtain ⟨rest, hpath, hcomponents⟩ := hcovers.rest habs
  refine ⟨rest, hpath, hcomponents, ?_⟩
  have hdrop : path.drop m.path.length = rest := by rw [hpath, List.drop_left]
  rw [w.resolve_eq habs, howner]
  simp only [hdrop]

/-- For every table that `mount` and `unmount` can build, every order of its entries and every absolute path: `resolve` gives the same
result for both orders and does not panic; no mount covers the path, and the result is `NotFound`, or there is exactly one longest
mount that covers it, and the rest of the path is walked in its filesystem. -/
theorem longest_mount_wins (calls : List MountCall) (mounts : List MountEntry) (hperm : mounts.Perm (after calls).mounts)
    (disk : FsId → Inner) (path : Text) (habs : path.startsWith '/' = true) :
    World.resolve ⟨⟨mounts⟩, disk⟩ path = World.resolve ⟨after calls, disk⟩ path ∧
    (World.resolve ⟨after calls, disk⟩ path).isSome = true ∧
    ((∀ m ∈ (after calls).mounts, ¬Covers m.path path) ∧ World.resolve ⟨after calls, disk⟩ path = some (.error .notFound) ∨
      ∃ m ∈ (after calls).mounts, Covers m.path path ∧
        (∀ m' ∈ (after calls).mounts, Covers m'.path path → m' ≠ m → m'.path.len < m.path.len) ∧
        ∃ rest, path = m.path ++ rest ∧ World.resolve ⟨after calls, disk⟩ path =
          some ((walkIn (disk m.fs) rootInode (components rest)).map (m.fs, ·))) := by
  have hnodup := (built_after (S := Set.univ) calls fun _ _ => trivial).nodup
  refine ⟨?_, ?_, ?_⟩
  · rw [World.resolve_eq _ habs, World.resolve_eq _ habs, owner_perm (after calls) ⟨mounts⟩ hnodup hperm habs]
  · rw [World.resolve_eq _ habs]
    rfl
  · cases howner : (after calls).owner path with
    | none =>
      refine .inl ⟨(owner_eq_none_iff _ path).mp howner, ?_⟩
      rw [World.resolve_eq _ habs]
      simp only [howner]
    | some m =>
      obtain ⟨hm, hcovers, hlongest⟩ := (owner_eq_some_iff hnodup habs).mp howner
      obtain ⟨rest, hpath, -, hresolve⟩ := resolve_of_owner (w := ⟨after calls, disk⟩) habs howner hcovers
      refine .inr ⟨m, hm, hcovers, ?_, rest, hpath, hresolve⟩
      intro m' hm' hcovers' hne
      refine lt_of_le_of_ne (hlongest m' hm' hcovers') ?_
      intro hlen
      exact hne (List.inj_on_of_nodup_map hnodup hm' hm (hcovers'.eq_of_len_eq hcovers habs hlen))

/-- Mounts are on component boundaries. -/
example : Covers "/dev" "/dev/null" ∧ ¬Covers "/dev" "/device" := by decide

/-- A root filesystem and one at `/dev`, both new. -/
def rootAndDev : List MountCall := [.mount "/" 0, .mount "/dev" 1]

theorem longest_mount_wins_dev :
    World.resolve ⟨⟨[⟨"/dev", 1⟩, ⟨"/", 0⟩]⟩, fun _ => RamFs.new⟩ "/dev/." =
      World.resolve ⟨after rootAndDev, fun _ => RamFs.new⟩ "/dev/." ∧
    World.resolve ⟨after rootAndDev, fun _ => RamFs.new⟩ "/dev/." = some (.ok (1, rootInode)) := by
  refine ⟨(longest_mount_wins rootAndDev [⟨"/dev", 1⟩, ⟨"/", 0⟩] ?_ (fun _ => RamFs.new) "/dev/." rfl).1, ?_⟩
  · exact List.Perm.swap _ _ _
  · decide

/-! ## Other ways to write a path -/

/-- The paths of mounts at the root: `/` itself, and what `normalize_mount_path` makes of `//`. -/
def AtRoot (m : MountEntry) : Prop := m.path = "/" ∨ m.path = []

/-- A mount at the root covers all absolute paths. -/
theorem covers_of_atRoot {m : MountEntry} (h : AtRoot m) {path : Text} (habs : path.startsWith '/' = true) : Covers m.path path := by
  obtain ⟨t, rfl⟩ := startsWith_iff.mp habs
  rcases h with h | h
  · exact .inl h
  · exact .inr (.inr ⟨t, by rw [h]; rfl⟩)

/-- Only mounts at the root cover the root. -/
theorem atRoot_of_covers_root {m : MountEntry} (h : Covers m.path "/") : AtRoot m := h.of_root

/-- More slashes in front than any mount has characters leave only the mounts at the root. -/
theorem atRoot_of_covers_slashes {m : MountEntry} (hlast : m.path = "/" ∨ m.path.getLast? ≠ some '/') {n : Nat} {path : Text}
    (hn : m.path.length < n) (h : Covers m.path (List.replicate n '/' ++ path)) : AtRoot m := by
  rcases hlast with hroot | hlast
  · exact .inl hroot
  · right
    obtain ⟨k, rfl⟩ : ∃ k, n = k + 1 := ⟨n - 1, by omega⟩
    have hpre : m.path <+: List.replicate (k + 1) '/' :=
      List.prefix_of_prefix_length_le (h.isPrefix rfl) (List.prefix_append _ _) (by simp; omega)
    have hslashes : ∀ c ∈ m.path, c = '/' := fun c hc => List.eq_of_mem_replicate (hpre.subset hc)
    by_contra hne
    exact hlast (by rw [List.getLast?_eq_some_getLast hne, hslashes _ (List.getLast_mem hne)])

/-- Mount paths other than the root do not end in a slash. -/
theorem getLast?_of_built (h : v.Built S) {m : MountEntry} (hm : m ∈ v.mounts) : m.path = "/" ∨ m.path.getLast? ≠ some '/' := by
  obtain ⟨p, -, habs, hpath⟩ := h.normal m hm
  rw [hpath]
  exact (normalizeMountPath_cases habs).imp_right (·.1)

/-- With enough slashes before it, every path is of the mount of the root. -/
theorem owner_slashes (h : v.Built S) {n : Nat} (hn : ∀ m ∈ v.mounts, m.path.length < n) (hpos : 0 < n) (path : Text) :
    v.owner (List.replicate n '/' ++ path) = v.owner "/" := by
  have habs : startsWith (List.replicate n '/' ++ path) '/' = true := by
    obtain ⟨k, rfl⟩ : ∃ k, n = k + 1 := ⟨n - 1, by omega⟩
    rfl
  rw [owner, owner, List.filter_congr]
  intro m hm
  rw [decide_eq_decide]
  constructor
  · intro hcovers
    exact covers_of_atRoot (atRoot_of_covers_slashes (getLast?_of_built h hm) (hn m hm) hcovers) rfl
  · intro hcovers
    exact covers_of_atRoot (atRoot_of_covers_root hcovers) habs

/-- The mount whose path is the path itself. -/
theorem owner_self (h : v.Built S) {m : MountEntry} (hm : m ∈ v.mounts) (habs : m.path.startsWith '/' = true) :
    v.owner m.path = some m := by
  refine (owner_eq_some_iff h.nodup habs).mpr ⟨hm, .inr (.inl rfl), ?_⟩
  intro m' hm' hcovers
  obtain ⟨rest, hrest⟩ := hcovers.isPrefix habs
  rw [← hrest, len_append]
  omega

/-- A path in the table other than that of a mount at the root begins with a slash. -/
theorem startsWith_of_not_atRoot (h : v.Built S) {m : MountEntry} (hm : m ∈ v.mounts) (hroot : ¬AtRoot m) :
    m.path.startsWith '/' = true := by
  obtain ⟨p, -, habs, hpath⟩ := h.normal m hm
  rw [AtRoot, hpath, not_or] at hroot
  rw [hpath]
  rcases normalizeMountPath_cases habs with heq | ⟨-, heq | habs'⟩
  · exact absurd heq hroot.1
  · exact absurd heq hroot.2
  · exact habs'

/-- A mount at the root has no components. -/
theorem components_of_atRoot {m : MountEntry} (h : AtRoot m) : components m.path = [] := by
  rcases h with h | h <;> rw [h] <;> rfl

/-- If a path goes to a mount at the root, so does `/`. -/
theorem owner_root_of_atRoot (h : v.Built S) {path : Text} (habs : path.startsWith '/' = true) {m : MountEntry}
    (howner : v.owner path = some m) (hroot : AtRoot m) : v.owner "/" = some m := by
  obtain ⟨hm, -, hlongest⟩ := (owner_eq_some_iff h.nodup habs).mp howner
  refine (owner_eq_some_iff h.nodup rfl).mpr ⟨hm, covers_of_atRoot hroot rfl, ?_⟩
  intro m' hm' hcovers
  exact hlongest m' hm' (covers_of_atRoot (atRoot_of_covers_root hcovers) habs)

end Vfs

/-- What `resolve` would give if only the root were mounted. -/
def World.resolveAtRoot (w : World) (cs : List Text) : FsResult (FsId × InodeNum) :=
  match w.vfs.owner "/" with
  | none => .error .notFound
  | some m => (walkIn (w.disk m.fs) rootInode cs).map (m.fs, ·)

/-- A mount that is not at the root makes no difference: it has the filesystem of the root, at a path that leads from the root directory
back to it. -/
def World.Redundant (w : World) (m : MountEntry) : Prop :=
  (w.vfs.owner "/").map (·.fs) = some m.fs ∧ walkIn (w.disk m.fs) rootInode (components m.path) = .ok rootInode

namespace World

variable {S : Set Text} {w : World}

/-- At a mount at the root all components are walked. -/
theorem resolve_of_atRoot (h : w.vfs.Built S) {path : Text} (habs : path.startsWith '/' = true) {m : MountEntry}
    (howner : w.vfs.owner path = some m) (hroot : Vfs.AtRoot m) : w.resolve path = some (w.resolveAtRoot (components path)) := by
  obtain ⟨rest, -, hcomponents, hresolve⟩ := Vfs.resolve_of_owner habs howner (Vfs.covers_of_atRoot hroot habs)
  rw [Vfs.components_of_atRoot hroot, List.nil_append] at hcomponents
  rw [hresolve, resolveAtRoot, Vfs.owner_root_of_atRoot h habs howner hroot, hcomponents]

/-- With no mount for the path nor at the root, nothing is found. -/
theorem resolve_of_owner_none {path : Text} (habs : path.startsWith '/' = true) (howner : w.vfs.owner path = none)
    (hroot : w.vfs.owner "/" = none) : w.resolve path = some (w.resolveAtRoot (components path)) := by
  rw [w.resolve_eq habs, resolveAtRoot, howner, hroot]

/-- Behind enough slashes only a mount at the root is found. -/
theorem resolve_slashes (h : w.vfs.Built S) {n : Nat} (hn : ∀ m ∈ w.vfs.mounts, m.path.length < n + 1) (path : Text) :
    w.resolve (List.replicate (n + 1) '/' ++ path) = some (w.resolveAtRoot (components path)) := by
  have howner := Vfs.owner_slashes h hn (Nat.succ_pos n) path
  rw [← components_replicate_slash (n + 1) path]
  cases hroot : w.vfs.owner "/" with
  | none => exact resolve_of_owner_none rfl (howner.trans hroot) hroot
  | some m =>
    have hcovers := ((Vfs.owner_eq_some_iff h.nodup rfl).mp hroot).2.1
    exact resolve_of_atRoot h rfl (howner.trans hroot) (Vfs.atRoot_of_covers_root hcovers)

/-- The path of a mount is its root directory. -/
theorem resolve_self (h : w.vfs.Built S) {m : MountEntry} (hm : m ∈ w.vfs.mounts) (habs : m.path.startsWith '/' = true) :
    w.resolve m.path = some (.ok (m.fs, rootInode)) := by
  rw [w.resolve_eq habs, Vfs.owner_self h hm habs]
  simp only [List.drop_length]
  rfl

/-- Where the mounts make no difference, `resolve` goes by the components. -/
theorem resolve_of_redundant (h : w.vfs.Built S) (hred : ∀ m ∈ w.vfs.mounts, m.path ≠ "/" → m.path ≠ [] → w.Redundant m)
    {path : Text} (habs : path.startsWith '/' = true) : w.resolve path = some (w.resolveAtRoot (components path)) := by
  cases howner : w.vfs.owner path with
  | none =>
    refine resolve_of_owner_none habs howner ?_
    rw [Vfs.owner_eq_none_iff] at howner ⊢
    intro m hm hcovers
    exact howner m hm (Vfs.covers_of_atRoot (Vfs.atRoot_of_covers_root hcovers) habs)
  | some m =>
    by_cases hroot : Vfs.AtRoot m
    · exact resolve_of_atRoot h habs howner hroot
    · obtain ⟨hm, hcovers, -⟩ := (Vfs.owner_eq_some_iff h.nodup habs).mp howner
      obtain ⟨rest, -, hcomponents, hresolve⟩ := Vfs.resolve_of_owner habs howner hcovers
      obtain ⟨hsame, hback⟩ := hred m hm (fun heq => hroot (.inl heq)) (fun heq => hroot (.inr heq))
      obtain ⟨r, hroot', hfs⟩ := Option.map_eq_some_iff.mp hsame
      rw [hresolve, resolveAtRoot]
      simp only [hroot', hfs, hcomponents, walkIn_append, hback]
      rfl

/-- Where the root alone leads to the root directory of a filesystem. -/
theorem redundant_of_resolveAtRoot {m : MountEntry} (h : w.resolveAtRoot (components m.path) = .ok (m.fs, rootInode)) :
    w.Redundant m := by
  unfold resolveAtRoot at h
  rw [Redundant]
  cases hroot : w.vfs.owner "/" with
  | none =>
    rw [hroot] at h
    cases h
  | some r =>
    simp only [hroot] at h
    cases hwalk : walkIn (w.disk r.fs) rootInode (components m.path) with
    | error e =>
      rw [hwalk] at h
      cases h
    | ok inode =>
      rw [hwalk] at h
      obtain ⟨hfs, rfl⟩ := Prod.mk.inj (Except.ok.inj h)
      rw [← hfs]
      exact ⟨rfl, hwalk⟩

/-- For every table that `mount` and `unmount` can build and any trees in the filesystems: `resolve` gives the same result for any two
absolute paths with the same components, exactly if every mount other than the root one mounts the filesystem of the mount of `/`, at a
path that leads from its root directory back to it. -/
theorem resolve_by_components_iff (calls : List Vfs.MountCall) (disk : FsId → Inner) :
    (∀ p q : Text, p.startsWith '/' = true → q.startsWith '/' = true → components p = components q →
      resolve ⟨Vfs.after calls, disk⟩ p = resolve ⟨Vfs.after calls, disk⟩ q) ↔
    ∀ m ∈ (Vfs.after calls).mounts, m.path ≠ "/" → m.path ≠ [] →
      ((Vfs.after calls).owner "/").map (·.fs) = some m.fs ∧ walkIn (disk m.fs) rootInode (components m.path) = .ok rootInode := by
  have hbuilt : (Vfs.after calls).Built Set.univ := Vfs.built_after calls fun _ _ => trivial
  constructor
  · intro hall m hm hne hne'
    have habs := Vfs.startsWith_of_not_atRoot hbuilt hm (not_or.mpr ⟨hne, hne'⟩)
    -- the same path, with so many slashes in front that no mount but the root one covers it
    let n := ((Vfs.after calls).mounts.map (·.path.length)).sum
    have hn : ∀ m' ∈ (Vfs.after calls).mounts, m'.path.length < n + 1 := by
      intro m' hm'
      exact Nat.lt_succ_of_le (List.le_sum_of_mem (List.mem_map_of_mem hm'))
    have hsame := hall m.path (List.replicate (n + 1) '/' ++ m.path) habs rfl (components_replicate_slash _ _).symm
    rw [resolve_slashes hbuilt hn, resolve_self hbuilt hm habs, Option.some.injEq] at hsame
    exact redundant_of_resolveAtRoot hsame.symm
  · intro hred p q hp hq hsame
    rw [resolve_of_redundant hbuilt hred hp, resolve_of_redundant hbuilt hred hq, hsame]

/-- With filesystems at `/` and `/dev`, `/dev` is the root of the second, and `//dev` and `/./dev` are looked up in the first. -/
theorem resolve_spelling_matters :
    components "/dev" = components "//dev" ∧ components "/dev" = components "/./dev" ∧
    resolve ⟨Vfs.after Vfs.rootAndDev, fun _ => RamFs.new⟩ "/dev" = some (.ok (1, rootInode)) ∧
    resolve ⟨Vfs.after Vfs.rootAndDev, fun _ => RamFs.new⟩ "//dev" = some (.error .notFound) ∧
    resolve ⟨Vfs.after Vfs.rootAndDev, fun _ => RamFs.new⟩ "/./dev" = some (.error .notFound) := by
  decide +kernel

/-! ## A path and its parent -/

/-- A path and its parent are of the same mount, unless one is mounted at the path. -/
theorem owner_splitParent (h : w.vfs.Built S) {p q n : Text} (hsplit : splitParent p = .ok (q, n))
    (hmount : ∀ m ∈ w.vfs.mounts, m.path ≠ p.trimEndMatches '/') : w.vfs.owner p = w.vfs.owner q := by
  rw [Vfs.owner, Vfs.owner, List.filter_congr]
  intro m hm
  rw [decide_eq_decide]
  exact covers_splitParent_iff hsplit (Vfs.getLast?_of_built h hm) (hmount m hm)

/-- A dot leads from a directory to itself. -/
theorem lookup_dot_eq_ok_iff (t : Inner) (j i : InodeNum) : RamFs.lookup t j "." = .ok i ↔ i = j ∧ t.isDir j = true := by
  rw [RamFs.lookup_eq_ok_iff, if_pos rfl, and_comm]

/-- Without a mount at the path itself, `resolve` walks on from where it ends for the parent. -/
theorem resolve_splitParent (h : w.vfs.Built S) {p q n : Text} (hsplit : splitParent p = .ok (q, n))
    (hmount : ∀ m ∈ w.vfs.mounts, m.path ≠ p.trimEndMatches '/') :
    w.resolve p = (w.resolve q).map fun r => r.bind fun (fs, j) =>
      (walkIn (w.disk fs) j (if n = "." then [] else [n])).map (fs, ·) := by
  have habs := (splitParent_eq_ok hsplit).1
  have habs' := startsWith_of_splitParent hsplit
  have howner := owner_splitParent h hsplit hmount
  cases hq : w.vfs.owner q with
  | none =>
    rw [w.resolve_eq habs, w.resolve_eq habs', howner, hq]
    rfl
  | some m =>
    have hcovers' := ((Vfs.owner_eq_some_iff h.nodup habs').mp hq).2.1
    have hcovers := ((Vfs.owner_eq_some_iff h.nodup habs).mp (howner.trans hq)).2.1
    obtain ⟨rest, -, hcomponents, hresolve⟩ := Vfs.resolve_of_owner habs (howner.trans hq) hcovers
    obtain ⟨rest', -, hcomponents', hresolve'⟩ := Vfs.resolve_of_owner habs' hq hcovers'
    -- the mount has taken the same components of both
    have hrest : components rest = components rest' ++ if n = "." then [] else [n] := by
      have hall := components_of_splitParent hsplit
      rw [hcomponents, hcomponents', List.append_assoc] at hall
      exact List.append_cancel_left hall
    rw [hresolve, hresolve', hrest, walkIn_append]
    cases walkIn (w.disk m.fs) rootInode (components rest') with
    | error e => rfl
    | ok j => rfl

/-- For every table that `mount` and `unmount` can build, any trees in the filesystems and every path with no filesystem mounted at the
path itself: that `resolve` finds exactly what looking up the last component in the resolved parent finds, holds exactly if the last
component is not `.` or the parent does not resolve to something that is not a directory. -/
theorem parent_split_iff (calls : List Vfs.MountCall) (disk : FsId → Inner) (p q n : Text) (hsplit : splitParent p = .ok (q, n))
    (hmount : ∀ m ∈ (Vfs.after calls).mounts, m.path ≠ p.trimEndMatches '/') :
    (∀ fs i, resolve ⟨Vfs.after calls, disk⟩ p = some (.ok (fs, i)) ↔
      ∃ j, resolve ⟨Vfs.after calls, disk⟩ q = some (.ok (fs, j)) ∧ RamFs.lookup (disk fs) j (String.ofList n) = .ok i) ↔
    (n = "." → ∀ fs j, resolve ⟨Vfs.after calls, disk⟩ q = some (.ok (fs, j)) → (disk fs).isDir j = true) := by
  have hbuilt : (Vfs.after calls).Built Set.univ := Vfs.built_after calls fun _ _ => trivial
  have hparent := resolve_splitParent (w := ⟨Vfs.after calls, disk⟩) hbuilt hsplit hmount
  by_cases hdot : n = "."
  · subst hdot
    -- the walk ends where it ends for the parent, and the lookup asks for a directory there
    have hsame : resolve ⟨Vfs.after calls, disk⟩ p = resolve ⟨Vfs.after calls, disk⟩ q := by
      rw [hparent]
      cases resolve ⟨Vfs.after calls, disk⟩ q with
      | none => rfl
      | some r => cases r <;> rfl
    simp only [hsame, String.ofList_toList, lookup_dot_eq_ok_iff, forall_const]
    constructor
    · intro hall fs j hq
      obtain ⟨j', -, rfl, hdir⟩ := (hall fs j).mp hq
      exact hdir
    · intro hdir fs i
      constructor
      · intro hq
        exact ⟨i, hq, rfl, hdir fs i hq⟩
      · rintro ⟨j, hq, rfl, -⟩
        exact hq
  · refine iff_of_true ?_ fun h => absurd h hdot
    intro fs i
    rw [hparent, if_neg hdot]
    simp only [walkIn_singleton]
    cases hq : resolve ⟨Vfs.after calls, disk⟩ q with
    | none => simp
    | some r =>
      cases r with
      | error e => simp [Except.bind]
      | ok found =>
        obtain ⟨fs', j⟩ := found
        constructor
        · intro hp
          cases hlookup : RamFs.lookup (disk fs') j (String.ofList n) with
          | error e => simp [Except.bind, hlookup, Except.map] at hp
          | ok i' =>
            simp only [Except.bind, hlookup, Except.map, Option.map_some, Option.some.injEq, Except.ok.injEq, Prod.mk.injEq] at hp
            obtain ⟨rfl, rfl⟩ := hp
            exact ⟨j, rfl, hlookup⟩
        · rintro ⟨j', hq', hlookup⟩
          obtain ⟨rfl, rfl⟩ := Prod.mk.inj (Except.ok.inj (Option.some.inj hq'))
          simp [Except.bind, hlookup, Except.map]

/-- A file at the root of a new filesystem. -/
def diskWithFile : Inner := (RamFs.create RamFs.new rootInode "file" .regular 0o644).2

/-- `/file/.` resolves to the file, which has no entry `.`; and with filesystems at `/` and `/dev`, `/dev` resolves although the root
directory has no such entry. -/
theorem parent_split_differs :
    splitParent "/file/." = .ok ("/file", ".") ∧
    resolve ⟨Vfs.after Vfs.rootAndDev, fun _ => diskWithFile⟩ "/file/." = some (.ok (0, 2)) ∧
    resolve ⟨Vfs.after Vfs.rootAndDev, fun _ => diskWithFile⟩ "/file" = some (.ok (0, 2)) ∧
    RamFs.lookup diskWithFile 2 "." = .error .notADirectory ∧
    splitParent "/dev" = .ok ("/", "dev") ∧
    resolve ⟨Vfs.after Vfs.rootAndDev, fun _ => diskWithFile⟩ "/dev" = some (.ok (1, rootInode)) ∧
    resolve ⟨Vfs.after Vfs.rootAndDev, fun _ => diskWithFile⟩ "/" = some (.ok (0, rootInode)) ∧
    RamFs.lookup diskWithFile rootInode "dev" = .error .notFound := by
  decide +kernel

theorem parent_split_iff_file :
    ∃ j, resolve ⟨Vfs.after Vfs.rootAndDev, fun _ => diskWithFile⟩ "/" = some (.ok (0, j)) ∧
      RamFs.lookup diskWithFile j (String.ofList "file".toList) = .ok 2 := by
  have hsame := (parent_split_iff Vfs.rootAndDev (fun _ => diskWithFile) "/file" "/" "file" rfl (by decide)).mpr (by simp)
  exact (hsame 0 2).mp (by decide)

end World

end Fs

end GolemKernel
