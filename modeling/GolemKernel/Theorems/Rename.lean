import GolemKernel.Lemmas.RamFsNode
import GolemKernel.Lemmas.Vfs

/-!
# `rename` moves one subtree

A path of proper names leads to one inode, and an inode is reached by one path of proper names. A `rename` changes two entries, the old name
and the new one, and takes away at most one leaf, the old target. So a walk that passes neither name sees no difference; and a walk below the
moved inode meets neither of the two directories, since the ancestor check keeps the new one out of the moved subtree.
-/

namespace GolemKernel

namespace Fs

open Text GolemKernel.Fs.Inner

/-! ## Walks over proper names -/

/-- Names that are neither `.` nor `..`. -/
def Proper (cs : List Text) : Prop := ∀ c ∈ cs, c ≠ "." ∧ c ≠ ".."

theorem ofList_ne {c : Text} {name : String} (h : c ≠ name.toList) : String.ofList c ≠ name := by
  rintro rfl
  exact h String.toList_ofList.symm

/-- A proper name is an entry of a directory. -/
theorem lookup_proper_eq_ok_iff {s : Inner} {x y : InodeNum} {c : Text} (hc : c ≠ "." ∧ c ≠ "..") :
    RamFs.lookup s x (String.ofList c) = .ok y ↔ s.entryAt x (String.ofList c) = some y := by
  rw [RamFs.lookup_eq_ok_iff, if_neg (ofList_ne hc.1), if_neg (ofList_ne hc.2), and_iff_right_of_imp]
  intro hentry
  by_contra hdir
  rw [entryAt_of_not_isDir (by simpa using hdir)] at hentry
  cases hentry

/-- A walk over proper names goes down in the tree. -/
theorem walkIn_eq_ok_iff {s : Inner} {cs : List Text} (hcs : Proper cs) {x y : InodeNum} :
    walkIn s x cs = .ok y ↔ s.tree.descend x (cs.map String.ofList) = some y := by
  induction cs generalizing x with
  | nil => simp [walkIn, NamedTree.descend]
  | cons c cs ih =>
    have hrest : Proper cs := fun c hc => hcs c (List.mem_cons_of_mem _ hc)
    simp only [walkIn, List.map_cons, NamedTree.descend]
    cases hlookup : RamFs.lookup s x (String.ofList c) with
    | ok z =>
      rw [lookup_proper_eq_ok_iff (hcs c List.mem_cons_self)] at hlookup
      rw [tree_entry, hlookup]
      exact ih hrest
    | error e =>
      have hnone : s.entryAt x (String.ofList c) = none := by
        cases hentry : s.entryAt x (String.ofList c) with
        | none => rfl
        | some z =>
          rw [← lookup_proper_eq_ok_iff (hcs c List.mem_cons_self), hlookup] at hentry
          cases hentry
      rw [tree_entry, hnone]
      simp

/-- Two walks over proper names that end at the same inode are the same. -/
theorem walkIn_inj {s : Inner} (h : s.Inv) {cs cs' : List Text} (hcs : Proper cs) (hcs' : Proper cs') {x : InodeNum}
    (hx : walkIn s rootInode cs = .ok x) (hx' : walkIn s rootInode cs' = .ok x) : cs = cs' := by
  rw [walkIn_eq_ok_iff hcs] at hx
  rw [walkIn_eq_ok_iff hcs'] at hx'
  exact List.map_injective_iff.mpr (fun _ _ => String.ofList_injective) (h.tree.descend_inj hx hx')

/-- A walk is the same in two tables in which every step of it is. -/
theorem walkIn_congr {s s' : Inner} {x : InodeNum} {cs : List Text}
    (h : ∀ p c q y, cs = p ++ c :: q → walkIn s x p = .ok y → RamFs.lookup s' y (String.ofList c) = RamFs.lookup s y (String.ofList c)) :
    walkIn s' x cs = walkIn s x cs := by
  induction cs generalizing x with
  | nil => rfl
  | cons c cs ih =>
    rw [walkIn, walkIn, h [] c cs x rfl rfl]
    cases hlookup : RamFs.lookup s x (String.ofList c) with
    | error e => rfl
    | ok z =>
      refine ih ?_
      rintro p c' q y rfl hy
      refine h (c :: p) c' q y rfl ?_
      rw [walkIn, hlookup]
      exact hy

/-! ## What a `rename` leaves -/

/-- What a `rename` that moved the inode `i` from the name `name` of `d` to the name `name'` of `d'` did to the table. -/
structure Relocated (s s' : Inner) (d : InodeNum) (name : String) (i d' : InodeNum) (name' : String) : Prop where
  source : s.entryAt d name = some i
  newDir : s.isDir d' = true
  outside : ∃ l, Climb s.parentOf rootInode l d' ∧ i ∉ l
  entry : ∀ e m, s'.entryAt e m = if e = d' ∧ m = name' then some i else if e = d ∧ m = name then none else s.entryAt e m
  kept : ∀ j, s.entryAt d' name' ≠ some j → s'.isDir j = s.isDir j ∧ (s'.parentOf j = none ↔ s.parentOf j = none)
  replaced : ∀ j, s.entryAt d' name' = some j → j ≠ i ∧ s.isDir i = s.isDir j ∧ ∀ m, s.entryAt j m = none

/-- The entry that ends the path to a directory does not name the directory itself. -/
theorem Inner.Inv.entryAt_ne_self {s : Inner} (h : s.Inv) {d j : InodeNum} {name : String} (hj : s.entryAt d name = some j) : d ≠ j := by
  rintro rfl
  have hroot : d ≠ rootInode := fun hr => h.tree.root_unnamed d name (hr ▸ hj)
  have hparent : s.parentOf d = some d := h.tree.entry_parent hj
  obtain ⟨l, hl⟩ := h.tree.climbs hparent
  exact hl.parent_ne_self hroot hparent

/-- On the tree, a rename hangs one subtree to another place. -/
theorem RamFs.Renamed.relocated {s s' : Inner} (h : s.Inv) {d i d' : InodeNum} {name name' : String}
    (hr : RamFs.Renamed s d name d' name' i s') : Relocated s s' d name i d' name' := by
  have hparent : s.parentOf i = some d := h.tree.entry_parent hr.source
  have houtside : ∃ l, Climb s.parentOf rootInode l d' ∧ i ∉ l := by
    obtain ⟨l, hl, hcheck⟩ := RamFs.ancestorCheck_spec h hr.source hr.newDir
    refine ⟨l, hl, fun hil => ?_⟩
    rw [hr.outside, if_pos hil] at hcheck
    cases hcheck
  -- the end of `rename`, on the table without the old target
  have hmove : ∀ s₁ : Inner, s₁.parentOf i = some d → s₁.isDir d' = true → ∀ j,
      (RamFs.moveEntry s₁ d name d' name' i).isDir j = s₁.isDir j ∧
        ((RamFs.moveEntry s₁ d name d' name' i).parentOf j = none ↔ s₁.parentOf j = none) := by
    intro s₁ hi₁ hd₁ j
    refine ⟨RamFs.isDir_moveEntry s₁ d name d' name' i j, ?_⟩
    have hpar : (RamFs.moveEntry s₁ d name d' name' i).parentOf = Function.update s₁.parentOf i (some d') :=
      congrArg NamedTree.parent (RamFs.tree_moveEntry hi₁ hd₁)
    rw [hpar, Function.update_apply]
    split
    · rename_i hji
      simp [hji, hi₁]
    · rfl
  rcases hr.moved with ⟨hfree, rfl⟩ | ⟨eid, s₁, heid, hne, hrep, rfl⟩
  · refine ⟨hr.source, hr.newDir, houtside, ?_, ?_, ?_⟩
    · exact congrFun₂ (congrArg NamedTree.entry (RamFs.tree_moveEntry hparent hr.newDir))
    · intro j _
      exact hmove s hparent hr.newDir j
    · intro j hj
      rw [hfree] at hj
      cases hj
  · obtain ⟨hsame, hleaf, rfl⟩ := RamFs.replaceTarget_ok hrep
    have hpar₁ : ((s.removeNode eid).modifyEntries d' (·.erase name')).parentOf = Function.update s.parentOf eid none :=
      congrArg NamedTree.parent (RamFs.tree_removeNode_eraseName hleaf)
    have hdir₁ : ∀ j, j ≠ eid → ((s.removeNode eid).modifyEntries d' (·.erase name')).isDir j = s.isDir j := by
      intro j hj
      rw [isDir_modifyEntries, isDir_removeNode _ _ _ hj]
    have hi₁ : ((s.removeNode eid).modifyEntries d' (·.erase name')).parentOf i = some d := by
      rw [hpar₁, Function.update_of_ne hne.symm, hparent]
    have hd₁ := (hdir₁ d' (h.entryAt_ne_self heid)).trans hr.newDir
    refine ⟨hr.source, hr.newDir, houtside, ?_, ?_, ?_⟩
    · intro e m
      have htree : (RamFs.moveEntry ((s.removeNode eid).modifyEntries d' (·.erase name')) d name d' name' i).tree =
          (s.tree.prune d' name' eid).move d name i d' name' := by
        rw [RamFs.tree_moveEntry hi₁ hd₁, RamFs.tree_removeNode_eraseName hleaf]
      refine (congrFun₂ (congrArg NamedTree.entry htree) e m).trans ?_
      simp only [NamedTree.move, NamedTree.prune, tree_entry]
      by_cases hem : e = d' ∧ m = name'
      · rw [if_pos hem, if_pos hem]
      · rw [if_neg hem, if_neg hem, if_neg hem]
    · intro j hj
      have hje : j ≠ eid := by
        rintro rfl
        exact hj heid
      obtain ⟨hisDir, hlive⟩ := hmove _ hi₁ hd₁ j
      refine ⟨hisDir.trans (hdir₁ j hje), hlive.trans ?_⟩
      rw [hpar₁, Function.update_of_ne hje]
    · intro j hj
      obtain rfl := Option.some.inj (heid.symm.trans hj)
      exact ⟨hne, hsame, hleaf⟩

namespace Relocated

variable {s s' : Inner} {d i d' : InodeNum} {name name' : String} (R : Relocated s s' d name i d' name')

include R

/-- A name is looked up with the same result unless it is one of the two names, or the directory is the old target. -/
theorem lookup_eq {x : InodeNum} {m : String} (hm : m ≠ "..") (hold : ¬(x = d ∧ m = name)) (hnew : ¬(x = d' ∧ m = name'))
    (htarget : s.entryAt d' name' ≠ some x) : RamFs.lookup s' x m = RamFs.lookup s x m := by
  obtain ⟨hdir, hlive⟩ := R.kept x htarget
  refine RamFs.lookup_congr hm hlive hdir ?_
  rw [R.entry, if_neg hnew, if_neg hold]

end Relocated

/-- The two paths of a `rename`: proper names that lead to the two directories, and two names that are not the same entry. -/
structure Endpoints (s : Inner) (d : InodeNum) (name : Text) (d' : InodeNum) (name' : Text) (p p' : List Text) : Prop where
  proper : Proper (p ++ [name])
  proper' : Proper (p' ++ [name'])
  walk : walkIn s rootInode p = .ok d
  walk' : walkIn s rootInode p' = .ok d'
  ne : p ++ [name] ≠ p' ++ [name']

section Walks

variable {s s' : Inner} {d i d' : InodeNum} {name name' : Text} {p p' : List Text} (h : s.Inv)
  (R : Relocated s s' d (String.ofList name) i d' (String.ofList name')) (E : Endpoints s d name d' name' p p')

theorem Proper.left {cs cs' : List Text} (h : Proper (cs ++ cs')) : Proper cs := fun c hc => h c (List.mem_append_left _ hc)

include E in
/-- What the new path led to. -/
theorem walkIn_target {j : InodeNum} (htarget : s.entryAt d' (String.ofList name') = some j) :
    walkIn s rootInode (p' ++ [name']) = .ok j := by
  rw [walkIn_append, E.walk']
  exact (walkIn_singleton s d' name').trans ((lookup_proper_eq_ok_iff (E.proper' name' (by simp))).mpr htarget)

include h E in
/-- A `rename` between two paths that are not the same, if it succeeds, has moved an inode. -/
theorem Endpoints.relocated (hrename : RamFs.rename s d (String.ofList name) d' (String.ofList name') = some (.ok (), s')) :
    ∃ i, Relocated s s' d (String.ofList name) i d' (String.ofList name') := by
  rcases RamFs.rename_cases s d (String.ofList name) d' (String.ofList name') with
    ⟨hnone, -⟩ | ⟨e, he⟩ | ⟨-, i, hi, hi'⟩ | ⟨i, s₁, hmoved, hr⟩
  · rw [hnone] at hrename
    cases hrename
  · rw [he] at hrename
    cases hrename
  · -- one inode under both names: the two paths would be the same
    obtain ⟨rfl, hname⟩ := h.tree.entry_unique hi hi'
    refine absurd ?_ E.ne
    rw [walkIn_inj h E.proper.left E.proper'.left E.walk E.walk', String.ofList_injective hname]
  · rw [hmoved] at hrename
    cases hrename
    exact ⟨i, hr.relocated h⟩

include R

section

include h

/-- Below the moved inode everything is as it was. -/
theorem walkIn_below {cs : List Text} (hcs : Proper cs) : walkIn s' i cs = walkIn s i cs := by
  have hparent : s.parentOf i = some d := h.tree.entry_parent R.source
  obtain ⟨l, hl⟩ := h.tree.climbs hparent
  obtain ⟨l', hl', hnot⟩ := R.outside
  refine walkIn_congr ?_
  rintro q c rest y rfl hy
  -- the moved inode is on the climb of every inode below it
  obtain ⟨ly, hly, hmem⟩ := h.tree.climb_descend hl ((walkIn_eq_ok_iff hcs.left).mp hy)
  refine R.lookup_eq (ofList_ne (hcs c (by simp)).2) ?_ ?_ ?_
  · rintro ⟨rfl, -⟩
    have hroot : i ≠ rootInode := fun hr => h.tree.root_unnamed _ _ (hr ▸ R.source)
    exact (List.nodup_cons.mp (Climb.step hroot hparent hly).nodup).1 hmem
  · rintro ⟨rfl, -⟩
    exact hnot (hl'.unique hly ▸ hmem)
  · intro htarget
    have hroot : y ≠ rootInode := fun hr => h.tree.root_unnamed _ _ (hr ▸ htarget)
    have hstep := Climb.step hroot (h.tree.entry_parent htarget) hl'
    rw [hly.unique hstep] at hmem
    rcases List.mem_cons.mp hmem with hiy | hmem
    · exact (R.replaced y htarget).1 hiy.symm
    · exact hnot hmem

end

include E

/-- What the old path led to. -/
theorem walkIn_source : walkIn s rootInode (p ++ [name]) = .ok i := by
  rw [walkIn_append, E.walk]
  exact (walkIn_singleton s d name).trans ((lookup_proper_eq_ok_iff (E.proper name (by simp))).mpr R.source)

/-- The old path did not lead through the old target. -/
theorem not_prefix_old : ¬p' ++ [name'] <+: p := by
  rintro ⟨rest, rfl⟩
  have hwalk := (walkIn_eq_ok_iff E.proper.left).mp E.walk
  rw [List.append_assoc, List.map_append, List.map_append, List.map_singleton, NamedTree.descend_append,
    (walkIn_eq_ok_iff E.proper'.left).mp E.walk', Option.bind_some, List.singleton_append, NamedTree.descend] at hwalk
  obtain ⟨j, hj, hdown⟩ := Option.bind_eq_some_iff.mp hwalk
  obtain ⟨-, -, hleaf⟩ := R.replaced j hj
  cases rest with
  | nil =>
    obtain rfl := Option.some.inj hdown
    have hsource := R.source
    rw [hleaf] at hsource
    cases hsource
  | cons c rest =>
    rw [List.map_cons, NamedTree.descend, tree_entry, hleaf] at hdown
    cases hdown

include h

/-- The new path does not lead through the moved inode. -/
theorem not_prefix_new : ¬p ++ [name] <+: p' := by
  rintro ⟨rest, rfl⟩
  have hwalk := E.walk'
  rw [walkIn_append, walkIn_source R E] at hwalk
  have hrest : Proper rest := fun c hc => E.proper' c (by simp [hc])
  obtain ⟨l, hl⟩ := h.tree.climbs (h.tree.entry_parent R.source)
  obtain ⟨l', hl', hmem⟩ := h.tree.climb_descend hl ((walkIn_eq_ok_iff hrest).mp hwalk)
  obtain ⟨l'', hl'', hnot⟩ := R.outside
  rw [hl'.unique hl''] at hmem
  exact hnot hmem

/-- A walk that passes neither of the two names does not see the `rename`. -/
theorem walkIn_elsewhere {cs : List Text} (hcs : Proper cs) (ha : ¬p ++ [name] <+: cs) (hb : ¬p' ++ [name'] <+: cs) :
    walkIn s' rootInode cs = walkIn s rootInode cs := by
  refine walkIn_congr ?_
  rintro q c rest y rfl hy
  have hq : Proper q := hcs.left
  have hc : c ≠ "." ∧ c ≠ ".." := hcs c (by simp)
  have hfull : ∀ {r : List Text} {m : Text}, r = q → m = c → r ++ [m] <+: q ++ c :: rest := by
    rintro r m rfl rfl
    exact ⟨rest, by simp⟩
  refine R.lookup_eq (ofList_ne hc.2) ?_ ?_ ?_
  · rintro ⟨rfl, hname⟩
    exact ha (hfull (walkIn_inj h E.proper.left hq E.walk hy) (String.ofList_injective hname).symm)
  · rintro ⟨rfl, hname⟩
    exact hb (hfull (walkIn_inj h E.proper'.left hq E.walk' hy) (String.ofList_injective hname).symm)
  · -- the old target is reached by the new path alone
    intro htarget
    rw [walkIn_inj h E.proper' hq (walkIn_target E htarget) hy] at hb
    exact hb (List.prefix_append _ _)

/-- The old path leads nowhere. -/
theorem walkIn_old : walkIn s' rootInode (p ++ [name]) = .error .notFound := by
  have hlong : ¬p ++ [name] <+: p := fun hpre => by simpa using hpre.length_le
  have hne : ¬(d = d' ∧ String.ofList name = String.ofList name') := by
    rintro ⟨rfl, hname⟩
    refine E.ne ?_
    rw [walkIn_inj h E.proper.left E.proper'.left E.walk E.walk', String.ofList_injective hname]
  have htarget : s.entryAt d' (String.ofList name') ≠ some d := by
    intro htarget
    have hsource := R.source
    rw [(R.replaced d htarget).2.2] at hsource
    cases hsource
  have hnone : s'.entryAt d (String.ofList name) = none := by
    rw [R.entry, if_neg hne, if_pos ⟨rfl, rfl⟩]
  have hdir : s'.isDir d = true := (R.kept d htarget).1.trans (h.isDir_of_entryAt R.source)
  have hproper := E.proper name (by simp)
  rw [walkIn_append, walkIn_elsewhere h R E E.proper.left hlong (not_prefix_old R E), E.walk]
  refine (walkIn_singleton s' d name).trans ?_
  rw [RamFs.lookup_directory hdir, if_neg (ofList_ne hproper.1), if_neg (ofList_ne hproper.2), hnone]

/-- The new path leads to the moved inode. -/
theorem walkIn_new : walkIn s' rootInode (p' ++ [name']) = .ok i := by
  have hlong : ¬p' ++ [name'] <+: p' := fun hpre => by simpa using hpre.length_le
  rw [walkIn_append, walkIn_elsewhere h R E E.proper'.left (not_prefix_new h R E) hlong, E.walk']
  refine (walkIn_singleton s' d' name').trans ((lookup_proper_eq_ok_iff (E.proper' name' (by simp))).mpr ?_)
  rw [R.entry, if_pos ⟨rfl, rfl⟩]

/-- So a path below the old one, taken below the new one, leads where it led. -/
theorem walkIn_moved {cs : List Text} (hcs : Proper cs) :
    walkIn s' rootInode (p' ++ [name'] ++ cs) = walkIn s rootInode (p ++ [name] ++ cs) := by
  rw [walkIn_append s' rootInode (p' ++ [name']) cs, walkIn_append s rootInode (p ++ [name]) cs, walkIn_new h R E, walkIn_source R E]
  exact walkIn_below h R hcs

end Walks

/-! ## Paths -/

/-- Without dots the components are the pieces between slashes that are not empty. -/
theorem components_of_proper {path : Text} (h : Proper (nonEmptyComponents path)) : components path = nonEmptyComponents path := by
  rw [components, List.filter_eq_self]
  intro c hc
  simpa using (h c hc).1

/-- A path of proper names is that of its parent, and the last name. -/
theorem components_of_proper_splitParent {path q n : Text} (hproper : Proper (nonEmptyComponents path))
    (hsplit : splitParent path = .ok (q, n)) :
    nonEmptyComponents path = components q ++ [n] ∧ components path = components q ++ [n] := by
  have hlist : nonEmptyComponents path = components q ++ [n] := by
    rw [nonEmptyComponents_of_splitParent hsplit] at hproper ⊢
    rw [components_of_proper hproper.left]
  exact ⟨hlist, (components_of_proper hproper).trans hlist⟩

/-- A path that goes on below an absolute one is absolute. -/
theorem startsWith_append {path : Text} (h : path.startsWith '/' = true) (rest : Text) :
    Text.startsWith (path ++ '/' :: rest) '/' = true := by
  obtain ⟨t, rfl⟩ := startsWith_iff.mp h
  rfl

/-- Without `..` the components are proper. -/
theorem proper_components {path : Text} (h : ∀ c ∈ nonEmptyComponents path, c ≠ "..") : Proper (components path) := by
  intro c hc
  obtain ⟨hmem, hdot⟩ := List.mem_filter.mp hc
  exact ⟨of_decide_eq_true hdot, h c hmem⟩

/-- What a `rename` that succeeds has found. -/
theorem run_rename_ok {w w' : World} {fs : FsId} (hmounted : w.vfs = ⟨[⟨"/", fs⟩]⟩) {a b : Text}
    (h : w.run (Vfs.rename a b) = some (.ok (), w')) :
    ∃ pa na pb nb d d' s', splitParent a = .ok (pa, na) ∧ splitParent b = .ok (pb, nb) ∧
      walkIn (w.disk fs) rootInode (components pa) = .ok d ∧ walkIn (w.disk fs) rootInode (components pb) = .ok d' ∧
        RamFs.rename (w.disk fs) d (String.ofList na) d' (String.ofList nb) = some (.ok (), s') ∧ w' = w.setDisk fs s' := by
  have hresolve : ∀ {q n path found w₁}, splitParent path = .ok (q, n) → w.run (Vfs.resolve q) = some (.ok found, w₁) →
      w₁ = w ∧ found.1 = fs ∧ walkIn (w.disk fs) rootInode (components q) = .ok found.2 := by
    intro q n path found w₁ hsplit hrun
    rw [World.run_resolve_root hmounted (startsWith_of_splitParent hsplit)] at hrun
    obtain ⟨hfound, rfl⟩ := Prod.mk.inj (Option.some.inj hrun)
    cases hwalk : walkIn (w.disk fs) rootInode (components q) with
    | ok x =>
      rw [hwalk] at hfound
      obtain rfl := Except.ok.inj hfound
      exact ⟨rfl, rfl, rfl⟩
    | error e =>
      rw [hwalk] at hfound
      cases hfound
  obtain ⟨⟨pa, na⟩, w₁, hrun₁, h₁⟩ := (World.run_bind_eq_ok w).mp h
  obtain ⟨ha, rfl⟩ := Prod.mk.inj (Option.some.inj hrun₁)
  obtain ⟨⟨pb, nb⟩, w₂, hrun₂, h₂⟩ := (World.run_bind_eq_ok w).mp h₁
  obtain ⟨hb, rfl⟩ := Prod.mk.inj (Option.some.inj hrun₂)
  obtain ⟨⟨fs₁, d⟩, w₃, hrun₃, h₃⟩ := (World.run_bind_eq_ok w).mp h₂
  obtain ⟨rfl, hfs₁, hd⟩ := hresolve ha hrun₃
  obtain ⟨⟨fs₂, d'⟩, w₄, hrun₄, h₄⟩ := (World.run_bind_eq_ok w₃).mp h₃
  obtain ⟨rfl, hfs₂, hd'⟩ := hresolve hb hrun₄
  dsimp only at hfs₁ hfs₂ h₄ hd hd'
  rw [hfs₁, hfs₂, if_neg (by simp)] at h₄
  have hexec := (World.run_make w₄ (.rename fs d (String.ofList na) d' (String.ofList nb))).symm.trans h₄
  obtain ⟨⟨r, s'⟩, hrename, hresult⟩ := Option.map_eq_some_iff.mp hexec
  obtain ⟨hr, hw'⟩ := Prod.mk.inj hresult
  refine ⟨pa, na, pb, nb, d, d', s', ha, hb, hd, hd', ?_, hw'.symm⟩
  rw [hrename, ← hr]

/-- What it means that a `rename` moves one subtree of the filesystem `fs`, mounted at the root. -/
structure MovesSubtree (w w' : World) (fs : FsId) (a b : Text) : Prop where
  below : ∀ s, (∀ c ∈ nonEmptyComponents s, c ≠ "..") → w'.resolve (b ++ '/' :: s) = w.resolve (a ++ '/' :: s)
  old : w'.resolve a = some (.error .notFound)
  elsewhere : ∀ c, Proper (nonEmptyComponents c) → ¬nonEmptyComponents a <+: nonEmptyComponents c →
    ¬nonEmptyComponents b <+: nonEmptyComponents c → w'.resolve c = w.resolve c
  contents : ∀ j ∈ (w'.disk fs).nodes, (w'.disk fs).content j = (w.disk fs).content j ∧
    RamFs.readlink (w'.disk fs) j = RamFs.readlink (w.disk fs) j
  vanished : ∀ j ∈ (w.disk fs).nodes, j ∉ (w'.disk fs).nodes → w.resolve b = some (.ok (fs, j)) ∧
    ∃ i, w.resolve a = some (.ok (fs, i)) ∧ ((w.disk fs).isDir j = false ∧ (w.disk fs).isDir i = false ∨
      (w.disk fs).isDir j = true ∧ (w.disk fs).isDir i = true ∧ ∀ name, (w.disk fs).entryAt j name = none)

/-- What survives is stored as it was. -/
theorem Relocated.payloadOf_eq {s s' : Inner} (h : s.Inv) {d i d' : InodeNum} {name name' : String}
    (R : Relocated s s' d name i d' name') (hrename : RamFs.rename s d name d' name' = some (.ok (), s')) {j : InodeNum}
    (hj : s'.parentOf j ≠ none) : s'.payloadOf j = s.payloadOf j := by
  have hrun : (Op.rename d name d' name').run s = some (.ok (), s') := hrename
  have hnew : j ≠ s.nextInode := by
    rintro rfl
    have htarget : s.entryAt d' name' ≠ some s.nextInode := by
      intro htarget
      have hlive : s.parentOf s.nextInode = some d' := h.tree.entry_parent htarget
      rw [h.parentOf_nextInode] at hlive
      cases hlive
    exact hj ((R.kept _ htarget).2.mpr h.parentOf_nextInode)
  rcases (Op.run_effect hrun).payloadOf hnew (by simp [Op.edits]) with hnone | hsame
  · rw [payloadOf_eq_none_iff, ← parentOf_eq_none_iff] at hnone
    exact absurd hnone hj
  · exact hsame

/-- The inodes in the table are those that have a parent. -/
theorem Inner.mem_nodes_iff (s : Inner) (j : InodeNum) : j ∈ s.nodes ↔ s.parentOf j ≠ none := by
  rw [Ne, parentOf_eq_none_iff, Std.ExtTreeMap.mem_iff_isSome_getElem?, ← Ne, Option.isSome_iff_ne_none]

/-- With one RamFs at the root, in any state it can reach: a `rename` that succeeds between two paths of proper names that are not the same
moves the subtree at the first path to the second, and changes nothing else. -/
theorem rename_moves_subtree {w w' : World} {fs : FsId} (hmounted : w.vfs = ⟨[⟨"/", fs⟩]⟩)
    (hreach : ∃ ops, runOps RamFs.new ops = some (w.disk fs)) {a b : Text} (ha : Proper (nonEmptyComponents a))
    (hb : Proper (nonEmptyComponents b)) (hne : nonEmptyComponents a ≠ nonEmptyComponents b)
    (hok : w.run (Vfs.rename a b) = some (.ok (), w')) : MovesSubtree w w' fs a b := by
  obtain ⟨ops, hops⟩ := hreach
  obtain ⟨s, hs, h⟩ := runOps_inv RamFs.new_inv ops
  have hsame : s = w.disk fs := Option.some.inj (hs.symm.trans hops)
  obtain ⟨pa, na, pb, nb, d, d', s', hsplita, hsplitb, hd, hd', hrename, rfl⟩ := run_rename_ok hmounted hok
  rw [← hsame] at hd hd' hrename
  obtain ⟨hlista, hca⟩ := components_of_proper_splitParent ha hsplita
  obtain ⟨hlistb, hcb⟩ := components_of_proper_splitParent hb hsplitb
  have habsa : a.startsWith '/' = true := (splitParent_eq_ok hsplita).1
  have habsb : b.startsWith '/' = true := (splitParent_eq_ok hsplitb).1
  rw [hlista] at ha hne
  rw [hlistb] at hb hne
  have E : Endpoints s d na d' nb (components pa) (components pb) := ⟨ha, hb, hd, hd', hne⟩
  obtain ⟨i, R⟩ := E.relocated h hrename
  have hmounted' : (w.setDisk fs s').vfs = ⟨[⟨"/", fs⟩]⟩ := hmounted
  have hbefore : ∀ {path}, path.startsWith '/' = true →
      w.resolve path = some ((walkIn s rootInode (components path)).map (fs, ·)) := by
    intro path hpath
    rw [World.resolve_root_mount hmounted hpath, hsame]
  have hafter : ∀ {path}, path.startsWith '/' = true →
      (w.setDisk fs s').resolve path = some ((walkIn s' rootInode (components path)).map (fs, ·)) := by
    intro path hpath
    rw [World.resolve_root_mount hmounted' hpath, World.disk_setDisk]
  refine ⟨?_, ?_, ?_, ?_, ?_⟩
  · intro rest hrest
    rw [hafter (startsWith_append habsb rest), hbefore (startsWith_append habsa rest), components_append_slash,
      components_append_slash, hca, hcb, walkIn_moved h R E (proper_components hrest)]
  · rw [hafter habsa, hca, walkIn_old h R E]
    rfl
  · intro c hproper hnota hnotb
    cases hc : c.startsWith '/' with
    | false => rw [World.resolve, World.resolve, World.run_resolve_relative _ hc, World.run_resolve_relative _ hc]; rfl
    | true =>
      rw [hlista, ← components_of_proper hproper] at hnota
      rw [hlistb, ← components_of_proper hproper] at hnotb
      rw [hafter hc, hbefore hc, walkIn_elsewhere h R E (components_of_proper hproper ▸ hproper) hnota hnotb]
  · intro j hj
    rw [World.disk_setDisk] at hj ⊢
    rw [← hsame]
    have hpayload : s'.payloadOf j = s.payloadOf j := R.payloadOf_eq h hrename ((Inner.mem_nodes_iff s' j).mp hj)
    exact ⟨content_of_payloadOf hpayload, readlink_of_payloadOf hpayload⟩
  · intro j hj hgone
    rw [World.disk_setDisk, Inner.mem_nodes_iff, not_not] at hgone
    rw [← hsame, Inner.mem_nodes_iff] at hj
    have htarget : s.entryAt d' (String.ofList nb) = some j := by
      by_contra hkept
      exact hj ((R.kept j hkept).2.mp hgone)
    obtain ⟨-, hdirs, hleaf⟩ := R.replaced j htarget
    rw [← hsame]
    refine ⟨?_, i, ?_, ?_⟩
    · rw [hbefore habsb, hcb, walkIn_target E htarget]
      rfl
    · rw [hbefore habsa, hca, walkIn_source R E]
      rfl
    · cases hdir : s.isDir j with
      | false => exact .inl ⟨rfl, hdirs.trans hdir⟩
      | true => exact .inr ⟨rfl, hdirs.trans hdir, hleaf⟩

/-- A directory with a file in it. -/
def World.withTree : World :=
  ⟨⟨[⟨"/", 0⟩]⟩, fun _ => (RamFs.create (RamFs.create RamFs.new rootInode "d" .directory 0o755).2 2 "f" .regular 0o644).2⟩

theorem rename_moves_subtree_dir : ∃ w', World.withTree.run (Vfs.rename "/d" "/e") = some (.ok (), w') ∧
    w'.resolve "/e/f" = some (.ok (0, 3)) ∧ MovesSubtree World.withTree w' 0 "/d" "/e" := by
  have hsome : (World.withTree.run (Vfs.rename "/d" "/e")).isSome = true := rfl
  have hok : World.withTree.run (Vfs.rename "/d" "/e") = some (.ok (), ((World.withTree.run (Vfs.rename "/d" "/e")).get hsome).2) := rfl
  refine ⟨_, hok, rfl, rename_moves_subtree rfl ⟨[.create rootInode "d" .directory 0o755, .create 2 "f" .regular 0o644], rfl⟩ ?_ ?_ ?_ hok⟩
  · unfold Proper
    decide
  · unfold Proper
    decide
  · decide

end Fs

end GolemKernel
