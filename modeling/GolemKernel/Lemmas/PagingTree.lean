import GolemKernel.Lemmas.Paging

/-!
# The page tables as a tree

The tables and the entries that lead from one to the next are a tree of tables of depth three (`TableTree`), with the entries
that map memory at its leaves and, for the large pages, at depths one and two. `translate` is what a path of four indices ends at.
A frame source is an allocator that hands out frames of a set it keeps; the tree stays a tree because none of them is in it.
-/

namespace GolemKernel

namespace Memory

variable {σ : Type}

/-- Whether an entry maps a large page, at a level that has them. -/
def PageTableEntry.isHuge (e : PageTableEntry) : Bool := e.flags.contains .hugePage

/-- The table an entry at a depth leads to. The top level has no large pages, and the walker does not look for them there. -/
def childTable (d : Nat) (e : PageTableEntry) : Option Nat :=
  if d < 3 ∧ e.isPresent = true ∧ (d = 0 ∨ e.isHuge = false) then some e.frameAddr else none

/-- The indices of an address, from the top level down. -/
def pathOf (virt : Nat) : List (Fin 512) := [indexAt virt 39, indexAt virt 30, indexAt virt 21, indexAt virt 12]

/-- The address that an entry at the end of a path gives to `virt`. -/
def leafValue (virt : Nat) : Nat × PageTableEntry → Option Nat
  | (d, e) =>
    if e.isPresent = true then
      match d with
      | 1 => some (e.frameAddr ||| (virt &&& ((1 <<< 30) - 1)))
      | 2 => some (e.frameAddr ||| (virt &&& ((1 <<< 21) - 1)))
      | _ => some (e.frameAddr ||| (virt &&& 0xFFF))
    else none

namespace PagingState

/-- The top table. -/
def root (s : PagingState σ) : Nat := (s.cr3 &&& physAddrMask).toNat

/-- The table at the end of a path. -/
def walk (s : PagingState σ) (p : List (Fin 512)) : Option Nat := TableTree.walk childTable s.tables 0 s.root p

/-- The entries on a path. -/
def visited (s : PagingState σ) (p : List (Fin 512)) : List PageTableEntry := TableTree.visited childTable s.tables 0 s.root p

/-- The tables form a tree: each is referenced once. -/
def IsTree (s : PagingState σ) : Prop := TableTree.IsTree childTable s.tables s.root 3

/-- A frame is used as a table. -/
def UsesTable (s : PagingState σ) (t : Nat) : Prop := TableTree.Holds childTable s.tables s.root 3 t

end PagingState

/-- An entry that is not present names no table. -/
theorem childTable_of_not_present {d : Nat} {e : PageTableEntry} (h : e.isPresent = false) : childTable d e = none := by
  simp [childTable, h]

/-- An entry that names a table is present. -/
theorem isPresent_of_childTable {d t : Nat} {e : PageTableEntry} (h : childTable d e = some t) : e.isPresent = true := by
  unfold childTable at h
  split at h
  · rename_i hc
    exact hc.2.1
  · exact nomatch h

/-- An entry that is not present maps nothing. -/
theorem leafValue_of_not_present {virt d : Nat} {e : PageTableEntry} (h : e.isPresent = false) : leafValue virt (d, e) = none := by
  simp [leafValue, h]

/-- `translate` reads off the entry its path ends at. -/
theorem translate_eq {s : PagingState σ} (hoff : s.offset ≠ 2 ^ 64 - 1) (virt : Nat) :
    translate s virt = (TableTree.probe childTable s.tables 0 s.root (pathOf virt)).bind (leafValue virt) := by
  simp only [translate, splitIndices, if_neg hoff, pathOf, TableTree.probe, PagingState.root]
  obtain ⟨e4, he4⟩ : ∃ e, s.tables (s.cr3 &&& physAddrMask).toNat (indexAt virt 39) = e := ⟨_, rfl⟩
  simp only [he4]
  cases h4 : e4.isPresent with
  | false => simp [childTable, leafValue, h4]
  | true =>
    have hc4 : childTable 0 e4 = some e4.frameAddr := by simp [childTable, h4]
    simp only [hc4, Bool.not_true, Bool.false_eq_true, if_false]
    obtain ⟨e3, he3⟩ : ∃ e, s.tables e4.frameAddr (indexAt virt 30) = e := ⟨_, rfl⟩
    simp only [he3]
    cases h3 : e3.isPresent with
    | false => simp [childTable, leafValue, h3]
    | true =>
      cases hh3 : e3.flags.contains .hugePage with
      | true => simp [childTable, PageTableEntry.isHuge, leafValue, h3, hh3]
      | false =>
        have hc3 : childTable 1 e3 = some e3.frameAddr := by simp [childTable, PageTableEntry.isHuge, h3, hh3]
        simp only [hc3, Bool.not_true, Bool.false_eq_true, if_false]
        obtain ⟨e2, he2⟩ : ∃ e, s.tables e3.frameAddr (indexAt virt 21) = e := ⟨_, rfl⟩
        simp only [he2]
        cases h2 : e2.isPresent with
        | false => simp [childTable, leafValue, h2]
        | true =>
          cases hh2 : e2.flags.contains .hugePage with
          | true => simp [childTable, PageTableEntry.isHuge, leafValue, h2, hh2]
          | false =>
            have hc2 : childTable 2 e2 = some e2.frameAddr := by simp [childTable, PageTableEntry.isHuge, h2, hh2]
            simp only [hc2, Bool.not_true, Bool.false_eq_true, if_false]
            cases h1 : (s.tables e2.frameAddr (indexAt virt 12)).isPresent <;> simp [childTable, leafValue, h1]

/-- Without a direct map nothing is translated. -/
theorem translate_of_not_init {s : PagingState σ} (hoff : s.offset = 2 ^ 64 - 1) (virt : Nat) : translate s virt = none := by
  simp [translate, hoff]

/-! ## New intermediate entries -/

theorem isPresent_empty : PageTableEntry.empty.isPresent = false := by decide

/-- An entry is present if the flags it is set with say so. -/
theorem isPresent_set {a : Nat} {fl : PageFlags} (h : fl.bits.getLsbD 0 = true) : (PageTableEntry.set a fl).isPresent = true := by
  rw [PageTableEntry.isPresent_eq, PageTableEntry.getLsbD_set (by decide), h]

/-- The bits of the flags of a new intermediate entry. -/
theorem intermediate_bits (fl : PageFlags) :
    (intermediateFlags fl).bits.getLsbD 0 = true ∧ (intermediateFlags fl).bits.getLsbD 1 = true ∧
      (intermediateFlags fl).bits.getLsbD 2 = fl.bits.getLsbD 2 ∧ (intermediateFlags fl).bits.getLsbD 7 = false := by
  simp [intermediateFlags, PageFlags.bitor, PageFlags.bitand, PageFlags.present, PageFlags.writable, PageFlags.user]

/-- A huge page is marked by bit 7. -/
theorem isHuge_eq (e : PageTableEntry) : e.isHuge = e.bits.getLsbD 7 :=
  PageTableEntry.flags_contains (by decide) rfl (by decide)

/-- A new intermediate entry leads to the frame it was set to. -/
theorem childTable_intermediate {a d : Nat} (ha : a % 4096 = 0) (ha' : a < 2 ^ 52) (hd : d < 3) (fl : PageFlags) :
    childTable d (.set a (intermediateFlags fl)) = some a := by
  obtain ⟨h0, -, -, h7⟩ := intermediate_bits fl
  have hhuge : (PageTableEntry.set a (intermediateFlags fl)).isHuge = false := by
    rw [isHuge_eq, PageTableEntry.getLsbD_set (by decide), h7]
  rw [childTable, if_pos ⟨hd, isPresent_set h0, .inr hhuge⟩, PageTableEntry.frameAddr_set ha ha']

/-! ## Frame sources -/

theorem Frame.ext_addr {f f' : Frame} (h : f.startAddress = f'.startAddress) : f = f' := by
  cases f
  cases f'
  exact congrArg Frame.mk h

/-- An allocator that hands out frames of a set, each of them once. -/
structure FrameSource (σ : Type) where
  alloc : σ → Option Frame × σ
  avail : σ → Set Frame
  yields : ∀ {fs fs' : σ} {f : Frame}, alloc fs = (some f, fs') → f ∈ avail fs ∧ f ∉ avail fs'
  shrinks : ∀ {fs fs' : σ} {r : Option Frame}, alloc fs = (r, fs') → avail fs' ⊆ avail fs
  frame : ∀ {fs : σ} {f : Frame}, f ∈ avail fs → f.startAddress % 4096 = 0 ∧ f.startAddress < 2 ^ 52

/-- The tables are a tree, and the frames that may still be handed out are not in it. -/
structure Sound (src : FrameSource σ) (s : PagingState σ) : Prop where
  tree : s.IsTree
  fresh : ∀ f ∈ src.avail s.frames, ¬s.UsesTable f.startAddress

/-- What the creation of intermediate tables does: tables are added, with frames of the source that it will not hand out again;
what was present stays, what is new and present is an intermediate entry, and nothing is mapped or unmapped. -/
structure Grown (src : FrameSource σ) (s s' : PagingState σ) : Prop where
  offset : s'.offset = s.offset
  cr3 : s'.cr3 = s.cr3
  sound : Sound src s'
  avail : src.avail s'.frames ⊆ src.avail s.frames
  uses : ∀ t, s'.UsesTable t → s.UsesTable t ∨ ∃ f ∈ src.avail s.frames, f ∉ src.avail s'.frames ∧ f.startAddress = t
  translate : ∀ v, translate s' v = translate s v
  walk : ∀ p t, p.length ≤ 3 → s.walk p = some t → s'.walk p = some t
  keeps : ∀ p t i, p.length ≤ 3 → s.walk p = some t → (s.tables t i).isPresent = true → s'.tables t i = s.tables t i
  created : ∀ p t i, p.length ≤ 3 → s'.walk p = some t → (s'.tables t i).isPresent = true →
    (s.walk p = some t ∧ s'.tables t i = s.tables t i) ∨ ∃ a fl, s'.tables t i = .set a (intermediateFlags fl)

namespace Grown

variable {src : FrameSource σ} {s s' s'' : PagingState σ}

/-- Sound tables to which nothing has been added. -/
theorem refl (h : Sound src s) : Grown src s s :=
  ⟨rfl, rfl, h, fun _ => id, fun _ => .inl, fun _ => rfl, fun _ _ _ => id, fun _ _ _ _ _ _ => rfl,
    fun _ _ _ _ hw _ => .inl ⟨hw, rfl⟩⟩

/-- What is added is added to what was added before. -/
theorem trans (h : Grown src s s') (h' : Grown src s' s'') : Grown src s s'' where
  offset := h'.offset.trans h.offset
  cr3 := h'.cr3.trans h.cr3
  sound := h'.sound
  avail := fun _ hf => h.avail (h'.avail hf)
  uses := by
    intro t ht
    rcases h'.uses t ht with ht | ⟨f, hf, hf', rfl⟩
    · rcases h.uses t ht with ht | ⟨f, hf, hf', rfl⟩
      · exact .inl ht
      · exact .inr ⟨f, hf, fun hbad => hf' (h'.avail hbad), rfl⟩
    · exact .inr ⟨f, h.avail hf, hf', rfl⟩
  translate := fun v => (h'.translate v).trans (h.translate v)
  walk := fun p t hp hw => h'.walk p t hp (h.walk p t hp hw)
  keeps := by
    intro p t i hp hw hpres
    have hkeep := h.keeps p t i hp hw hpres
    rw [← hkeep] at hpres ⊢
    exact h'.keeps p t i hp (h.walk p t hp hw) hpres
  created := by
    intro p t i hp hw hpres
    rcases h'.created p t i hp hw hpres with ⟨hw', heq⟩ | hnew
    · rw [heq] at hpres ⊢
      exact h.created p t i hp hw' hpres
    · exact .inr hnew

/-- The root stays. -/
theorem root (h : Grown src s s') : s'.root = s.root := by rw [PagingState.root, h.cr3, PagingState.root]

/-- An allocation that no table is made of. -/
theorem of_alloc (h : Sound src s) {r : Option Frame} {fs : σ} (halloc : src.alloc s.frames = (r, fs)) :
    Grown src s { s with frames := fs } where
  offset := rfl
  cr3 := rfl
  sound := ⟨h.tree, fun f hf => h.fresh f (src.shrinks halloc hf)⟩
  avail := src.shrinks halloc
  uses := fun _ => .inl
  translate := fun _ => rfl
  walk := fun _ _ _ => id
  keeps := fun _ _ _ _ _ _ => rfl
  created := fun _ _ _ _ hw _ => .inl ⟨hw, rfl⟩

end Grown

/-! ## `next_table_or_create` -/

section NextTable

variable {src : FrameSource σ} {s : PagingState σ} {p : List (Fin 512)} {t : Nat} {i : Fin 512} {fl : PageFlags}

/-- With a direct map every physical address can be reached. -/
theorem exec_physToVirt (hoff : s.offset ≠ 2 ^ 64 - 1) (phys : Nat) : (physToVirt phys : PagingM σ Nat).exec s = (.ok phys, s) := by
  rw [physToVirt, PagingM.exec_bind_ok PagingM.exec_get, if_neg hoff]
  rfl

/-- The state with a new table hung into an entry. -/
def withTable (s : PagingState σ) (t : Nat) (i : Fin 512) (f : Frame) (fl : PageFlags) (fs : σ) : PagingState σ :=
  { s with
    tables := TableTree.graft s.tables .empty t i f.startAddress (.set f.startAddress (intermediateFlags fl))
    frames := fs }

/-- At an entry that is present no table is made. -/
theorem nextTableOrCreate_present (hoff : s.offset ≠ 2 ^ 64 - 1) (hpres : (s.tables t i).isPresent = true) :
    (nextTableOrCreate src.alloc t i fl).exec s =
      (if (s.tables t i).isHuge = true then .error .hugePageConflict else .ok (s.tables t i).frameAddr, s) := by
  rw [nextTableOrCreate, PagingM.exec_bind_ok PagingM.exec_get, if_pos hpres]
  cases hh : (s.tables t i).isHuge with
  | true =>
    have hc : (s.tables t i).flags.contains .hugePage = true := hh
    rw [if_pos hc]
    rfl
  | false =>
    have hc : (s.tables t i).flags.contains .hugePage = false := hh
    rw [hc]
    exact exec_physToVirt hoff _

/-- A frame is asked of the source, which goes on to its next state. -/
theorem exec_allocFrame {alloc : σ → Option Frame × σ} {r : Option Frame} {fs : σ} (h : alloc s.frames = (r, fs)) :
    (allocFrame alloc).exec s = (.ok r, { s with frames := fs }) := by
  rw [allocFrame, PagingM.exec_bind_ok PagingM.exec_get, h]
  rfl

/-- Without a frame no table is made. -/
theorem nextTableOrCreate_none (hpres : (s.tables t i).isPresent = false) {fs : σ} (halloc : src.alloc s.frames = (none, fs)) :
    (nextTableOrCreate src.alloc t i fl).exec s = (.error .outOfFrames, { s with frames := fs }) := by
  rw [nextTableOrCreate, PagingM.exec_bind_ok PagingM.exec_get, if_neg (Bool.eq_false_iff.mp hpres),
    PagingM.exec_bind_ok (exec_allocFrame halloc)]
  rfl

/-- At an entry that is not present, an empty table is hung in. -/
theorem nextTableOrCreate_some (hoff : s.offset ≠ 2 ^ 64 - 1) (hpres : (s.tables t i).isPresent = false) {f : Frame} {fs : σ}
    (halloc : src.alloc s.frames = (some f, fs)) :
    (nextTableOrCreate src.alloc t i fl).exec s = (.ok f.startAddress, withTable s t i f fl fs) := by
  obtain ⟨h4096, h52⟩ := src.frame (src.yields halloc).1
  rw [nextTableOrCreate, PagingM.exec_bind_ok PagingM.exec_get, if_neg (Bool.eq_false_iff.mp hpres),
    PagingM.exec_bind_ok (exec_allocFrame halloc)]
  simp only
  rw [PagingM.exec_bind_ok (exec_physToVirt (s := { s with frames := fs }) hoff _), PagingM.exec_bind_ok (PagingM.exec_modify _),
    PagingM.exec_bind_ok (PagingM.exec_modify _), PageTableEntry.frameAddr_set h4096 h52]
  exact exec_physToVirt (s := withTable s t i f fl fs) hoff _

/-- A frame of the source is outside the tree, so that it can be hung in. -/
theorem graftable_withTable (hs : Sound src s) (hp : s.walk p = some t) (hlen : p.length < 3)
    (hpres : (s.tables t i).isPresent = false) {f : Frame} (hf : f ∈ src.avail s.frames) (fl : PageFlags) :
    TableTree.Graftable childTable s.tables s.root 3 .empty p t i f.startAddress
      (.set f.startAddress (intermediateFlags fl)) where
  tree := hs.tree
  place := hp
  above := hlen
  vacant := childTable_of_not_present hpres
  names := childTable_intermediate (src.frame hf).1 (src.frame hf).2 hlen fl
  fresh := hs.fresh f hf
  empty := fun _ => childTable_of_not_present isPresent_empty

/-- A new table, in a frame the source has just handed out. -/
theorem grown_withTable (hs : Sound src s) (hp : s.walk p = some t) (hlen : p.length < 3)
    (hpres : (s.tables t i).isPresent = false) {f : Frame} {fs : σ} (halloc : src.alloc s.frames = (some f, fs)) (fl : PageFlags) :
    Grown src s (withTable s t i f fl fs) := by
  obtain ⟨hf, hf'⟩ := src.yields halloc
  have hg := graftable_withTable hs hp hlen hpres hf fl
  have hshrink := src.shrinks halloc
  refine ⟨rfl, rfl, ⟨hg.isTree, fun f' hav hbad => ?_⟩, hshrink, fun u hu => ?_, fun v => ?_, fun q u hq hu => ?_,
    fun q u j hq hu hj => ?_, fun q u j hq hu hj => ?_⟩
  · rcases hg.holds_iff.mp hbad with hold | heq
    · exact hs.fresh f' (hshrink hav) hold
    · exact hf' (Frame.ext_addr heq ▸ hav)
  · rcases hg.holds_iff.mp hu with hold | rfl
    · exact .inl hold
    · exact .inr ⟨f, hf, hf', rfl⟩
  · rcases eq_or_ne s.offset (2 ^ 64 - 1) with hoff | hoff
    · rw [translate_of_not_init hoff, translate_of_not_init (s := withTable s t i f fl fs) hoff]
    · rw [translate_eq hoff, translate_eq (s := withTable s t i f fl fs) hoff]
      rcases hg.probe_eq (q := pathOf v) rfl with heq | ⟨hnew, hold⟩
      · exact congrArg (Option.bind · (leafValue v)) heq
      · refine (congrArg (Option.bind · (leafValue v)) hnew).trans ?_
        rw [hold, Option.bind_some, Option.bind_some, leafValue_of_not_present isPresent_empty, leafValue_of_not_present hpres]
  · have hne : q ≠ p ++ [i] := by
      rintro rfl
      have hnone : s.walk (p ++ [i]) = none := by
        rw [PagingState.walk, TableTree.walk_concat hp]
        exact childTable_of_not_present hpres
      rw [hnone] at hu
      exact nomatch hu
    exact (hg.walk_of_ne hq hne).trans hu
  · refine TableTree.Graftable.graft_other (hg.ne_fresh hq hu) ?_
    by_contra hboth
    simp only [not_or, not_not] at hboth
    rw [hboth.1, hboth.2, hpres] at hj
    exact nomatch hj
  · rcases eq_or_ne q (p ++ [i]) with rfl | hne
    · obtain rfl := Option.some.inj (hg.walk_new.symm.trans hu)
      have hzero : (withTable s t i f fl fs).tables f.startAddress j = .empty := hg.graft_new j
      rw [hzero, isPresent_empty] at hj
      exact nomatch hj
    · have hold : s.walk q = some u := (hg.walk_of_ne hq hne).symm.trans hu
      rcases eq_or_ne u t with rfl | hut
      · rcases eq_or_ne j i with rfl | hji
        · exact .inr ⟨_, _, TableTree.write_self _ _ _⟩
        · exact .inl ⟨hold, TableTree.Graftable.graft_other (hg.ne_fresh hq hold) (.inr hji)⟩
      · exact .inl ⟨hold, TableTree.Graftable.graft_other (hg.ne_fresh hq hold) (.inl hut)⟩

end NextTable

/-! ## The descent of `map` -/

/-- The state `s'` after a descent from `s` along `p` to the table `t`: the entries on the way are those that were present, followed
by new intermediate ones. Either nothing was created, or the path is new from some point on and the table at its end is empty. -/
structure Opened (src : FrameSource σ) (fl : PageFlags) (s s' : PagingState σ) (p : List (Fin 512)) (t : Nat) : Prop where
  grown : Grown src s s'
  walk : s'.walk p = some t
  tables : s'.tables = s.tables ∨ (s.walk p = none ∧ ∀ j, s'.tables t j = .empty)
  visited : ∃ new, s'.visited p = (s.visited p).filter (·.isPresent) ++ new ∧ ∀ e ∈ new, ∃ a, e = .set a (intermediateFlags fl)

variable {src : FrameSource σ} {s s' s'' : PagingState σ} {p : List (Fin 512)} {t : Nat} {fl : PageFlags}

/-- The entries on a path that leads to a table are present. -/
theorem isPresent_of_walk {q r : List (Fin 512)} {j : Fin 512} {u : Nat} (h : s.walk (q ++ j :: r) = some t)
    (hq : s.walk q = some u) : (s.tables u j).isPresent = true := by
  obtain ⟨v, hv⟩ := Option.isSome_iff_exists.mp (TableTree.child_of_walk h hq)
  exact isPresent_of_childTable hv

/-- On a way that leads to a table all entries are present. -/
theorem filter_visited (hp : s.walk p = some t) : (s.visited p).filter (·.isPresent) = s.visited p := by
  refine List.filter_eq_self.mpr fun e he => ?_
  obtain ⟨q, j, r, u, rfl, hq, rfl⟩ := TableTree.mem_visited he
  exact isPresent_of_walk hp hq

/-- A path that leads to a table has the same entries after tables were created. -/
theorem Grown.visited (h : Grown src s s') (hlen : p.length ≤ 3) (hp : s.walk p = some t) : s'.visited p = s.visited p := by
  rw [PagingState.visited, h.root]
  refine (TableTree.path_congr fun q j r u hsplit hu => ?_).2.2
  subst hsplit
  have hq : q.length ≤ 3 := by
    rw [List.length_append] at hlen
    omega
  exact h.keeps q u j hq hu (isPresent_of_walk hp hu)

/-- The entries on a longer way are those on the shorter one, and the last. -/
theorem visited_concat (h : s.walk p = some t) (i : Fin 512) : s.visited (p ++ [i]) = s.visited p ++ [s.tables t i] := by
  rw [PagingState.visited, TableTree.visited_append h]
  simp only [TableTree.visited]
  cases childTable (0 + p.length) (s.tables t i) <;> rfl

/-- A way that leads nowhere leads nowhere when it is longer. -/
theorem walk_concat_of_none (h : s.walk p = none) (q : List (Fin 512)) : s.walk (p ++ q) = none := by
  rw [PagingState.walk, TableTree.walk_append]
  exact congrArg (Option.bind · _) h

/-- At the root nothing has to be opened. -/
theorem Opened.nil (h : Sound src s) (fl : PageFlags) : Opened src fl s s [] s.root where
  grown := Grown.refl h
  walk := rfl
  tables := .inl rfl
  visited := ⟨[], rfl, fun _ he => nomatch he⟩

/-- The walk in the old state, while nothing was created. -/
theorem Opened.walk_old (h : Opened src fl s s' p t) (heq : s'.tables = s.tables) : s.walk p = some t := by
  have hw := h.walk
  rwa [PagingState.walk, heq, h.grown.root] at hw

/-- The entries that were present on the path so far and at its end. -/
theorem Opened.filter_concat (h : Opened src fl s s' p t) {i : Fin 512} (hpres : (s'.tables t i).isPresent = false) :
    (s.visited (p ++ [i])).filter (·.isPresent) = (s.visited p).filter (·.isPresent) := by
  rcases h.tables with heq | ⟨hnone, -⟩
  · rw [visited_concat (h.walk_old heq) i, List.filter_append]
    rw [heq] at hpres
    simp [hpres]
  · have hcut : s.visited (p ++ [i]) = s.visited p := TableTree.visited_append_of_none hnone [i]
    rw [hcut]

/-- One step of the descent through an entry that is present. -/
theorem Opened.step_present (h : Opened src fl s s' p t) (hlen : p.length < 3) {i : Fin 512}
    (hpres : (s'.tables t i).isPresent = true) (hhuge : (s'.tables t i).isHuge = false) :
    Opened src fl s s' (p ++ [i]) (s'.tables t i).frameAddr := by
  have heq : s'.tables = s.tables := by
    refine h.tables.resolve_right fun ⟨_, hempty⟩ => ?_
    rw [hempty i, isPresent_empty] at hpres
    exact nomatch hpres
  have hwalk : s'.walk (p ++ [i]) = some (s'.tables t i).frameAddr := by
    rw [PagingState.walk, TableTree.walk_concat h.walk, Nat.zero_add, childTable, if_pos ⟨hlen, hpres, .inr hhuge⟩]
  have hsame : s'.visited (p ++ [i]) = s.visited (p ++ [i]) := by
    rw [PagingState.visited, heq, h.grown.root, PagingState.visited]
  refine ⟨h.grown, hwalk, .inl heq, [], ?_, fun _ he => nomatch he⟩
  rw [← hsame, filter_visited hwalk, List.append_nil]

/-- One step of the descent that creates a table. -/
theorem Opened.step_create (h : Opened src fl s s' p t) (hlen : p.length < 3) {i : Fin 512}
    (hpres : (s'.tables t i).isPresent = false) {f : Frame} {fs : σ} (halloc : src.alloc s'.frames = (some f, fs)) :
    Opened src fl s (withTable s' t i f fl fs) (p ++ [i]) f.startAddress := by
  have hsound := h.grown.sound
  have hstep := grown_withTable hsound h.walk hlen hpres halloc fl
  have hg := graftable_withTable hsound h.walk hlen hpres (src.yields halloc).1 fl
  have hentry : (withTable s' t i f fl fs).tables t i = .set f.startAddress (intermediateFlags fl) := TableTree.write_self _ _ _
  refine ⟨h.grown.trans hstep, hg.walk_new, .inr ⟨?_, hg.graft_new⟩, ?_⟩
  · rcases h.tables with heq | ⟨hnone, -⟩
    · rw [PagingState.walk, TableTree.walk_concat (h.walk_old heq)]
      rw [heq] at hpres
      exact childTable_of_not_present hpres
    · exact walk_concat_of_none hnone [i]
  · obtain ⟨new, hvis, hnew⟩ := h.visited
    refine ⟨new ++ [.set f.startAddress (intermediateFlags fl)], ?_, fun e he => ?_⟩
    · rw [visited_concat (hstep.walk p t hlen.le h.walk), hstep.visited hlen.le h.walk, hvis, hentry, h.filter_concat hpres,
        List.append_assoc]
    · rcases List.mem_append.mp he with he | he
      · exact hnew e he
      · exact ⟨f.startAddress, List.mem_singleton.mp he⟩

/-- `next_table_or_create` goes one step further down, or fails having created nothing. -/
theorem Opened.nextTableOrCreate (h : Opened src fl s s' p t) (hlen : p.length < 3) (hoff : s.offset ≠ 2 ^ 64 - 1) (i : Fin 512) :
    (∃ u s'', (nextTableOrCreate src.alloc t i fl).exec s' = (.ok u, s'') ∧ Opened src fl s s'' (p ++ [i]) u) ∨
    ∃ e s'', (Memory.nextTableOrCreate src.alloc t i fl).exec s' = (.error e, s'') ∧ Grown src s s'' ∧
      ((s'.tables t i).isHuge = true ∨ (src.alloc s'.frames).1 = none) := by
  have hoff' : s'.offset ≠ 2 ^ 64 - 1 := by rwa [h.grown.offset]
  cases hpres : (s'.tables t i).isPresent with
  | true =>
    have hexec : (Memory.nextTableOrCreate src.alloc t i fl).exec s' = _ := nextTableOrCreate_present hoff' hpres
    cases hhuge : (s'.tables t i).isHuge with
    | true =>
      rw [hhuge, if_pos rfl] at hexec
      exact .inr ⟨_, _, hexec, h.grown, .inl rfl⟩
    | false =>
      rw [hhuge, if_neg Bool.false_ne_true] at hexec
      exact .inl ⟨_, _, hexec, h.step_present hlen hpres hhuge⟩
  | false =>
    cases halloc : src.alloc s'.frames with
    | mk r fs =>
      cases r with
      | none =>
        exact .inr ⟨_, _, nextTableOrCreate_none hpres halloc, h.grown.trans (Grown.of_alloc h.grown.sound halloc), .inr rfl⟩
      | some f => exact .inl ⟨_, _, nextTableOrCreate_some hoff' hpres halloc, h.step_create hlen hpres halloc⟩

end Memory

end GolemKernel
