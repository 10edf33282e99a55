import GolemKernel.Lemmas.PagingTree

/-!
# What `map` and `unmap` do

Each either fails, with nothing mapped or unmapped, or stores one entry of a table at the last level. Two canonical addresses
have the same indices exactly when they lie in the same page, so the entry that is stored is that of one page.
-/

namespace GolemKernel

namespace Memory

variable {σ : Type}

/-! ## Addresses -/

/-- Bits 48 to 63 equal bit 47. -/
def Canonical (v : Nat) : Prop := v < 2 ^ 47 ∨ (2 ^ 64 - 2 ^ 47 ≤ v ∧ v < 2 ^ 64)

/-- An index is nine bits of the address. -/
theorem indexAt_val (v k : Nat) : (indexAt v k).val = v / 2 ^ k % 512 := by
  have h : (indexAt v k).val = (v >>> k) &&& (2 ^ 9 - 1) := rfl
  rw [h, Nat.and_two_pow_sub_one_eq_mod, Nat.shiftRight_eq_div_pow]

/-- The low twelve bits. -/
theorem and_fff (v : Nat) : v &&& 0xFFF = v % 4096 := Nat.and_two_pow_sub_one_eq_mod v 12

/-- Two addresses have the same indices exactly if they are in the same page, modulo 48 bits. -/
theorem pathOf_eq_iff {u v : Nat} : pathOf u = pathOf v ↔ u / 4096 % 2 ^ 36 = v / 4096 % 2 ^ 36 := by
  simp only [pathOf, List.cons.injEq, Fin.ext_iff, indexAt_val, and_true]
  omega

/-- Canonical addresses with the same indices lie in the same page. -/
theorem page_eq_of_pathOf {u v : Nat} (hu : Canonical u) (hv : Canonical v) (h : pathOf u = pathOf v) : u / 4096 = v / 4096 := by
  rw [pathOf_eq_iff] at h
  simp only [Canonical] at hu hv
  omega

/-- All addresses of a page have its indices. -/
theorem pathOf_add {virt o : Nat} (hvirt : virt % 4096 = 0) (ho : o < 4096) : pathOf (virt + o) = pathOf virt := by
  rw [pathOf_eq_iff]
  omega

/-- The offset in a page is added by `or`. -/
theorem or_eq_add {phys o : Nat} (hphys : phys % 4096 = 0) (ho : o < 4096) : phys ||| o = phys + o := by
  have h := Nat.two_pow_add_eq_or_of_lt (i := 12) ho (phys / 4096)
  have hp : 2 ^ 12 * (phys / 4096) = phys := by omega
  rw [hp] at h
  exact h.symm

/-! ## A store to a table at the last level -/

/-- The state with one entry replaced. -/
def withEntry (s : PagingState σ) (t : Nat) (i : Fin 512) (e : PageTableEntry) : PagingState σ :=
  { s with tables := TableTree.write s.tables t i e }

/-- The path to the table at the last level that an address is looked up in. -/
def tablePath (virt : Nat) : List (Fin 512) := [indexAt virt 39, indexAt virt 30, indexAt virt 21]

/-- The path of an address leads through three tables to an entry. -/
theorem pathOf_eq (virt : Nat) : pathOf virt = tablePath virt ++ [indexAt virt 12] := rfl

section Leaf

variable {src : FrameSource σ} {s : PagingState σ} {virt t : Nat} {e : PageTableEntry}

/-- At the last level no entry names a table. -/
theorem childTable_three (e : PageTableEntry) : childTable 3 e = none := by simp [childTable]

/-- The value of an entry at the last level. -/
theorem leafValue_three (v : Nat) (hpres : e.isPresent = true) : leafValue v (3, e) = some (e.frameAddr ||| v % 4096) := by
  simp only [leafValue, hpres, if_true, and_fff]

/-- An address is looked up in the last table on its way. -/
theorem translate_of_walk (hoff : s.offset ≠ 2 ^ 64 - 1) (hw : s.walk (tablePath virt) = some t) (v : Nat)
    (hv : pathOf v = pathOf virt) : translate s v = leafValue v (3, s.tables t (indexAt virt 12)) := by
  rw [translate_eq hoff, hv, pathOf_eq, TableTree.probe_append hw]
  have hlen : 0 + (tablePath virt).length = 3 := rfl
  simp only [TableTree.probe, hlen, childTable_three, Option.bind_some]

/-- A store at the last level leaves the tables in use. -/
theorem usesTable_withEntry (hs : s.IsTree) (hw : s.walk (tablePath virt) = some t) {u : Nat} :
    (withEntry s t (indexAt virt 12) e).UsesTable u ↔ s.UsesTable u :=
  TableTree.holds_write_leaf hs hw rfl _ _

/-- And keeps them sound. -/
theorem Sound.withEntry (hs : Sound src s) (hw : s.walk (tablePath virt) = some t) :
    Sound src (withEntry s t (indexAt virt 12) e) :=
  ⟨TableTree.IsTree.write_leaf hs.tree hw rfl _ _, fun f hf hbad => hs.fresh f hf ((usesTable_withEntry hs.tree hw).mp hbad)⟩

/-- And leaves the ways to tables. -/
theorem walk_withEntry (hs : s.IsTree) (hw : s.walk (tablePath virt) = some t) {q : List (Fin 512)} (hq : q.length ≤ 3) :
    (Memory.withEntry s t (indexAt virt 12) e).walk q = s.walk q :=
  TableTree.walk_write_leaf hs hw rfl _ _ hq

/-- Addresses with other indices are looked up as before. -/
theorem translate_withEntry_of_ne (hs : s.IsTree) (hw : s.walk (tablePath virt) = some t) {v : Nat}
    (hv : pathOf v ≠ pathOf virt) : translate (Memory.withEntry s t (indexAt virt 12) e) v = translate s v := by
  rcases eq_or_ne s.offset (2 ^ 64 - 1) with hoff | hoff
  · rw [translate_of_not_init hoff, translate_of_not_init (s := Memory.withEntry s t (indexAt virt 12) e) hoff]
  · rw [translate_eq hoff, translate_eq (s := Memory.withEntry s t (indexAt virt 12) e) hoff]
    exact congrArg (Option.bind · (leafValue v)) (TableTree.probe_write_leaf hs hw rfl _ _ rfl hv)

/-- Addresses with the same indices are looked up in the new entry. -/
theorem translate_withEntry_self (hoff : s.offset ≠ 2 ^ 64 - 1) (hs : s.IsTree) (hw : s.walk (tablePath virt) = some t) {v : Nat}
    (hv : pathOf v = pathOf virt) : translate (Memory.withEntry s t (indexAt virt 12) e) v = leafValue v (3, e) := by
  have hw' : (Memory.withEntry s t (indexAt virt 12) e).walk (tablePath virt) = some t :=
    (walk_withEntry hs hw (q := tablePath virt) (Nat.le_refl 3)).trans hw
  rw [translate_of_walk (s := Memory.withEntry s t (indexAt virt 12) e) hoff hw' v hv]
  have hentry : (Memory.withEntry s t (indexAt virt 12) e).tables t (indexAt virt 12) = e := TableTree.write_self _ _ _
  rw [hentry]

end Leaf

/-! ## Entries above the last level -/

/-- Something holds of every present entry above the last level. -/
def Intermediates (P : PageTableEntry → Prop) (s : PagingState σ) : Prop :=
  ∀ p t i, p.length < 3 → s.walk p = some t → (s.tables t i).isPresent = true → P (s.tables t i)

section Intermediates

variable {src : FrameSource σ} {s s' : PagingState σ} {virt t : Nat} {P : PageTableEntry → Prop}

/-- What holds of the entries on the way, and of every new one, holds when tables are added. -/
theorem Intermediates.grown (h : Intermediates P s) (hnew : ∀ a fl, P (.set a (intermediateFlags fl))) (hg : Grown src s s') :
    Intermediates P s' := by
  intro p t i hp hw hpres
  rcases hg.created p t i hp.le hw hpres with ⟨hw', heq⟩ | ⟨a, fl, heq⟩
  · rw [heq] at hpres ⊢
    exact h p t i hp hw' hpres
  · rw [heq]
    exact hnew a fl

/-- A store at the last level is none to an entry on the way. -/
theorem Intermediates.withEntry (h : Intermediates P s) (hs : s.IsTree) (hw : s.walk (tablePath virt) = some t)
    (e : PageTableEntry) : Intermediates P (withEntry s t (indexAt virt 12) e) := by
  intro p u i hp hu hpres
  rw [walk_withEntry hs hw hp.le] at hu
  have hut : u ≠ t := by
    rintro rfl
    have := hs p (tablePath virt) u hp.le (Nat.le_refl 3) hu hw
    rw [this] at hp
    exact absurd hp (Nat.lt_irrefl 3)
  have hsame : (Memory.withEntry s t (indexAt virt 12) e).tables u i = s.tables u i := TableTree.write_other (.inl hut)
  rw [hsame] at hpres ⊢
  exact h p u i hp hu hpres

/-- New intermediate entries are not large pages. -/
theorem isHuge_intermediate (a : Nat) (fl : PageFlags) : (PageTableEntry.set a (intermediateFlags fl)).isHuge = false := by
  rw [isHuge_eq, PageTableEntry.getLsbD_set (by decide)]
  exact (intermediate_bits fl).2.2.2

end Intermediates

/-! ## `map` and `unmap` -/

section Calls

variable {src : FrameSource σ} {s : PagingState σ}

/-- With a direct map the root is found. -/
theorem exec_activeL4 (hoff : s.offset ≠ 2 ^ 64 - 1) : (activeL4 : PagingM σ Nat).exec s = (.ok s.root, s) := by
  rw [activeL4, PagingM.exec_bind_ok PagingM.exec_get]
  exact exec_physToVirt hoff _

/-- Without a direct map it is an error. -/
theorem exec_activeL4_error (hoff : s.offset = 2 ^ 64 - 1) :
    (activeL4 : PagingM σ Nat).exec s = (.error .notInitialized, s) := by
  rw [activeL4, PagingM.exec_bind_ok PagingM.exec_get, physToVirt, PagingM.exec_bind_ok PagingM.exec_get, if_pos hoff]
  rfl

/-- Before `paging::init` both calls fail. -/
theorem mapPage_not_init (hoff : s.offset = 2 ^ 64 - 1) (alloc : σ → Option Frame × σ) (virt phys : Nat) (flags : PageFlags) :
    (mapPage alloc virt phys flags).exec s = (.error .notInitialized, s) := by
  simp only [mapPage, splitIndices]
  exact PagingM.exec_bind_error (exec_activeL4_error hoff)

/-- Then `unmap` changes nothing. -/
theorem unmapPage_not_init (hoff : s.offset = 2 ^ 64 - 1) (virt : Nat) :
    (unmapPage virt).exec s = (.error .notInitialized, s) := by
  simp only [unmapPage, splitIndices]
  exact PagingM.exec_bind_error (exec_activeL4_error hoff)

/-- `map` descends to a table at the last level and stores the entry there, or fails with nothing but new intermediate tables. -/
theorem mapPage_cases (hs : Sound src s) (hoff : s.offset ≠ 2 ^ 64 - 1) (virt phys : Nat) (flags : PageFlags) :
    (∃ e s', (mapPage src.alloc virt phys flags).exec s = (.error e, s') ∧ Grown src s s') ∨
    ∃ s' t, Opened src (flags.bitor .present) s s' (tablePath virt) t ∧ (s'.tables t (indexAt virt 12)).isPresent = false ∧
      (mapPage src.alloc virt phys flags).exec s =
        (.ok (), withEntry s' t (indexAt virt 12) (.set phys (flags.bitor .present))) := by
  simp only [mapPage, splitIndices]
  rw [PagingM.exec_bind_ok (exec_activeL4 hoff)]
  rcases (Opened.nil hs (flags.bitor .present)).nextTableOrCreate (by decide) hoff (indexAt virt 39) with
    ⟨l3, s3, h3, o3⟩ | ⟨e, s', he, hg, -⟩
  swap
  · exact .inl ⟨e, s', PagingM.exec_bind_error he, hg⟩
  rw [PagingM.exec_bind_ok h3]
  rcases o3.nextTableOrCreate (Nat.lt_of_sub_eq_succ rfl) hoff (indexAt virt 30) with ⟨l2, s2, h2, o2⟩ | ⟨e, s', he, hg, -⟩
  swap
  · exact .inl ⟨e, s', PagingM.exec_bind_error he, hg⟩
  rw [PagingM.exec_bind_ok h2]
  rcases o2.nextTableOrCreate (Nat.lt_of_sub_eq_succ rfl) hoff (indexAt virt 21) with ⟨l1, s1, h1, o1⟩ | ⟨e, s', he, hg, -⟩
  swap
  · exact .inl ⟨e, s', PagingM.exec_bind_error he, hg⟩
  rw [PagingM.exec_bind_ok h1, PagingM.exec_bind_ok PagingM.exec_get]
  rcases Bool.eq_false_or_eq_true (s1.tables l1 (indexAt virt 12)).isPresent with hpres | hpres
  · left
    exact ⟨.alreadyMapped, s1, congrArg (PagingM.exec · s1) (if_pos hpres), o1.grown⟩
  · right
    exact ⟨s1, l1, o1, hpres, congrArg (PagingM.exec · s1) (if_neg (Bool.eq_false_iff.mp hpres))⟩

/-- The next `n` allocations succeed. -/
def FrameSource.Lasts (src : FrameSource σ) : Nat → σ → Prop
  | 0, _ => True
  | n + 1, fs => ∃ f fs', src.alloc fs = (some f, fs') ∧ src.Lasts n fs'

/-- What lasts for one frame more lasts. -/
theorem FrameSource.Lasts.pred {src : FrameSource σ} : ∀ {n : Nat} {fs : σ}, src.Lasts (n + 1) fs → src.Lasts n fs
  | 0, _, _ => trivial
  | _ + 1, _, ⟨f, fs', halloc, h⟩ => ⟨f, fs', halloc, h.pred⟩

/-- With a frame to spare and no large page in the way, `next_table_or_create` goes one step further down. -/
theorem Opened.nextTableOrCreate_ok {fl : PageFlags} {s' : PagingState σ} {p : List (Fin 512)} {t n : Nat}
    (h : Opened src fl s s' p t) (hlen : p.length < 3) (hoff : s.offset ≠ 2 ^ 64 - 1)
    (hhuge : Intermediates (·.isHuge = false) s) (hlasts : src.Lasts (n + 1) s'.frames) (i : Fin 512) :
    ∃ u s'', (Memory.nextTableOrCreate src.alloc t i fl).exec s' = (.ok u, s'') ∧ Opened src fl s s'' (p ++ [i]) u ∧
      src.Lasts n s''.frames := by
  have hoff' : s'.offset ≠ 2 ^ 64 - 1 := by rwa [h.grown.offset]
  cases hpres : (s'.tables t i).isPresent with
  | true =>
    have hsmall := hhuge.grown isHuge_intermediate h.grown p t i hlen h.walk hpres
    have hexec : (Memory.nextTableOrCreate src.alloc t i fl).exec s' = _ := nextTableOrCreate_present hoff' hpres
    rw [hsmall, if_neg Bool.false_ne_true] at hexec
    exact ⟨_, _, hexec, h.step_present hlen hpres hsmall, hlasts.pred⟩
  | false =>
    obtain ⟨f, fs, halloc, hrest⟩ := hlasts
    exact ⟨_, _, nextTableOrCreate_some hoff' hpres halloc, h.step_create hlen hpres halloc, hrest⟩

/-- `map` succeeds on a page that is not mapped when there are frames for three tables and no large page is in the way. -/
theorem mapPage_ok (hs : Sound src s) (hoff : s.offset ≠ 2 ^ 64 - 1) {virt n : Nat} (phys : Nat) (flags : PageFlags)
    (hhuge : Intermediates (·.isHuge = false) s) (hvacant : translate s virt = none) (hlasts : src.Lasts (n + 3) s.frames) :
    ∃ s', (mapPage src.alloc virt phys flags).exec s = (.ok (), s') ∧ src.Lasts n s'.frames := by
  simp only [mapPage, splitIndices]
  rw [PagingM.exec_bind_ok (exec_activeL4 hoff)]
  obtain ⟨l3, s3, h3, o3, hl3⟩ :=
    (Opened.nil hs (flags.bitor .present)).nextTableOrCreate_ok (by decide) hoff hhuge hlasts (indexAt virt 39)
  obtain ⟨l2, s2, h2, o2, hl2⟩ := o3.nextTableOrCreate_ok (Nat.lt_of_sub_eq_succ rfl) hoff hhuge hl3 (indexAt virt 30)
  obtain ⟨l1, s1, h1, o1, hl1⟩ := o2.nextTableOrCreate_ok (Nat.lt_of_sub_eq_succ rfl) hoff hhuge hl2 (indexAt virt 21)
  rw [PagingM.exec_bind_ok h3, PagingM.exec_bind_ok h2, PagingM.exec_bind_ok h1, PagingM.exec_bind_ok PagingM.exec_get]
  have hoff1 : s1.offset ≠ 2 ^ 64 - 1 := by rwa [o1.grown.offset]
  have hpres : ¬(s1.tables l1 (indexAt virt 12)).isPresent = true := by
    intro hbad
    have htr := (o1.grown.translate virt).trans hvacant
    rw [translate_of_walk hoff1 o1.walk virt rfl, leafValue_three _ hbad] at htr
    cases htr
  exact ⟨withEntry s1 l1 (indexAt virt 12) (.set phys (flags.bitor .present)), congrArg (PagingM.exec · s1) (if_neg hpres), hl1⟩

/-- `next_table` reads one step of a path. -/
theorem nextTable_cases {p : List (Fin 512)} {t : Nat} (hoff : s.offset ≠ 2 ^ 64 - 1) (hp : s.walk p = some t)
    (hlen : p.length < 3) (i : Fin 512) :
    (∃ u, (nextTable t i).exec s = (.ok u, s) ∧ s.walk (p ++ [i]) = some u) ∨ ∃ e, (nextTable t i).exec s = (.error e, s) := by
  rw [nextTable, PagingM.exec_bind_ok PagingM.exec_get]
  cases hpres : (s.tables t i).isPresent with
  | false =>
    right
    refine ⟨.notMapped, ?_⟩
    simp only [hpres, Bool.not_false, if_true]
    rfl
  | true =>
    cases hhuge : (s.tables t i).isHuge with
    | true =>
      right
      refine ⟨.hugePageConflict, ?_⟩
      simp only [hpres, show (s.tables t i).flags.contains .hugePage = true from hhuge, Bool.not_true, Bool.false_eq_true, if_false,
        if_true]
      rfl
    | false =>
      left
      refine ⟨(s.tables t i).frameAddr, ?_, ?_⟩
      · simp only [hpres, show (s.tables t i).flags.contains .hugePage = false from hhuge, Bool.not_true, Bool.false_eq_true,
          if_false]
        exact exec_physToVirt hoff _
      · rw [PagingState.walk, TableTree.walk_concat hp, Nat.zero_add, childTable, if_pos ⟨hlen, hpres, .inr hhuge⟩]

/-- `unmap` clears a present entry of a table at the last level and returns its address, or fails and changes nothing. -/
theorem unmapPage_cases (hoff : s.offset ≠ 2 ^ 64 - 1) (virt : Nat) :
    (∃ e, (unmapPage virt).exec s = (.error e, s)) ∨
    ∃ t, s.walk (tablePath virt) = some t ∧ (s.tables t (indexAt virt 12)).isPresent = true ∧
      (unmapPage virt).exec s = (.ok (s.tables t (indexAt virt 12)).frameAddr, withEntry s t (indexAt virt 12) .empty) := by
  simp only [unmapPage, splitIndices]
  rw [PagingM.exec_bind_ok (exec_activeL4 hoff)]
  have hroot : s.walk [] = some s.root := rfl
  rcases nextTable_cases hoff hroot (by decide) (indexAt virt 39) with ⟨l3, h3, w3⟩ | ⟨e, he⟩
  swap
  · exact .inl ⟨e, PagingM.exec_bind_error he⟩
  rw [PagingM.exec_bind_ok h3]
  rcases nextTable_cases hoff w3 (Nat.lt_of_sub_eq_succ rfl) (indexAt virt 30) with ⟨l2, h2, w2⟩ | ⟨e, he⟩
  swap
  · exact .inl ⟨e, PagingM.exec_bind_error he⟩
  rw [PagingM.exec_bind_ok h2]
  rcases nextTable_cases hoff w2 (Nat.lt_of_sub_eq_succ rfl) (indexAt virt 21) with ⟨l1, h1, w1⟩ | ⟨e, he⟩
  swap
  · exact .inl ⟨e, PagingM.exec_bind_error he⟩
  rw [PagingM.exec_bind_ok h1, PagingM.exec_bind_ok PagingM.exec_get]
  rcases Bool.eq_false_or_eq_true (s.tables l1 (indexAt virt 12)).isPresent with hpres | hpres
  · right
    refine ⟨l1, w1, hpres, congrArg (PagingM.exec · s) (if_neg ?_)⟩
    rw [hpres]
    decide
  · left
    refine ⟨.notMapped, congrArg (PagingM.exec · s) (if_pos ?_)⟩
    rw [hpres]
    decide

end Calls

end Memory

end GolemKernel
