import GolemKernel.Lemmas.PagingMap

/-!
# Page tables over whole runs

A run makes `map` and `unmap` calls one after another, and other code may take frames from the allocator or give frames back that
are not tables. The tables stay a tree and the frames that may be handed out stay outside it (`Sound`), whatever the calls return.
`paging_refines_partial_map` says that the tables then behave as a partial map from pages to frames, and
`map_grants_access_iff` which access a page gets that was mapped.
-/

namespace GolemKernel

namespace Memory

variable {σ : Type}

/-- One call, or a change of the frame allocator by others. -/
inductive PagingStep (src : FrameSource σ) (s : PagingState σ) : PagingState σ → Prop where
  | map (virt phys : Nat) (flags : PageFlags) (r : Except MapError Unit) (s' : PagingState σ) (hcanon : Canonical virt)
      (hphys : phys < 2 ^ 52) (h : map src.alloc virt phys flags s = some (r, s')) : PagingStep src s s'
  | unmap (virt : Nat) (r : Except MapError Nat) (s' : PagingState σ) (hcanon : Canonical virt)
      (h : unmap virt s = some (r, s')) : PagingStep src s s'
  | frames (fs : σ) (h : ∀ f ∈ src.avail fs, ¬s.UsesTable f.startAddress) : PagingStep src s { s with frames := fs }

/-- The states of the runs from `s₀`. -/
def PagingReachable (src : FrameSource σ) (s₀ s : PagingState σ) : Prop := Relation.ReflTransGen (PagingStep src) s₀ s

/-! ## The effect of the calls -/

section Effects

variable {src : FrameSource σ} {s s' : PagingState σ} {virt phys : Nat} {flags : PageFlags}

/-- What a successful `map` leaves. -/
structure Mapped (src : FrameSource σ) (s s' : PagingState σ) (virt phys : Nat) (flags : PageFlags) : Prop where
  opened : ∃ s₁ t, Opened src (flags.bitor .present) s s₁ (tablePath virt) t ∧
    (s₁.tables t (indexAt virt 12)).isPresent = false ∧
    s' = withEntry s₁ t (indexAt virt 12) (.set phys (flags.bitor .present))
  init : s.offset ≠ 2 ^ 64 - 1

/-- `map` sets the present bit whatever flags it is given. -/
theorem bitor_present_bit (flags : PageFlags) : (flags.bitor .present).bits.getLsbD 0 = true := by
  simp [PageFlags.bitor, PageFlags.present]

/-- A call of `map` that returns has aligned arguments. It fails and at most adds empty tables, or it has mapped the page. -/
theorem map_cases {r : Except MapError Unit} (hs : Sound src s) (h : map src.alloc virt phys flags s = some (r, s')) :
    (virt % 4096 = 0 ∧ phys % 4096 = 0) ∧
      ((∃ e, r = .error e ∧ Grown src s s') ∨ (r = .ok () ∧ Mapped src s s' virt phys flags)) := by
  unfold map at h
  split at h
  · rename_i hal
    rw [and_fff, and_fff] at hal
    refine ⟨hal, ?_⟩
    have hexec := Option.some.inj h
    rcases eq_or_ne s.offset (2 ^ 64 - 1) with hoff | hoff
    · rw [mapPage_not_init hoff] at hexec
      obtain ⟨rfl, rfl⟩ := Prod.mk.inj hexec
      exact .inl ⟨_, rfl, Grown.refl hs⟩
    · rcases mapPage_cases hs hoff virt phys flags with ⟨e, s₁, heq, hg⟩ | ⟨s₁, t, ho, hpres, heq⟩
      · obtain ⟨rfl, rfl⟩ := Prod.mk.inj (heq.symm.trans hexec)
        exact .inl ⟨e, rfl, hg⟩
      · obtain ⟨rfl, rfl⟩ := Prod.mk.inj (heq.symm.trans hexec)
        exact .inr ⟨rfl, ⟨s₁, t, ho, hpres, rfl⟩, hoff⟩
  · exact nomatch h

namespace Mapped

variable (h : Mapped src s s' virt phys flags)

include h

/-- The tables stay sound. -/
theorem sound : Sound src s' := by
  obtain ⟨s₁, t, ho, -, rfl⟩ := h.opened
  exact ho.grown.sound.withEntry ho.walk

/-- The direct map stays where it is. -/
theorem offset : s'.offset = s.offset := by
  obtain ⟨s₁, t, ho, -, rfl⟩ := h.opened
  exact ho.grown.offset

/-- The root stays where it is. -/
theorem cr3 : s'.cr3 = s.cr3 := by
  obtain ⟨s₁, t, ho, -, rfl⟩ := h.opened
  exact ho.grown.cr3

/-- Frames are taken and none is given back. -/
theorem avail : src.avail s'.frames ⊆ src.avail s.frames := by
  obtain ⟨s₁, t, ho, -, rfl⟩ := h.opened
  exact ho.grown.avail

/-- A table that is in use was in use, or is a frame that has been taken. -/
theorem uses {u : Nat} (hu : s'.UsesTable u) :
    s.UsesTable u ∨ ∃ f ∈ src.avail s.frames, f ∉ src.avail s'.frames ∧ f.startAddress = u := by
  obtain ⟨s₁, t, ho, -, rfl⟩ := h.opened
  exact ho.grown.uses u ((usesTable_withEntry ho.grown.sound.tree ho.walk).mp hu)

/-- A frame that is not a table and may not be handed out is not made a table. -/
theorem not_usesTable {f : Frame} (hf : f ∉ src.avail s.frames) (hno : ¬s.UsesTable f.startAddress) :
    ¬s'.UsesTable f.startAddress := by
  intro hbad
  rcases h.uses hbad with hold | ⟨f', hf', -, heq⟩
  · exact hno hold
  · exact hf (Frame.ext_addr heq ▸ hf')

/-- What holds of the entries on the way, and of every new one, holds afterwards. -/
theorem intermediates {P : PageTableEntry → Prop} (hnew : ∀ a fl, P (.set a (intermediateFlags fl))) (hs : Intermediates P s) :
    Intermediates P s' := by
  obtain ⟨s₁, t, ho, -, rfl⟩ := h.opened
  exact (hs.grown hnew ho.grown).withEntry ho.grown.sound.tree ho.walk _

/-- The page is looked up in the frame. -/
theorem here (hvirt : virt % 4096 = 0) (hphys : phys % 4096 = 0) (hphys' : phys < 2 ^ 52) {o : Nat} (ho : o < 4096) :
    translate s' (virt + o) = some (phys + o) := by
  obtain ⟨s₁, t, hop, -, rfl⟩ := h.opened
  have hoff : s₁.offset ≠ 2 ^ 64 - 1 := by
    rw [hop.grown.offset]
    exact h.init
  rw [translate_withEntry_self hoff hop.grown.sound.tree hop.walk (pathOf_add hvirt ho),
    leafValue_three _ (isPresent_set (bitor_present_bit flags)), PageTableEntry.frameAddr_set hphys hphys',
    show (virt + o) % 4096 = o by omega, or_eq_add hphys ho]

/-- Addresses with other indices are looked up as before. -/
theorem elsewhere {v : Nat} (hv : pathOf v ≠ pathOf virt) : translate s' v = translate s v := by
  obtain ⟨s₁, t, ho, -, rfl⟩ := h.opened
  rw [translate_withEntry_of_ne ho.grown.sound.tree ho.walk hv, ho.grown.translate]

end Mapped

/-- What a successful `unmap` leaves: the entry that mapped the page is cleared. -/
structure Unmapped (s s' : PagingState σ) (virt pa : Nat) : Prop where
  cleared : ∃ t, s.walk (tablePath virt) = some t ∧ (s.tables t (indexAt virt 12)).isPresent = true ∧
    pa = (s.tables t (indexAt virt 12)).frameAddr ∧ s' = withEntry s t (indexAt virt 12) .empty
  init : s.offset ≠ 2 ^ 64 - 1

/-- A call of `unmap` that returns has an aligned argument. It fails and changes nothing, or it has unmapped the page. -/
theorem unmap_cases {r : Except MapError Nat} (h : unmap virt s = some (r, s')) :
    virt % 4096 = 0 ∧ ((∃ e, r = .error e ∧ s' = s) ∨ ∃ pa, r = .ok pa ∧ Unmapped s s' virt pa) := by
  unfold unmap at h
  split at h
  · rename_i hal
    rw [and_fff] at hal
    refine ⟨hal, ?_⟩
    have hexec := Option.some.inj h
    rcases eq_or_ne s.offset (2 ^ 64 - 1) with hoff | hoff
    · rw [unmapPage_not_init hoff] at hexec
      obtain ⟨rfl, rfl⟩ := Prod.mk.inj hexec
      exact .inl ⟨_, rfl, rfl⟩
    · rcases unmapPage_cases hoff virt with ⟨e, heq⟩ | ⟨t, hw, hpres, heq⟩
      · obtain ⟨rfl, rfl⟩ := Prod.mk.inj (heq.symm.trans hexec)
        exact .inl ⟨e, rfl, rfl⟩
      · obtain ⟨rfl, rfl⟩ := Prod.mk.inj (heq.symm.trans hexec)
        exact .inr ⟨_, rfl, ⟨t, hw, hpres, rfl, rfl⟩, hoff⟩
  · exact nomatch h

namespace Unmapped

variable {pa : Nat} (h : Unmapped s s' virt pa)

include h

/-- The tables stay sound. -/
theorem sound (hs : Sound src s) : Sound src s' := by
  obtain ⟨t, hw, -, -, rfl⟩ := h.cleared
  exact hs.withEntry hw

/-- The page was mapped to the address that is returned. -/
theorem before (hvirt : virt % 4096 = 0) : translate s virt = some pa := by
  obtain ⟨t, hw, hpres, rfl, -⟩ := h.cleared
  rw [translate_of_walk h.init hw virt rfl, leafValue_three _ hpres, hvirt, Nat.or_zero]

/-- The page is not mapped any more. -/
theorem here (htree : s.IsTree) {v : Nat} (hv : pathOf v = pathOf virt) : translate s' v = none := by
  obtain ⟨t, hw, -, -, rfl⟩ := h.cleared
  rw [translate_withEntry_self h.init htree hw hv, leafValue_of_not_present isPresent_empty]

/-- Addresses with other indices are looked up as before. -/
theorem elsewhere (htree : s.IsTree) {v : Nat} (hv : pathOf v ≠ pathOf virt) : translate s' v = translate s v := by
  obtain ⟨t, hw, -, -, rfl⟩ := h.cleared
  exact translate_withEntry_of_ne htree hw hv

end Unmapped

end Effects

/-- Every call keeps the tables sound. -/
theorem PagingStep.sound {src : FrameSource σ} {s s' : PagingState σ} (hstep : PagingStep src s s') (hs : Sound src s) :
    Sound src s' := by
  cases hstep with
  | map virt phys flags r s' _ _ h =>
    rcases (map_cases hs h).2 with ⟨e, -, hg⟩ | ⟨-, hm⟩
    · exact hg.sound
    · exact hm.sound
  | unmap virt r s' _ h =>
    rcases (unmap_cases h).2 with ⟨e, -, rfl⟩ | ⟨pa, -, hu⟩
    · exact hs
    · exact hu.sound hs
  | frames fs h => exact ⟨hs.tree, h⟩

/-- So does every run of calls. -/
theorem PagingReachable.sound {src : FrameSource σ} {s₀ s : PagingState σ} (hrun : PagingReachable src s₀ s)
    (hs : Sound src s₀) : Sound src s := by
  induction hrun with
  | refl => exact hs
  | tail _ hstep ih => exact hstep.sound ih

/-! ## A partial map -/

/-- From tables that are a tree, with a frame allocator that yields only frames outside it, in every run and for every page: `map`
returns; when it succeeds the page is looked up in the frame it was given and every other page as before, and when it fails every
page is looked up as before. `unmap` returns; when it succeeds it returns what the page was looked up as, the page is looked up no
more and every other page as before, and when it fails every page is looked up as before. -/
theorem paging_refines_partial_map (src : FrameSource σ) (s₀ s : PagingState σ) (htree : s₀.IsTree)
    (hfresh : ∀ f ∈ src.avail s₀.frames, ¬s₀.UsesTable f.startAddress) (hrun : PagingReachable src s₀ s) (virt : Nat)
    (hcanon : Canonical virt) (halign : virt % 4096 = 0) :
    (∀ phys flags, phys % 4096 = 0 → phys < 2 ^ 52 → ∃ r s', map src.alloc virt phys flags s = some (r, s') ∧
      (r = .ok () → (∀ o < 4096, translate s' (virt + o) = some (phys + o)) ∧
        ∀ v, Canonical v → v / 4096 ≠ virt / 4096 → translate s' v = translate s v) ∧
      (∀ e, r = .error e → ∀ v, Canonical v → translate s' v = translate s v)) ∧
    ∃ r s', unmap virt s = some (r, s') ∧
      (∀ pa, r = .ok pa → translate s virt = some pa ∧ (∀ o < 4096, translate s' (virt + o) = none) ∧
        ∀ v, Canonical v → v / 4096 ≠ virt / 4096 → translate s' v = translate s v) ∧
      ∀ e, r = .error e → ∀ v, Canonical v → translate s' v = translate s v := by
  have hs : Sound src s := hrun.sound ⟨htree, hfresh⟩
  have hpage : ∀ v, Canonical v → v / 4096 ≠ virt / 4096 → pathOf v ≠ pathOf virt :=
    fun v hv hne heq => hne (page_eq_of_pathOf hv hcanon heq)
  refine ⟨fun phys flags hphys hphys' => ?_, ?_⟩
  · have hcall : map src.alloc virt phys flags s = some ((mapPage src.alloc virt phys flags).exec s) := by
      rw [map, and_fff, and_fff, if_pos ⟨halign, hphys⟩]
    refine ⟨_, _, hcall, fun hr => ?_, fun e hr => ?_⟩
    · rcases (map_cases hs hcall).2 with ⟨e, he, -⟩ | ⟨-, hm⟩
      · exact nomatch hr.symm.trans he
      · exact ⟨fun o ho => hm.here halign hphys hphys' ho, fun v hv hne => hm.elsewhere (hpage v hv hne)⟩
    · rcases (map_cases hs hcall).2 with ⟨e', -, hg⟩ | ⟨hok, -⟩
      · exact fun v _ => hg.translate v
      · exact nomatch hr.symm.trans hok
  · have hcall : unmap virt s = some ((unmapPage virt).exec s) := by
      rw [unmap, and_fff, if_pos halign]
    refine ⟨_, _, hcall, fun pa hr => ?_, fun e hr => ?_⟩
    · rcases (unmap_cases hcall).2 with ⟨e, he, -⟩ | ⟨pa', hok, hu⟩
      · exact nomatch hr.symm.trans he
      · obtain rfl := Except.ok.inj (hok.symm.trans hr)
        exact ⟨hu.before halign, fun o ho => hu.here hs.tree (pathOf_add halign ho),
          fun v hv hne => hu.elsewhere hs.tree (hpage v hv hne)⟩
    · rcases (unmap_cases hcall).2 with ⟨e', -, hsame⟩ | ⟨pa, hok, -⟩
      · exact fun v _ => by rw [hsame]
      · exact nomatch hr.symm.trans hok

/-! ### Empty tables -/

/-- With an empty top table the tree is the top table. -/
theorem walk_of_empty {s : PagingState σ} (h : ∀ i, s.tables s.root i = .empty) {p : List (Fin 512)} {t : Nat}
    (hp : s.walk p = some t) : p = [] ∧ t = s.root := by
  cases p with
  | nil => exact ⟨rfl, (Option.some.inj hp).symm⟩
  | cons i p =>
    obtain ⟨u, hu, -⟩ := Option.bind_eq_some_iff.mp hp
    rw [h i, childTable_of_not_present isPresent_empty] at hu
    exact nomatch hu

/-- A root without entries is a tree. -/
theorem isTree_of_empty {s : PagingState σ} (h : ∀ i, s.tables s.root i = .empty) : s.IsTree := by
  intro p q t _ _ hp hq
  rw [(walk_of_empty h hp).1, (walk_of_empty h hq).1]

/-- And maps nothing. -/
theorem translate_of_empty {s : PagingState σ} (h : ∀ i, s.tables s.root i = .empty) (v : Nat) : translate s v = none := by
  rcases eq_or_ne s.offset (2 ^ 64 - 1) with hoff | hoff
  · exact translate_of_not_init hoff v
  · rw [translate_eq hoff, pathOf, TableTree.probe, h, childTable_of_not_present isPresent_empty]
    exact (leafValue_of_not_present isPresent_empty : leafValue v (0, .empty) = none)

/-- There is no present entry that something could fail to hold of. -/
theorem intermediates_of_empty {s : PagingState σ} (h : ∀ i, s.tables s.root i = .empty) (P : PageTableEntry → Prop) :
    Intermediates P s := by
  intro p t i _ hw hpres
  rw [(walk_of_empty h hw).2, h i, isPresent_empty] at hpres
  exact nomatch hpres

/-- And is sound, if the frames to come do not include it. -/
theorem sound_of_empty {src : FrameSource σ} {s : PagingState σ} (h : ∀ i, s.tables s.root i = .empty)
    (hfresh : ∀ f ∈ src.avail s.frames, f.startAddress ≠ s.root) : Sound src s := by
  exact ⟨isTree_of_empty h, fun f hf ⟨p, _, hp⟩ => hfresh f hf (walk_of_empty h hp).2⟩

/-- A source that hands out the frames below a number, in order. -/
def sequentialSource (limit : Nat) (hlimit : limit ≤ 2 ^ 40) : FrameSource Nat where
  alloc n := if n < limit then (some ⟨n * 4096⟩, n + 1) else (none, n)
  avail n := { f | ∃ k, n ≤ k ∧ k < limit ∧ f = ⟨k * 4096⟩ }
  yields := by
    intro n n' f h
    split at h
    · rename_i hn
      obtain ⟨hf, rfl⟩ := Prod.mk.inj h
      obtain rfl := Option.some.inj hf
      refine ⟨⟨n, Nat.le_refl n, hn, rfl⟩, fun ⟨k, hk, _, heq⟩ => ?_⟩
      have := Frame.mk.inj heq
      omega
    · exact nomatch (Prod.mk.inj h).1
  shrinks := by
    intro n n' r h f hf
    obtain ⟨k, hk, hk', rfl⟩ := hf
    split at h
    · obtain ⟨-, rfl⟩ := Prod.mk.inj h
      exact ⟨k, by omega, hk', rfl⟩
    · obtain ⟨-, rfl⟩ := Prod.mk.inj h
      exact ⟨k, hk, hk', rfl⟩
  frame := by
    intro n f hf
    obtain ⟨k, -, hk, rfl⟩ := hf
    simp only
    omega

/-- Empty tables with the top table in frame 1, and the frames 2 to 15 to hand out. -/
def emptyPaging : PagingState Nat := ⟨0, 0x1000#64, fun _ => .empty, 2⟩

theorem emptyPaging_fresh : ∀ f ∈ (sequentialSource 16 (by decide)).avail emptyPaging.frames, f.startAddress ≠ emptyPaging.root := by
  rintro f ⟨k, hk, -, rfl⟩
  have hroot : emptyPaging.root = 4096 := by decide
  have hframes : emptyPaging.frames = 2 := rfl
  rw [hroot]
  simp only
  omega

/-- Two pages are mapped one after the other, and then the first one is unmapped. -/
theorem paging_refines_partial_map_pages :
    ∃ s₁ s₂ s₃, map (sequentialSource 16 (by decide)).alloc 0x400000 0x9000 .writable emptyPaging = some (.ok (), s₁) ∧
      map (sequentialSource 16 (by decide)).alloc 0x401000 0xA000 .writable s₁ = some (.ok (), s₂) ∧
      unmap 0x400000 s₂ = some (.ok 0x9000, s₃) ∧
      (∀ o < 4096, translate s₂ (0x401000 + o) = some (0xA000 + o)) ∧ translate s₂ 0x400000 = some 0x9000 ∧
      (∀ o < 4096, translate s₃ (0x400000 + o) = none) ∧ translate s₃ 0x401000 = some 0xA000 := by
  have hs : Sound (sequentialSource 16 (by decide)) emptyPaging := sound_of_empty (fun _ => rfl) emptyPaging_fresh
  have hfirst : Canonical 0x400000 := .inl (by decide)
  have hsecond : Canonical 0x401000 := .inl (by decide)
  have hcalls : ∃ s₁, map (sequentialSource 16 (by decide)).alloc 0x400000 0x9000 .writable emptyPaging = some (.ok (), s₁) ∧
      ∃ s₂, map (sequentialSource 16 (by decide)).alloc 0x401000 0xA000 .writable s₁ = some (.ok (), s₂) ∧
        ∃ s₃, unmap 0x400000 s₂ = some (.ok 0x9000, s₃) := ⟨_, rfl, _, rfl, _, rfl⟩
  obtain ⟨s₁, hmap₁, s₂, hmap₂, s₃, hunmap⟩ := hcalls
  have hrun₁ : PagingReachable (sequentialSource 16 (by decide)) emptyPaging s₁ :=
    .single (.map 0x400000 0x9000 .writable _ s₁ hfirst (by decide) hmap₁)
  have hrun₂ : PagingReachable (sequentialSource 16 (by decide)) emptyPaging s₂ :=
    hrun₁.tail (.map 0x401000 0xA000 .writable _ s₂ hsecond (by decide) hmap₂)
  obtain ⟨r, s', hcall, hok, -⟩ := (paging_refines_partial_map (sequentialSource 16 (by decide)) emptyPaging s₁ hs.tree hs.fresh hrun₁
    0x401000 hsecond (by decide)).1 0xA000 .writable (by decide) (by decide)
  obtain ⟨rfl, rfl⟩ := Prod.mk.inj (Option.some.inj (hcall.symm.trans hmap₂))
  obtain ⟨-, r', s'', hcall', hok', -⟩ := paging_refines_partial_map (sequentialSource 16 (by decide)) emptyPaging s' hs.tree hs.fresh
    hrun₂ 0x400000 hfirst (by decide)
  obtain ⟨rfl, rfl⟩ := Prod.mk.inj (Option.some.inj (hcall'.symm.trans hunmap))
  obtain ⟨hbefore, hgone, helsewhere⟩ := hok' 0x9000 rfl
  have hmapped := (hok rfl).1
  exact ⟨s₁, s', s'', hmap₁, hmap₂, hunmap, hmapped, hbefore, hgone,
    (helsewhere 0x401000 hsecond (by decide)).trans (hmapped 0 (by decide))⟩

/-! ## Access -/

/-- Every present entry above the last level is writable. -/
def IntermediatesWritable (s : PagingState σ) : Prop := Intermediates (·.bits.getLsbD 1 = true) s

section Access

variable {src : FrameSource σ} {s s' : PagingState σ} {virt phys t : Nat} {flags : PageFlags} {e : PageTableEntry}

/-- The entries that `map` makes on the way to a page are writable. -/
theorem writable_intermediate (a : Nat) (fl : PageFlags) : (PageTableEntry.set a (intermediateFlags fl)).bits.getLsbD 1 = true := by
  rw [PageTableEntry.getLsbD_set (by decide)]
  exact (intermediate_bits fl).2.1

/-- So a call keeps the entries on all ways writable. -/
theorem PagingStep.writable (hstep : PagingStep src s s') (hs : Sound src s) (h : IntermediatesWritable s) :
    IntermediatesWritable s' := by
  cases hstep with
  | map virt phys flags r s' _ _ hcall =>
    rcases (map_cases hs hcall).2 with ⟨e, -, hg⟩ | ⟨-, hm⟩
    · exact h.grown writable_intermediate hg
    · exact hm.intermediates writable_intermediate h
  | unmap virt r s' _ hcall =>
    rcases (unmap_cases hcall).2 with ⟨e, -, rfl⟩ | ⟨pa, -, hu⟩
    · exact h
    · obtain ⟨t, hw, -, -, rfl⟩ := hu.cleared
      exact h.withEntry hs.tree hw _
  | frames fs _ => exact h

/-- And so does a run. -/
theorem PagingReachable.writable {s₀ : PagingState σ} (hrun : PagingReachable src s₀ s) (hs : Sound src s₀)
    (h : IntermediatesWritable s₀) : IntermediatesWritable s := by
  induction hrun with
  | refl => exact h
  | tail hrun hstep ih => exact hstep.writable (PagingReachable.sound hrun hs) ih

/-- The entries on the way to a page that was mapped: those that were present, new intermediate ones, and the entry of the page. -/
theorem Mapped.visited (h : Mapped src s s' virt phys flags) :
    (s'.visited (pathOf virt)).length = 4 ∧
    ∃ new, s'.visited (pathOf virt) =
        (s.visited (pathOf virt)).filter (·.isPresent) ++ new ++ [.set phys (flags.bitor .present)] ∧
      (s.visited (pathOf virt)).filter (·.isPresent) = (s.visited (tablePath virt)).filter (·.isPresent) ∧
      ∀ e ∈ new, ∃ a, e = .set a (intermediateFlags (flags.bitor .present)) := by
  obtain ⟨s₁, t, ho, hpres, rfl⟩ := h.opened
  obtain ⟨new, hvis, hnew⟩ := ho.visited
  have htree := ho.grown.sound.tree
  have hw := (walk_withEntry (e := .set phys (flags.bitor .present)) htree ho.walk (q := tablePath virt) (Nat.le_refl 3)).trans ho.walk
  have hsame : (Memory.withEntry s₁ t (indexAt virt 12) (.set phys (flags.bitor .present))).visited (tablePath virt) =
      s₁.visited (tablePath virt) := TableTree.visited_write_leaf htree ho.walk rfl _ _ (Nat.le_refl 3)
  have hall : (Memory.withEntry s₁ t (indexAt virt 12) (.set phys (flags.bitor .present))).visited (pathOf virt) =
      s₁.visited (tablePath virt) ++ [.set phys (flags.bitor .present)] := by
    rw [pathOf_eq, visited_concat hw, hsame]
    congr 2
    exact TableTree.write_self _ _ _
  refine ⟨?_, new, ?_, ho.filter_concat hpres, hnew⟩
  · have hthree : (s₁.visited (tablePath virt)).length = 3 := TableTree.length_visited ho.walk
    rw [hall, List.length_append, hthree]
    rfl
  · rw [hall, hvis, pathOf_eq, ho.filter_concat hpres]

/-- A flag is on every entry on the way to a page that was mapped exactly when it was asked for and is on every entry that was
present, provided new intermediate entries get it when it is asked for. -/
theorem Mapped.forall_visited_iff (h : Mapped src s s' virt phys flags) {k : Nat} (hk : k ≠ 0)
    (hmask : physAddrMask.getLsbD k = false)
    (hinter : flags.bits.getLsbD k = true → (intermediateFlags (flags.bitor .present)).bits.getLsbD k = true) :
    (∀ e ∈ s'.visited (pathOf virt), e.bits.getLsbD k = true) ↔
      (∀ e ∈ s.visited (pathOf virt), e.isPresent = true → e.bits.getLsbD k = true) ∧ flags.bits.getLsbD k = true := by
  obtain ⟨-, new, hvis, -, hnew⟩ := h.visited
  have hleaf : (PageTableEntry.set phys (flags.bitor .present)).bits.getLsbD k = flags.bits.getLsbD k := by
    rw [PageTableEntry.getLsbD_set hmask]
    simp [PageFlags.bitor, PageFlags.present, hk]
  rw [hvis]
  simp only [List.mem_append, List.mem_singleton]
  constructor
  · intro hall
    refine ⟨fun e he hpres => hall e (.inl (.inl (List.mem_filter.mpr ⟨he, hpres⟩))), ?_⟩
    exact hleaf.symm.trans (hall _ (.inr rfl))
  · rintro ⟨hold, hflag⟩ e ((he | he) | rfl)
    · obtain ⟨he, hpres⟩ := List.mem_filter.mp he
      exact hold e he hpres
    · obtain ⟨a, rfl⟩ := hnew e he
      rw [PageTableEntry.getLsbD_set hmask]
      exact hinter hflag
    · exact hleaf.trans hflag

/-- Where intermediate entries are writable, the present entries on the way to a page that was mapped were. -/
theorem Mapped.writable_before (h : Mapped src s s' virt phys flags) (hw : IntermediatesWritable s) :
    ∀ e ∈ s.visited (pathOf virt), e.isPresent = true → e.bits.getLsbD 1 = true := by
  intro e he hpres
  obtain ⟨-, new, -, hfilter, -⟩ := h.visited
  have hmem : e ∈ (s.visited (tablePath virt)).filter (·.isPresent) := by
    rw [← hfilter]
    exact List.mem_filter.mpr ⟨he, hpres⟩
  obtain ⟨p, i, q, u, hsplit, hu, rfl⟩ := TableTree.mem_visited (List.mem_filter.mp hmem).1
  refine hw p u i ?_ hu hpres
  have hlen := congrArg List.length hsplit
  simp only [tablePath, List.length_cons, List.length_nil, List.length_append] at hlen
  omega

end Access

/-- From empty tables, in every run, for a call of `map` that succeeds: the page has four entries on its way, and it gets the access
that was asked for (each of the flags for user access and for writing is set on all four entries exactly when it was asked for) if
and only if user access was not asked for, or every entry that was present on the way before the call has it. -/
theorem map_grants_access_iff (src : FrameSource σ) (s₀ s s' : PagingState σ) (hempty : ∀ i, s₀.tables s₀.root i = .empty)
    (hfresh : ∀ f ∈ src.avail s₀.frames, f.startAddress ≠ s₀.root) (hrun : PagingReachable src s₀ s) (virt phys : Nat)
    (flags : PageFlags) (hmap : map src.alloc virt phys flags s = some (.ok (), s')) :
    (s'.visited (pathOf virt)).length = 4 ∧
    (((∀ e ∈ s'.visited (pathOf virt), e.flags.contains .user = true) ↔ flags.contains .user = true) ∧
        ((∀ e ∈ s'.visited (pathOf virt), e.flags.contains .writable = true) ↔ flags.contains .writable = true) ↔
      (flags.contains .user = true → ∀ e ∈ s.visited (pathOf virt), e.isPresent = true → e.flags.contains .user = true)) := by
  have hsound₀ : Sound src s₀ := sound_of_empty hempty hfresh
  have hwritable₀ : IntermediatesWritable s₀ := intermediates_of_empty hempty _
  have hs := hrun.sound hsound₀
  rcases (map_cases hs hmap).2 with ⟨e, he, -⟩ | ⟨-, hm⟩
  · exact nomatch he
  have hflags : ∀ g k, k < 64 → g.bits = 1#64 <<< k → physAddrMask.getLsbD k = false →
      (∀ e : PageTableEntry, e.flags.contains g = e.bits.getLsbD k) ∧ flags.contains g = flags.bits.getLsbD k :=
    fun g k hk hg hmask => ⟨fun e => PageTableEntry.flags_contains hk hg hmask, PageFlags.contains_bit _ _ hk hg⟩
  obtain ⟨huser, hfu⟩ := hflags .user 2 (by decide) rfl (by decide)
  obtain ⟨hwrite, hfw⟩ := hflags .writable 1 (by decide) rfl (by decide)
  obtain ⟨-, hi1, hi2, -⟩ := intermediate_bits (flags.bitor .present)
  have hU := hm.forall_visited_iff (k := 2) (by decide) (by decide) fun hu => hi2.trans (by simp [PageFlags.bitor, hu])
  have hW := hm.forall_visited_iff (k := 1) (by decide) (by decide) fun _ => hi1
  have hold := hm.writable_before (hrun.writable hsound₀ hwritable₀)
  simp only [huser, hwrite, hfu, hfw, hU, hW]
  refine ⟨hm.visited.1, fun hiff hu => (hiff.1.mpr hu).1, fun h => ⟨⟨And.right, ?_⟩, And.right, ?_⟩⟩
  · intro hu
    exact ⟨h hu, hu⟩
  · intro hw
    exact ⟨hold, hw⟩

theorem map_grants_access_iff_empty :
    ∃ s₁, map (sequentialSource 16 (by decide)).alloc 0x400000 0x9000 .writable emptyPaging = some (.ok (), s₁) ∧
      (s₁.visited (pathOf 0x400000)).length = 4 ∧ ∀ e ∈ s₁.visited (pathOf 0x400000), e.flags.contains .writable = true := by
  refine ⟨_, rfl, ?_⟩
  obtain ⟨hlen, hiff⟩ := map_grants_access_iff (sequentialSource 16 (by decide)) emptyPaging emptyPaging _ (fun _ => rfl)
    emptyPaging_fresh .refl 0x400000 0x9000 .writable rfl
  exact ⟨hlen, (hiff.mpr fun h => absurd h (by decide)).2.mpr (by decide)⟩

/-- A page mapped for the kernel, and then a page of the same table for user space. -/
theorem user_page_behind_kernel_tables :
    ∃ s₁ s₂, map (sequentialSource 16 (by decide)).alloc 0x400000 0x9000 .writable emptyPaging = some (.ok (), s₁) ∧
      map (sequentialSource 16 (by decide)).alloc 0x401000 0xA000 .user s₁ = some (.ok (), s₂) ∧
      PageFlags.user.contains .user = true ∧ ∃ e ∈ s₂.visited (pathOf 0x401000), e.flags.contains .user = false := by
  refine ⟨_, _, rfl, rfl, by decide, ?_⟩
  decide

end Memory

end GolemKernel
