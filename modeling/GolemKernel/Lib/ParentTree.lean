import Mathlib

/-!
# Trees given by parent pointers

A finite tree is often stored twice: every node carries a pointer to its parent, and every inner node carries a table of named
entries for its children. `Climb` is the walk along the parent pointers up to the root, as the list of the nodes it visits;
`NamedTree` is the pair of the two structures, and `NamedTree.WellFormed` says that they describe the same tree. The three ways
to change such a tree (`graft` a new leaf, `prune` a leaf, `move` a subtree) keep it well-formed, each under the check its
caller must make. A graft and a move do the same with a node, which is new or not (`Hung`).
-/

namespace GolemKernel

/-- The walk from a node up to the root along the parent pointers, as the list of the nodes visited, the node itself first and
the root last. -/
inductive Climb {ι : Type*} (parent : ι → Option ι) (root : ι) : List ι → ι → Prop where
  | root : Climb parent root [root] root
  | step {l : List ι} {i p : ι} : i ≠ root → parent i = some p → Climb parent root l p → Climb parent root (i :: l) i

namespace Climb

variable {ι : Type*} {parent parent' : ι → Option ι} {root : ι}

/-- A climb begins at the node it climbs from. -/
theorem mem_self {l : List ι} {i : ι} (h : Climb parent root l i) : i ∈ l := by
  cases h <;> simp

/-- There is one way up: the climb from a node is determined by it. -/
theorem unique {l l' : List ι} {i : ι} (h : Climb parent root l i) (h' : Climb parent root l' i) : l = l' := by
  induction h generalizing l' with
  | root =>
    cases h' with
    | root => rfl
    | step hne _ _ => exact absurd rfl hne
  | step hne hp _ ih =>
    cases h' with
    | root => exact absurd rfl hne
    | step _ hp' hc' =>
      rw [hp] at hp'
      obtain rfl := Option.some.inj hp'
      rw [ih hc']

/-- Every node of a climb has its own climb, the rest of the list from that node on. -/
theorem suffix {l : List ι} {i j : ι} (h : Climb parent root l i) (hj : j ∈ l) :
    ∃ l', l' <:+ l ∧ Climb parent root l' j := by
  induction h with
  | root =>
    obtain rfl := List.mem_singleton.mp hj
    exact ⟨[j], List.suffix_refl _, Climb.root⟩
  | @step l i p hne hp hc ih =>
    rcases List.mem_cons.mp hj with rfl | hj
    · exact ⟨j :: l, List.suffix_refl _, Climb.step hne hp hc⟩
    · obtain ⟨l', hs, hc'⟩ := ih hj
      exact ⟨l', hs.trans (List.suffix_cons _ _), hc'⟩

/-- A climb visits no node twice: a node met again would have two climbs of different lengths. -/
theorem nodup {l : List ι} {i : ι} (h : Climb parent root l i) : l.Nodup := by
  induction h with
  | root => simp
  | @step l i p hne hp hc ih =>
    refine List.nodup_cons.mpr ⟨fun hi => ?_, ih⟩
    obtain ⟨l', hs, hc'⟩ := hc.suffix hi
    have heq : i :: l = l' := (Climb.step hne hp hc).unique hc'
    have hlen := hs.length_le
    rw [← heq, List.length_cons] at hlen
    omega

/-- Every node of a climb other than the root has a parent pointer, to a node of the climb. -/
theorem parent_mem {l : List ι} {i j : ι} (h : Climb parent root l i) (hj : j ∈ l) (hr : j ≠ root) :
    ∃ p ∈ l, parent j = some p := by
  obtain ⟨l', hs, hc⟩ := h.suffix hj
  cases hc with
  | root => exact absurd rfl hr
  | step _ hp hc' => exact ⟨_, hs.subset (List.mem_cons_of_mem _ hc'.mem_self), hp⟩

/-- No node other than the root is its own parent. -/
theorem parent_ne_self {l : List ι} {i : ι} (h : Climb parent root l i) (hr : i ≠ root) : parent i ≠ some i := by
  intro hp
  cases h with
  | root => exact absurd rfl hr
  | step _ hp' hc =>
    rw [hp] at hp'
    obtain rfl := Option.some.inj hp'
    exact (List.nodup_cons.mp (Climb.step hr hp hc).nodup).1 hc.mem_self

/-- A climb reads the parent pointers of its own nodes only. -/
theorem congr {l : List ι} {i : ι} (h : Climb parent root l i)
    (hp : ∀ j ∈ l, j ≠ root → parent' j = parent j) : Climb parent' root l i := by
  induction h with
  | root => exact Climb.root
  | step hne hpar _ ih =>
    refine Climb.step hne ?_ (ih fun j hj => hp j (List.mem_cons_of_mem _ hj))
    rw [hp _ List.mem_cons_self hne, hpar]

/-- A climb meets a node other than its first only as somebody's parent. -/
theorem not_mem_of_childless {l : List ι} {i x : ι} (h : Climb parent root l i) (hx : ∀ j, parent j ≠ some x)
    (hne : i ≠ x) : x ∉ l := by
  induction h with
  | root => simpa using hne.symm
  | step _ hp _ ih =>
    refine fun hmem => ?_
    rcases List.mem_cons.mp hmem with rfl | hmem
    · exact hne rfl
    · exact ih (fun he => hx _ (he ▸ hp)) hmem

/-- A subtree hung below a node that does not lie in it: every node still climbs to the root. -/
theorem reparent {l : List ι} {x p : ι} (hp : Climb parent root l p) (hx : x ∉ l) (hr : x ≠ root)
    (hnew : parent' x = some p) (hold : ∀ j, j ≠ x → parent' j = parent j) {m : List ι} {i : ι}
    (h : Climb parent root m i) : ∃ m', Climb parent' root m' i := by
  have hp' : Climb parent' root l p := hp.congr fun j hj _ => hold j fun he => hx (he ▸ hj)
  induction h with
  | root => exact ⟨_, Climb.root⟩
  | @step _ i _ hne hpar _ ih =>
    by_cases hi : i = x
    · subst hi
      exact ⟨_, Climb.step hr hnew hp'⟩
    · obtain ⟨m', hc⟩ := ih
      exact ⟨_, Climb.step hne (by rw [hold i hi, hpar]) hc⟩

end Climb

/-- A tree stored as parent pointers (`none`: the node is absent) and as tables of named entries. -/
structure NamedTree (ι ν : Type*) where
  parent : ι → Option ι
  entry : ι → ν → Option ι

namespace NamedTree

variable {ι ν : Type*}

/-- The two structures describe one tree: the root is its own parent, an entry names a node whose parent is the entry's owner,
every other node is named once by its parent, and every node climbs to the root. -/
structure WellFormed (root : ι) (t : NamedTree ι ν) : Prop where
  root_parent : t.parent root = some root
  entry_parent : ∀ {d n i}, t.entry d n = some i → t.parent i = some d
  root_unnamed : ∀ d n, t.entry d n ≠ some root
  named : ∀ {i p}, t.parent i = some p → i ≠ root → ∃ n, t.entry p n = some i
  named_once : ∀ {d n n' i}, t.entry d n = some i → t.entry d n' = some i → n = n'
  climbs : ∀ {i p}, t.parent i = some p → ∃ l, Climb t.parent root l i

section Changes

variable [DecidableEq ι] [DecidableEq ν]

/-- Add the leaf `i` under the name `n` of `d`. -/
def graft (t : NamedTree ι ν) (d : ι) (n : ν) (i : ι) : NamedTree ι ν where
  parent := Function.update t.parent i (some d)
  entry := fun e m => if e = d ∧ m = n then some i else t.entry e m

/-- Remove the leaf `i`, named `n` in `d`. -/
def prune (t : NamedTree ι ν) (d : ι) (n : ν) (i : ι) : NamedTree ι ν where
  parent := Function.update t.parent i none
  entry := fun e m => if e = d ∧ m = n then none else t.entry e m

/-- Move the node `i`, named `n` in `d`, to the name `n'` of `d'`. -/
def move (t : NamedTree ι ν) (d : ι) (n : ν) (i : ι) (d' : ι) (n' : ν) : NamedTree ι ν where
  parent := Function.update t.parent i (some d')
  entry := fun e m => if e = d' ∧ m = n' then some i else if e = d ∧ m = n then none else t.entry e m

end Changes

variable {root : ι} {t : NamedTree ι ν}

/-- A node is named by one entry of the whole tree. -/
theorem WellFormed.entry_unique (h : t.WellFormed root) {d d' : ι} {n n' : ν} {i : ι} (he : t.entry d n = some i)
    (he' : t.entry d' n' = some i) : d = d' ∧ n = n' := by
  have hd : d = d' := Option.some.inj ((h.entry_parent he).symm.trans (h.entry_parent he'))
  subst hd
  exact ⟨rfl, h.named_once he he'⟩

/-- A node without entries is nobody's parent. -/
theorem WellFormed.childless (h : t.WellFormed root) {i : ι} (hr : i ≠ root) (hi : ∀ n, t.entry i n = none) :
    ∀ j, t.parent j ≠ some i := by
  intro j hj
  by_cases hjr : j = root
  · subst hjr
    rw [h.root_parent] at hj
    exact hr (Option.some.inj hj).symm
  · obtain ⟨n, hn⟩ := h.named hj hjr
    rw [hi n] at hn
    nomatch hn

/-! ### The way down -/

/-- Follow a list of names down from a node. -/
def descend (t : NamedTree ι ν) : ι → List ν → Option ι
  | x, [] => some x
  | x, n :: ns => (t.entry x n).bind fun y => t.descend y ns

/-- A way down in two parts. -/
theorem descend_append (t : NamedTree ι ν) (x : ι) (p q : List ν) :
    t.descend x (p ++ q) = (t.descend x p).bind fun y => t.descend y q := by
  induction p generalizing x with
  | nil => rfl
  | cons n p ih =>
    simp only [List.cons_append, descend, Option.bind_assoc]
    congr 1
    funext y
    exact ih y

theorem descend_concat (t : NamedTree ι ν) (x : ι) (p : List ν) (n : ν) :
    t.descend x (p ++ [n]) = (t.descend x p).bind fun y => t.entry y n := by
  simp [descend_append, descend]

/-- There is one way down: the names that lead from the root to a node are determined by it. -/
theorem WellFormed.descend_inj (h : t.WellFormed root) {p q : List ν} {x : ι} (hp : t.descend root p = some x)
    (hq : t.descend root q = some x) : p = q := by
  induction p using List.reverseRecOn generalizing q x with
  | nil =>
    obtain rfl := Option.some.inj hp
    cases q using List.reverseRecOn with
    | nil => rfl
    | append_singleton q n =>
      rw [descend_concat] at hq
      obtain ⟨y, -, hy⟩ := Option.bind_eq_some_iff.mp hq
      exact absurd hy (h.root_unnamed y n)
  | append_singleton p n ih =>
    rw [descend_concat] at hp
    obtain ⟨y, hp, hy⟩ := Option.bind_eq_some_iff.mp hp
    cases q using List.reverseRecOn with
    | nil =>
      obtain rfl := Option.some.inj hq
      exact absurd hy (h.root_unnamed y n)
    | append_singleton q m =>
      rw [descend_concat] at hq
      obtain ⟨z, hzq, hz⟩ := Option.bind_eq_some_iff.mp hq
      obtain ⟨rfl, rfl⟩ := h.entry_unique hy hz
      rw [ih hp hzq]

/-- A node is on the climb of every node below it. -/
theorem WellFormed.climb_descend (h : t.WellFormed root) {l : List ι} {x y : ι} (hx : Climb t.parent root l x) {p : List ν}
    (hy : t.descend x p = some y) : ∃ l', Climb t.parent root l' y ∧ x ∈ l' := by
  induction p using List.reverseRecOn generalizing y with
  | nil =>
    obtain rfl := Option.some.inj hy
    exact ⟨l, hx, hx.mem_self⟩
  | append_singleton p n ih =>
    rw [descend_concat] at hy
    obtain ⟨z, hz, hzy⟩ := Option.bind_eq_some_iff.mp hy
    obtain ⟨l', hl', hmem⟩ := ih hz
    have hyr : y ≠ root := by
      rintro rfl
      exact h.root_unnamed z n hzy
    exact ⟨y :: l', Climb.step hyr (h.entry_parent hzy) hl', List.mem_cons_of_mem _ hmem⟩

/-! ### A node at a new place -/

/-- `t'` is `t` with the node `i` at the name `n` of `d`, wherever it was in `t`, if it was there. -/
structure Hung (t t' : NamedTree ι ν) (d : ι) (n : ν) (i : ι) : Prop where
  self : t'.parent i = some d
  parent : ∀ j, j ≠ i → t'.parent j = t.parent j
  entry : ∀ e m j, t'.entry e m = some j ↔ (e = d ∧ m = n ∧ j = i) ∨ (t.entry e m = some j ∧ j ≠ i)

/-- Hanging a node below one that does not lie in its own subtree keeps the tree well-formed. -/
theorem WellFormed.hang (h : t.WellFormed root) {t' : NamedTree ι ν} {d i : ι} {n : ν} {l : List ι} (hung : Hung t t' d n i)
    (hir : i ≠ root) (hl : Climb t.parent root l d) (hi : i ∉ l) : t'.WellFormed root := by
  refine ⟨?_, ?_, ?_, ?_, ?_, ?_⟩
  · rw [hung.parent root hir.symm]
    exact h.root_parent
  · intro e m j he
    rcases (hung.entry e m j).mp he with ⟨rfl, -, rfl⟩ | ⟨hold, hji⟩
    · exact hung.self
    · rw [hung.parent j hji]
      exact h.entry_parent hold
  · intro e m he
    rcases (hung.entry e m root).mp he with ⟨-, -, hri⟩ | ⟨hold, -⟩
    · exact hir hri.symm
    · exact h.root_unnamed e m hold
  · intro j q hj hjr
    by_cases hji : j = i
    · subst hji
      obtain rfl := Option.some.inj (hung.self.symm.trans hj)
      exact ⟨n, (hung.entry _ n j).mpr (.inl ⟨rfl, rfl, rfl⟩)⟩
    · rw [hung.parent j hji] at hj
      obtain ⟨m, hm⟩ := h.named hj hjr
      exact ⟨m, (hung.entry q m j).mpr (.inr ⟨hm, hji⟩)⟩
  · intro e m m' j he he'
    rcases (hung.entry e m j).mp he with ⟨-, hm, hj⟩ | ⟨hold, hj⟩
    · rcases (hung.entry e m' j).mp he' with ⟨-, hm', -⟩ | ⟨-, hj'⟩
      · exact hm.trans hm'.symm
      · exact absurd hj hj'
    · rcases (hung.entry e m' j).mp he' with ⟨-, -, hj'⟩ | ⟨hold', -⟩
      · exact absurd hj' hj
      · exact h.named_once hold hold'
  · intro j q hj
    by_cases hji : j = i
    · subst hji
      exact ⟨_, Climb.step hir hung.self (hl.congr fun k hk _ => hung.parent k fun hkj => hi (hkj ▸ hk))⟩
    · rw [hung.parent j hji] at hj
      obtain ⟨m, hc⟩ := h.climbs hj
      exact hl.reparent hi hir hung.self hung.parent hc

variable [DecidableEq ι] [DecidableEq ν]

/-- A new leaf at a free name. -/
theorem WellFormed.hung_graft (h : t.WellFormed root) {d : ι} {n : ν} {i : ι} (hi : t.parent i = none) (hn : t.entry d n = none) :
    Hung t (t.graft d n i) d n i := by
  refine ⟨Function.update_self i _ _, fun j hj => Function.update_of_ne hj _ _, ?_⟩
  intro e m j
  by_cases hem : e = d ∧ m = n
  · obtain ⟨rfl, rfl⟩ := hem
    simp [NamedTree.graft, hn, eq_comm]
  · have hunnamed : t.entry e m = some j → j ≠ i := by
      rintro he rfl
      rw [h.entry_parent he] at hi
      nomatch hi
    simp only [NamedTree.graft, if_neg hem]
    constructor
    · intro he
      exact .inr ⟨he, hunnamed he⟩
    · rintro (⟨he, hm, -⟩ | ⟨he, -⟩)
      · exact absurd ⟨he, hm⟩ hem
      · exact he

/-- Grafting a new leaf at a free name of a node keeps the tree well-formed. -/
theorem WellFormed.graft (h : t.WellFormed root) {d p : ι} {n : ν} {i : ι} (hd : t.parent d = some p)
    (hi : t.parent i = none) (hn : t.entry d n = none) : (t.graft d n i).WellFormed root := by
  have hir : i ≠ root := by
    rintro rfl
    rw [h.root_parent] at hi
    nomatch hi
  obtain ⟨l, hl⟩ := h.climbs hd
  refine h.hang (h.hung_graft hi hn) hir hl ?_
  intro hil
  obtain ⟨q, -, hq⟩ := hl.parent_mem hil hir
  rw [hi] at hq
  nomatch hq

/-- Pruning a leaf keeps the tree well-formed. -/
theorem WellFormed.prune (h : t.WellFormed root) {d : ι} {n : ν} {i : ι} (hn : t.entry d n = some i)
    (hleaf : ∀ m, t.entry i m = none) : (t.prune d n i).WellFormed root := by
  have hir : i ≠ root := fun hir => h.root_unnamed d n (hir ▸ hn)
  have hpar : ∀ j, j ≠ i → (t.prune d n i).parent j = t.parent j := fun j hj => Function.update_of_ne hj _ _
  have hother : ∀ {j q}, (t.prune d n i).parent j = some q → j ≠ i := by
    rintro j q hj rfl
    have hself : (t.prune d n j).parent j = none := Function.update_self j _ _
    rw [hself] at hj
    cases hj
  have hold : ∀ {e m j}, (t.prune d n i).entry e m = some j → t.entry e m = some j ∧ ¬(e = d ∧ m = n) := by
    intro e m j he
    by_cases hem : e = d ∧ m = n
    · simp [NamedTree.prune, hem] at he
    · simp only [NamedTree.prune, hem, if_false] at he
      exact ⟨he, hem⟩
  refine ⟨?_, ?_, ?_, ?_, ?_, ?_⟩
  · rw [hpar root hir.symm]
    exact h.root_parent
  · intro e m j he
    obtain ⟨hej, hem⟩ := hold he
    have hji : j ≠ i := fun hji => hem (h.entry_unique (hji ▸ hej) hn)
    rw [hpar j hji]
    exact h.entry_parent hej
  · intro e m he
    exact h.root_unnamed e m (hold he).1
  · intro j q hj hjr
    have hji := hother hj
    rw [hpar j hji] at hj
    obtain ⟨m, hm⟩ := h.named hj hjr
    refine ⟨m, ?_⟩
    have hne : ¬(q = d ∧ m = n) := by
      rintro ⟨rfl, rfl⟩
      rw [hn] at hm
      exact hji (Option.some.inj hm).symm
    simp only [NamedTree.prune, hne, if_false]
    exact hm
  · intro e m m' j he he'
    exact h.named_once (hold he).1 (hold he').1
  · intro j q hj
    have hji := hother hj
    rw [hpar j hji] at hj
    obtain ⟨l, hc⟩ := h.climbs hj
    have hil : i ∉ l := hc.not_mem_of_childless (h.childless hir hleaf) hji
    exact ⟨l, hc.congr fun k hk _ => hpar k fun hki => hil (hki ▸ hk)⟩

/-- A node at a free name, its old name taken away. -/
theorem WellFormed.hung_move (h : t.WellFormed root) {d d' : ι} {n n' : ν} {i : ι} (hn : t.entry d n = some i)
    (hfree : t.entry d' n' = none) : Hung t (t.move d n i d' n') d' n' i := by
  refine ⟨Function.update_self i _ _, fun j hj => Function.update_of_ne hj _ _, ?_⟩
  intro e m j
  by_cases hem : e = d' ∧ m = n'
  · obtain ⟨rfl, rfl⟩ := hem
    simp [NamedTree.move, hfree, eq_comm]
  · have hnew : ¬(e = d' ∧ m = n' ∧ j = i) := fun hnew => hem ⟨hnew.1, hnew.2.1⟩
    simp only [NamedTree.move, if_neg hem, hnew, false_or]
    by_cases hold : e = d ∧ m = n
    · obtain ⟨rfl, rfl⟩ := hold
      simp [hn, eq_comm]
    · rw [if_neg hold, and_iff_left_of_imp]
      rintro he rfl
      exact hold (h.entry_unique he hn)

/-- Moving a node to a free name of a node outside its own subtree keeps the tree well-formed. -/
theorem WellFormed.move (h : t.WellFormed root) {d d' : ι} {n n' : ν} {i : ι} {l : List ι} (hn : t.entry d n = some i)
    (hfree : t.entry d' n' = none) (hl : Climb t.parent root l d') (hi : i ∉ l) : (t.move d n i d' n').WellFormed root :=
  h.hang (h.hung_move hn hfree) (fun hir => h.root_unnamed d n (hir ▸ hn)) hl hi

end NamedTree

end GolemKernel
