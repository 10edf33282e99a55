import Mathlib

/-!
# Trees of tables in a memory

A memory holds tables, each a function from indices to entries. An entry found at depth `d` may name a table one level down
(`child d`). A list of indices is followed from the root through such entries: `walk` gives the table it leads to, `probe` the
entry at which it ends, with its depth, and `visited` the entries on the way. The memory is a tree down to depth `n` when no table
is at the end of two walks of at most `n` steps.

Two changes are described by their effect on all walks: a store to an entry of a table at the last level, and the hanging of an
empty table, taken from outside the tree, into an entry that named none.
-/

namespace GolemKernel

namespace TableTree

variable {α ι ε : Type} (child : Nat → ε → Option α) (mem : α → ι → ε)

/-- The table at the end of a path that begins in table `t` at depth `d`. -/
def walk : Nat → α → List ι → Option α
  | _, t, [] => some t
  | d, t, i :: path => (child d (mem t i)).bind fun u => walk (d + 1) u path

/-- The entry at which a path ends: the first on it that names no table. -/
def probe : Nat → α → List ι → Option (Nat × ε)
  | _, _, [] => none
  | d, t, i :: path =>
    match child d (mem t i) with
    | none => some (d, mem t i)
    | some u => probe (d + 1) u path

/-- The entries on a path, up to the one at which it ends. -/
def visited : Nat → α → List ι → List ε
  | _, _, [] => []
  | d, t, i :: path =>
    mem t i ::
      match child d (mem t i) with
      | none => []
      | some u => visited (d + 1) u path

/-- No table is reached by two paths of at most `n` steps. -/
def IsTree (root : α) (n : Nat) : Prop :=
  ∀ (p q : List ι) (t : α), p.length ≤ n → q.length ≤ n → walk child mem 0 root p = some t → walk child mem 0 root q = some t → p = q

/-- The tables of the tree. -/
def Holds (root : α) (n : Nat) (t : α) : Prop := ∃ p : List ι, p.length ≤ n ∧ walk child mem 0 root p = some t

variable {child mem}

/-- A walk along two lists goes on from where the first leads. -/
theorem walk_append {d : Nat} {t : α} (p q : List ι) :
    walk child mem d t (p ++ q) = (walk child mem d t p).bind fun u => walk child mem (d + p.length) u q := by
  induction p generalizing d t with
  | nil => rfl
  | cons i p ih =>
    simp only [List.cons_append, walk, List.length_cons, Option.bind_assoc]
    congr 1
    funext u
    rw [ih, Nat.add_right_comm d 1 p.length]
    rfl

/-- A walk with one more step goes through one more entry. -/
theorem walk_concat {d : Nat} {t u : α} {p : List ι} (h : walk child mem d t p = some u) (i : ι) :
    walk child mem d t (p ++ [i]) = child (d + p.length) (mem u i) := by
  rw [walk_append, h, Option.bind_some]
  simp only [walk]
  cases child (d + p.length) (mem u i) <;> rfl

/-- A probe along a way that leads to a table goes on from there. -/
theorem probe_append {d : Nat} {t u : α} {p : List ι} (h : walk child mem d t p = some u) (q : List ι) :
    probe child mem d t (p ++ q) = probe child mem (d + p.length) u q := by
  induction p generalizing d t with
  | nil =>
    obtain rfl := Option.some.inj h
    rfl
  | cons i p ih =>
    obtain ⟨v, hv, hrest⟩ := Option.bind_eq_some_iff.mp h
    simp only [List.cons_append, probe, hv, List.length_cons]
    rw [ih hrest, Nat.add_right_comm d 1 p.length]
    rfl

/-- The entries on a way are those of its two parts. -/
theorem visited_append {d : Nat} {t u : α} {p : List ι} (h : walk child mem d t p = some u) (q : List ι) :
    visited child mem d t (p ++ q) = visited child mem d t p ++ visited child mem (d + p.length) u q := by
  induction p generalizing d t with
  | nil =>
    obtain rfl := Option.some.inj h
    rfl
  | cons i p ih =>
    obtain ⟨v, hv, hrest⟩ := Option.bind_eq_some_iff.mp h
    simp only [List.cons_append, visited, hv, List.length_cons]
    rw [ih hrest, Nat.add_right_comm d 1 p.length]
    rfl

/-- On a way that leads nowhere no more entries are visited. -/
theorem visited_append_of_none {d : Nat} {t : α} {p : List ι} (h : walk child mem d t p = none) (q : List ι) :
    visited child mem d t (p ++ q) = visited child mem d t p := by
  induction p generalizing d t with
  | nil => exact nomatch h
  | cons i p ih =>
    simp only [List.cons_append, visited]
    cases hc : child d (mem t i) with
    | none => rfl
    | some u =>
      simp only [walk, hc, Option.bind_some] at h
      exact congrArg (mem t i :: ·) (ih h)

/-- The entries of a path that leads to a table all name a table. -/
theorem child_of_walk {d : Nat} {t u v : α} {p q : List ι} {i : ι} (h : walk child mem d t (p ++ i :: q) = some u)
    (hp : walk child mem d t p = some v) : (child (d + p.length) (mem v i)).isSome := by
  rw [walk_append, hp, Option.bind_some] at h
  obtain ⟨w, hw, -⟩ := Option.bind_eq_some_iff.mp h
  rw [hw]
  rfl

/-- On a way that leads to a table there is one entry for each step. -/
theorem length_visited {d : Nat} {t u : α} {p : List ι} (h : walk child mem d t p = some u) :
    (visited child mem d t p).length = p.length := by
  induction p generalizing d t with
  | nil => rfl
  | cons i p ih =>
    obtain ⟨v, hv, hrest⟩ := Option.bind_eq_some_iff.mp h
    simp only [visited, hv, List.length_cons, ih hrest]

/-- Where on the path an entry is. -/
theorem mem_visited {d : Nat} {t : α} {path : List ι} {e : ε} (he : e ∈ visited child mem d t path) :
    ∃ p i q u, path = p ++ i :: q ∧ walk child mem d t p = some u ∧ mem u i = e := by
  induction path generalizing d t with
  | nil => exact nomatch he
  | cons i path ih =>
    simp only [visited, List.mem_cons] at he
    rcases he with rfl | he
    · exact ⟨[], i, path, t, rfl, rfl, rfl⟩
    · cases hc : child d (mem t i) with
      | none =>
        rw [hc] at he
        exact nomatch he
      | some v =>
        rw [hc] at he
        obtain ⟨p, j, q, u, rfl, hp, hu⟩ := ih he
        refine ⟨i :: p, j, q, u, rfl, ?_, hu⟩
        simp only [walk, hc, Option.bind_some]
        exact hp

/-- Two memories in which the entries a path goes through are the same. -/
theorem path_congr {mem' : α → ι → ε} {d : Nat} {t : α} {path : List ι}
    (h : ∀ p i q u, path = p ++ i :: q → walk child mem d t p = some u → mem' u i = mem u i) :
    walk child mem' d t path = walk child mem d t path ∧ probe child mem' d t path = probe child mem d t path ∧
      visited child mem' d t path = visited child mem d t path := by
  induction path generalizing d t with
  | nil => exact ⟨rfl, rfl, rfl⟩
  | cons i path ih =>
    have hi : mem' t i = mem t i := h [] i path t rfl rfl
    simp only [walk, probe, visited, hi]
    cases hc : child d (mem t i) with
    | none => exact ⟨rfl, rfl, rfl⟩
    | some u =>
      obtain ⟨h1, h2, h3⟩ := ih fun p j q v hp hv => h (i :: p) j q v (by rw [hp]; rfl) (by
        simp only [walk, hc, Option.bind_some]
        exact hv)
      exact ⟨h1, h2, congrArg (mem t i :: ·) h3⟩

/-! ## A store to a table at the last level -/

variable [DecidableEq α] [DecidableEq ι]

/-- The memory with one entry replaced. -/
def write (mem : α → ι → ε) (t : α) (i : ι) (e : ε) : α → ι → ε := Function.update mem t (Function.update (mem t) i e)

/-- The entry that was stored. -/
theorem write_self (t : α) (i : ι) (e : ε) : write mem t i e t i = e := by simp [write]

/-- The other entries stay. -/
theorem write_other {t u : α} {i j : ι} {e : ε} (h : u ≠ t ∨ j ≠ i) : write mem t i e u j = mem u j := by
  rcases eq_or_ne u t with rfl | hu
  · have hj : j ≠ i := h.resolve_left fun hne => hne rfl
    simp [write, hj]
  · simp [write, hu]

section Leaf

variable {root t : α} {n : Nat} {p : List ι}

/-- The entries that lead to the tables of the tree are not in a table at the last level. -/
theorem write_leaf_agrees (htree : IsTree child mem root n) (hp : walk child mem 0 root p = some t) (hlen : p.length = n) (i : ι)
    (e : ε) {q : List ι} (hq : q.length ≤ n) :
    ∀ p' j r u, q = p' ++ j :: r → walk child mem 0 root p' = some u → write mem t i e u j = mem u j := by
  refine fun p' j r u hsplit hu => write_other (.inl fun hut => ?_)
  have hlen' : q.length = p'.length + (r.length + 1) := by rw [hsplit, List.length_append, List.length_cons]
  have := htree p' p u (by omega) (by omega) hu (by rw [hut]; exact hp)
  rw [this] at hlen'
  omega

/-- The walks of the tree do not see a store to a table at the last level. -/
theorem walk_write_leaf (htree : IsTree child mem root n) (hp : walk child mem 0 root p = some t) (hlen : p.length = n) (i : ι)
    (e : ε) {q : List ι} (hq : q.length ≤ n) : walk child (write mem t i e) 0 root q = walk child mem 0 root q :=
  (path_congr (write_leaf_agrees htree hp hlen i e hq)).1

/-- A store at the last level changes no entry on the way to a table. -/
theorem visited_write_leaf (htree : IsTree child mem root n) (hp : walk child mem 0 root p = some t) (hlen : p.length = n) (i : ι)
    (e : ε) {q : List ι} (hq : q.length ≤ n) : visited child (write mem t i e) 0 root q = visited child mem 0 root q :=
  (path_congr (write_leaf_agrees htree hp hlen i e hq)).2.2

/-- The memory stays a tree. -/
theorem IsTree.write_leaf (htree : IsTree child mem root n) (hp : walk child mem 0 root p = some t) (hlen : p.length = n)
    (i : ι) (e : ε) : IsTree child (write mem t i e) root n := by
  intro q r u hq hr hqu hru
  rw [walk_write_leaf htree hp hlen i e hq] at hqu
  rw [walk_write_leaf htree hp hlen i e hr] at hru
  exact htree q r u hq hr hqu hru

/-- A store at the last level leaves the tables of the tree. -/
theorem holds_write_leaf (htree : IsTree child mem root n) (hp : walk child mem 0 root p = some t) (hlen : p.length = n)
    (i : ι) (e : ε) {u : α} : Holds child (write mem t i e) root n u ↔ Holds child mem root n u := by
  constructor
  · rintro ⟨q, hq, hqu⟩
    exact ⟨q, hq, (walk_write_leaf htree hp hlen i e hq).symm.trans hqu⟩
  · rintro ⟨q, hq, hqu⟩
    exact ⟨q, hq, (walk_write_leaf htree hp hlen i e hq).trans hqu⟩

/-- The paths to the other entries end where they did. -/
theorem probe_write_leaf (htree : IsTree child mem root n) (hp : walk child mem 0 root p = some t) (hlen : p.length = n) (i : ι)
    (e : ε) {q : List ι} (hq : q.length = n + 1) (hne : q ≠ p ++ [i]) :
    probe child (write mem t i e) 0 root q = probe child mem 0 root q := by
  refine (path_congr fun p' j r u hsplit hu => write_other ?_).2.1
  by_contra hboth
  rw [not_or, not_not, not_not] at hboth
  obtain ⟨rfl, rfl⟩ := hboth
  have hlen' : q.length = p'.length + (r.length + 1) := by rw [hsplit, List.length_append, List.length_cons]
  obtain rfl := htree p' p u (by omega) (by omega) hu hp
  have hr : r = [] := List.length_eq_zero_iff.mp (by omega)
  exact hne (by rw [hsplit, hr])

end Leaf

/-! ## A new table -/

/-- The memory with an empty table in `f`, hung into entry `i` of table `t` by the entry `e`. -/
def graft (mem : α → ι → ε) (zero : ε) (t : α) (i : ι) (f : α) (e : ε) : α → ι → ε :=
  write (Function.update mem f fun _ => zero) t i e

section Graft

variable {root t f : α} {n : Nat} {p : List ι} {i : ι} {zero e : ε}

/-- What a graft needs: a place above the last level whose entry names no table, an entry that names the new one, which is not of
the tree, and entries of the new table that name none. -/
structure Graftable (child : Nat → ε → Option α) (mem : α → ι → ε) (root : α) (n : Nat) (zero : ε) (p : List ι) (t : α) (i : ι)
    (f : α) (e : ε) : Prop where
  tree : IsTree child mem root n
  place : walk child mem 0 root p = some t
  above : p.length < n
  vacant : child p.length (mem t i) = none
  names : child p.length e = some f
  fresh : ¬Holds child mem root n f
  empty : ∀ d, child d zero = none

namespace Graftable

variable (h : Graftable child mem root n zero p t i f e)

include h

omit [DecidableEq α] [DecidableEq ι] in
/-- The new table is not yet in the tree. -/
theorem ne_fresh {q : List ι} {u : α} (hq : q.length ≤ n) (hu : walk child mem 0 root q = some u) : u ≠ f :=
  fun huf => h.fresh ⟨q, hq, by rw [← huf]; exact hu⟩

omit h in
/-- The other entries stay. -/
theorem graft_other {u : α} {j : ι} (huf : u ≠ f) (hne : u ≠ t ∨ j ≠ i) : graft mem zero t i f e u j = mem u j := by
  unfold graft
  rw [write_other hne, Function.update_of_ne huf]

/-- A path that does not go through the new entry is not affected. -/
theorem congr {q : List ι} (hq : q.length ≤ n + 1) (hno : ∀ r, q ≠ p ++ i :: r) :
    walk child (graft mem zero t i f e) 0 root q = walk child mem 0 root q ∧
      probe child (graft mem zero t i f e) 0 root q = probe child mem 0 root q := by
  suffices h : ∀ p' j r u, q = p' ++ j :: r → walk child mem 0 root p' = some u → graft mem zero t i f e u j = mem u j from
    ⟨(path_congr h).1, (path_congr h).2.1⟩
  intro p' j r u hsplit hu
  have hlen : q.length = p'.length + (r.length + 1) := by rw [hsplit, List.length_append, List.length_cons]
  refine graft_other (h.ne_fresh (by omega) hu) ?_
  by_contra hboth
  rw [not_or, not_not, not_not] at hboth
  obtain ⟨rfl, rfl⟩ := hboth
  obtain rfl := h.tree p' p u (by omega) h.above.le hu h.place
  exact hno r hsplit

/-- The way to the place where the table is hung in. -/
theorem walk_place : walk child (graft mem zero t i f e) 0 root p = some t := by
  have hno : ∀ r, p ≠ p ++ i :: r := fun r hr => by simpa using congrArg List.length hr
  exact (h.congr (Nat.le_succ_of_le h.above.le) hno).1.trans h.place

/-- The way to the new table. -/
theorem walk_new : walk child (graft mem zero t i f e) 0 root (p ++ [i]) = some f := by
  rw [walk_concat h.walk_place, Nat.zero_add, graft, write_self, h.names]

/-- The new table is empty. -/
theorem graft_new (j : ι) : graft mem zero t i f e f j = zero := by
  have hft : f ≠ t := (h.ne_fresh h.above.le h.place).symm
  unfold graft
  rw [write_other (.inl hft), Function.update_self]

/-- Every other path leads where it did. -/
theorem walk_of_ne {q : List ι} (hq : q.length ≤ n) (hne : q ≠ p ++ [i]) :
    walk child (graft mem zero t i f e) 0 root q = walk child mem 0 root q := by
  by_cases hpre : ∃ r, q = p ++ i :: r
  · obtain ⟨r, rfl⟩ := hpre
    have hcut : p ++ i :: r = (p ++ [i]) ++ r := by simp
    have hold : walk child mem 0 root (p ++ [i]) = none := by rw [walk_concat h.place, Nat.zero_add, h.vacant]
    rw [hcut, walk_append (p ++ [i]) r, walk_append (p ++ [i]) r, h.walk_new, hold]
    cases r with
    | nil => exact absurd rfl hne
    | cons j r => simp only [walk, h.graft_new, h.empty, Option.bind_some, Option.bind_none]
  · exact (h.congr (by omega) fun r hr => hpre ⟨r, hr⟩).1

/-- The memory stays a tree. -/
theorem isTree : IsTree child (graft mem zero t i f e) root n := by
  have hnew : ∀ q : List ι, q.length ≤ n → walk child (graft mem zero t i f e) 0 root q = some f → q = p ++ [i] := by
    intro q hq hqf
    by_contra hne
    rw [h.walk_of_ne hq hne] at hqf
    exact h.fresh ⟨q, hq, hqf⟩
  intro q r u hq hr hqu hru
  by_cases hqn : q = p ++ [i]
  · rw [hqn, h.walk_new] at hqu
    rw [← Option.some.inj hqu] at hru
    rw [hqn, hnew r hr hru]
  · by_cases hrn : r = p ++ [i]
    · rw [hrn, h.walk_new] at hru
      rw [← Option.some.inj hru] at hqu
      exact absurd (hnew q hq hqu) hqn
    · rw [h.walk_of_ne hq hqn] at hqu
      rw [h.walk_of_ne hr hrn] at hru
      exact h.tree q r u hq hr hqu hru

/-- The tree has one more table. -/
theorem holds_iff {u : α} : Holds child (graft mem zero t i f e) root n u ↔ Holds child mem root n u ∨ u = f := by
  have hold : walk child mem 0 root (p ++ [i]) = none := by rw [walk_concat h.place, Nat.zero_add, h.vacant]
  constructor
  · rintro ⟨q, hq, hqu⟩
    by_cases hqn : q = p ++ [i]
    · rw [hqn, h.walk_new] at hqu
      exact .inr (Option.some.inj hqu).symm
    · exact .inl ⟨q, hq, (h.walk_of_ne hq hqn).symm.trans hqu⟩
  · rintro (⟨q, hq, hqu⟩ | rfl)
    · have hqn : q ≠ p ++ [i] := fun hqn => by rw [hqn, hold] at hqu; exact nomatch hqu
      exact ⟨q, hq, (h.walk_of_ne hq hqn).trans hqu⟩
    · exact ⟨p ++ [i], by rw [List.length_append]; exact h.above, h.walk_new⟩

/-- A path of full length ends at the same entry, unless it ended at the one that names the new table: then it ends at an empty
entry of that. -/
theorem probe_eq {q : List ι} (hq : q.length = n + 1) :
    probe child (graft mem zero t i f e) 0 root q = probe child mem 0 root q ∨
      (probe child (graft mem zero t i f e) 0 root q = some (p.length + 1, zero) ∧
        probe child mem 0 root q = some (p.length, mem t i)) := by
  by_cases hpre : ∃ r, q = p ++ i :: r
  · obtain ⟨r, rfl⟩ := hpre
    have hcut : p ++ i :: r = (p ++ [i]) ++ r := by simp
    right
    constructor
    · cases r with
      | nil =>
        have := h.above
        simp only [List.length_append, List.length_cons, List.length_nil] at hq
        omega
      | cons j r =>
        rw [hcut, probe_append h.walk_new]
        simp only [probe, h.graft_new, h.empty, List.length_append, List.length_cons, List.length_nil, Nat.zero_add]
    · rw [probe_append h.place, Nat.zero_add]
      simp only [probe, h.vacant]
  · exact .inl (h.congr hq.le fun r hr => hpre ⟨r, hr⟩).2

end Graftable

end Graft

end TableTree

end GolemKernel
