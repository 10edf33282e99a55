import Mathlib

/-!
# Hash chains

A chain is a list of entries, each of which carries a digest of its own and the digest of the entry before it; the first entry
carries a fixed digest, the genesis. `Linked` says that the digests fit together. It says nothing about what a digest is a digest
of: `Binding` is what the proofs need of that, namely that an entry's own digest determines the digest it carries of the entry
before, and is not the genesis. Under it the last digest determines how long the chain is and all the digests in it
(`Linked.forall₂_of_lastDigest`), and a linked list of the entries of a chain is a prefix of that chain
(`Linked.linked_iff_prefix`).
-/

namespace GolemKernel

/-- How the entries of a chain carry digests. -/
structure HashChain (α δ : Type*) where
  digest : α → δ
  prev : α → δ
  genesis : δ

namespace HashChain

variable {α δ : Type*} (c : HashChain α δ)

/-- The first entry carries `d`, and every other the digest of the one before it. -/
def LinkedFrom : δ → List α → Prop
  | _, [] => True
  | d, e :: es => c.prev e = d ∧ LinkedFrom (c.digest e) es

/-- A chain from the genesis. -/
def Linked (es : List α) : Prop := c.LinkedFrom c.genesis es

/-- The digest that an entry after these has to carry. -/
def lastDigest (d : δ) (es : List α) : δ := (es.getLast?.map c.digest).getD d

/-- Among the entries of `S`, a digest determines the digest before it, and none is the genesis. -/
structure Binding (S : Set α) : Prop where
  prev_eq : ∀ e ∈ S, ∀ e' ∈ S, c.digest e = c.digest e' → c.prev e = c.prev e'
  ne_genesis : ∀ e ∈ S, c.digest e ≠ c.genesis

variable {c} {d : δ} {es es' : List α} {e e' : α}

@[simp] theorem lastDigest_nil : c.lastDigest d [] = d := rfl

@[simp] theorem lastDigest_concat : c.lastDigest d (es ++ [e]) = c.digest e := by
  simp [lastDigest]

theorem lastDigest_cons : c.lastDigest d (e :: es) = c.lastDigest (c.digest e) es := by
  cases h : es.getLast? <;> simp [lastDigest, List.getLast?_cons, h]

/-- What holds of the first digest and of those of the entries holds of the last. -/
theorem lastDigest_of_forall {P : δ → Prop} (hd : P d) (hes : ∀ x ∈ es, P (c.digest x)) : P (c.lastDigest d es) := by
  rcases List.eq_nil_or_concat es with rfl | ⟨xs, x, rfl⟩
  · exact hd
  · rw [List.concat_eq_append, lastDigest_concat]
    exact hes x (by simp)

/-- A chain through an append: the second part is linked from the last digest of the first. -/
theorem linkedFrom_append (c : HashChain α δ) (d : δ) (xs ys : List α) :
    c.LinkedFrom d (xs ++ ys) ↔ c.LinkedFrom d xs ∧ c.LinkedFrom (c.lastDigest d xs) ys := by
  induction xs generalizing d with
  | nil => simp [LinkedFrom]
  | cons x xs ih => simp only [List.cons_append, LinkedFrom, ih, lastDigest_cons, and_assoc]

/-- One more element is linked if it refers to the last one. -/
theorem linked_concat_iff : c.Linked (es ++ [e]) ↔ c.Linked es ∧ c.prev e = c.lastDigest c.genesis es := by
  rw [Linked, linkedFrom_append]
  simp [LinkedFrom, Linked]

/-- The beginning of a chain is linked. -/
theorem Linked.of_prefix (h : c.Linked es) (hp : es' <+: es) : c.Linked es' := by
  obtain ⟨rest, rfl⟩ := hp
  exact ((linkedFrom_append c _ _ _).mp h).1

/-- What the entry at a place carries: the digest of the one before it, or the genesis. -/
theorem LinkedFrom.prev_of_getElem? (h : c.LinkedFrom d es) {i : Nat} (he : es[i]? = some e) :
    c.prev e = c.lastDigest d (es.take i) := by
  obtain ⟨hlt, rfl⟩ := List.getElem?_eq_some_iff.mp he
  rw [← List.take_append_drop i es, linkedFrom_append, List.drop_eq_getElem_cons hlt] at h
  exact h.2.1

/-- The first element refers to the start. -/
theorem Linked.prev_first (h : c.Linked es) (he : es[0]? = some e) : c.prev e = c.genesis := by
  simpa using LinkedFrom.prev_of_getElem? h he

/-- Every other one refers to the one before it. -/
theorem Linked.prev_next (h : c.Linked es) {i : Nat} (he : es[i]? = some e) (he' : es[i + 1]? = some e') : c.prev e' = c.digest e := by
  simpa [List.take_add_one, he] using LinkedFrom.prev_of_getElem? h he'

/-- Only the digests matter. -/
theorem linkedFrom_congr (h : List.Forall₂ (fun x y => c.digest x = c.digest y ∧ c.prev x = c.prev y) es es') (d : δ) :
    c.LinkedFrom d es ↔ c.LinkedFrom d es' := by
  induction h generalizing d with
  | nil => rfl
  | cons hxy _ ih => rw [LinkedFrom, LinkedFrom, hxy.1, hxy.2, ih]

/-- The last digest of a chain is the genesis only if the chain is empty. -/
theorem Binding.eq_nil_of_lastDigest {S : Set α} (hb : c.Binding S) (hS : ∀ x ∈ es, x ∈ S)
    (h : c.lastDigest c.genesis es = c.genesis) : es = [] := by
  rcases List.eq_nil_or_concat es with rfl | ⟨xs, x, rfl⟩
  · rfl
  · rw [List.concat_eq_append, lastDigest_concat] at h
    exact absurd h (hb.ne_genesis x (hS x (by simp)))

/-- The last digest commits to the chain: chains with the same last digest are as long as each other and have the same digests. -/
theorem Linked.forall₂_of_lastDigest {S : Set α} (hb : c.Binding S) (h : c.Linked es) (h' : c.Linked es')
    (hS : ∀ x ∈ es, x ∈ S) (hS' : ∀ x ∈ es', x ∈ S) (hlast : c.lastDigest c.genesis es = c.lastDigest c.genesis es') :
    List.Forall₂ (fun x y => c.digest x = c.digest y) es es' := by
  -- backwards along the first chain: equal digests give equal digests before them, and neither chain can be at its start alone
  induction es using List.reverseRecOn generalizing es' with
  | nil =>
    rw [hb.eq_nil_of_lastDigest hS' hlast.symm]
    exact .nil
  | append_singleton xs x ih =>
    rcases List.eq_nil_or_concat es' with rfl | ⟨ys, y, rfl⟩
    · exact absurd (hb.eq_nil_of_lastDigest hS hlast) (by simp)
    · rw [List.concat_eq_append] at *
      rw [linked_concat_iff] at h h'
      rw [lastDigest_concat, lastDigest_concat] at hlast
      have hprev : c.prev x = c.prev y := hb.prev_eq x (hS x (by simp)) y (hS' y (by simp)) hlast
      have hbefore : c.lastDigest c.genesis xs = c.lastDigest c.genesis ys := h.2.symm.trans (hprev.trans h'.2)
      refine List.rel_append (ih h.1 h'.1 (fun z hz => hS z ?_) (fun z hz => hS' z ?_) hbefore) (.cons hlast .nil)
      · exact List.mem_append_left _ hz
      · exact List.mem_append_left _ hz

/-- The entries of a chain up to one of them. -/
theorem Linked.exists_upTo (h : c.Linked es) (he : e ∈ es) : ∃ xs, xs ++ [e] <+: es ∧ c.Linked (xs ++ [e]) := by
  obtain ⟨xs, ys, rfl⟩ := List.append_of_mem he
  have hp : xs ++ [e] <+: xs ++ e :: ys := ⟨ys, by simp⟩
  exact ⟨xs, hp, h.of_prefix hp⟩

/-- No two entries of a chain have the same digest. -/
theorem Linked.eq_of_digest {S : Set α} (hb : c.Binding S) (h : c.Linked es) (hS : ∀ x ∈ es, x ∈ S) (he : e ∈ es) (he' : e' ∈ es)
    (hd : c.digest e = c.digest e') : e = e' := by
  obtain ⟨xs, hp, hl⟩ := h.exists_upTo he
  obtain ⟨ys, hp', hl'⟩ := h.exists_upTo he'
  have hdigests := hl.forall₂_of_lastDigest hb hl' (fun z hz => hS z (hp.subset hz)) (fun z hz => hS z (hp'.subset hz)) (by simpa)
  have heq : xs ++ [e] = ys ++ [e'] := (List.prefix_of_prefix_length_le hp hp' hdigests.length_eq.le).eq_of_length hdigests.length_eq
  exact List.singleton_injective (List.append_inj_right heq (by simpa using hdigests.length_eq))

/-- Entries of a chain, deleted, repeated or in another order, are linked only if they are the first entries of the chain. -/
theorem Linked.linked_iff_prefix {S : Set α} (hb : c.Binding S) (h : c.Linked es) (hS : ∀ x ∈ es, x ∈ S)
    (hsub : ∀ x ∈ es', x ∈ es) : c.Linked es' ↔ es' <+: es := by
  refine ⟨fun h' => ?_, h.of_prefix⟩
  rcases List.eq_nil_or_concat es' with rfl | ⟨ys, y, rfl⟩
  · exact List.nil_prefix
  · rw [List.concat_eq_append] at *
    obtain ⟨xs, hp, hl⟩ := h.exists_upTo (hsub y (by simp))
    have hdigests := h'.forall₂_of_lastDigest hb hl (fun z hz => hS z (hsub z hz)) (fun z hz => hS z (hp.subset hz)) (by simp)
    have heq : ys ++ [y] = xs ++ [y] := by
      refine List.ext_get hdigests.length_eq fun n hn hn' => ?_
      exact h.eq_of_digest hb hS (hsub _ (List.get_mem _ _)) (hp.subset (List.get_mem _ _)) (hdigests.get hn hn')
    rwa [heq]

end HashChain

end GolemKernel
