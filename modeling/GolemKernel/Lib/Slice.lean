import Mathlib

/-!
# Slices with checked access

An index or a range past the end of a slice, or a copy between slices of different lengths, is a fault. Code that only makes accesses
that are in bounds returns what it returns without the checks.
-/

namespace Slice

/-- What makes an access panic. `character`: the end of a range of a text is inside a character. -/
inductive Fault where
  | index | range | length | character
  deriving DecidableEq, Repr

variable {α : Type}

/-- `s[i]`. -/
def get (s : List α) (i : Nat) : Except Fault α := s[i]?.elim (.error .index) .ok

/-- `s[i] = a`. -/
def set (s : List α) (i : Nat) (a : α) : Except Fault (List α) := if i < s.length then .ok (s.set i a) else .error .index

/-- `&s[i..j]`. -/
def range (s : List α) (i j : Nat) : Except Fault (List α) :=
  if i ≤ j ∧ j ≤ s.length then .ok ((s.drop i).take (j - i)) else .error .range

/-- `s[i..j].copy_from_slice(t)`. -/
def copy (s : List α) (i j : Nat) (t : List α) : Except Fault (List α) :=
  if ¬(i ≤ j ∧ j ≤ s.length) then .error .range
  else if t.length ≠ j - i then .error .length
  else .ok (s.take i ++ t ++ s.drop j)

theorem ok_bind {β : Type} (a : α) (f : α → Except Fault β) : ((Except.ok a : Except Fault α) >>= f) = f a := rfl

/-- An access within the bounds. -/
theorem get_eq_ok {s : List α} {i : Nat} {a : α} (h : s[i]? = some a) : get s i = .ok a := by
  rw [get, h]
  rfl

/-- A store within the bounds. -/
theorem set_eq_ok {s : List α} {i : Nat} (h : i < s.length) (a : α) : set s i a = .ok (s.set i a) := if_pos h

/-- A slice within the bounds. -/
theorem range_eq_ok {s : List α} {i j : Nat} (hij : i ≤ j) (hj : j ≤ s.length) : range s i j = .ok ((s.drop i).take (j - i)) :=
  if_pos ⟨hij, hj⟩

/-- A copy of the length of the slice. -/
theorem copy_eq_ok {s t : List α} {i j : Nat} (hj : j ≤ s.length) (ht : i + t.length = j) :
    copy s i j t = .ok (s.take i ++ t ++ s.drop j) := by
  rw [copy, if_neg (not_not.2 ⟨by omega, hj⟩), if_neg (by omega)]

end Slice
