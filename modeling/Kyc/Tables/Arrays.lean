import Mathlib.Data.List.Sort

/-! # Arrays behind references

Arrays that are passed by reference: a copy lives behind a reference of its own, and a
sort rewrites the array it is given. Nothing that is done to a copy shows in the
arrays that were there before.
-/

namespace Kyc

/-- The arrays there are, each behind the reference that counts the ones before it. -/
structure Arrays (α : Type) where
  cells : List (List α)

namespace Arrays

variable {α : Type}

def read (h : Arrays α) (a : ℕ) : List α := h.cells.getD a []

/-- `[...a]`: a new array with the same elements. -/
def spread (h : Arrays α) (a : ℕ) : ℕ × Arrays α := (h.cells.length, ⟨h.cells ++ [h.read a]⟩)

/-- `a.sort(..)`: the array itself is rewritten; the sort is stable. -/
def sort (le : α → α → Prop) [DecidableRel le] (h : Arrays α) (a : ℕ) : Arrays α :=
  ⟨h.cells.set a ((h.read a).insertionSort le)⟩

/-- The arrays that were there are as they were. -/
def Spares (h h' : Arrays α) : Prop := ∀ a < h.cells.length, h'.read a = h.read a

variable {h : Arrays α} {le : α → α → Prop} [DecidableRel le]

theorem spares_spread (a : ℕ) : h.Spares (h.spread a).2 := by
  intro b hb
  simp [spread, read, List.getD, List.getElem?_append_left hb]

theorem read_spread (a : ℕ) : (h.spread a).2.read (h.spread a).1 = h.read a := by
  simp [spread, read]

theorem read_sort {a : ℕ} (ha : a < h.cells.length) :
    (h.sort le a).read a = (h.read a).insertionSort le := by
  simp [sort, read, ha]

theorem read_sort_of_ne {a b : ℕ} (hb : b ≠ a) : (h.sort le a).read b = h.read b := by
  simp [sort, read, Ne.symm hb]

theorem read_sort_spread (a : ℕ) :
    ((h.spread a).2.sort le (h.spread a).1).read (h.spread a).1 = (h.read a).insertionSort le := by
  rw [read_sort (by simp [spread]), read_spread]

theorem spares_sort_spread (a : ℕ) : h.Spares ((h.spread a).2.sort le (h.spread a).1) := by
  intro b hb
  have hne : b ≠ (h.spread a).1 := hb.ne
  rw [read_sort_of_ne hne, spares_spread a b hb]

end Arrays

end Kyc
