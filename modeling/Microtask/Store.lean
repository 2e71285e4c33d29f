/-!
# Stores

A store gives every natural number a cell. All cells hold the default until they
are written, and `push` writes the cell with the number `size`. Reading after
writing is unconditional (`get_set`).
-/

namespace Microtask

structure Store (α : Type) where
  cells : Array α := #[]
  deriving Inhabited

namespace Store

variable {α : Type}

/-- The number of the next cell that `push` hands out. -/
def size (s : Store α) : Nat := s.cells.size

/-- The content of a cell. -/
def get [Inhabited α] (s : Store α) (i : Nat) : α := s.cells[i]?.getD default

/-- Write a cell. -/
def set [Inhabited α] (s : Store α) (i : Nat) (a : α) : Store α :=
  if i < s.cells.size then ⟨s.cells.setIfInBounds i a⟩
  else ⟨(s.cells ++ Array.replicate (i - s.cells.size) default).push a⟩

/-- Change a cell. -/
def modify [Inhabited α] (s : Store α) (i : Nat) (f : α → α) : Store α := s.set i (f (s.get i))

/-- Write the next cell. -/
def push (s : Store α) (a : α) : Store α := ⟨s.cells.push a⟩

variable [Inhabited α]

theorem get_of_size_le {s : Store α} {i : Nat} (h : s.size ≤ i) : s.get i = default := by
  simp only [size] at h
  simp [get, h]

theorem get_set (s : Store α) (i j : Nat) (a : α) :
    (s.set i a).get j = if j = i then a else s.get j := by
  unfold set
  split
  · next h =>
    by_cases hj : j = i
    · subst hj; simp [get, h]
    · simp [get, hj, Ne.symm hj]
  · next h =>
    have hs : (s.cells ++ Array.replicate (i - s.cells.size) (default : α)).size = i := by
      simp; omega
    simp only [get]
    rw [Array.getElem?_push, hs, Array.getElem?_append]
    by_cases hj : j = i
    · simp [hj]
    · by_cases hlt : j < s.cells.size
      · simp [hj, hlt]
      · simp only [hj, hlt, if_false, Array.getElem?_replicate]
        split <;> simp [Nat.le_of_not_lt hlt]

@[simp] theorem get_set_self (s : Store α) (i : Nat) (a : α) : (s.set i a).get i = a := by
  simp [get_set]

theorem get_modify (s : Store α) (i j : Nat) (f : α → α) :
    (s.modify i f).get j = if j = i then f (s.get i) else s.get j := by
  simp [modify, get_set]

theorem get_push (s : Store α) (a : α) (j : Nat) :
    (s.push a).get j = if j = s.size then a else s.get j := by
  unfold get push size
  rw [Array.getElem?_push]
  by_cases hj : j = s.cells.size <;> simp [hj]

omit [Inhabited α] in
@[simp] theorem size_push (s : Store α) (a : α) : (s.push a).size = s.size + 1 := by
  simp [size, push]

theorem size_set (s : Store α) (i : Nat) (a : α) : (s.set i a).size = max s.size (i + 1) := by
  unfold set
  split <;> simp [size] <;> omega

theorem set_set (s : Store α) (i : Nat) (a b : α) : (s.set i a).set i b = s.set i b := by
  unfold set
  by_cases h : i < s.cells.size
  · simp [h]
  · have hs : (s.cells ++ Array.replicate (i - s.cells.size) (default : α)).size = i := by
      simp; omega
    simp only [h, if_false]
    rw [if_pos (by simp; omega)]
    congr 1
    apply Array.ext_getElem?
    intro j
    rw [Array.getElem?_setIfInBounds, Array.getElem?_push, Array.getElem?_push, hs]
    by_cases hj : j = i <;> grind

theorem modify_modify (s : Store α) (i : Nat) (f g : α → α) :
    (s.modify i f).modify i g = s.modify i (g ∘ f) := by
  simp [modify, set_set]

theorem modify_congr {s : Store α} {i : Nat} {f g : α → α} (h : f (s.get i) = g (s.get i)) :
    s.modify i f = s.modify i g := by
  rw [modify, modify, h]

end Store

end Microtask
