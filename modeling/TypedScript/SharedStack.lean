/-!
# Stacks that share their slots

A stack is made of the first slots of a row, up to its height. Pushing fills the slot
at the height. When the row has no such slot the stack moves on to a row of the next
size, taking its items along. Popping lowers the height and leaves the slot filled.

A mark keeps a row and a height, and going back to a mark takes that stack up again. The
slots are shared: what was pushed in place of a popped item shows in every mark above.
-/
namespace TypedScript

/-- A number of slots, filled from the first one on. -/
structure Row (α : Type) where
  slots : Nat
  items : List α

/-- Which row a stack lies in and how high it is. -/
structure StackMark where
  row : Nat
  height : Nat
  deriving DecidableEq

/-- The stack without items, in a row without slots. -/
def StackMark.bottom : StackMark := ⟨0, 0⟩

/-- The size of the row after one that is full, from the sizes that rows come in; past
the last of them rows double. -/
def nextSize (sizes : List Nat) (slots : Nat) : Nat :=
  (sizes.find? fun n => decide (slots < n)).getD (2 * slots)

namespace Row

variable {α : Type}

/-- The row with this number. Rows that were made are numbered from one; row zero has no
slots. -/
def numbered (rows : Array (Row α)) : Nat → Row α
  | 0 => ⟨0, []⟩
  | i + 1 => rows.getD i ⟨0, []⟩

/-- The row with `a` in the slot at a height. -/
def put (r : Row α) (height : Nat) (a : α) : Row α :=
  ⟨r.slots, r.items.take height ++ a :: r.items.drop (height + 1)⟩

/-- A larger row with the items below a height, and `a` after them. -/
def moved (sizes : List Nat) (r : Row α) (height : Nat) (a : α) : Row α :=
  ⟨nextSize sizes r.slots, r.items.take height ++ [a]⟩

/-- Only rows that were made have slots. -/
theorem exists_of_slots_pos {rows : Array (Row α)} {n : Nat}
    (h : 0 < (numbered rows n).slots) : ∃ i, n = i + 1 ∧ i < rows.size := by
  cases n with
  | zero => simp [numbered] at h
  | succ i =>
    refine ⟨i, rfl, ?_⟩
    by_cases hi : i < rows.size
    · exact hi
    · simp [numbered, Array.getD, hi] at h

theorem numbered_set_self {rows : Array (Row α)} {i : Nat} (hi : i < rows.size) (r : Row α) :
    numbered (rows.setIfInBounds i r) (i + 1) = r := by
  simp [numbered, Array.getD_eq_getD_getElem?, hi]

theorem numbered_set_of_ne (rows : Array (Row α)) {i n : Nat} (hn : n ≠ i + 1) (r : Row α) :
    numbered (rows.setIfInBounds i r) n = numbered rows n := by
  cases n with
  | zero => rfl
  | succ k =>
    have hk : i ≠ k := fun h => hn (by rw [h])
    simp [numbered, Array.getD_eq_getD_getElem?, Array.getElem?_setIfInBounds_ne hk]

@[simp] theorem numbered_push_size (rows : Array (Row α)) (r : Row α) :
    numbered (rows.push r) (rows.size + 1) = r := by
  simp [numbered, Array.getD_eq_getD_getElem?]

theorem numbered_push_of_le {rows : Array (Row α)} {n : Nat} (hn : n ≤ rows.size) (r : Row α) :
    numbered (rows.push r) n = numbered rows n := by
  cases n with
  | zero => rfl
  | succ k =>
    have hk : k ≠ rows.size := by omega
    simp [numbered, Array.getD_eq_getD_getElem?, Array.getElem?_push, hk]

end Row

namespace StackMark

variable {α : Type}

/-- The row of the mark was made, and it is filled up to the height. -/
def IsIn (m : StackMark) (rows : Array (Row α)) : Prop :=
  m.row ≤ rows.size ∧ m.height ≤ (Row.numbered rows m.row).items.length

instance (m : StackMark) (rows : Array (Row α)) : Decidable (m.IsIn rows) :=
  inferInstanceAs (Decidable (_ ∧ _))

theorem bottom_isIn (rows : Array (Row α)) : bottom.IsIn rows :=
  ⟨Nat.zero_le _, Nat.zero_le _⟩

theorem isIn_put {m : StackMark} {rows : Array (Row α)} (hm : m.IsIn rows) (a : α)
    (hslots : m.height < (Row.numbered rows m.row).slots) :
    IsIn ⟨m.row, m.height + 1⟩
      (rows.setIfInBounds (m.row - 1) ((Row.numbered rows m.row).put m.height a)) := by
  obtain ⟨i, hi, hsize⟩ := Row.exists_of_slots_pos (Nat.zero_lt_of_lt hslots)
  have hlen := hm.2
  refine ⟨by simpa using hm.1, ?_⟩
  simp only [hi, Nat.add_sub_cancel] at hlen ⊢
  simp only [Row.numbered_set_self hsize, Row.put, List.length_append, List.length_take,
    List.length_cons]
  omega

theorem isIn_moved {m : StackMark} {rows : Array (Row α)} (hm : m.IsIn rows) (a : α)
    (sizes : List Nat) :
    IsIn ⟨rows.size + 1, m.height + 1⟩
      (rows.push ((Row.numbered rows m.row).moved sizes m.height a)) := by
  have hlen := hm.2
  refine ⟨by simp, ?_⟩
  simp only [Row.numbered_push_size, Row.moved, List.length_append, List.length_take,
    List.length_singleton]
  omega

end StackMark

structure SharedStack (α : Type) where
  /-- The rows that were made. -/
  rows : Array (Row α)
  top : StackMark
  isIn : top.IsIn rows

namespace SharedStack

variable {α : Type}

def empty : SharedStack α := ⟨#[], .bottom, StackMark.bottom_isIn _⟩

def row (s : SharedStack α) (i : Nat) : Row α := Row.numbered s.rows i

def height (s : SharedStack α) : Nat := s.top.height

/-- The items under a mark, first one first. -/
def under (s : SharedStack α) (m : StackMark) : List α := (s.row m.row).items.take m.height

/-- The items, last one first. -/
def toList (s : SharedStack α) : List α := (s.under s.top).reverse

def push (sizes : List Nat) (s : SharedStack α) (a : α) : SharedStack α :=
  if h : s.height < (s.row s.top.row).slots then
    ⟨s.rows.setIfInBounds (s.top.row - 1) ((s.row s.top.row).put s.height a),
      ⟨s.top.row, s.height + 1⟩, StackMark.isIn_put s.isIn a h⟩
  else
    ⟨s.rows.push ((s.row s.top.row).moved sizes s.height a),
      ⟨s.rows.size + 1, s.height + 1⟩, StackMark.isIn_moved s.isIn a sizes⟩

def pop? (s : SharedStack α) : Option (SharedStack α) :=
  if s.height = 0 then none
  else some ⟨s.rows, ⟨s.top.row, s.height - 1⟩, s.isIn.1, Nat.le_trans (Nat.sub_le _ _) s.isIn.2⟩

/-- Start again without items. -/
def fresh (s : SharedStack α) : SharedStack α := ⟨s.rows, .bottom, StackMark.bottom_isIn _⟩

/-- Take up the stack of a mark. A mark of a row that was never made is an empty stack. -/
def backTo (s : SharedStack α) (m : StackMark) : SharedStack α :=
  if h : m.IsIn s.rows then ⟨s.rows, m, h⟩ else s.fresh

@[simp] theorem height_push (sizes : List Nat) (s : SharedStack α) (a : α) :
    (s.push sizes a).height = s.height + 1 := by
  unfold push
  split <;> rfl

theorem take_put (items rest : List α) (a : α) (n : Nat) (h : n ≤ items.length) :
    (items.take n ++ a :: rest).take (n + 1) = items.take n ++ [a] := by
  simp [List.take_append, List.take_take, List.length_take, Nat.min_eq_left h]

theorem under_push (sizes : List Nat) (s : SharedStack α) (a : α) :
    (s.push sizes a).under (s.push sizes a).top = s.under s.top ++ [a] := by
  unfold push
  split
  · rename_i h
    obtain ⟨i, hi, hsize⟩ := Row.exists_of_slots_pos (Nat.zero_lt_of_lt h)
    simp only [under, row, hi, Nat.add_sub_cancel, Row.numbered_set_self hsize]
    exact take_put _ _ _ _ (hi ▸ s.isIn.2)
  · simp only [under, row, Row.numbered_push_size]
    exact take_put _ _ _ _ s.isIn.2

@[simp] theorem toList_push (sizes : List Nat) (s : SharedStack α) (a : α) :
    (s.push sizes a).toList = a :: s.toList := by
  simp [toList, under_push]

theorem backTo_of_isIn {s : SharedStack α} {m : StackMark} (h : m.IsIn s.rows) :
    s.backTo m = ⟨s.rows, m, h⟩ := dif_pos h

@[simp] theorem backTo_top (s : SharedStack α) : s.fresh.backTo s.top = s :=
  backTo_of_isIn (s := s.fresh) s.isIn

end SharedStack

end TypedScript
