import Mathlib.Tactic.Common
import TypedScript.SharedStack

/-!
# Stacks that are left as they were found

What a stretch of work may do to a stack with shared slots when all it pushes it pops
again. The work may move the stack on to another row and may write slots above the
items, so the stack is not the same afterwards; its items are, and so are the items of
every stack that was set aside before.
-/
namespace TypedScript.SharedStack

variable {α : Type} {s t u : SharedStack α}

lemma length_under (s : SharedStack α) : (s.under s.top).length = s.height := by
  have hlen := s.isIn.2
  simp only [under, row, List.length_take, height]
  omega

/-- The stack `t` has the items of `s`. Rows that `s` does not lie in are untouched, and
so is its own row below its height, or altogether when it is full. -/
structure Kept (s t : SharedStack α) : Prop where
  size_le : s.rows.size ≤ t.rows.size
  under_top : t.under t.top = s.under s.top
  row_eq : ∀ n ≤ s.rows.size, n ≠ s.top.row → t.row n = s.row n
  slots_eq : (t.row s.top.row).slots = (s.row s.top.row).slots
  under_eq : t.under s.top = s.under s.top
  full_eq : (s.row s.top.row).slots ≤ s.height → t.row s.top.row = s.row s.top.row
  top_row : t.top.row = s.top.row ∨ s.rows.size < t.top.row

namespace Kept

lemma height_eq (h : s.Kept t) : t.height = s.height := by
  rw [← length_under, ← length_under, h.under_top]

lemma toList_eq (h : s.Kept t) : t.toList = s.toList := by
  rw [toList, toList, h.under_top]

lemma refl (s : SharedStack α) : s.Kept s :=
  ⟨Nat.le_refl _, rfl, fun _ _ _ => rfl, rfl, rfl, fun _ => rfl, .inl rfl⟩

lemma trans (h : s.Kept t) (k : t.Kept u) : s.Kept u := by
  have hsize := h.size_le
  -- A row that the second stretch may write is the row of `s` or a later one.
  have hother : ∀ n ≤ s.rows.size, n ≠ t.top.row → u.row n = t.row n :=
    fun n hn => k.row_eq n (by omega)
  have hheight := h.height_eq
  constructor
  · exact Nat.le_trans hsize k.size_le
  · exact k.under_top.trans h.under_top
  · intro n hn hne
    have hnt : n ≠ t.top.row := by
      rcases h.top_row with heq | hlt
      · rwa [heq]
      · omega
    rw [hother n hn hnt, h.row_eq n hn hne]
  · rcases h.top_row with heq | hlt
    · rw [← heq, k.slots_eq, heq, h.slots_eq]
    · rw [hother _ s.isIn.1 (by have := s.isIn.1; omega), h.slots_eq]
  · rcases h.top_row with heq | hlt
    · have htop : t.top = s.top := by
        cases hs : s.top; cases ht : t.top
        simp_all [height]
      rw [← htop, k.under_eq, htop, h.under_eq]
    · rw [under, hother _ s.isIn.1 (by have := s.isIn.1; omega)]
      exact h.under_eq
  · intro hfull
    rcases h.top_row with heq | hlt
    · rw [← heq, k.full_eq (by rw [heq, h.slots_eq, hheight]; exact hfull), heq, h.full_eq hfull]
    · rw [hother _ s.isIn.1 (by have := s.isIn.1; omega), h.full_eq hfull]
  · have := h.top_row
    have := k.top_row
    omega

end Kept

/-! What a push does, seen from the stack before it. -/

lemma row_push_of_ne (sizes : List Nat) (a : α) {n : Nat} (hn : n ≤ s.rows.size)
    (hne : n ≠ s.top.row) : (s.push sizes a).row n = s.row n := by
  unfold push
  split
  · rename_i h
    obtain ⟨i, hi, -⟩ := Row.exists_of_slots_pos (Nat.zero_lt_of_lt h)
    exact Row.numbered_set_of_ne _ (by omega) _
  · exact Row.numbered_push_of_le hn _

/-- With a free slot the push writes it, and else it leaves the row alone. -/
lemma row_push_top (sizes : List Nat) (s : SharedStack α) (a : α) :
    (s.push sizes a).row s.top.row =
      if s.height < (s.row s.top.row).slots then (s.row s.top.row).put s.height a
      else s.row s.top.row := by
  unfold push
  split
  · rename_i h
    obtain ⟨i, hi, hsize⟩ := Row.exists_of_slots_pos (Nat.zero_lt_of_lt h)
    simp only [row, hi, Nat.add_sub_cancel, Row.numbered_set_self hsize]
  · exact Row.numbered_push_of_le s.isIn.1 _

lemma size_le_push (sizes : List Nat) (s : SharedStack α) (a : α) :
    s.rows.size ≤ (s.push sizes a).rows.size := by
  unfold push
  split <;> simp

/-- The stack stays in its row, or moves to one that was made for it. -/
lemma top_row_push (sizes : List Nat) (s : SharedStack α) (a : α) :
    (s.push sizes a).top.row = s.top.row ∨
      (s.row s.top.row).slots ≤ s.height ∧ s.rows.size < (s.push sizes a).top.row := by
  unfold push
  split
  · exact .inl rfl
  · exact .inr ⟨by omega, Nat.lt_succ_self _⟩

/-- Below the item that was pushed stand the items from before. -/
lemma under_of_push {sizes : List Nat} {a : α} {m : StackMark} (hm : s.height ≤ m.height)
    (h : t.under m = (s.push sizes a).under (s.push sizes a).top) :
    t.under ⟨m.row, s.height⟩ = s.under s.top := by
  have htake : t.under ⟨m.row, s.height⟩ = (t.under m).take s.height := by
    rw [under, under, List.take_take, Nat.min_eq_left hm]
  rw [htake, h, under_push, ← length_under, List.take_left]

lemma pop?_of_height_pos (h : 0 < t.height) :
    ∃ u, t.pop? = some u ∧ u.rows = t.rows ∧ u.top = ⟨t.top.row, t.height - 1⟩ :=
  ⟨_, if_neg (by omega), rfl, rfl⟩

namespace Kept

/-- Work that starts after a push and is followed by a pop leaves the stack as it was
before the push. -/
lemma pop_push {sizes : List Nat} {a : α} (h : (s.push sizes a).Kept t) :
    ∃ u, t.pop? = some u ∧ s.Kept u := by
  have hheight : t.height = s.height + 1 := by rw [h.height_eq, height_push]
  obtain ⟨u, hu, hrows, htop⟩ := pop?_of_height_pos (t := t) (by omega)
  rw [hheight, Nat.add_sub_cancel] at htop
  have hrow : ∀ n, u.row n = t.row n := fun n => by rw [row, row, hrows]
  have hsize := size_le_push sizes s a
  have hmoved := top_row_push sizes s a
  have hin := s.isIn.1
  refine ⟨u, hu, ?_⟩
  constructor
  · rw [hrows]
    exact Nat.le_trans hsize h.size_le
  · rw [htop, under, hrow]
    exact under_of_push (by change s.height ≤ t.height; omega) h.under_top
  · intro n hn hne
    rw [hrow, h.row_eq n (by omega) (by omega), row_push_of_ne sizes a hn hne]
  · rw [hrow]
    rcases hmoved with hsame | ⟨hfull, hnew⟩
    · rw [← hsame, h.slots_eq, hsame, row_push_top]
      split <;> rfl
    · rw [h.row_eq _ (by omega) (by omega), row_push_top, if_neg (by omega)]
  · rcases hmoved with hsame | ⟨hfull, hnew⟩
    · have hbelow : t.under ⟨(s.push sizes a).top.row, s.height⟩ = s.under s.top := by
        refine under_of_push ?_ h.under_eq
        change s.height ≤ (s.push sizes a).height
        rw [height_push]
        omega
      rw [hsame] at hbelow
      rw [under, hrow]
      exact hbelow
    · rw [under, hrow, h.row_eq _ (by omega) (by omega), row_push_top, if_neg (by omega)]
      rfl
  · intro hfull
    rw [hrow]
    have hpush : (s.push sizes a).row s.top.row = s.row s.top.row := by
      rw [row_push_top, if_neg (by omega)]
    rcases hmoved with hsame | ⟨-, hnew⟩
    · rw [← hsame, h.full_eq (by rw [hsame, hpush, height_push]; omega), hsame, hpush]
    · rw [h.row_eq _ (by omega) (by omega), hpush]
  · have := h.top_row
    rw [htop]
    change t.top.row = _ ∨ _ < t.top.row
    omega

/-- Work on an empty stack touches none of the rows that were there before. -/
lemma row_of_fresh (h : s.fresh.Kept t) {n : Nat} (hn : n ≤ s.rows.size) : t.row n = s.row n := by
  cases n with
  | zero => rfl
  | succ k => exact h.row_eq _ hn (Nat.succ_ne_zero k)

/-- Work that starts on an empty stack leaves the stack that was set aside. -/
lemma backTo_fresh (h : s.fresh.Kept t) : s.Kept (t.backTo s.top) := by
  have hrow := h.row_of_fresh s.isIn.1
  have hsize : s.rows.size ≤ t.rows.size := h.size_le
  have hin : s.top.IsIn t.rows := by
    refine ⟨Nat.le_trans s.isIn.1 hsize, ?_⟩
    change s.top.height ≤ (t.row s.top.row).items.length
    rw [hrow]
    exact s.isIn.2
  rw [backTo_of_isIn hin]
  have hunder : t.under s.top = s.under s.top := by rw [under, under, hrow]
  exact ⟨hsize, hunder, fun n hn _ => h.row_of_fresh hn, congrArg Row.slots hrow, hunder,
    fun _ => hrow, .inl rfl⟩

end Kept

end TypedScript.SharedStack
