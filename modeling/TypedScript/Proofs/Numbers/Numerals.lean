import Mathlib.Data.Nat.Digits.Defs
import Mathlib.Tactic.Common
import TypedScript.Text.Integer

/-!
# Which integer a text denotes

The rules for numerals, apart from the reader that goes through the characters: a row of digits
with single underscores between them, a marker for the base before it, and a sign before that.
The value of a row is the number with these digits in positional notation, the first digit being
the most significant. The reader finds exactly the integers that the rules give.
-/
namespace TypedScript.Text

/-- A character is a digit of the base. -/
def IsDigit (base : ℕ) (c : Char) (d : ℕ) : Prop := digitValue? c = some d ∧ d < base

/-- Digits in a row, with at most one underscore between two of them. -/
inductive Digits (base : ℕ) : List Char → List ℕ → Prop
  | last {c : Char} {d : ℕ} : IsDigit base c d → Digits base [c] [d]
  | next {c : Char} {d : ℕ} {cs : List Char} {ds : List ℕ} :
      IsDigit base c d → Digits base cs ds → Digits base (c :: cs) (d :: ds)
  | apart {c : Char} {d : ℕ} {cs : List Char} {ds : List ℕ} :
      IsDigit base c d → Digits base cs ds → Digits base (c :: '_' :: cs) (d :: ds)

/-- What stands before digits that are not decimal, and their base. -/
inductive Marker : List Char → ℕ → Prop
  | binary {c : Char} : c ∈ ['b', 'B'] → Marker ['0', c] 2
  | octal {c : Char} : c ∈ ['o', 'O'] → Marker ['0', c] 8
  | hexadecimal {c : Char} : c ∈ ['x', 'X'] → Marker ['0', c] 16
  | zero : Marker ['0'] 8

/-- A number without a sign. An underscore may also stand between the marker and the digits. -/
inductive Numeral : List Char → ℕ → Prop
  | zero : Numeral ['0'] 0
  | decimal {cs : List Char} {ds : List ℕ} :
      cs.head? ≠ some '0' → Digits 10 cs ds → Numeral cs (Nat.ofDigits 10 ds.reverse)
  | marked {m cs : List Char} {base : ℕ} {ds : List ℕ} :
      Marker m base → Digits base cs ds → Numeral (m ++ cs) (Nat.ofDigits base ds.reverse)
  | apart {m cs : List Char} {base : ℕ} {ds : List ℕ} :
      Marker m base → Digits base cs ds → Numeral (m ++ '_' :: cs) (Nat.ofDigits base ds.reverse)

/-- The integer that a text denotes. -/
inductive Denotes (text : String) : ℤ → Prop
  | plain {n : ℕ} : Numeral text.toList n → Denotes text n
  | plus {cs : List Char} {n : ℕ} : text.toList = '+' :: cs → Numeral cs n → Denotes text n
  | minus {cs : List Char} {n : ℕ} : text.toList = '-' :: cs → Numeral cs n → Denotes text (-n)

variable {base n m : ℕ} {c : Char} {d : ℕ} {cs : List Char} {ds : List ℕ}

/-! ## Rows of digits -/

lemma IsDigit.ne_underscore (h : IsDigit base c d) : c ≠ '_' := by
  rintro rfl
  cases h.1

/-- A digit is read in the same way whatever stood before it. -/
lemma readDigits?_cons (h : IsDigit base c d) (afterDigit : Bool) :
    readDigits? base (c :: cs) afterDigit n = readDigits? base cs true (n * base + d) := by
  rw [readDigits?]
  · simp [h.1, h.2]
  · exact h.ne_underscore

/-- The number so far stands for all the digits that were read. -/
lemma ofDigits_reverse_cons (ds : List ℕ) :
    Nat.ofDigits base ((n * base + d) :: ds).reverse =
      Nat.ofDigits base (n :: d :: ds).reverse := by
  simp only [List.reverse_cons, List.append_assoc, Nat.ofDigits_append, Nat.ofDigits_cons,
    List.singleton_append, Nat.ofDigits_nil, List.length_reverse]
  ring

lemma Digits.read (h : Digits base cs ds) (afterDigit : Bool) :
    readDigits? base cs afterDigit n = some (Nat.ofDigits base (n :: ds).reverse) := by
  induction h generalizing n afterDigit with
  | last hd =>
    rw [readDigits?_cons hd, ← ofDigits_reverse_cons]
    simp [readDigits?]
  | next hd _ ih => rw [readDigits?_cons hd, ih, ofDigits_reverse_cons]
  | apart hd _ ih =>
    rw [readDigits?_cons hd, ← ofDigits_reverse_cons, ← ih false]
    simp [readDigits?]

/-- What may be read after a digit or a marker: nothing more, or more digits that an underscore
may set apart. -/
inductive Continues (base : ℕ) : List Char → List ℕ → Prop
  | stop : Continues base [] []
  | next {cs : List Char} {ds : List ℕ} : Digits base cs ds → Continues base cs ds
  | apart {cs : List Char} {ds : List ℕ} : Digits base cs ds → Continues base ('_' :: cs) ds

lemma Continues.digits (h : Continues base cs ds) (hd : IsDigit base c d) :
    Digits base (c :: cs) (d :: ds) := by
  cases h with
  | stop => exact .last hd
  | next h => exact .next hd h
  | apart h => exact .apart hd h

/-- Where a number is read, digits stand. -/
lemma exists_digits_of_readDigits? (afterDigit : Bool)
    (h : readDigits? base cs afterDigit n = some m) :
    ∃ ds, (if afterDigit then Continues base cs ds else Digits base cs ds) ∧
      m = Nat.ofDigits base (n :: ds).reverse := by
  fun_induction readDigits? base cs afterDigit n with
  | case1 n => exact ⟨[], .stop, by simpa using h.symm⟩
  | case2 => cases h
  | case3 cs n ih =>
    obtain ⟨ds, hds, rfl⟩ := ih h
    exact ⟨ds, .apart hds, rfl⟩
  | case4 => cases h
  | case5 c cs afterDigit n _ d hd hlt ih =>
    obtain ⟨ds, hds, rfl⟩ := ih h
    have hrow : Digits base (c :: cs) (d :: ds) := Continues.digits hds ⟨hd, hlt⟩
    refine ⟨d :: ds, ?_, ofDigits_reverse_cons ds⟩
    split
    · exact .next hrow
    · exact hrow
  | case6 => cases h
  | case7 => cases h

lemma readDigits?_false_eq_some_iff :
    readDigits? base cs false n = some m ↔
      ∃ ds, Digits base cs ds ∧ m = Nat.ofDigits base (n :: ds).reverse := by
  constructor
  · exact exists_digits_of_readDigits? false
  · rintro ⟨ds, hds, rfl⟩
    exact hds.read false

lemma readDigits?_true_eq_some_iff :
    readDigits? base cs true n = some m ↔
      ∃ ds, Continues base cs ds ∧ m = Nat.ofDigits base (n :: ds).reverse := by
  constructor
  · exact exists_digits_of_readDigits? true
  · rintro ⟨ds, hds, rfl⟩
    cases hds with
    | stop => simp [readDigits?]
    | next hds => exact hds.read true
    | apart hds => exact hds.read false

/-! ## Numerals -/

@[simp] lemma ofDigits_reverse_zero_cons (ds : List ℕ) :
    Nat.ofDigits base (0 :: ds).reverse = Nat.ofDigits base ds.reverse := by
  simp [Nat.ofDigits_append]

/-- The digits of a row are none of the letters in a marker. -/
lemma Continues.head_not_letter (h : Continues 8 cs ds) :
    ∀ c ∈ cs.head?, c ∉ ['b', 'B', 'o', 'O', 'x', 'X'] := by
  have hdigit {c : Char} {d : ℕ} (hd : IsDigit 8 c d) :
      c ∉ ['b', 'B', 'o', 'O', 'x', 'X'] := by
    intro hc
    simp only [List.mem_cons, List.not_mem_nil, or_false] at hc
    obtain ⟨hvalue, hlt⟩ := hd
    rcases hc with rfl | rfl | rfl | rfl | rfl | rfl
    all_goals
      cases hvalue
      contradiction
  cases h with
  | stop => simp
  | next h => cases h <;> simpa using hdigit ‹_›
  | apart h => simp

lemma readNatural?_of_head_ne (h : cs.head? ≠ some '0') :
    readNatural? cs = readDigits? 10 cs false 0 := by
  unfold readNatural?
  split <;> simp_all [readDigits?]

lemma readNatural?_zero_cons (hne : cs ≠ [])
    (h : ∀ c ∈ cs.head?, c ∉ ['b', 'B', 'o', 'O', 'x', 'X']) :
    readNatural? ('0' :: cs) = readDigits? 8 cs true 0 := by
  unfold readNatural?
  split <;> simp_all

lemma Marker.read {marker : List Char} (hm : Marker marker base) (hne : cs ≠ [])
    (h : Continues base cs ds) :
    readNatural? (marker ++ cs) = some (Nat.ofDigits base ds.reverse) := by
  have hdigits : readDigits? base cs true 0 = some (Nat.ofDigits base ds.reverse) :=
    readDigits?_true_eq_some_iff.2 ⟨ds, h, (ofDigits_reverse_zero_cons ds).symm⟩
  have hmarked : readMarked? base cs = some (Nat.ofDigits base ds.reverse) := by
    rw [readMarked?, List.isEmpty_eq_false_iff.2 hne]
    exact hdigits
  cases hm with
  | binary hc | octal hc | hexadecimal hc =>
    simp only [List.mem_cons, List.not_mem_nil, or_false] at hc
    rcases hc with rfl | rfl <;> exact hmarked
  | zero => exact (readNatural?_zero_cons hne h.head_not_letter).trans hdigits

lemma Numeral.read (h : Numeral cs n) : readNatural? cs = some n := by
  cases h with
  | zero => rfl
  | decimal hhead h =>
    rw [readNatural?_of_head_ne hhead, h.read, ofDigits_reverse_zero_cons]
  | marked hm h => exact hm.read (by rintro rfl; cases h) (.next h)
  | apart hm h => exact hm.read (List.cons_ne_nil _ _) (.apart h)

lemma Continues.numeral {marker : List Char} (h : Continues base cs ds) (hne : cs ≠ [])
    (hm : Marker marker base) : Numeral (marker ++ cs) (Nat.ofDigits base ds.reverse) := by
  cases h with
  | stop => exact absurd rfl hne
  | next h => exact .marked hm h
  | apart h => exact .apart hm h

lemma numeral_of_readMarked? {marker : List Char} (hm : Marker marker base)
    (h : readMarked? base cs = some n) : Numeral (marker ++ cs) n := by
  unfold readMarked? at h
  split at h
  · cases h
  · rename_i hne
    obtain ⟨ds, hds, rfl⟩ := readDigits?_true_eq_some_iff.1 h
    rw [ofDigits_reverse_zero_cons]
    exact hds.numeral (by simpa using hne) hm

lemma readNatural?_eq_some_iff : readNatural? cs = some n ↔ Numeral cs n := by
  refine ⟨fun h => ?_, Numeral.read⟩
  unfold readNatural? at h
  split at h
  · cases h
  · cases h
    exact .zero
  · exact numeral_of_readMarked? (.binary (by simp)) h
  · exact numeral_of_readMarked? (.binary (by simp)) h
  · exact numeral_of_readMarked? (.octal (by simp)) h
  · exact numeral_of_readMarked? (.octal (by simp)) h
  · exact numeral_of_readMarked? (.hexadecimal (by simp)) h
  · exact numeral_of_readMarked? (.hexadecimal (by simp)) h
  · rename_i rest hne _ _ _ _ _ _
    obtain ⟨ds, hds, rfl⟩ := readDigits?_true_eq_some_iff.1 h
    rw [ofDigits_reverse_zero_cons]
    exact hds.numeral hne .zero
  · rename_i hne
    obtain ⟨ds, hds, rfl⟩ := readDigits?_false_eq_some_iff.1 h
    rw [ofDigits_reverse_zero_cons]
    refine .decimal (fun hhead => ?_) hds
    obtain ⟨rest, hcs⟩ := List.head?_eq_some_iff.1 hhead
    exact hne rest hcs

/-- The reader finds an integer exactly where the rules give one, and finds that one. -/
theorem readInteger?_eq_some_iff {text : String} {i : ℤ} :
    readInteger? text = some i ↔ Denotes text i := by
  constructor
  · intro h
    unfold readInteger? at h
    split at h
    · rename_i cs htext
      obtain ⟨n, hn, rfl⟩ := Option.map_eq_some_iff.1 h
      exact .minus htext (readNatural?_eq_some_iff.1 hn)
    · rename_i cs htext
      obtain ⟨n, hn, rfl⟩ := Option.map_eq_some_iff.1 h
      exact .plus htext (readNatural?_eq_some_iff.1 hn)
    · obtain ⟨n, hn, rfl⟩ := Option.map_eq_some_iff.1 h
      exact .plain (readNatural?_eq_some_iff.1 hn)
  · intro h
    unfold readInteger?
    cases h with
    | plain h =>
      have hread := h.read
      split
      · rename_i cs htext
        rw [htext] at hread
        cases hread
      · rename_i cs htext
        rw [htext] at hread
        cases hread
      · rw [hread]
        rfl
    | plus htext h => simp [htext, h.read]
    | minus htext h => simp [htext, h.read]

lemma Denotes.unique {text : String} {i j : ℤ} (hi : Denotes text i) (hj : Denotes text j) :
    i = j :=
  Option.some.inj ((readInteger?_eq_some_iff.2 hi).symm.trans (readInteger?_eq_some_iff.2 hj))

end TypedScript.Text
