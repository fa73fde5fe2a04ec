import Mathlib.Tactic.Common
import TypedScript.Proofs.NumericJoins
import TypedScript.Proofs.Numbers.Numerals
import TypedScript.Typing.Literals

/-!
# Literals and the integers that a kind holds

An integer kind has a number of bits, and its values are what words of so many bits are read as:
in two's complement, or without a sign for the unsigned kinds. The table of least and greatest
values says the same, and one integer kind widens into another exactly if that holds all of its
values.

A literal whose context asks for an integer kind gets that kind exactly if the kind holds the
integer that the text denotes. Without a numeric type in the context the literal is an `Int`,
whatever it denotes: an integer of more than 64 bits then has a type that does not hold it.
-/
namespace TypedScript

namespace Prim

variable {p q : Prim} {n : ℤ} {r s : ℤ × ℤ}

/-- The number of bits in a value of an integer kind. -/
def width : Prim → ℕ
  | i8 | u8 => 8
  | i16 | u16 => 16
  | i32 | u32 => 32
  | i64 | u64 | int => 64
  | _ => 0

/-- A word of the kind's width is read as the integer. -/
def Holds (p : Prim) (n : ℤ) : Prop :=
  ∃ w : BitVec p.width, (if p.isUnsigned then (w.toNat : ℤ) else w.toInt) = n

lemma isNumeric_eq (p : Prim) : p.isNumeric = (p.isInteger || p.isFloat) := by
  cases p <;> rfl

lemma isInteger_eq_false_of_isFloat (h : p.isFloat = true) : p.isInteger = false := by
  cases p with
  | float | f32 | f64 | decimal => rfl
  | _ => cases h

/-! ## Words and ranges -/

lemma exists_toInt_eq_iff {width : ℕ} (hpos : 0 < width) :
    (∃ w : BitVec width, w.toInt = n) ↔ -2 ^ (width - 1) ≤ n ∧ n < 2 ^ (width - 1) := by
  constructor
  · rintro ⟨w, rfl⟩
    exact ⟨w.le_toInt, w.toInt_lt⟩
  · rintro ⟨hle, hlt⟩
    exact ⟨BitVec.ofInt width n, BitVec.toInt_ofInt_eq_self hpos hle hlt⟩

lemma exists_toNat_eq_iff {width : ℕ} :
    (∃ w : BitVec width, (w.toNat : ℤ) = n) ↔ 0 ≤ n ∧ n < 2 ^ width := by
  constructor
  · rintro ⟨w, rfl⟩
    exact ⟨Int.natCast_nonneg _, by exact_mod_cast w.isLt⟩
  · rintro ⟨hle, hlt⟩
    obtain ⟨k, rfl⟩ := Int.eq_ofNat_of_zero_le hle
    have hk : k < 2 ^ width := by exact_mod_cast hlt
    exact ⟨BitVec.ofNat width k, by rw [BitVec.toNat_ofNat, Nat.mod_eq_of_lt hk]⟩

lemma exists_range_of_isInteger (h : p.isInteger = true) : ∃ r, p.range? = some r := by
  cases p with
  | int | i8 | i16 | i32 | i64 | u8 | u16 | u32 | u64 => exact ⟨_, rfl⟩
  | _ => cases h

/-- The table of ranges agrees with the number of bits. -/
lemma holds_iff_range (h : p.range? = some r) : p.Holds n ↔ r.1 ≤ n ∧ n ≤ r.2 := by
  cases p with
  | i8 | i16 | i32 | i64 | int =>
    cases h
    refine (exists_toInt_eq_iff (by decide)).trans ?_
    simp only [width]
    omega
  | u8 | u16 | u32 | u64 =>
    cases h
    refine exists_toNat_eq_iff.trans ?_
    simp only [width]
    omega
  | _ => cases h

lemma range_nonempty (h : p.range? = some r) : r.1 ≤ r.2 := by
  cases p with
  | int | i8 | i16 | i32 | i64 | u8 | u16 | u32 | u64 =>
    cases h
    decide
  | _ => cases h

/-- The tiers of integer kinds are ordered as their ranges. -/
lemma canWiden_iff_range (hp : p.range? = some r) (hq : q.range? = some s) :
    p.canWiden q = true ↔ s.1 ≤ r.1 ∧ r.2 ≤ s.2 := by
  cases p <;> cases hp <;> cases q <;> cases hq <;> decide

/-- An integer kind widens into those that hold all of its values. -/
theorem canWiden_iff_forall_holds (hp : p.isInteger = true) (hq : q.isInteger = true) :
    p.canWiden q = true ↔ ∀ n, p.Holds n → q.Holds n := by
  obtain ⟨r, hr⟩ := exists_range_of_isInteger hp
  obtain ⟨s, hs⟩ := exists_range_of_isInteger hq
  have hne := range_nonempty hr
  simp only [canWiden_iff_range hr hs, holds_iff_range hr, holds_iff_range hs]
  constructor
  · rintro ⟨hleast, hgreatest⟩ n ⟨hle, hge⟩
    exact ⟨hleast.trans hle, hge.trans hgreatest⟩
  · intro h
    exact ⟨(h r.1 ⟨Int.le_refl _, hne⟩).1, (h r.2 ⟨hne, Int.le_refl _⟩).2⟩

end Prim

namespace Hint

/-- The context asks for a kind, or for that kind or null. -/
def Asks (expected : Hint) (p : Prim) : Prop :=
  expected = some (.prim p) ∨ expected = some (.nullable (.prim p))

lemma Asks.unwrap_eq {expected : Hint} {p : Prim} (h : expected.Asks p) :
    expected.unwrap = .prim p := by
  obtain rfl | rfl := h <;> rfl

end Hint

namespace Typing

variable {text : String} {n : ℤ} {p : Prim} {expected : Hint}

/-! ## Literals -/

lemma literalFits_iff_holds (hn : Text.Denotes text n) (hp : p.isInteger = true) :
    literalFits text p = true ↔ p.Holds n := by
  obtain ⟨r, hr⟩ := Prim.exists_range_of_isInteger hp
  simp [literalFits, hr, Text.readInteger?_eq_some_iff.2 hn, Prim.holds_iff_range hr]

/-- Where an integer kind is asked for, the literal has that kind or is out of its range. -/
lemma literal_of_isInteger (h : expected.unwrap = .prim p) (hp : p.isInteger = true) :
    literal .int text expected =
      if literalFits text p then .ok (.prim p) else .error (outOfRange text p) := by
  simp [literal, h, hp]

lemma literal_of_isFloat (h : expected.unwrap = .prim p) (hp : p.isFloat = true) :
    literal .int text expected = .ok (.prim p) := by
  simp [literal, h, hp, Prim.isInteger_eq_false_of_isFloat hp]

lemma literal_of_not_isNumeric (h : expected.unwrap.isNumeric = false) :
    literal .int text expected = .ok .int := by
  unfold literal
  cases hexpected : expected.unwrap with
  | prim p =>
    have hp : p.isNumeric = false := by rwa [hexpected] at h
    rw [Prim.isNumeric_eq, Bool.or_eq_false_iff] at hp
    simp [hp]
  | _ => rfl

lemma literal_eq_ok_iff (hn : Text.Denotes text n) (h : expected.unwrap = .prim p)
    (hp : p.isInteger = true) (t : Ty) :
    literal .int text expected = .ok t ↔ t = .prim p ∧ p.Holds n := by
  rw [literal_of_isInteger h hp, ← literalFits_iff_holds hn hp]
  by_cases hfits : literalFits text p = true
  · simp [hfits, eq_comm]
  · simp [hfits]

/-- A literal is accepted where an integer kind is asked for exactly if the kind holds what its
text denotes, and then also where a wider integer kind is asked for. -/
theorem integer_literal_accepted_iff (hn : Text.Denotes text n) (hp : p.isInteger = true)
    (hasks : expected.Asks p) :
    (∀ t, literal .int text expected = .ok t ↔ t = .prim p ∧ p.Holds n) ∧
    (¬ p.Holds n → literal .int text expected = .error (outOfRange text p)) ∧
    (literal .int text expected = .ok (.prim p) → ∀ q : Prim, q.isInteger = true →
      p.canWiden q = true → ∀ wider : Hint, wider.Asks q →
        literal .int text wider = .ok (.prim q)) := by
  refine ⟨literal_eq_ok_iff hn hasks.unwrap_eq hp, fun hout => ?_, ?_⟩
  · rw [literal_of_isInteger hasks.unwrap_eq hp, if_neg]
    rwa [literalFits_iff_holds hn hp]
  · intro hok q hq hwiden wider hwider
    obtain ⟨-, hholds⟩ := (literal_eq_ok_iff hn hasks.unwrap_eq hp _).1 hok
    have hwide := (Prim.canWiden_iff_forall_holds hp hq).1 hwiden n hholds
    exact (literal_eq_ok_iff hn hwider.unwrap_eq hq _).2 ⟨rfl, hwide⟩

/-- The least value of `I16` is accepted, and the first one above those of `U16` is not. -/
theorem limits_told_apart :
    Text.Denotes "-0x80_00" (-32768) ∧ Hint.Asks (some (.nullable (.prim .i16))) .i16 ∧
    literal .int "-0x80_00" (some (.nullable (.prim .i16))) = .ok (.prim .i16) ∧
    literal .int "-0x80_00" (some (.prim .i64)) = .ok (.prim .i64) ∧
    Text.Denotes "0200000" 65536 ∧
    literal .int "0200000" (some (.prim .u16)) = .error (outOfRange "0200000" .u16) := by
  have hleast : Text.Denotes "-0x80_00" (-32768) :=
    Text.readInteger?_eq_some_iff.1 (by decide +kernel)
  have habove : Text.Denotes "0200000" 65536 :=
    Text.readInteger?_eq_some_iff.1 (by decide +kernel)
  have hholds : Prim.i16.Holds (-32768) := (Prim.holds_iff_range rfl).2 (by decide)
  have hout : ¬ Prim.u16.Holds 65536 := fun h => absurd ((Prim.holds_iff_range rfl).1 h) (by decide)
  obtain ⟨haccepted, -, hwider⟩ := integer_literal_accepted_iff (p := .i16) hleast rfl (.inr rfl)
  have hok := (haccepted _).2 ⟨rfl, hholds⟩
  exact ⟨hleast, .inr rfl, hok, hwider hok .i64 rfl rfl _ (.inl rfl), habove,
    (integer_literal_accepted_iff habove rfl (.inl rfl)).2.1 hout⟩

/-- A literal has an integer kind that does not hold what its text denotes exactly if the kind is
`Int`, the context has no numeric type and the integer has more than 64 bits. -/
theorem literal_not_held_iff (hn : Text.Denotes text n) (hp : p.isInteger = true)
    (expected : Hint) :
    literal .int text expected = .ok (.prim p) ∧ ¬ p.Holds n ↔
      p = .int ∧ expected.unwrap.isNumeric = false ∧ ¬ Prim.int.Holds n := by
  cases hnumeric : expected.unwrap.isNumeric with
  | true =>
    -- The kind is the one asked for, which was compared with the integer.
    suffices hheld : literal .int text expected = .ok (.prim p) → p.Holds n by simpa using hheld
    intro hok
    obtain ⟨q, hq, hqnumeric⟩ := Ty.exists_prim_of_isNumeric hnumeric
    rw [Prim.isNumeric_eq, Bool.or_eq_true] at hqnumeric
    obtain hinteger | hfloat := hqnumeric
    · obtain ⟨hkind, hholds⟩ := (literal_eq_ok_iff hn hq hinteger _).1 hok
      cases hkind
      exact hholds
    · rw [literal_of_isFloat hq hfloat] at hok
      cases hok
      rw [Prim.isInteger_eq_false_of_isFloat hfloat] at hp
      cases hp
  | false =>
    rw [literal_of_not_isNumeric hnumeric]
    constructor
    · rintro ⟨hok, hout⟩
      cases hok
      exact ⟨rfl, rfl, hout⟩
    · rintro ⟨rfl, -, hout⟩
      exact ⟨rfl, hout⟩

lemma not_holds_two_pow_63 : ¬ Prim.int.Holds 9223372036854775808 :=
  fun h => absurd ((Prim.holds_iff_range rfl).1 h) (by decide)

/-- A context of another kind does not keep a literal of 65 bits from being an `Int`. -/
theorem wide_literal_among_others :
    Text.Denotes "0x8000_0000_0000_0000" 9223372036854775808 ∧
    (Hint.unwrap (some (.union [.str, .bool]))).isNumeric = false ∧
    literal .int "0x8000_0000_0000_0000" (some (.union [.str, .bool])) = .ok .int ∧
    ¬ Prim.int.Holds 9223372036854775808 := by
  have hn : Text.Denotes "0x8000_0000_0000_0000" 9223372036854775808 :=
    Text.readInteger?_eq_some_iff.1 (by decide +kernel)
  exact ⟨hn, rfl, (literal_not_held_iff hn rfl _).2 ⟨rfl, rfl, not_holds_two_pow_63⟩⟩

/-- A literal that is refused where an `Int` is asked for is an `Int` where nothing is. -/
theorem wide_literal_is_int :
    Text.Denotes "9223372036854775808" 9223372036854775808 ∧
    ¬ Prim.int.Holds 9223372036854775808 ∧
    literal .int "9223372036854775808" (some .int) =
      .error (outOfRange "9223372036854775808" .int) ∧
    literal .int "9223372036854775808" none = .ok .int := by
  have hn : Text.Denotes "9223372036854775808" 9223372036854775808 :=
    Text.readInteger?_eq_some_iff.1 (by decide +kernel)
  refine ⟨hn, not_holds_two_pow_63, ?_, rfl⟩
  rw [literal_of_isInteger rfl rfl, if_neg]
  rw [literalFits_iff_holds hn rfl]
  exact not_holds_two_pow_63

end Typing

end TypedScript
