import TypedScript.Narrowing.Condition
import TypedScript.Proofs.Values

/-!
# Narrowing is sound

Conditions are evaluated over any lawful values. Variables have values; null and strings
stand for themselves; of other operands any value may come, and of other conditions either
Boolean. When a condition comes out one way, what it tells for that outcome is true of the
values of the variables.
-/
namespace TypedScript

/-- The operand has a value that the variables determine. -/
def Expr.isDetermined : Expr → Bool
  | .paren .. | .ident .. | .typeOf .. => true
  | .literal _ kind _ => kind = .null || kind = .string
  | _ => false

/-- The condition is a test, or made of conditions. -/
def Expr.isCondition : Expr → Bool
  | .paren .. | .instanceOf .. => true
  | .unary _ op _ => op = .not
  | .binary _ _ op _ => op = .and || op = .or || op = .eq || op = .notEq
  | _ => false

section Evaluation

variable {V : Type} (vals : Values V) (ρ : String → V)

/-- The operand can have the value when the variables have those in `ρ`. -/
inductive Expr.Denotes : Expr → V → Prop
  | paren {m : Mark} {x : Expr} {v : V} : Denotes x v → Denotes (.paren m x) v
  | ident {m : Mark} {name : String} : Denotes (.ident m name) (ρ name)
  | null {m : Mark} {s : String} : Denotes (.literal m .null s) vals.null
  | string {m : Mark} {s : String} : Denotes (.literal m .string s) (vals.text s)
  | typeOf {m : Mark} {x : Expr} {v : V} :
      Denotes x v → Denotes (.typeOf m x) (vals.text (vals.typeName v))
  | other {x : Expr} {v : V} : x.isDetermined = false → Denotes x v

/-- The condition can come out like this when the variables have the values in `ρ`. The
right operand of `&&` and `||` is looked at only if the left does not decide. -/
inductive Expr.Evaluates : Expr → Bool → Prop
  | paren {m : Mark} {x : Expr} {b : Bool} : Evaluates x b → Evaluates (.paren m x) b
  | not {m : Mark} {x : Expr} {b : Bool} : Evaluates x b → Evaluates (.unary m .not x) (!b)
  | andLeft {m : Mark} {x y : Expr} : Evaluates x false → Evaluates (.binary m x .and y) false
  | andRight {m : Mark} {x y : Expr} {b : Bool} :
      Evaluates x true → Evaluates y b → Evaluates (.binary m x .and y) b
  | orLeft {m : Mark} {x y : Expr} : Evaluates x true → Evaluates (.binary m x .or y) true
  | orRight {m : Mark} {x y : Expr} {b : Bool} :
      Evaluates x false → Evaluates y b → Evaluates (.binary m x .or y) b
  | eq {m : Mark} {x y : Expr} {v w : V} {b : Bool} : x.Denotes vals ρ v → y.Denotes vals ρ w →
      (b = true ↔ v = w) → Evaluates (.binary m x .eq y) b
  | notEq {m : Mark} {x y : Expr} {v w : V} {b : Bool} : x.Denotes vals ρ v →
      y.Denotes vals ρ w → (b = true ↔ v ≠ w) → Evaluates (.binary m x .notEq y) b
  | instanceOf {m : Mark} {x : Expr} {cls : Ident} {v : V} {b : Bool} : x.Denotes vals ρ v →
      (b = true ↔ vals.isInstance v cls.name) → Evaluates (.instanceOf m x cls) b
  | other {x : Expr} {b : Bool} : x.isCondition = false → Evaluates x b

end Evaluation

/-- What is told for one outcome of a condition. -/
def Outcomes.when (o : Outcomes) (b : Bool) : Narrowings := if b then o.holds else o.fails

/-- The values of the variables are in the types told for them. -/
def Narrowings.Holds {V : Type} (vals : Values V) (ρ : String → V) (ns : Narrowings) : Prop :=
  ∀ name t, (name, t) ∈ ns → vals.mem (ρ name) t

/-- What is known where a condition stands is true of the values of the variables. -/
structure Surroundings.Holds {V : Type} (vals : Values V) (ρ : String → V) (env : Surroundings) :
    Prop where
  canonical {name : String} {t : Ty} : env.typeOf? name = some t → t.Canonical
  mem {name : String} {t : Ty} : env.typeOf? name = some t → vals.mem (ρ name) t
  instances {v : V} {name : String} {c : Class} : vals.isInstance v name →
    env.classNamed? name = some c → vals.mem v (.cls c)

variable {V : Type} {vals : Values V} {ρ : String → V} {env : Surroundings}

/-! ## Operands -/

namespace Expr

variable {x y : Expr} {v w : V} {name : String}

lemma Denotes.unparen : (x : Expr) → x.Denotes vals ρ v → x.unparen.Denotes vals ρ v
  | .paren _ x, h => by
    cases h with
    | paren h => exact h.unparen
    | other h => simp [isDetermined] at h
  | .literal .., h | .template .., h | .ident .., h | .binary .., h | .unary .., h
  | .stepBefore .., h | .stepAfter .., h | .assign .., h | .call .., h | .construct .., h
  | .select .., h | .optionalSelect .., h | .methodCall .., h | .index .., h | .await .., h
  | .this .., h | .super .., h | .typeOf .., h | .instanceOf .., h | .range .., h
  | .conditional .., h | .coalesce .., h | .nonNull .., h | .matchExpr .., h | .classExpr .., h
  | .namelessClass .., h | .list .., h | .object .., h | .arrow .., h | .spread .., h => h
termination_by structural x => x

/-- A name stands for the value of the variable. -/
lemma Denotes.of_name? (h : x.Denotes vals ρ v) (hname : x.name? = some name) : v = ρ name := by
  have h := h.unparen
  unfold name? at hname
  split at hname
  case _ m n heq =>
    obtain rfl := Option.some.inj hname
    rw [heq] at h
    cases h with
    | ident => rfl
    | other h => simp [isDetermined] at h
  · simp at hname

lemma exists_denotes (vals : Values V) (ρ : String → V) : (x : Expr) → ∃ v, x.Denotes vals ρ v
  | .paren _ x => (exists_denotes vals ρ x).imp fun _ => .paren
  | .ident _ name => ⟨ρ name, .ident⟩
  | .typeOf _ x => (exists_denotes vals ρ x).elim fun _ hx => ⟨_, .typeOf hx⟩
  | .literal _ .null _ => ⟨_, .null⟩
  | .literal _ .string _ => ⟨_, .string⟩
  | .literal _ .int _ | .literal _ .float _ | .literal _ .bool _ | .literal _ .other _
  | .template .. | .binary .. | .unary .. | .stepBefore .. | .stepAfter .. | .assign ..
  | .call .. | .construct .. | .select .. | .optionalSelect .. | .methodCall .. | .index ..
  | .await .. | .this .. | .super .. | .instanceOf .. | .range .. | .conditional ..
  | .coalesce .. | .nonNull .. | .matchExpr .. | .classExpr .. | .namelessClass .. | .list ..
  | .object .. | .arrow .. | .spread .. => ⟨vals.null, .other rfl⟩
termination_by structural x => x

lemma exists_evaluates_binary {m : Mark} {op : Operator} (hx : ∃ b, x.Evaluates vals ρ b)
    (hy : ∃ b, y.Evaluates vals ρ b) : ∃ b, (binary m x op y).Evaluates vals ρ b := by
  classical
  obtain ⟨b, hx⟩ := hx
  obtain ⟨c, hy⟩ := hy
  obtain ⟨v, hv⟩ := exists_denotes vals ρ x
  obtain ⟨w, hw⟩ := exists_denotes vals ρ y
  cases hop : (binary m x op y).isCondition with
  | false => exact ⟨true, .other hop⟩
  | true =>
    simp only [isCondition, Bool.or_eq_true, decide_eq_true_eq] at hop
    obtain ((rfl | rfl) | rfl) | rfl := hop
    · cases b with
      | false => exact ⟨false, .andLeft hx⟩
      | true => exact ⟨c, .andRight hx hy⟩
    · cases b with
      | false => exact ⟨c, .orRight hx hy⟩
      | true => exact ⟨true, .orLeft hx⟩
    · exact ⟨decide (v = w), .eq hv hw decide_eq_true_iff⟩
    · exact ⟨decide (v ≠ w), .notEq hv hw decide_eq_true_iff⟩

/-- Every condition can come out in some way. -/
lemma exists_evaluates : (x : Expr) → ∃ b, x.Evaluates vals ρ b
  | .paren _ x => (exists_evaluates x).imp fun _ => .paren
  | .binary _ x _ y => exists_evaluates_binary (exists_evaluates x) (exists_evaluates y)
  | .unary m op x => by
    obtain ⟨b, hx⟩ := exists_evaluates x
    cases hop : (unary m op x).isCondition with
    | false => exact ⟨true, .other hop⟩
    | true =>
      obtain rfl : op = .not := by simpa [isCondition] using hop
      exact ⟨!b, .not hx⟩
  | .instanceOf m x cls => by
    classical
    obtain ⟨v, hx⟩ := exists_denotes vals ρ x
    exact ⟨decide (vals.isInstance v cls.name), .instanceOf hx decide_eq_true_iff⟩
  | .literal .. | .ident .. | .typeOf .. | .template .. | .stepBefore .. | .stepAfter ..
  | .assign .. | .call .. | .construct .. | .select .. | .optionalSelect .. | .methodCall ..
  | .index .. | .await .. | .this .. | .super .. | .range .. | .conditional .. | .coalesce ..
  | .nonNull .. | .matchExpr .. | .classExpr .. | .namelessClass .. | .list .. | .object ..
  | .arrow .. | .spread .. => ⟨true, .other rfl⟩
termination_by structural x => x

end Expr

namespace Condition

variable {x y : Expr} {v w : V} {name : String} {t : Ty}

/-- The type that `typeof` names has the value. -/
lemma mem_of_namedType? (lawful : vals.Lawful) (h : namedType? (vals.typeName v) = some t) :
    vals.mem v t := by
  generalize hname : vals.typeName v = s at h
  unfold namedType? at h
  split at h
  · exact Option.some.inj h ▸ lawful.mem_int hname
  · exact Option.some.inj h ▸ lawful.mem_float hname
  · exact Option.some.inj h ▸ lawful.mem_str (.inl hname)
  · exact Option.some.inj h ▸ lawful.mem_str (.inr hname)
  · exact Option.some.inj h ▸ lawful.mem_bool (.inl hname)
  · exact Option.some.inj h ▸ lawful.mem_bool (.inr hname)
  · simp at h

/-- A comparison of `typeof` with a string that holds tells the type. -/
lemma typeTest?_sound (lawful : vals.Lawful) (hx : x.Denotes vals ρ v)
    (hy : y.Denotes vals ρ v) (htest : typeTest? x y = some (name, t)) :
    vals.mem (ρ name) t := by
  have hx := hx.unparen
  have hy := hy.unparen
  unfold typeTest? at htest
  split at htest
  case h_2 => simp at htest
  case h_1 m e n text hex hey =>
    rw [hex] at hx
    rw [hey] at hy
    split at htest
    case h_2 => simp at htest
    case h_1 hname hnamed =>
      obtain ⟨rfl, rfl⟩ := Prod.mk.inj (Option.some.inj htest)
      cases hx with
      | other h => simp [Expr.isDetermined] at h
      | @typeOf _ _ u hu =>
        have htext : vals.typeName u = text := by
          generalize hv : vals.text (vals.typeName u) = v at hy
          cases hy with
          | string => exact lawful.text_injective hv
          | other h => simp [Expr.isDetermined] at h
        obtain rfl := hu.of_name? hname
        exact mem_of_namedType? lawful (htext ▸ hnamed)

/-- A comparison of a variable with null. -/
lemma nullTest?_sound (hx : x.Denotes vals ρ v) (hy : y.Denotes vals ρ w)
    (htest : nullTest? x y = some name) : v = ρ name ∧ w = vals.null := by
  have hy := hy.unparen
  unfold nullTest? at htest
  split at htest
  case h_2 => simp at htest
  case h_1 m s hey =>
    rw [hey] at hy
    refine ⟨hx.of_name? htest, ?_⟩
    cases hy with
    | null => rfl
    | other h => simp [Expr.isDetermined] at h

lemma withoutNull?_sound (lawful : vals.Lawful) (henv : env.Holds vals ρ)
    (hnull : ρ name ≠ vals.null) (ht : withoutNull? env name = some t) :
    vals.mem (ρ name) t := by
  unfold withoutNull? at ht
  split at ht
  case h_1 => simp at ht
  case h_2 current hcurrent =>
    split at ht
    · simp at ht
    · split at ht
      · simp at ht
      · obtain rfl := Option.some.inj ht
        exact Values.mem_stripNull lawful (henv.canonical hcurrent) hnull (henv.mem hcurrent)

/-- What an equality tells when it holds, and when it fails. -/
lemma equality_sound (lawful : vals.Lawful) (henv : env.Holds vals ρ)
    (hx : x.Denotes vals ρ v) (hy : y.Denotes vals ρ w) :
    (v = w → (equality env x y).holds.Holds vals ρ) ∧
    (v ≠ w → (equality env x y).fails.Holds vals ρ) := by
  unfold equality
  split
  case h_1 name t htest =>
    refine ⟨?_, fun _ => nofun⟩
    rintro rfl name t ht
    obtain ⟨rfl, rfl⟩ := Prod.mk.inj (List.mem_singleton.1 ht)
    obtain htest | ⟨-, htest⟩ := Option.or_eq_some_iff.1 htest
    · exact typeTest?_sound lawful hx hy htest
    · exact typeTest?_sound lawful hy hx htest
  case h_2 =>
    split
    case h_2 => exact ⟨fun _ => nofun, fun _ => nofun⟩
    case h_1 name htest =>
      split
      case h_2 => exact ⟨fun _ => nofun, fun _ => nofun⟩
      case h_1 t hwithout =>
        refine ⟨fun _ => nofun, fun hne name' t' ht => ?_⟩
        obtain ⟨rfl, rfl⟩ := Prod.mk.inj (List.mem_singleton.1 ht)
        have hnull : ρ name' ≠ vals.null := by
          obtain htest | ⟨-, htest⟩ := Option.or_eq_some_iff.1 htest
          · obtain ⟨rfl, rfl⟩ := nullTest?_sound hx hy htest
            exact hne
          · obtain ⟨rfl, rfl⟩ := nullTest?_sound hy hx htest
            exact hne.symm
        exact withoutNull?_sound lawful henv hnull hwithout

end Condition

/-! ## Conditions -/

namespace Narrowings

variable {a b : Narrowings}

/-- Two narrowings that hold together hold as one. -/
lemma Holds.merge (ha : a.Holds vals ρ) (hb : b.Holds vals ρ) : (a.merge b).Holds vals ρ := by
  unfold Narrowings.merge
  induction b generalizing a with
  | nil => exact ha
  | cons e b ih =>
    refine ih (fun name t ht => ?_) fun name t ht => hb name t (List.mem_cons_of_mem _ ht)
    obtain heq | ht := ByName.mem_insert ht
    · exact hb name t (heq ▸ List.mem_cons_self)
    · exact ha name t ht

lemma holds_nil : Holds vals ρ [] := nofun

lemma holds_nothing {b : Bool} : Holds vals ρ (Outcomes.nothing.when b) := by
  cases b <;> exact holds_nil

end Narrowings

lemma Outcomes.when_swap (o : Outcomes) (b : Bool) : o.swap.when b = o.when (!b) := by
  cases b <;> rfl

namespace Condition

lemma instanceOf_sound (henv : env.Holds vals ρ) {m : Mark} {x : Expr} {cls : Ident} {v : V}
    {b : Bool} (hx : x.Denotes vals ρ v) (hb : b = true ↔ vals.isInstance v cls.name) :
    ((analyze env (.instanceOf m x cls)).when b).Holds vals ρ := by
  unfold analyze
  split
  case h_2 => exact Narrowings.holds_nothing
  case h_1 name c hname hclass =>
    cases b with
    | false => exact Narrowings.holds_nil
    | true =>
      intro name' t ht
      obtain ⟨rfl, rfl⟩ := Prod.mk.inj (List.mem_singleton.1 ht)
      obtain rfl := hx.of_name? hname
      exact henv.instances (hb.1 rfl) hclass

lemma analyze_eq_nothing {x : Expr} (hx : x.isCondition = false) : analyze env x = .nothing := by
  cases x with
  | paren | instanceOf => simp [Expr.isCondition] at hx
  | unary m op x => cases op <;> first | rfl | simp [Expr.isCondition] at hx
  | binary m x op y => cases op <;> first | rfl | simp [Expr.isCondition] at hx
  | _ => rfl

lemma analyze_sound (lawful : vals.Lawful) (henv : env.Holds vals ρ) {cond : Expr} {b : Bool}
    (h : cond.Evaluates vals ρ b) : ((analyze env cond).when b).Holds vals ρ := by
  induction h with
  | paren _ ih => exact ih
  | not _ ih =>
    rw [analyze, Outcomes.when_swap, Bool.not_not]
    exact ih
  | andLeft => exact Narrowings.holds_nil
  | @andRight _ x y b _ _ ihx ihy =>
    cases b with
    | true => exact Narrowings.Holds.merge ihx ihy
    | false => exact Narrowings.holds_nil
  | orLeft => exact Narrowings.holds_nil
  | @orRight _ x y b _ _ ihx ihy =>
    cases b with
    | true => exact Narrowings.holds_nil
    | false => exact Narrowings.Holds.merge ihx ihy
  | @eq _ x y v w b hx hy hb =>
    obtain ⟨hholds, hfails⟩ := equality_sound lawful henv hx hy
    cases b with
    | true => exact hholds (hb.1 rfl)
    | false => exact hfails fun heq => by simpa using hb.2 heq
  | @notEq _ x y v w b hx hy hb =>
    obtain ⟨hholds, hfails⟩ := equality_sound lawful henv hx hy
    cases b with
    | true => exact hfails (hb.1 rfl)
    | false => exact hholds (by simpa using hb)
  | @instanceOf _ x cls v b hx hb => exact instanceOf_sound henv hx hb
  | other hx =>
    rw [analyze_eq_nothing hx]
    exact Narrowings.holds_nothing

end Condition

/-! ## The theorem -/

namespace Condition

/-- Conditions come out one way or the other, and what a condition tells for the way it
comes out is true. -/
theorem narrowing_sound (vals : Values V) (lawful : vals.Lawful) (ρ : String → V)
    (env : Surroundings) (henv : env.Holds vals ρ) (cond : Expr) :
    (∃ b, cond.Evaluates vals ρ b) ∧
    (cond.Evaluates vals ρ true →
      ∀ name t, (name, t) ∈ (analyze env cond).holds → vals.mem (ρ name) t) ∧
    (cond.Evaluates vals ρ false →
      ∀ name t, (name, t) ∈ (analyze env cond).fails → vals.mem (ρ name) t) :=
  ⟨Expr.exists_evaluates cond, analyze_sound lawful henv, analyze_sound lawful henv⟩

/-- A variable that may be null, a string or an integer, and a class. -/
def sampleSurroundings : Surroundings where
  typeOf? name := if name = "x" then some (.union [.null, .str, .nullable .int]) else none
  classNamed? name := if name = "C" then some ⟨"C", none, [], [], none, [], false⟩ else none

def sampleValue (name : String) : Datum :=
  if name = "x" then .int 1 else if name = "y" then .object "C" else .text name

lemma sampleSurroundings_holds : sampleSurroundings.Holds Datum.values sampleValue where
  canonical {name t} h := by
    simp only [sampleSurroundings] at h
    split at h
    · obtain rfl := Option.some.inj h
      simp [Ty.Canonical, Ty.IsProper, Ty.IsTight, Ty.kind, Ty.equals, Ty.equalsBy, Ty.isNull,
        Ty.isPrim]
    · simp at h
  mem {name t} h := by
    simp only [sampleSurroundings] at h
    split at h
    case isTrue hname =>
      obtain rfl := Option.some.inj h
      simp [sampleValue, hname, Datum.values, Datum.mem, Datum.memSome, Datum.isOf]
    case isFalse => simp at h
  instances {v name c} hv hc := by
    simp only [sampleSurroundings] at hc
    split at hc
    case isTrue hname =>
      obtain rfl := Option.some.inj hc
      exact hname ▸ hv
    case isFalse => simp at hc

/-- The condition `x != null && !(typeof z != "string" || !(y instanceof C))`. -/
def sampleCondition : Expr :=
  let m : Mark := ⟨0, {}⟩
  .binary m (.binary m (.ident m "x") .notEq (.literal m .null "null")) .and
    (.unary m .not (.paren m (.binary m
      (.binary m (.typeOf m (.ident m "z")) .notEq (.literal m .string "string")) .or
      (.unary m .not (.instanceOf m (.ident m "y") ⟨"C", {}⟩)))))

lemma sampleCondition_holds : sampleCondition.Evaluates Datum.values sampleValue true := by
  refine .andRight (.notEq .ident .null ?_) (.not (b := false) (.paren (.orRight ?_ ?_)))
  · simp [sampleValue, Datum.values]
  · exact .notEq (.typeOf .ident) .string (by simp [sampleValue, Datum.values, Datum.typeName])
  · exact .not (b := true) (.instanceOf .ident (by simp [sampleValue, Datum.values]))

/-- Neither of the three types that the condition tells is what was known before. -/
theorem null_and_class_tests_narrow :
    (analyze sampleSurroundings sampleCondition).holds =
      [("x", .union [.str, .int]), ("y", .cls ⟨"C", none, [], [], none, [], false⟩),
        ("z", .str)] ∧
    Datum.values.mem (sampleValue "x") (.union [.str, .int]) ∧
    Datum.values.mem (sampleValue "y") (.cls ⟨"C", none, [], [], none, [], false⟩) ∧
    Datum.values.mem (sampleValue "z") .str := by
  obtain ⟨-, hholds, -⟩ := narrowing_sound Datum.values Datum.lawful sampleValue
    sampleSurroundings sampleSurroundings_holds sampleCondition
  have hmem := hholds sampleCondition_holds
  refine ⟨rfl, hmem "x" _ ?_, hmem "y" _ ?_, hmem "z" _ ?_⟩
  · exact .head _
  · exact .tail _ (.head _)
  · exact .tail _ (.tail _ (.head _))

end Condition

end TypedScript
