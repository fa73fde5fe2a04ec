import TypedScript.Proofs.Equality

/-!
# The values of a type

What a type says about values, for any values that types speak about. Null is a value, as
are texts; a nullable and a union have the values that their parts have, and equal types
have the same values.

Taking null out of a type loses no other value. A union that is made anew gives up members
that are equal to earlier ones, which have the same values, so nothing is lost there either.
-/
namespace TypedScript

/-- Values at run time, what can be asked of them and the types they are in. -/
structure Values (V : Type) where
  null : V
  text : String → V
  /-- What `typeof` gives. -/
  typeName : V → String
  /-- The value is an instance of the class with this name. -/
  isInstance : V → String → Prop
  mem : V → Ty → Prop

/-- Types mean what they say. -/
structure Values.Lawful {V : Type} (vals : Values V) : Prop where
  text_injective : Function.Injective vals.text
  mem_nullable {v : V} {t : Ty} : vals.mem v (.nullable t) ↔ v = vals.null ∨ vals.mem v t
  mem_union {v : V} {ms : List Ty} : vals.mem v (.union ms) ↔ ∃ m ∈ ms, vals.mem v m
  eq_null {v : V} : vals.mem v .null → v = vals.null
  mem_any (v : V) : vals.mem v .any
  mem_unknown (v : V) : vals.mem v .unknown
  mem_of_equals {v : V} {s t : Ty} : s.Canonical → t.Canonical → s.equals t = true →
    (vals.mem v s ↔ vals.mem v t)
  mem_int {v : V} : vals.typeName v = "int" → vals.mem v .int
  mem_float {v : V} : vals.typeName v = "float" → vals.mem v (.prim .float)
  mem_str {v : V} : vals.typeName v = "str" ∨ vals.typeName v = "string" → vals.mem v .str
  mem_bool {v : V} : vals.typeName v = "bool" ∨ vals.typeName v = "boolean" → vals.mem v .bool

/-! ## What types are made anew from -/

namespace Ty

variable {t : Ty} {kept ms : List Ty}

mutual

lemma Canonical.alternatives : (t : Ty) → t.Canonical → ∀ a ∈ t.alternatives, a.Canonical
  | .union ms => fun ht => canonical_allAlternatives ms fun _ hm => ht.part hm
  | .prim _ | .list _ | .map _ _ | .nullable _ | .function _ | .interface _ | .cls _ | .enum _
  | .future _ | .ref _ _ | .param _ | .generic _ _ => fun ht _ ha => List.mem_singleton.1 ha ▸ ht
termination_by structural t => t

lemma canonical_allAlternatives :
    (ts : List Ty) → (∀ t ∈ ts, t.Canonical) → ∀ a ∈ allAlternatives ts, a.Canonical
  | [] => fun _ _ ha => nomatch ha
  | t :: ts => fun hts a ha =>
    (List.mem_append.1 ha).elim
      (Canonical.alternatives t (hts t List.mem_cons_self) a)
      (canonical_allAlternatives ts (fun t ht => hts t (List.mem_cons_of_mem _ ht)) a)
termination_by structural ts => ts

end

lemma canonical_addDistinct (hkept : ∀ s ∈ kept, s.Canonical) (ht : t.Canonical) :
    ∀ s ∈ addDistinct kept t, s.Canonical := by
  unfold addDistinct
  split
  · exact hkept
  · intro s hs
    obtain hs | hs := List.mem_append.1 hs
    · exact hkept s hs
    · exact List.mem_singleton.1 hs ▸ ht

lemma isPrim_iff {p : Prim} : t.isPrim p = true ↔ t = .prim p := by
  cases t with
  | prim q => simp [Ty.isPrim, eq_comm]
  | _ => simp [Ty.isPrim]

lemma isNull_iff : t.isNull = true ↔ t = .null := isPrim_iff

/-- A type that is no union gives up at most the null of a nullable. -/
lemma stripNull_cases (hkind : t.kind ≠ .union) :
    t.stripNull = t ∨ t = .nullable t.stripNull := by
  cases t with
  | nullable => exact .inr rfl
  | union => exact absurd rfl hkind
  | _ => exact .inl rfl

lemma canonical_stripNull (ht : t.Canonical) (hkind : t.kind ≠ .union) :
    t.stripNull.Canonical := by
  obtain heq | heq := stripNull_cases hkind
  · rw [heq]
    exact ht
  · rw [heq] at ht
    exact ht.part List.mem_cons_self

lemma mem_strippedMembers {s : Ty} :
    s ∈ strippedMembers ms ↔ ∃ m ∈ ms, m.isNull = false ∧ m.stripNull = s := by
  induction ms with
  | nil => simp [strippedMembers]
  | cons m ms ih =>
    unfold strippedMembers
    cases hm : m.isNull with
    | true => simp [ih, hm]
    | false =>
      rw [if_neg (by simp), List.mem_cons, ih]
      constructor
      · rintro (rfl | ⟨n, hn, hs⟩)
        · exact ⟨m, List.mem_cons_self, hm, rfl⟩
        · exact ⟨n, List.mem_cons_of_mem _ hn, hs⟩
      · rintro ⟨n, hn, hs⟩
        obtain rfl | hn := List.mem_cons.1 hn
        · exact .inl hs.2.symm
        · exact .inr ⟨n, hn, hs⟩

end Ty

namespace Values

variable {V : Type} {vals : Values V} {v : V} {t : Ty} {kept ts ms : List Ty}

/-! ## Unions -/

mutual

lemma mem_alternatives (lawful : vals.Lawful) (v : V) :
    (t : Ty) → ((∃ a ∈ t.alternatives, vals.mem v a) ↔ vals.mem v t)
  | .union ms => by
    rw [lawful.mem_union]
    exact mem_allAlternatives lawful v ms
  | .prim _ | .list _ | .map _ _ | .nullable _ | .function _ | .interface _ | .cls _ | .enum _
  | .future _ | .ref _ _ | .param _ | .generic _ _ => by simp [Ty.alternatives]
termination_by structural t => t

lemma mem_allAlternatives (lawful : vals.Lawful) (v : V) :
    (ts : List Ty) → ((∃ a ∈ Ty.allAlternatives ts, vals.mem v a) ↔ ∃ t ∈ ts, vals.mem v t)
  | [] => by simp [Ty.allAlternatives]
  | t :: ts => by
    have ht := mem_alternatives lawful v t
    have hts := mem_allAlternatives lawful v ts
    simp only [Ty.allAlternatives, List.mem_append, or_and_right, exists_or, ht, hts,
      List.mem_cons, exists_eq_left]
termination_by structural ts => ts

end

/-- A type that is not added has the values of an equal one that is there. -/
lemma mem_addDistinct (lawful : vals.Lawful) (hkept : ∀ s ∈ kept, s.Canonical)
    (ht : t.Canonical) (hv : (∃ s ∈ kept, vals.mem v s) ∨ vals.mem v t) :
    ∃ s ∈ Ty.addDistinct kept t, vals.mem v s := by
  unfold Ty.addDistinct
  split
  case isTrue hequal =>
    obtain hv | hv := hv
    · exact hv
    · obtain ⟨s, hs, heq⟩ := List.any_eq_true.1 hequal
      exact ⟨s, hs, (lawful.mem_of_equals (hkept s hs) ht heq).2 hv⟩
  case isFalse =>
    obtain ⟨s, hs, hv⟩ | hv := hv
    · exact ⟨s, List.mem_append_left _ hs, hv⟩
    · exact ⟨t, List.mem_append_right _ List.mem_cons_self, hv⟩

lemma mem_foldl_addDistinct (lawful : vals.Lawful) (hts : ∀ t ∈ ts, t.Canonical) :
    ∀ {kept}, (∀ s ∈ kept, s.Canonical) →
      (∃ s ∈ kept, vals.mem v s) ∨ (∃ t ∈ ts, vals.mem v t) →
      ∃ s ∈ ts.foldl Ty.addDistinct kept, vals.mem v s := by
  induction ts with
  | nil =>
    intro kept _ hv
    simpa using hv
  | cons t ts ih =>
    intro kept hkept hv
    have ht := hts t List.mem_cons_self
    refine ih (fun t ht => hts t (List.mem_cons_of_mem _ ht)) (Ty.canonical_addDistinct hkept ht) ?_
    obtain hv | ⟨s, hs, hv⟩ := hv
    · exact .inl (mem_addDistinct lawful hkept ht (.inl hv))
    · obtain rfl | hs := List.mem_cons.1 hs
      · exact .inl (mem_addDistinct lawful hkept ht (.inr hv))
      · exact .inr ⟨s, hs, hv⟩

/-- The union of some types has their values. -/
lemma mem_unionOf (lawful : vals.Lawful) (hts : ∀ t ∈ ts, t.Canonical)
    (hv : ∃ t ∈ ts, vals.mem v t) : vals.mem v (Ty.unionOf ts) := by
  have halternatives := Ty.canonical_allAlternatives ts hts
  have hmember : ∃ s ∈ Ty.distinct (Ty.allAlternatives ts), vals.mem v s :=
    mem_foldl_addDistinct lawful halternatives (List.forall_mem_nil _)
      (.inr ((mem_allAlternatives lawful v ts).2 hv))
  unfold Ty.unionOf
  split
  · exact lawful.mem_unknown v
  case _ s heq =>
    rw [heq] at hmember
    simpa using hmember
  · exact lawful.mem_union.2 hmember

/-! ## Types without null -/

lemma mem_stripNull_of_kind_ne (lawful : vals.Lawful) (hkind : t.kind ≠ .union)
    (hnull : v ≠ vals.null) (hv : vals.mem v t) : vals.mem v t.stripNull := by
  obtain heq | heq := Ty.stripNull_cases hkind
  · rw [heq]
    exact hv
  · rw [heq] at hv
    exact (lawful.mem_nullable.1 hv).resolve_left hnull

/-- Besides null, no value is lost by taking null out of a type. -/
theorem mem_stripNull (lawful : vals.Lawful) (ht : t.Canonical) (hnull : v ≠ vals.null)
    (hv : vals.mem v t) : vals.mem v t.stripNull := by
  by_cases hkind : t.kind ≠ .union
  · exact mem_stripNull_of_kind_ne lawful hkind hnull hv
  · obtain ⟨ms, rfl⟩ : ∃ ms, t = .union ms := by
      cases t with
      | union ms => exact ⟨ms, rfl⟩
      | _ => exact absurd (by simp [Ty.kind]) hkind
    have hflat : ∀ m ∈ ms, m.kind ≠ .union := ht.here.1.2.1
    unfold Ty.stripNull
    split
    case isFalse => exact hv
    case isTrue =>
      refine mem_unionOf lawful ?_ ?_
      · intro s hs
        obtain ⟨m, hm, -, rfl⟩ := Ty.mem_strippedMembers.1 hs
        exact Ty.canonical_stripNull (ht.part hm) (hflat m hm)
      · obtain ⟨m, hm, hv⟩ := lawful.mem_union.1 hv
        have hkeeps : m.isNull = false := by
          rw [Bool.eq_false_iff]
          intro hisNull
          obtain rfl := Ty.isNull_iff.1 hisNull
          exact hnull (lawful.eq_null hv)
        refine ⟨m.stripNull, Ty.mem_strippedMembers.2 ⟨m, hm, hkeeps, rfl⟩, ?_⟩
        exact mem_stripNull_of_kind_ne lawful (hflat m hm) hnull hv

end Values

/-! ## Values that meet the laws -/

/-- Some values, of which objects know their class by name. -/
inductive Datum where
  | null
  | text (s : String)
  | int (n : Int)
  | bool (b : Bool)
  | object (className : String)

namespace Datum

def typeName : Datum → String
  | null => "null"
  | text _ => "string"
  | int _ => "int"
  | bool _ => "bool"
  | object _ => "object"

/-- The value is of the primitive type. -/
def isOf : Datum → Prim → Prop
  | _, .any | _, .unknown => True
  | null, .null | text _, .str | int _, .int | bool _, .bool => True
  | _, _ => False

mutual

/-- The value is in the type. -/
def mem (d : Datum) : Ty → Prop
  | .prim p => d.isOf p
  | .nullable t => d = null ∨ d.mem t
  | .union ms => d.memSome ms
  | .cls c => d = object c.name
  | _ => False
termination_by structural t => t

def memSome (d : Datum) : List Ty → Prop
  | [] => False
  | t :: ts => d.mem t ∨ d.memSome ts
termination_by structural ts => ts

end

def values : Values Datum where
  null := null
  text := text
  typeName := typeName
  isInstance d name := d = object name
  mem := mem

lemma memSome_iff {d : Datum} {ts : List Ty} : d.memSome ts ↔ ∃ t ∈ ts, d.mem t := by
  induction ts with
  | nil => simp [memSome]
  | cons t ts ih => simp [memSome, ih]

/-- Equal types have the same values, shown in one direction; equality is symmetric. -/
lemma mem_of_equals {d : Datum} {s t : Ty} (hproper : s.Proper) (ht : t.Proper)
    (hequal : s.equals t = true) (hs : d.mem s) : d.mem t := by
  induction hproper generalizing t with
  | intro _ hparts ih =>
    cases Ty.matches_of_equals hequal with
    | prim => exact hs
    | nullable h =>
      exact Or.imp_right (ih _ List.mem_cons_self (ht.part List.mem_cons_self) h) hs
    | union _ h =>
      obtain ⟨m, hm, hs⟩ := memSome_iff.1 hs
      obtain ⟨o, ho, hom⟩ := h m hm
      have hmo := Ty.equals_symm (ht.part ho) (hparts m hm) hom
      exact memSome_iff.2 ⟨o, ho, ih m hm (ht.part ho) hmo hs⟩
    | cls hname =>
      simp only [mem] at hs ⊢
      rw [← hname]
      exact hs
    | _ => exact hs.elim

lemma lawful : values.Lawful where
  text_injective _ _ h := text.inj h
  mem_nullable := Iff.rfl
  mem_union := memSome_iff
  eq_null {v} h := by cases v <;> first | rfl | exact h.elim
  mem_any _ := trivial
  mem_unknown _ := trivial
  mem_of_equals hs ht hequal :=
    ⟨mem_of_equals hs.proper ht.proper hequal,
      mem_of_equals ht.proper hs.proper (Ty.equals_symm hs.proper ht.proper hequal)⟩
  mem_int {v} h := by cases v <;> first | trivial | simp [values, typeName] at h
  mem_float {v} h := by cases v <;> simp [values, typeName] at h
  mem_str {v} h := by cases v <;> first | trivial | simp [values, typeName] at h
  mem_bool {v} h := by cases v <;> first | trivial | simp [values, typeName] at h

end Datum

end TypedScript
