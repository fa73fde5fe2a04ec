import TypedScript.Proofs.Numbers.Numerals
import TypedScript.Proofs.Registration

/-!
# Numbering the members of an enum

A member without an initializer is due one more than the last integer before it, and zero if
there is none; an initializer is due what it denotes. The members of every enum that is declared
have the values that are due to them, but for one: the counter and the minus of an initializer go
round at 64 bits, so a member that is due the first integer above the words gets the least word.

An initializer is read before its minus is applied. The least word is therefore refused when its
minus stands outside of the literal, and every other word is accepted.
-/
namespace TypedScript

/-! ## Words -/

section Words

variable {n : ℤ}

lemma isWord_iff : isWord n = true ↔ -0x8000000000000000 ≤ n ∧ n ≤ 0x7fffffffffffffff := by
  simp [isWord]

lemma isWord_wrap64 (n : ℤ) : isWord (wrap64 n) = true := by
  have hle : -0x8000000000000000 ≤ wrap64 n := Int.le_bmod (by decide)
  have hlt : wrap64 n < 0x8000000000000000 := Int.bmod_lt (by decide)
  exact isWord_iff.2 ⟨hle, by omega⟩

/-- Of the integers from the least word to the first one above, only the last goes round. -/
lemma wrap64_of_le (hle : -0x8000000000000000 ≤ n) (hge : n ≤ 0x8000000000000000) :
    wrap64 n = n ∨ n = 0x8000000000000000 ∧ wrap64 n = -0x8000000000000000 := by
  by_cases hlast : n = 0x8000000000000000
  · subst hlast
    exact .inr ⟨rfl, by decide⟩
  · exact .inl (Int.bmod_eq_of_le (by omega) (by omega))

lemma wrap64_of_isWord (h : isWord n = true) : wrap64 n = n := by
  have hn := isWord_iff.1 h
  obtain hsame | ⟨rfl, -⟩ := wrap64_of_le hn.1 (by omega)
  · exact hsame
  · exact absurd hn.2 (by decide)

lemma readInt64?_eq_some_iff {text : String} :
    Text.readInt64? text = some n ↔ Text.Denotes text n ∧ isWord n = true := by
  unfold Text.readInt64?
  rw [← Text.readInteger?_eq_some_iff]
  cases Text.readInteger? text with
  | none => simp
  | some m => by_cases h : isWord m = true <;> simp [h] <;> grind

end Words

/-! ## Values that are due -/

namespace EnumValue

variable {values : List EnumValue} {n : ℤ}

def int? : EnumValue → Option ℤ
  | int n => some n
  | str _ => none

/-- The value in 64 bits. -/
def wrap : EnumValue → EnumValue
  | int n => int (wrap64 n)
  | str s => str s

/-- How a value is kept: as it is, but the least word stands for the first integer above the
words. -/
def KeptAs (v w : EnumValue) : Prop :=
  w = v ∨ v = int 0x8000000000000000 ∧ w = int (-0x8000000000000000)

/-- One more than the last integer among the values, and zero if there is none. -/
def following (values : List EnumValue) : ℤ :=
  ((values.filterMap int?).getLast?.map (· + 1)).getD 0

lemma following_append_int : following (values ++ [int n]) = n + 1 := by
  simp [following, int?]

lemma following_append_str {s : String} : following (values ++ [str s]) = following values := by
  simp [following, int?]

lemma keptAs_wrap (hle : -0x8000000000000000 ≤ n) (hge : n ≤ 0x8000000000000000) :
    (int n).KeptAs (int (wrap64 n)) := by
  obtain hsame | ⟨hlast, hround⟩ := wrap64_of_le hle hge
  · exact .inl (congrArg int hsame)
  · exact .inr ⟨congrArg int hlast, congrArg int hround⟩

/-- After words comes a word, or the first integer above them. -/
lemma following_of_words (h : ∀ n, int n ∈ values → isWord n = true) :
    -0x8000000000000000 ≤ following values ∧ following values ≤ 0x8000000000000000 := by
  unfold following
  cases hlast : (values.filterMap int?).getLast? with
  | none => decide
  | some n =>
    obtain ⟨v, hv, hn⟩ := List.mem_filterMap.1 (List.mem_of_getLast? hlast)
    cases v with
    | int m =>
      obtain rfl : m = n := Option.some.inj hn
      have hword := isWord_iff.1 (h m hv)
      simp only [Option.map_some, Option.getD_some]
      omega
    | str s => cases hn

end EnumValue

namespace Expr

variable {e : Expr} {v : EnumValue} {n : ℤ}

/-- The constant that an initializer spells: a string, or an integer under one minus at most. -/
inductive Spells : Expr → EnumValue → Prop
  | string {mark : Mark} {text : String} : Spells (literal mark .string text) (.str text)
  | integer {mark : Mark} {text : String} {n : ℤ} :
      Text.Denotes text n → Spells (literal mark .int text) (.int n)
  | negated {mark inner : Mark} {text : String} {n : ℤ} :
      Text.Denotes text n → Spells (unary mark .minus (literal inner .int text)) (.int (-n))

/-- The constant of an initializer that is accepted: an integer literal must be a word before a
minus is applied to it. -/
inductive Initializes : Expr → EnumValue → Prop
  | string {mark : Mark} {text : String} : Initializes (literal mark .string text) (.str text)
  | integer {mark : Mark} {text : String} {n : ℤ} :
      Text.Denotes text n → isWord n = true → Initializes (literal mark .int text) (.int n)
  | negated {mark inner : Mark} {text : String} {n : ℤ} :
      Text.Denotes text n → isWord n = true →
        Initializes (unary mark .minus (literal inner .int text)) (.int (-n))

lemma Initializes.spells (h : e.Initializes v) : e.Spells v := by
  cases h with
  | string => exact .string
  | integer hn _ => exact .integer hn
  | negated hn _ => exact .negated hn

lemma Initializes.keptAs_wrap (h : e.Initializes v) : v.KeptAs v.wrap := by
  cases h with
  | string => exact .inl rfl
  | integer _ hword => exact .inl (congrArg EnumValue.int (wrap64_of_isWord hword))
  | negated _ hword =>
    have hn := isWord_iff.1 hword
    exact EnumValue.keptAs_wrap (by omega) (by omega)

lemma enumValue?_eq_some_iff {w : EnumValue} :
    Declare.enumValue? e = some w ↔ ∃ v, e.Initializes v ∧ w = v.wrap := by
  constructor
  · intro h
    unfold Declare.enumValue? at h
    split at h
    · obtain ⟨n, hn, rfl⟩ := Option.map_eq_some_iff.1 h
      obtain ⟨hdenotes, hword⟩ := readInt64?_eq_some_iff.1 hn
      exact ⟨_, .negated hdenotes hword, rfl⟩
    · obtain ⟨n, hn, rfl⟩ := Option.map_eq_some_iff.1 h
      obtain ⟨hdenotes, hword⟩ := readInt64?_eq_some_iff.1 hn
      exact ⟨_, .integer hdenotes hword, congrArg EnumValue.int (wrap64_of_isWord hword).symm⟩
    · cases h
      exact ⟨_, .string, rfl⟩
    · cases h
  · rintro ⟨v, hv, rfl⟩
    cases hv with
    | string => rfl
    | integer hdenotes hword =>
      simp [Declare.enumValue?, readInt64?_eq_some_iff.2 ⟨hdenotes, hword⟩, EnumValue.wrap,
        wrap64_of_isWord hword]
    | negated hdenotes hword =>
      simp [Declare.enumValue?, readInt64?_eq_some_iff.2 ⟨hdenotes, hword⟩, EnumValue.wrap]

/-- The initializer has a minus outside of its literal. -/
def isNegation : Expr → Bool
  | unary _ .minus _ => true
  | _ => false

/-- Of the words only the least one is refused, where its minus stands outside of the literal. -/
lemma initializes_iff_of_isWord (h : e.Spells (.int n)) (hword : isWord n = true) :
    (∃ v, e.Initializes v) ↔ ¬ (n = -0x8000000000000000 ∧ e.isNegation = true) := by
  cases h with
  | integer hdenotes => exact iff_of_true ⟨_, .integer hdenotes hword⟩ (by simp [isNegation])
  | @negated mark inner text k hdenotes =>
    have hk := isWord_iff.1 hword
    constructor
    · rintro ⟨_, hv⟩ ⟨hleast, -⟩
      cases hv with
      | negated hdenotes' hword' =>
        obtain rfl := hdenotes.unique hdenotes'
        have hbound := isWord_iff.1 hword'
        omega
    · intro hother
      have hne : -k ≠ -0x8000000000000000 := fun h => hother ⟨h, rfl⟩
      exact ⟨_, .negated hdenotes (isWord_iff.2 ⟨by omega, by omega⟩)⟩

end Expr

/-- The value that is due to a member after others with these values. -/
inductive EnumMemberDecl.Due (before : List EnumValue) (m : EnumMemberDecl) : EnumValue → Prop
  | counted : m.value = none → Due before m (.int (EnumValue.following before))
  | given {e : Expr} {v : EnumValue} : m.value = some e → e.Spells v → Due before m v

namespace Declare

open Check

variable {next : ℤ} {before members : List EnumMember} {m : EnumMemberDecl}
  {ms : List EnumMemberDecl} {s t : Session}

/-! ## One member after another -/

/-- The value that a member gets, if it gets one. -/
def memberValue? (next : ℤ) (m : EnumMemberDecl) : Option EnumValue :=
  match m.value with
  | none => some (.int next)
  | some e => enumValue? e

/-- The counter after a value. -/
def counterAfter (next : ℤ) : EnumValue → ℤ
  | .int n => wrap64 (n + 1)
  | .str _ => next

/-- A member is numbered if its name is new and it gets a value. -/
lemma enumMembers_cons_eq_ok : enumMembers next before (m :: ms) s = (.ok members, t) ↔
    m.name.name ∉ before.map EnumMember.name ∧ ∃ v, memberValue? next m = some v ∧
      enumMembers (counterAfter next v) (before ++ [⟨m.name.name, v⟩]) ms s = (.ok members, t) := by
  have hany : (before.any fun d => d.name == m.name.name) = true ↔
      m.name.name ∈ before.map EnumMember.name := by simp
  rw [enumMembers, ← hany]
  by_cases hname : (before.any fun d => d.name == m.name.name) = true
  · simp only [hname, if_true, not_true_eq_false, false_and, iff_false]
    intro h
    cases h
  · rw [if_neg hname, and_iff_right hname, memberValue?]
    cases m.value with
    | none => simp [counterAfter]
    | some e =>
      cases hvalue : enumValue? e with
      | none =>
        simp only [hvalue, reduceCtorEq, false_and, exists_false, iff_false]
        intro h
        cases h
      | some v => cases v <;> simp [hvalue, counterAfter]

lemma exists_memberValue?_iff :
    (∃ v, memberValue? next m = some v) ↔ ∀ e, m.value = some e → ∃ v, e.Initializes v := by
  unfold memberValue?
  cases m.value with
  | none => simp
  | some e => simp [Expr.enumValue?_eq_some_iff]

/-- The members are numbered exactly if no name comes twice and every initializer is accepted. -/
lemma exists_enumMembers_iff (hbefore : (before.map EnumMember.name).Nodup) :
    (∃ members t, enumMembers next before ms s = (.ok members, t)) ↔
      (before.map EnumMember.name ++ ms.map fun m => m.name.name).Nodup ∧
      ∀ m ∈ ms, ∀ e, m.value = some e → ∃ v, e.Initializes v := by
  induction ms generalizing next before with
  | nil => exact iff_of_true ⟨_, _, rfl⟩ (by simpa using hbefore)
  | cons m ms ih =>
    have hgrown (v : EnumValue) (hname : m.name.name ∉ before.map EnumMember.name) :
        ((before ++ [(⟨m.name.name, v⟩ : EnumMember)]).map EnumMember.name).Nodup := by
      simpa using hbefore.concat hname
    constructor
    · rintro ⟨members, t, h⟩
      obtain ⟨hname, v, hv, hrest⟩ := enumMembers_cons_eq_ok.1 h
      obtain ⟨hnodup, hms⟩ := (ih (hgrown v hname)).1 ⟨members, t, hrest⟩
      refine ⟨by simpa using hnodup, List.forall_mem_cons.2 ⟨?_, hms⟩⟩
      exact exists_memberValue?_iff.1 ⟨v, hv⟩
    · rintro ⟨hnodup, hvalues⟩
      obtain ⟨hm, hms⟩ := List.forall_mem_cons.1 hvalues
      obtain ⟨v, hv⟩ := exists_memberValue?_iff.2 hm
      have hname : m.name.name ∉ before.map EnumMember.name := fun hmem =>
        (List.disjoint_of_nodup_append hnodup) hmem (by simp)
      obtain ⟨members, t, hrest⟩ := (ih (hgrown v hname)).2 ⟨by simpa using hnodup, hms⟩
      exact ⟨members, t, enumMembers_cons_eq_ok.2 ⟨hname, v, hv, hrest⟩⟩

/-- The members after others have the values that are due to them, as far as these are words. -/
def NumberedAfter (before : List EnumMember) (ms : List EnumMemberDecl) (xs : List EnumMember) :
    Prop :=
  ∀ (i : ℕ) (m : EnumMemberDecl) (x : EnumMember), ms[i]? = some m → xs[i]? = some x →
    ∃ v : EnumValue, m.Due ((before ++ xs.take i).map EnumMember.value) v ∧ v.KeptAs x.value

/-- What one member gets: its due, and a counter that goes on from there. -/
lemma due_of_memberValue? {w : EnumValue}
    (hnext : next = wrap64 (EnumValue.following (before.map EnumMember.value)))
    (hwords : ∀ n, EnumValue.int n ∈ before.map EnumMember.value → isWord n = true)
    (h : memberValue? next m = some w) :
    (∃ v, m.Due (before.map EnumMember.value) v ∧ v.KeptAs w) ∧
      (∀ n, w = .int n → isWord n = true) ∧
      counterAfter next w =
        wrap64 (EnumValue.following (before.map EnumMember.value ++ [w])) := by
  have hcounter : counterAfter next w =
      wrap64 (EnumValue.following (before.map EnumMember.value ++ [w])) := by
    cases w with
    | int n => rw [EnumValue.following_append_int, counterAfter]
    | str s => rw [EnumValue.following_append_str, counterAfter, hnext]
  unfold memberValue? at h
  split at h
  · rename_i hvalue
    cases h
    have hbounds := EnumValue.following_of_words hwords
    refine ⟨⟨_, .counted hvalue, ?_⟩, ?_, hcounter⟩
    · exact hnext ▸ EnumValue.keptAs_wrap hbounds.1 hbounds.2
    · rintro n ⟨⟩
      exact hnext ▸ isWord_wrap64 _
  · rename_i e hvalue
    obtain ⟨v, hv, rfl⟩ := Expr.enumValue?_eq_some_iff.1 h
    refine ⟨⟨v, .given hvalue hv.spells, hv.keptAs_wrap⟩, ?_, hcounter⟩
    intro n hn
    cases v with
    | int k =>
      cases hn
      exact isWord_wrap64 k
    | str s => cases hn

lemma exists_numberedAfter
    (hnext : next = wrap64 (EnumValue.following (before.map EnumMember.value)))
    (hwords : ∀ n, EnumValue.int n ∈ before.map EnumMember.value → isWord n = true)
    (h : enumMembers next before ms s = (.ok members, t)) :
    ∃ xs, members = before ++ xs ∧ xs.map EnumMember.name = ms.map (fun m => m.name.name) ∧
      NumberedAfter before ms xs := by
  induction ms generalizing next before with
  | nil =>
    cases h
    exact ⟨[], by simp, rfl, by simp [NumberedAfter]⟩
  | cons m ms ih =>
    obtain ⟨-, w, hw, hrest⟩ := enumMembers_cons_eq_ok.1 h
    obtain ⟨hdue, hword, hcounter⟩ := due_of_memberValue? hnext hwords hw
    obtain ⟨xs, rfl, hnames, hnumbered⟩ := ih (by simpa using hcounter) (by
      intro n hn
      rw [List.map_append, List.mem_append] at hn
      obtain hn | hn := hn
      · exact hwords n hn
      · exact hword n (List.mem_singleton.1 hn).symm) hrest
    refine ⟨⟨m.name.name, w⟩ :: xs, by simp, by simp [hnames], fun i m' x hm hx => ?_⟩
    cases i with
    | zero =>
      cases hm
      cases hx
      simpa using hdue
    | succ i => simpa using hnumbered i m' x hm hx

/-- A name can be declared where it is free. -/
lemma exists_declare_iff {name : Ident} {kind : SymbolKind} {type : Ty} {isConst : Bool}
    {origin : Origin} : (∃ x t, declare name kind type isConst origin s = (.ok x, t)) ↔
      s.scopes.current.named? name.name = none := by
  rw [run_declare]
  cases hnamed : s.scopes.current.named? name.name with
  | some earlier =>
    refine iff_of_false ?_ (by simp)
    rintro ⟨x, t, h⟩
    cases h
  | none =>
    obtain ⟨r, hdefine⟩ :
        ∃ r, s.scopes.define name.name kind (some type) isConst origin = .ok r := by
      rw [Scopes.define, hnamed]
      exact ⟨_, rfl⟩
    refine iff_of_true ⟨r.1, { s with scopes := r.2 }, ?_⟩ rfl
    dsimp only
    rw [run_define, hdefine]

/-- An enum is declared by numbering its members and declaring its name. -/
lemma enum_eq_ok {d : EnumDecl} : enum d s = (.ok (), t) ↔ ∃ members x u,
    enumMembers 0 [] d.members s = (.ok members, s) ∧
    declare d.name .enum (.enum ⟨d.name.name, members⟩) false (.place d.location) s = (.ok x, u) ∧
    t = u.trace .purple ("  ✓ registered enum " ++ d.name.name ++ " (" ++
      toString members.length ++ " members)") := by
  constructor
  · intro h
    obtain ⟨members, v, hmembers, hrest⟩ := exists_of_run_bind h
    obtain rfl : v = s := by simpa [hmembers] using enumMembers_reads 0 [] d.members s
    obtain ⟨x, u, hdeclare, htrace⟩ := exists_of_run_bind hrest
    cases htrace
    exact ⟨members, x, u, hmembers, hdeclare, rfl⟩
  · rintro ⟨members, x, u, hmembers, hdeclare, rfl⟩
    rw [enum, run_bind, hmembers]
    dsimp only
    rw [run_bind, hdeclare]
    rfl

lemma exists_enum_iff {d : EnumDecl} : (∃ t, enum d s = (.ok (), t)) ↔
    s.scopes.current.named? d.name.name = none ∧ (d.members.map fun m => m.name.name).Nodup ∧
      ∀ m ∈ d.members, ∀ e, m.value = some e → ∃ v, e.Initializes v := by
  have hmembers : (∃ members t, enumMembers 0 [] d.members s = (.ok members, t)) ↔
      (d.members.map fun m => m.name.name).Nodup ∧
        ∀ m ∈ d.members, ∀ e, m.value = some e → ∃ v, e.Initializes v :=
    exists_enumMembers_iff List.nodup_nil
  rw [← hmembers]
  constructor
  · rintro ⟨t, h⟩
    obtain ⟨members, x, u, hrun, hdeclare, -⟩ := enum_eq_ok.1 h
    exact ⟨exists_declare_iff.1 ⟨x, u, hdeclare⟩, members, s, hrun⟩
  · rintro ⟨hfree, members, t, hrun⟩
    obtain rfl : t = s := by simpa [hrun] using enumMembers_reads 0 [] d.members s
    obtain ⟨x, u, hdeclare⟩ := exists_declare_iff.2 hfree
    exact ⟨_, enum_eq_ok.2 ⟨members, x, u, hrun, hdeclare, rfl⟩⟩

end Declare

/-- An enum is declared exactly if its name is free, its members have different names and every
initializer is accepted; of the integers of 64 bits only the least one is not accepted, where its
minus stands outside of the literal. Every member of an enum that is declared has the value that
is due to it after those before, unless that is the first integer above 64 bits. -/
theorem enum_members_numbered (d : EnumDecl) (s : Session) :
    ((∃ t, Declare.enum d s = (.ok (), t)) ↔ s.scopes.current.named? d.name.name = none ∧
      (d.members.map fun m => m.name.name).Nodup ∧
      ∀ m ∈ d.members, ∀ e, m.value = some e → ∃ v, e.Initializes v) ∧
    (∀ (e : Expr) (n : ℤ), e.Spells (.int n) → isWord n = true →
      ((∃ v, e.Initializes v) ↔ ¬ (n = -0x8000000000000000 ∧ e.isNegation = true))) ∧
    ∀ t, Declare.enum d s = (.ok (), t) → ∃ members,
      (s.scopes.withSymbol ⟨s.scopes.nextId, d.name.name, .enum,
        some (.enum ⟨d.name.name, members⟩), false, .place d.location⟩).SameBut [] t.scopes ∧
      members.map EnumMember.name = d.members.map (fun m => m.name.name) ∧
      ∀ (i : ℕ) (m : EnumMemberDecl) (x : EnumMember), d.members[i]? = some m →
        members[i]? = some x →
          ∃ v : EnumValue, m.Due ((members.take i).map EnumMember.value) v ∧ v.KeptAs x.value := by
  refine ⟨Declare.exists_enum_iff, fun e n => Expr.initializes_iff_of_isWord, fun t h => ?_⟩
  obtain ⟨members, x, u, hmembers, hdeclare, rfl⟩ := Declare.enum_eq_ok.1 h
  obtain ⟨scopes, hdefine, rfl⟩ := Check.define_of_run_declare hdeclare
  obtain ⟨rfl, hsame⟩ := Scopes.sameBut_define hdefine
  have hzero : (0 : ℤ) = wrap64 (EnumValue.following []) := by decide
  obtain ⟨xs, hxs, hnames, hnumbered⟩ := Declare.exists_numberedAfter hzero (by simp) hmembers
  obtain rfl : members = xs := hxs
  exact ⟨members, hsame, hnames, hnumbered⟩

namespace EnumDecl

def number (text : String) : Expr := .literal ⟨1, {}⟩ .int text

def minus (e : Expr) : Expr := .unary ⟨2, {}⟩ .minus e

/-- An enum with these members and initializers. -/
def ofMembers (members : List (String × Option Expr)) : EnumDecl :=
  ⟨⟨"E", {}⟩, members.map fun m => ⟨⟨m.1, {}⟩, m.2⟩, {}⟩

/-- Members that count on from an integer, past a string and below zero. -/
def counting : EnumDecl :=
  ofMembers [("A", none), ("B", some (number "0x1_0")), ("C", some (.literal ⟨3, {}⟩ .string "c")),
    ("D", none), ("E", some (minus (number "2"))), ("F", none)]

/-- The members of the enums that are declared by this declaration alone. -/
def declared (d : EnumDecl) : List (List EnumMember) :=
  (Declare.enum d {}).2.scopes.global.filterMap fun x =>
    match x.type with
    | some (.enum e) => some e.members
    | _ => none

end EnumDecl

theorem counting_numbered : ∃ (t : Session) (members : List EnumMember),
    Declare.enum EnumDecl.counting {} = (.ok (), t) ∧
    members.map EnumMember.name = ["A", "B", "C", "D", "E", "F"] ∧
    ∀ (i : ℕ) (m : EnumMemberDecl) (x : EnumMember), EnumDecl.counting.members[i]? = some m →
      members[i]? = some x →
        ∃ v : EnumValue, m.Due ((members.take i).map EnumMember.value) v ∧ v.KeptAs x.value := by
  obtain ⟨haccepted, -, hnumbered⟩ := enum_members_numbered EnumDecl.counting {}
  have hsixteen : (EnumDecl.number "0x1_0").Initializes (.int 16) :=
    .integer (Text.readInteger?_eq_some_iff.1 (by decide +kernel)) (by decide)
  have htwo : (EnumDecl.minus (EnumDecl.number "2")).Initializes (.int (-2)) :=
    .negated (Text.readInteger?_eq_some_iff.1 (by decide +kernel)) (by decide)
  have hvalues : ∀ m ∈ EnumDecl.counting.members, ∀ e, m.value = some e →
      ∃ v, e.Initializes v := by
    intro m hm e he
    simp only [EnumDecl.counting, EnumDecl.ofMembers, List.map_cons, List.map_nil, List.mem_cons,
      List.not_mem_nil, or_false] at hm
    rcases hm with rfl | rfl | rfl | rfl | rfl | rfl <;> cases he
    · exact ⟨_, hsixteen⟩
    · exact ⟨_, .string⟩
    · exact ⟨_, htwo⟩
  obtain ⟨t, ht⟩ := haccepted.2 ⟨rfl, by decide, hvalues⟩
  obtain ⟨members, -, hnames, hdue⟩ := hnumbered t ht
  exact ⟨t, members, ht, hnames, hdue⟩

/-- At the ends of the words: the counter goes round after the greatest one, the least one is
refused under a minus, and a minus before the least one leaves it as it is. -/
theorem ends_of_words_missed :
    (EnumDecl.ofMembers
        [("A", some (EnumDecl.number "9223372036854775807")), ("B", none)]).declared =
      [[⟨"A", .int 9223372036854775807⟩, ⟨"B", .int (-9223372036854775808)⟩]] ∧
    ((EnumDecl.minus (EnumDecl.number "9223372036854775808")).Spells
        (.int (-9223372036854775808)) ∧
      isWord (-9223372036854775808) = true ∧
      (Declare.enum (EnumDecl.ofMembers [("A", some (EnumDecl.minus
        (EnumDecl.number "9223372036854775808")))]) {}).1.isOk = false) ∧
    (EnumDecl.minus (EnumDecl.number "-9223372036854775808")).Spells (.int 9223372036854775808) ∧
    (EnumDecl.ofMembers
        [("A", some (EnumDecl.minus (EnumDecl.number "-9223372036854775808")))]).declared =
      [[⟨"A", .int (-9223372036854775808)⟩]] := by
  have hleast : Text.Denotes "-9223372036854775808" (-9223372036854775808) :=
    Text.readInteger?_eq_some_iff.1 (by decide +kernel)
  have habove : Text.Denotes "9223372036854775808" 9223372036854775808 :=
    Text.readInteger?_eq_some_iff.1 (by decide +kernel)
  refine ⟨?_, ⟨.negated habove, by decide, ?_⟩, .negated hleast, ?_⟩
  · decide +kernel
  · decide +kernel
  · decide +kernel

end TypedScript
