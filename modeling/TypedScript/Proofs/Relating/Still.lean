import Mathlib.Tactic.Common
import TypedScript.Analysis
import TypedScript.Proofs.Keeping.Steps
import TypedScript.Proofs.Relating.Fragments

/-!
# Checks that look at no part

Most steps of a rule look at no part of the construct: they read the session, say
something, or declare a name. They leave alone what has been found out so far, and
whatever they refuse is an error.

The declarations behind the symbols of a session are the fragments that checks on demand go
to. What all fragments of a tree have in common is had by those as well, since symbols come
from declarations of the tree only.
-/
namespace TypedScript

/-- Where the fault is reported it counts as an error. -/
def Fault.IsError : Fault → Prop
  | .diagnostic d => d.severity = .error
  | _ => True

/-- All fragments of the declaration behind the symbol have the property. -/
structure Symbol.Fits (fits : Fragment → Prop) (x : Symbol) : Prop where
  function : ∀ f, x.origin.function? = some f → ∀ g ∈ f.fragments true, fits g
  cls : ∀ c, x.origin.class? = some c → ∀ g ∈ c.fragments true, fits g

/-- All fragments of the declarations behind symbols have the property. -/
def Scopes.Fit (fits : Fragment → Prop) (s : Scopes) : Prop := ∀ x, s.Has x → x.Fits fits

/-! ## How severe a diagnostic is -/

namespace Diagnostic

variable (d : Diagnostic) (file text : String) (place : Option Location)

@[simp] lemma severity_error : (error text).severity = .error := rfl

@[simp] lemma severity_withCode : (d.withCode text).severity = d.severity := rfl

@[simp] lemma severity_withHelp : (d.withHelp text).severity = d.severity := rfl

@[simp] lemma severity_withNote : (d.withNote text).severity = d.severity := rfl

@[simp] lemma severity_inFile : (d.inFile file).severity = d.severity := by
  unfold inFile
  split <;> rfl

@[simp] lemma severity_withContext : (d.withContext file place text).severity = d.severity :=
  d.severity_inFile file

@[simp] lemma severity_withPrimary : (d.withPrimary file place text).severity = d.severity := by
  unfold withPrimary
  split
  · rfl
  · exact d.severity_inFile file

@[simp] lemma severity_undefinedSymbol : (undefinedSymbol file place text).severity = .error := by
  simp [undefinedSymbol]

@[simp] lemma severity_redeclared (earlier : Option Location) :
    (redeclared file place earlier text).severity = .error := by
  unfold redeclared
  dsimp only
  split <;> simp

@[simp] lemma severity_wrongArgumentCount (expected found : Int) :
    (wrongArgumentCount file place expected found).severity = .error := by
  simp [wrongArgumentCount]

@[simp] lemma severity_fieldNotFound (name : String) :
    (fieldNotFound file place text name).severity = .error := by
  simp [fieldNotFound]

@[simp] lemma severity_unresolvedReference :
    (unresolvedReference file place text).severity = .error := by
  simp [unresolvedReference]

@[simp] lemma severity_notAClass : (notAClass file place text).severity = .error := by
  simp [notAClass]

@[simp] lemma severity_notCallable : (notCallable file place text).severity = .error := by
  simp [notCallable]

end Diagnostic

variable {fits : Fragment → Prop}

/-! ## Symbols -/

/-- There is no declaration behind a place. -/
lemma Symbol.fits_of_none {x : Symbol} (hf : x.origin.function? = none)
    (hc : x.origin.class? = none) : x.Fits fits where
  function f h := by simp [hf] at h
  cls c h := by simp [hc] at h

namespace Scopes.Fit

variable {s scopes : Scopes} {name : String} {t : Ty}

/-- Nothing is declared at the start. -/
lemma start : Scopes.Fit fits {} := by
  rintro x ⟨_ | i, hx⟩
  · cases hx
  · simp [slot, scope] at hx

lemma of_slot (hs : s.Fit fits)
    (h : ∀ i, ∀ x ∈ scopes.slot i, ∃ y, (s.Has y ∨ y.Fits fits) ∧ x.origin = y.origin) :
    scopes.Fit fits := by
  rintro x ⟨i, hx⟩
  obtain ⟨y, hy, horigin⟩ := h i x hx
  have hfits : y.Fits fits := hy.elim (hs y) id
  exact ⟨fun f hf => hfits.function f (horigin ▸ hf), fun c hc => hfits.cls c (horigin ▸ hc)⟩

lemma define {kind : SymbolKind} {type : Option Ty} {isConst : Bool} {origin : Origin}
    {x : Symbol} (hs : s.Fit fits) (hx : x.Fits fits)
    (h : s.define name kind type isConst origin = .ok (x, scopes)) : scopes.Fit fits := by
  obtain ⟨-, -, rfl⟩ := define_eq_ok h
  refine hs.of_slot fun i y hy => ⟨y, ?_, rfl⟩
  have hy : y ∈ (s.modifySlot s.locals.head? (· ++ [x])).slot i := by cases i <;> exact hy
  obtain hy | hy := mem_slot_modifySlot hy
  · exact .inl ⟨i, hy⟩
  · obtain hy | hy := List.mem_append.1 hy
    · exact .inl ⟨i, hy⟩
    · exact .inr (List.mem_singleton.1 hy ▸ hx)

lemma updateSymbol {id : SymbolId} (hs : s.Fit fits)
    (h : s.updateSymbol id name t = .ok scopes) : scopes.Fit fits := by
  obtain ⟨_, i, -, -, -, -, rfl⟩ := exists_slot_of_updateSymbol h
  refine hs.of_slot fun j y hy => ?_
  obtain hy | hy := mem_slot_modifySlot hy
  · exact ⟨y, .inl ⟨j, hy⟩, rfl⟩
  · obtain ⟨z, hz, rfl⟩ := List.mem_map.1 hy
    refine ⟨z, .inl ⟨j, hz⟩, ?_⟩
    split <;> rfl

lemma retypeSymbol (hs : s.Fit fits) (id : SymbolId) : (s.retypeSymbol id t).Fit fits := by
  refine hs.of_slot fun j y hy => ?_
  rw [slot_retypeSymbol] at hy
  obtain ⟨z, hz, rfl⟩ := List.mem_map.1 hy
  refine ⟨z, .inl ⟨j, hz⟩, ?_⟩
  split <;> rfl

lemma enter (hs : s.Fit fits) : s.enter.Fit fits :=
  hs.of_slot fun i x hx => ⟨x, .inl ⟨i, s.slot_enter i ▸ hx⟩, rfl⟩

/-- It does not matter which scopes are in force. -/
lemma reattach (hs : s.Fit fits) (locals : List ScopeId) (depth : Nat) :
    (s.reattach locals depth).Fit fits :=
  hs.of_slot fun i x hx => ⟨x, .inl ⟨i, by cases i <;> exact hx⟩, rfl⟩

end Scopes.Fit

/-! ## Sessions -/

namespace Session

variable {s t u : Session}

/-- The session after has found out nothing new, and no errors are taken back. -/
structure Still (fits : Fragment → Prop) (s t : Session) : Prop where
  fit : s.scopes.Fit fits → t.scopes.Fit fits
  options : t.options = s.options
  types : t.types = s.types
  checked : t.checked = s.checked
  inferring : t.inferring = s.inferring
  errors : s.errorCount ≤ t.errorCount

namespace Still

lemma refl (s : Session) : s.Still fits s := ⟨id, rfl, rfl, rfl, rfl, Nat.le_refl _⟩

lemma trans (h : s.Still fits t) (k : t.Still fits u) : s.Still fits u where
  fit hs := k.fit (h.fit hs)
  options := k.options.trans h.options
  types := k.types.trans h.types
  checked := k.checked.trans h.checked
  inferring := k.inferring.trans h.inferring
  errors := Nat.le_trans h.errors k.errors

end Still

lemma errorCount_report (s : Session) (d : Diagnostic) :
    (s.report d).errorCount = s.errorCount + if d.severity = .error then 1 else 0 := by
  simp only [errorCount, report, Report.countOf, Array.toList_push, List.countP_append,
    List.countP_singleton, Diagnostic.severity_inFile, decide_eq_true_eq]

lemma still_report (s : Session) (d : Diagnostic) : s.Still fits (s.report d) := by
  refine ⟨id, rfl, rfl, rfl, rfl, ?_⟩
  rw [errorCount_report]
  exact Nat.le_add_right _ _

/-- What is entered shows neither in what was found out nor in what was reported. -/
lemma still_entered {enter : Session → Session × Undo} (he : Entry enter) (s : Session) :
    s.Still fits (enter s).1 := by
  cases he with
  | scope => exact ⟨Scopes.Fit.enter, rfl, rfl, rfl, rfl, Nat.le_refl _⟩
  | narrowings n => exact ⟨id, rfl, rfl, rfl, rfl, Nat.le_refl _⟩
  | function f => exact ⟨id, rfl, rfl, rfl, rfl, Nat.le_refl _⟩
  | cls name => exact ⟨id, rfl, rfl, rfl, rfl, Nat.le_refl _⟩
  | breakable b => exact ⟨id, rfl, rfl, rfl, rfl, Nat.le_refl _⟩
  | detach => exact ⟨fun hs => hs.reattach [] 0, rfl, rfl, rfl, rfl, Nat.le_refl _⟩

lemma still_left {enter : Session → Session × Undo} (he : Entry enter)
    (hu : (enter s).2.run t = .ok u) : t.Still fits u := by
  cases he with
  | scope =>
    simp only [enterScope, Undo.run, exitScope, Scopes.exit] at hu
    split at hu
    · cases hu
    · cases hu
      exact ⟨fun ht => ht.reattach _ _, rfl, rfl, rfl, rfl, Nat.le_refl _⟩
  | narrowings n =>
    simp only [pushNarrowings, Undo.run, NarrowingStack.popAt, NarrowingStack.pop] at hu
    split at hu
    · split at hu
      · cases hu
      · cases hu
        exact ⟨id, rfl, rfl, rfl, rfl, Nat.le_refl _⟩
    · cases hu
  | function f =>
    cases hu
    exact ⟨id, rfl, rfl, rfl, rfl, Nat.le_refl _⟩
  | cls name =>
    cases hu
    exact ⟨id, rfl, rfl, rfl, rfl, Nat.le_refl _⟩
  | breakable b =>
    simp only [enterBreakable, Undo.run, leaveBreakable] at hu
    split at hu
    · cases hu
    · cases hu
      exact ⟨id, rfl, rfl, rfl, rfl, Nat.le_refl _⟩
  | detach =>
    cases hu
    exact ⟨fun ht => ht.reattach _ _, rfl, rfl, rfl, rfl, Nat.le_refl _⟩

end Session

/-! ## Refusals -/

namespace Typing

/-- Whatever is refused is an error. -/
def Refuses {α : Type} (r : Except Diagnostic α) : Prop := ∀ d, r = .error d → d.severity = .error

lemma severity_assign? {value target : Ty} {d : Diagnostic} (h : assign? value target = some d) :
    d.severity = .error := by
  unfold assign? at h
  split at h
  · cases h
  · cases h
    rfl
  · cases h
    rfl

lemma severity_constraints? {declared : List TypeParam} {s : Subst} {d : Diagnostic}
    (h : constraints? declared s = some d) : d.severity = .error := by
  obtain ⟨_, -, rfl⟩ := Option.map_eq_some_iff.1 h
  rfl

lemma refuses_explicitArguments (declared : List TypeParam) (args : List Ty) :
    Refuses (explicitArguments declared args) := by
  intro d h
  unfold explicitArguments at h
  split at h
  · cases h
  · cases h
    rfl

lemma refuses_range (x y : Ty) : Refuses (range x y) := by
  intro d h
  unfold range at h
  split at h
  · cases h
  · cases h
    rfl

lemma refuses_arithmetic (op : Operator) (x y : Ty) : Refuses (arithmetic op x y) := by
  intro d h
  unfold arithmetic at h
  split at h
  · cases h
  · split at h
    · cases h
    · split at h
      · cases h
      · cases h
        rfl

lemma refuses_bitwise (op : Operator) (x y : Ty) : Refuses (bitwise op x y) := by
  intro d h
  unfold bitwise at h
  split at h
  · cases h
  · split at h
    · cases h
    · cases h
      rfl

lemma refuses_ordering (op : Operator) (x y : Ty) : Refuses (ordering op x y) := by
  intro d h
  unfold ordering at h
  split at h
  · cases h
  · cases h
    rfl

lemma refuses_binary (op : Operator) (x y : Ty) : Refuses (binary op x y) := by
  intro d h
  unfold binary at h
  split at h
  · cases h
  · split at h
    · split at h
      · cases h
      · cases h
        rfl
    · split at h
      · exact refuses_ordering _ _ _ d h
      · split at h
        · exact refuses_bitwise _ _ _ d h
        · split at h
          · exact refuses_arithmetic _ _ _ d h
          · split at h
            · exact refuses_range _ _ d h
            · cases h
              rfl

lemma refuses_unary (op : Operator) (x : Ty) : Refuses (unary op x) := by
  intro d h
  unfold unary at h
  split at h
  · cases h
  · dsimp only at h
    split at h
    all_goals first
      | (split at h
         · cases h
         · cases h
           rfl)
      | (cases h
         rfl)

lemma refuses_step (op : Operator) (x : Ty) : Refuses (step op x) := by
  intro d h
  unfold step at h
  split at h
  · cases h
  · cases h
    rfl

lemma refuses_compound (op : Operator) (x y : Ty) : Refuses (compound op x y) := by
  intro d h
  unfold compound at h
  split at h
  · cases h
    rfl
  · split at h
    · rename_i hd
      cases h
      exact refuses_binary _ _ _ _ hd
    · split at h
      · cases h
      · rename_i hd
        cases h
        have hseverity := severity_assign? hd
        dsimp only [Diagnostic.withNote]
        split
        · exact hseverity
        · exact hseverity

lemma refuses_index (x i : Ty) : Refuses (index x i) := by
  intro d h
  unfold index at h
  split at h
  · cases h
  · split at h
    · split at h
      · cases h
      · cases h
        rfl
    · split at h
      · cases h
        rfl
      · split at h
        · cases h
        · cases h
        · cases h
          rfl

lemma refuses_literal (kind : LiteralKind) (text : String) (expected : Hint) :
    Refuses (literal kind text expected) := by
  intro d h
  unfold literal at h
  split at h
  · split at h
    · split at h
      · split at h
        · cases h
        · cases h
          rfl
      · split at h
        · cases h
        · cases h
    · cases h
  · split at h
    · split at h
      · cases h
      · cases h
    · cases h
  all_goals cases h

end Typing

/-! ## Checks -/

namespace Check

variable {α β : Type} {c d : Check α} {f : α → Check β}

lemma run_during_misuse {enter : Session → Session × Undo} {s : Session} {m : Misuse}
    (h : (enter s).2.run (c (enter s).1).2 = .error m) :
    during enter c s = (.error (.misuse m), (c (enter s).1).2) := by
  cases hbody : c (enter s).1 with
  | mk result t =>
    rw [hbody] at h
    simp only [during, hbody, h]

/-- The run from `s` finds out nothing, and a fault is an error. -/
def StillAt (fits : Fragment → Prop) (s : Session) (c : Check α) : Prop :=
  s.Still fits (c s).2 ∧ ∀ e, (c s).1 = .error e → e.IsError

/-- Every run finds out nothing, and a fault is an error. -/
def Still (fits : Fragment → Prop) (c : Check α) : Prop := ∀ s, c.StillAt fits s

/-- A run that is followed by another. -/
lemma StillAt.bind {s : Session} (hc : c.StillAt fits s)
    (hf : ∀ a t, c s = (.ok a, t) → (f a).StillAt fits t) : (c >>= f).StillAt fits s := by
  unfold StillAt at hc ⊢
  rw [run_bind]
  rcases hrun : c s with ⟨e | a, t⟩
  · rw [hrun] at hc
    refine ⟨hc.1, fun e' h => ?_⟩
    cases h
    exact hc.2 e rfl
  · rw [hrun] at hc
    obtain ⟨hstill, herror⟩ := hf a t hrun
    exact ⟨hc.1.trans hstill, herror⟩

lemma StillAt.read {s : Session} {f : Session → Check α} (h : (f s).StillAt fits s) :
    (get >>= f).StillAt fits s := h

namespace Still

lemma pure (a : α) : (Pure.pure a : Check α).Still fits :=
  fun s => ⟨.refl s, fun _ h => by cases h⟩

lemma throw {e : Fault} (he : e.IsError) : (MonadExcept.throw e : Check α).Still fits := by
  refine fun s => ⟨.refl s, fun e' h => ?_⟩
  cases h
  exact he

lemma change {g : Session → Session} (hg : ∀ s : Session, s.Still fits (g s)) :
    (modify g : Check PUnit).Still fits :=
  fun s => ⟨hg s, fun _ h => by cases h⟩

lemma bind (hc : c.Still fits) (hf : ∀ a, (f a).Still fits) : (c >>= f).Still fits :=
  fun s => (hc s).bind fun a t _ => hf a t

lemma map {g : α → β} (hc : c.Still fits) : (g <$> c).Still fits := hc.bind fun _ => .pure _

lemma read {f : Session → Check α} (hf : ∀ s, (f s).Still fits) : (get >>= f).Still fits :=
  fun s => hf s s

lemma ite {p : Prop} [Decidable p] (hc : c.Still fits) (hd : d.Still fits) :
    (if p then c else d).Still fits := by
  split
  · exact hc
  · exact hd

/-- A step that is taken on a condition, and what follows it either way. -/
lemma onlyIf {p : Prop} [Decidable p] {c : Check Unit} {next : Unit → Check β}
    (hc : c.Still fits) (hn : ∀ a, (next a).Still fits) :
    (if p then c >>= next else next ()).Still fits :=
  .ite (hc.bind hn) (hn ())

lemma bindIte {p : Prop} [Decidable p] (hc : c.Still fits) (hd : d.Still fits)
    (hf : ∀ a, (f a).Still fits) : (if p then c >>= f else d >>= f).Still fits :=
  .ite (hc.bind hf) (hd.bind hf)

lemma tryCatch {handle : Fault → Check α} (hc : c.Still fits)
    (hh : ∀ e, e.IsError → (handle e).Still fits) :
    (MonadExcept.tryCatch c handle).Still fits := by
  intro s
  have hcs := hc s
  unfold StillAt at hcs ⊢
  rw [run_tryCatch]
  rcases hrun : c s with ⟨e | a, t⟩
  · rw [hrun] at hcs
    obtain ⟨hstill, herror⟩ := hh e (hcs.2 e rfl) t
    exact ⟨hcs.1.trans hstill, herror⟩
  · rw [hrun] at hcs
    exact ⟨hcs.1, fun _ h => by cases h⟩

lemma during {enter : Session → Session × Undo} (he : Session.Entry enter) (hc : c.Still fits) :
    (Check.during enter c).Still fits := by
  intro s
  obtain ⟨hstill, herror⟩ := hc (enter s).1
  have hentered := (Session.still_entered he s).trans hstill
  unfold StillAt
  cases hu : (enter s).2.run (c (enter s).1).2 with
  | ok u =>
    rw [run_during hu]
    exact ⟨hentered.trans (Session.still_left he hu), herror⟩
  | error m =>
    rw [run_during_misuse hu]
    refine ⟨hentered, fun e h => ?_⟩
    cases h
    trivial

lemma reporting {c : Check Unit} (hc : c.Still fits) : (Check.reporting c).Still fits := by
  intro s
  have hcs := hc s
  unfold StillAt at hcs ⊢
  rw [Check.reporting]
  rcases hrun : c s with ⟨(d | e | m) | a, t⟩ <;> rw [hrun] at hcs
  · exact ⟨hcs.1.trans (Session.still_report t d), fun _ h => by cases h⟩
  · exact ⟨hcs.1.trans (Session.still_report t _), fun _ h => by cases h⟩
  · exact ⟨hcs.1, fun _ h => by cases h; trivial⟩
  · exact ⟨hcs.1, fun _ h => by cases h⟩

/-! ### Reading -/

lemma ofSearch (r : Search α) : (Check.ofSearch r).Still fits := by
  cases r with
  | found a => exact .pure _
  | absent => exact .pure _
  | endless => exact .throw trivial

lemma file : Check.file.Still fits := .read fun _ => .pure _

lemma unionWidth : Check.unionWidth.Still fits := .read fun _ => .pure _

lemma lookup? (name : String) : (Check.lookup? name).Still fits := .read fun _ => .pure _

lemma classNamed? (name : String) : (Check.classNamed? name).Still fits := .read fun _ => .pure _

lemma deref (t : Ty) : (Check.deref t).Still fits := .read fun _ => .pure _

lemma currentType? (x : Symbol) : (Check.currentType? x).Still fits := .read fun _ => .pure _

/-! ### Refusing -/

lemma failAt {d : String → Diagnostic} (hd : ∀ f, (d f).severity = .error) :
    (Check.file >>= fun f => Check.fail (d f) : Check α).Still fits :=
  file.bind fun f => .throw (hd f)

lemma refuse (code : String) (place : Location) (label message help : String) :
    (Check.refuse code place label message help : Check α).Still fits :=
  .failAt fun _ => by simp

lemma typeMismatch (place : Location) (message : String) :
    (Check.typeMismatch place message : Check α).Still fits :=
  refuse _ _ _ _ _

lemma invalidOperation (place : Location) (message : String) :
    (Check.invalidOperation place message : Check α).Still fits :=
  refuse _ _ _ _ _

lemma misplaced (code : String) (place : Location) (message help : String) :
    (Check.misplaced code place message help : Check α).Still fits :=
  refuse _ _ _ _ _

lemma settle (place : Location) (label : String) {verdict : Typing.Verdict}
    (hv : Typing.Refuses verdict) : (Check.settle place label verdict).Still fits := by
  unfold Check.settle
  split
  · exact .pure _
  · rename_i d
    exact .failAt fun _ => (d.severity_withPrimary _ _ _).trans (hv d rfl)

lemma assignable (place : Location) (value target : Ty) (label : String) :
    (Check.assignable place value target label).Still fits := by
  refine .ite (.pure _) ((deref _).bind fun v => (deref _).bind fun t => ?_)
  split
  · exact .pure _
  · rename_i d hd
    exact .failAt fun _ => (d.severity_withPrimary _ _ _).trans (Typing.severity_assign? hd)

lemma meaning (a : Annotation) : (Check.meaning a).Still fits := by
  refine .read fun s => ?_
  split
  · exact .pure _
  · exact refuse _ _ _ _ _

lemma meanings (as : List Annotation) : (Check.meanings as).Still fits := by
  induction as with
  | nil => exact .pure _
  | cons a as ih => exact (meaning a).bind fun _ => ih.bind fun _ => .pure _

/-! ### Saying and declaring -/

lemma report (d : Diagnostic) : (Check.report d).Still fits :=
  .change fun s => s.still_report d

lemma trace (style : Style) (line : String) : (Check.trace style line).Still fits :=
  .change fun _ => ⟨id, rfl, rfl, rfl, rfl, Nat.le_refl _⟩

lemma define (name : String) (kind : SymbolKind) (type : Ty) (isConst : Bool) {origin : Origin}
    (ho : ∀ id, Symbol.Fits fits ⟨id, name, kind, some type, isConst, origin⟩) :
    (Check.define name kind type isConst origin).Still fits := by
  intro s
  unfold StillAt
  rw [run_define]
  split
  · rename_i x scopes h
    refine ⟨⟨fun hs => hs.define ?_ h, rfl, rfl, rfl, rfl, Nat.le_refl _⟩, fun _ h => by cases h⟩
    exact (Scopes.define_eq_ok h).1 ▸ ho _
  · refine ⟨.refl s, fun e h => ?_⟩
    cases h
    trivial

lemma declare (name : Ident) (kind : SymbolKind) (type : Ty) (isConst : Bool) {origin : Origin}
    (ho : ∀ id, Symbol.Fits fits ⟨id, name.name, kind, some type, isConst, origin⟩) :
    (Check.declare name kind type isConst origin).Still fits := by
  refine .read fun s => ?_
  split
  · exact .failAt fun _ => by simp
  · exact define _ _ _ _ ho

/-- A name that is declared at a place. -/
lemma declareAt (name : Ident) (kind : SymbolKind) (type : Ty) (isConst : Bool) (l : Location) :
    (Check.declare name kind type isConst (.place l)).Still fits :=
  declare _ _ _ _ fun _ => Symbol.fits_of_none rfl rfl

lemma retype (x : Symbol) (t : Ty) : (Check.retype x t).Still fits := by
  intro s
  unfold StillAt
  rw [run_retype]
  split
  · rename_i scopes h
    exact ⟨⟨fun hs => hs.updateSymbol h, rfl, rfl, rfl, rfl, Nat.le_refl _⟩, fun _ h => by cases h⟩
  · refine ⟨.refl s, fun e h => ?_⟩
    cases h
    trivial

end Still

end Check

end TypedScript
