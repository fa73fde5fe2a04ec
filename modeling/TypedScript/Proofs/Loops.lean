import TypedScript.Proofs.Keeping.Within
import TypedScript.Proofs.Lineage.Endings
import TypedScript.Proofs.Refinements

/-!
# What loops know of variables

The body of a loop is checked with what is known before the loop. An assignment resets what
is known of its variable, and does so for all narrowings in force at once, but not before the
check comes to it. So a read in the body finds a type that was known outside the loop or the
declared type, and only after an assignment it is sure to find the declared type.

Checks change the frames of narrowings in no other way: a refinement stays as it is or becomes
a type that its variable was declared with. This holds in every session that the check of the
body passes through, and what a read finds there is still noted when the loop is over.
-/
namespace TypedScript

/-! ## Frames -/

/-- The narrowings are about other names. -/
def Narrowings.Spares (n : Narrowings) (name : String) : Prop := ∀ e ∈ n, e.1 ≠ name

lemma Narrowings.Spares.get?_eq {n : Narrowings} {name : String} (hn : n.Spares name) :
    n.get? name = none := by
  simpa [Subst.get?, ByName.find?, Narrowings.Spares] using hn

namespace NarrowingStack

variable (s : NarrowingStack)

/-- A frame about other names knows nothing of a name. -/
lemma lookup?_frame_push (bind : Binder) {n : Narrowings} {name : String} (hn : n.Spares name)
    (id : Option SymbolId) :
    ((s.push bind n).frame s.pushed.size).lookup? name id = none := by
  rw [frame_push_size, Frame.lookup?_map, hn.get?_eq, ite_self]

/-- What other names are known to be does not matter for a name. -/
lemma lookup?_push {n : Narrowings} {name : String} (hn : n.Spares name) (bind bind' : Binder)
    (hlive : s.LivePushed) : (s.push bind n).lookup? bind' name = s.lookup? bind' name := by
  rw [lookup?_eq, lookup?_eq, knows_push hlive, hn.get?_eq, ite_self]
  rfl

end NarrowingStack

/-! ## Symbols -/

namespace Scope

variable {g : Scope} {x : Symbol} {name : String}

lemma exists_named? (hx : x ∈ g) (hname : x.name = name) : ∃ y, g.named? name = some y := by
  have hsome : (g.named? name).isSome := List.find?_isSome.2 ⟨x, hx, by simpa using hname⟩
  exact Option.isSome_iff_exists.1 hsome

end Scope

namespace Scopes

variable {s t : Scopes} {name : String}

lemma chain_eq_slots (s : Scopes) : s.chain = s.outline.slots.map s.slot := by
  simp [chain, Outline.slots, outline, slot, Function.comp_def]

/-- Later symbols do not come between a name and an older symbol that it means. -/
lemma exists_lookup?_of_grows (hs : s.outline.Orderly) (hgrows : s.outline.Grows t.outline)
    {z : Symbol} (hz : t.lookup? name = some z) (hid : z.id < s.nextId) :
    ∃ y, s.lookup? name = some y ∧ y.id = z.id := by
  have hslots : t.outline.slots = s.outline.slots := by
    simp only [Outline.slots, hgrows.locals]
  rw [lookup?, chain_eq_slots, hslots, List.findSome?_map] at hz
  rw [lookup?, chain_eq_slots, List.findSome?_map]
  generalize s.outline.slots = slots at hz ⊢
  induction slots with
  | nil => simp at hz
  | cons i slots ih =>
    rw [List.findSome?_cons, Function.comp_apply] at hz ⊢
    cases ht : (t.slot i).named? name with
    | some z' =>
      rw [ht] at hz
      obtain rfl := Option.some.inj hz
      obtain ⟨hmem, hname⟩ := Scope.mem_of_named? ht
      obtain hold | hnew := hgrows.fresh i _ (mem_headings hmem)
      · obtain ⟨w, hw, hheading⟩ := List.mem_map.1 hold
        have hwname : w.name = name := (congrArg Heading.name hheading).trans hname
        obtain ⟨y, hy⟩ := Scope.exists_named? hw hwname
        obtain ⟨hymem, hyname⟩ := Scope.mem_of_named? hy
        have hsame := hs.named i _ (mem_headings hymem) _ (mem_headings hw)
          (hyname.trans hwname.symm)
        exact ⟨y, by rw [hy], congrArg Heading.id (hsame.trans hheading)⟩
      · exact absurd hid (Nat.not_lt.2 hnew)
    | none =>
      rw [ht] at hz
      cases hy : (s.slot i).named? name with
      | none => exact ih hz
      | some y =>
        obtain ⟨hymem, hyname⟩ := Scope.mem_of_named? hy
        obtain ⟨w, hw, hheading⟩ := List.mem_map.1 (hgrows.kept i (mem_headings hymem))
        have hwname : w.name = name := (congrArg Heading.name hheading).trans hyname
        obtain ⟨z', hz'⟩ := Scope.exists_named? hw hwname
        rw [ht] at hz'
        cases hz'

end Scopes

/-- The finding is the type that the symbol was declared with, where it was made. -/
def Finding.Declares (f : Finding) (id : SymbolId) : Prop :=
  ∃ x, f.scopes.Has x ∧ x.id = id ∧ f.type = f.scopes.deref (x.type.getD .unknown)

/-- Leaving this puts no narrowings back that were set aside. -/
def Undo.isNested : Undo → Bool
  | .frames _ | .detached .. => false
  | _ => true

lemma SharedStack.mem_of_pop? {α : Type} {s t : SharedStack α} {a : α} (h : s.pop? = some t)
    (ha : a ∈ t.toList) : a ∈ s.toList := by
  rw [toList_of_pop? h] at ha
  exact List.mem_of_mem_tail ha

namespace Session

variable {s t u : Session} {bound : SymbolId}

/-- It was noted that the symbol is declared with this type. -/
def Declared (s : Session) (id : SymbolId) (type : Ty) : Prop :=
  ∃ f ∈ s.types, f.Declares id ∧ f.type = type

lemma Declared.mono {id : SymbolId} {type : Ty} (h : s.Declared id type)
    (htypes : ∀ f ∈ s.types, f ∈ t.types) : t.Declared id type := by
  obtain ⟨f, hf, hdeclares⟩ := h
  exact ⟨f, htypes f hf, hdeclares⟩

/-! ## What checks do to refinements -/

/-- What leaving something does to findings, frames and scopes. -/
structure Left (isNested : Bool) (t u : Session) : Prop where
  follows : u.followsScopes = t.followsScopes
  types : u.types = t.types
  pushed : u.narrowing.pushed = t.narrowing.pushed
  live : isNested → ∀ i ∈ u.narrowing.stack.toList, i ∈ t.narrowing.stack.toList
  scopes : isNested → ∃ dropped locals depth, t.scopes.locals = dropped ++ locals ∧
    u.scopes = t.scopes.reattach locals depth

lemma left_of_run {undo : Undo} (h : undo.run t = .ok u) : Left undo.isNested t u := by
  cases undo with
  | scope =>
    simp only [Undo.run, exitScope, Scopes.exit] at h
    cases hlocals : t.scopes.locals with
    | nil =>
      rw [hlocals] at h
      cases h
    | cons i locals =>
      rw [hlocals] at h
      cases h
      exact ⟨rfl, rfl, rfl, fun _ _ hi => hi, fun _ => ⟨[i], locals, _, hlocals, rfl⟩⟩
  | frame depth =>
    simp only [Undo.run, NarrowingStack.popAt, NarrowingStack.pop] at h
    split at h
    · split at h
      · cases h
      · rename_i stack hpop
        cases h
        exact ⟨rfl, rfl, rfl, fun _ _ => SharedStack.mem_of_pop? hpop,
          fun _ => ⟨[], _, _, rfl, rfl⟩⟩
    · cases h
  | frames saved =>
    cases h
    exact ⟨rfl, rfl, rfl, fun hnested => (by cases hnested), fun hnested => (by cases hnested)⟩
  | function saved breakables =>
    cases h
    exact ⟨rfl, rfl, rfl, fun _ _ hi => hi, fun _ => ⟨[], _, _, rfl, rfl⟩⟩
  | className saved =>
    cases h
    exact ⟨rfl, rfl, rfl, fun _ _ hi => hi, fun _ => ⟨[], _, _, rfl, rfl⟩⟩
  | breakable =>
    simp only [Undo.run, leaveBreakable] at h
    split at h
    · cases h
    · cases h
      exact ⟨rfl, rfl, rfl, fun _ _ hi => hi, fun _ => ⟨[], _, _, rfl, rfl⟩⟩
  | detached locals depth frames function className breakables =>
    cases h
    exact ⟨rfl, rfl, rfl, fun hnested => (by cases hnested), fun hnested => (by cases hnested)⟩

/-- Of the symbols numbered below `bound` the frames know what they knew, or a refinement was
reset to a declared type. -/
structure Recalls (bound : SymbolId) (s t : Session) : Prop where
  follows : t.followsScopes = s.followsScopes
  types : ∀ f ∈ s.types, f ∈ t.types
  size : s.narrowing.pushed.size ≤ t.narrowing.pushed.size
  frames : ∀ i < s.narrowing.pushed.size, ∀ name, ∀ id < bound,
    (t.narrowing.frame i).lookup? name (some id) = (s.narrowing.frame i).lookup? name (some id) ∨
      ∃ type, t.Declared id type ∧ (t.narrowing.frame i).lookup? name (some id) = some type

lemma nextId_entered {enter : Session → Session × Undo} (he : Entry enter) (s : Session) :
    (enter s).1.scopes.nextId = s.scopes.nextId := by
  cases he <;> rfl

namespace Recalls

/-- What a step does that changes no frame. -/
lemma of_pushed_eq (hfollows : t.followsScopes = s.followsScopes)
    (htypes : ∀ f ∈ s.types, f ∈ t.types) (hpushed : t.narrowing.pushed = s.narrowing.pushed) :
    s.Recalls bound t := by
  refine ⟨hfollows, htypes, Nat.le_of_eq (congrArg Array.size hpushed.symm),
    fun i _ name id _ => .inl ?_⟩
  rw [NarrowingStack.frame, NarrowingStack.frame, hpushed]

/-- A step that changes neither frames nor findings. -/
lemma of_eq (hfollows : t.followsScopes = s.followsScopes := by rfl)
    (htypes : t.types = s.types := by rfl)
    (hpushed : t.narrowing.pushed = s.narrowing.pushed := by rfl) : s.Recalls bound t :=
  of_pushed_eq hfollows (fun _ hf => htypes ▸ hf) hpushed

lemma trans (h : s.Recalls bound t) (k : t.Recalls bound u) : s.Recalls bound u where
  follows := k.follows.trans h.follows
  types f hf := k.types f (h.types f hf)
  size := Nat.le_trans h.size k.size
  frames i hi name id hid := by
    obtain hsame | hreset := k.frames i (Nat.lt_of_lt_of_le hi h.size) name id hid
    · rw [hsame]
      refine (h.frames i hi name id hid).imp_right ?_
      rintro ⟨type, hdeclared, hlookup⟩
      exact ⟨type, hdeclared.mono k.types, hlookup⟩
    · exact .inr hreset

lemma entered {enter : Session → Session × Undo} (he : Entry enter) (s : Session) :
    s.Recalls bound (enter s).1 := by
  cases he with
  | scope => exact .of_eq
  | function f => exact .of_eq
  | cls name => exact .of_eq
  | breakable b => exact .of_eq
  | detach => exact .of_eq
  | narrowings n =>
    refine ⟨rfl, fun _ hf => hf, ?_, fun i hi name id _ => .inl ?_⟩
    · simp [pushNarrowings, NarrowingStack.push]
    · simp only [pushNarrowings, s.narrowing.frame_push_of_lt _ _ hi]

/-- Frames that are left stay as they are. -/
lemma left {undo : Undo} (h : undo.run t = .ok u) : t.Recalls bound u :=
  .of_eq (left_of_run h).follows (left_of_run h).types (left_of_run h).pushed

/-- Types do not matter here, and of symbols it is known what it takes to keep them in order. -/
def contract (bound : SymbolId) : Contract where
  Holds s := s.scopes.outline.Orderly ∧ bound ≤ s.scopes.nextId
  Rel s t := Leads.contract.Rel s t ∧ s.Recalls bound t
  Knows := Leads.contract.Knows

/-- A name that is reset means the symbol that its type was found for, if that symbol is old. -/
lemma declares_of_aimed {name : String} {type : Ty} {id : SymbolId}
    (h : (contract bound).Aimed s name type) (hid : id < bound) (hname : s.binder name = some id) :
    s.Declared id type := by
  obtain ⟨before, x, i, hbefore, hx, rfl, hrel⟩ := h
  have hgrows := hrel.1.2.grows hbefore.1
  obtain ⟨z, hz, rfl⟩ : ∃ z, s.scopes.lookup? name = some z ∧ z.id = id := by
    unfold binder at hname
    split at hname
    · exact Option.map_eq_some_iff.1 hname
    · cases hname
  obtain ⟨y, hy, hyid⟩ := Scopes.exists_lookup?_of_grows hbefore.1 hgrows hz
    (Nat.lt_of_lt_of_le hid hbefore.2)
  obtain rfl : x = y := Option.some.inj (hx.symm.trans hy)
  exact ⟨_, hrel.2.types _ List.mem_cons_self, ⟨x, Scopes.has_of_lookup? hx, hyid, rfl⟩, rfl⟩

lemma forget {name : String} {type : Ty} (h : (contract bound).Aimed s name type) :
    s.Recalls bound (s.forget name type) := by
  refine ⟨rfl, fun _ hf => hf, Nat.le_of_eq (NarrowingStack.size_forget _ _ _ _).symm,
    fun i _ key id hid => ?_⟩
  have hframe := s.narrowing.frame_forget s.binder name type i
  rw [Session.forget, hframe]
  split
  · rw [Frame.lookup?_reset]
    split
    · rename_i hreset
      obtain ⟨rfl, hmeaning⟩ := hreset
      cases hlookup : (s.narrowing.frame i).lookup? key (some id) with
      | none => exact .inl rfl
      | some old =>
        have hdeclared : s.Declared id type := declares_of_aimed h hid hmeaning.symm
        exact .inr ⟨type, hdeclared, rfl⟩
    · exact .inl rfl
  · exact .inl rfl

lemma symbolLaws (bound : SymbolId) : SymbolLaws (contract bound) where
  refl hs := ⟨Leads.symbolLaws.refl hs.1, .of_eq⟩
  trans h k := ⟨Leads.symbolLaws.trans h.1 k.1, h.2.trans k.2⟩
  canonical _ := False.elim
  report d hs := ⟨Leads.symbolLaws.report d hs.1, .of_eq⟩
  trace style line hs := ⟨Leads.symbolLaws.trace style line hs.1, .of_eq⟩
  record id t hs ht := ⟨Leads.symbolLaws.record id t hs.1 ht,
    .of_pushed_eq rfl (fun _ hf => List.mem_cons_of_mem _ hf) rfl⟩
  define hs hd ht h := ⟨Leads.symbolLaws.define hs.1 hd ht h, .of_eq⟩
  update hs hknows ht h := ⟨Leads.symbolLaws.update hs.1 hknows ht h, .of_eq⟩
  retypeSymbol hs hknows ht := ⟨Leads.symbolLaws.retypeSymbol hs.1 hknows ht, .of_eq⟩
  forget name t _ _ haimed := ⟨⟨.forget name t, .stay rfl⟩, .forget haimed⟩
  addReturn t hs ht := ⟨Leads.symbolLaws.addReturn t hs.1 ht, .of_eq⟩
  markChecked id hs := ⟨Leads.symbolLaws.markChecked id hs.1, .of_eq⟩
  inference {s t id} hs hfree h := by
    have hbegun : s.Recalls bound (s.beginInference id) := .of_eq
    have hended : t.Recalls bound (t.endInference id) := .of_eq
    exact ⟨Leads.symbolLaws.inference hs.1 hfree h.1, hbegun.trans (h.2.trans hended)⟩
  leave he hs h := by
    obtain ⟨u, hu, hrel⟩ := Leads.symbolLaws.leave (he.entry.opens id) hs.1 h.1
    exact ⟨u, hu, hrel, (entered he.entry _).trans (h.2.trans (left hu))⟩
  after hs h :=
    ⟨Leads.symbolLaws.after hs.1 h.1, Nat.le_trans hs.2 (h.1.2.grows hs.1).nextId⟩
  entered he hs := ⟨orderly_entered he.entry hs.1, (nextId_entered he.entry _).symm ▸ hs.2⟩
  begun i hs := ⟨Leads.symbolLaws.begun i hs.1, hs.2⟩
  learn hs := Leads.symbolLaws.learn hs.1
  learnDefined hs := Leads.symbolLaws.learnDefined hs.1
  knowsAfter hs h := Leads.symbolLaws.knowsAfter hs.1 h.1
  knowsEntered he hs := Leads.symbolLaws.knowsEntered (he.entry.opens id) hs.1
  knowsBegun i hs := Leads.symbolLaws.knowsBegun i hs.1

lemma stepLaws (bound : SymbolId) : StepLaws (contract bound) := (symbolLaws bound).stepLaws

end Recalls

end Session

/-! ## Sessions that come later -/

namespace Session

/-- The sessions that checks come to from `s`, where they push only such narrowings without
popping them. -/
inductive Onward (may : Narrowings → Prop) (s : Session) : Session → Prop
  | here : Onward may s s
  /-- Whole checks, such as those of declarations, statements and expressions. -/
  | runs {t u : Session} : Onward may s t → t.RunsTo u → Onward may s u
  /-- A step that touches no narrowing. -/
  | step {t u : Session} : Onward may s t → t.Leads u → u.narrowing = t.narrowing →
      u.followsScopes = t.followsScopes → (∀ f ∈ t.types, f ∈ u.types) → Onward may s u
  | entered {enter : Session → Session × Undo} {t : Session} : Onward may s t → Entry enter →
      (enter t).1.narrowing.pushed = t.narrowing.pushed → Onward may s (enter t).1
  | narrowed {t : Session} (n : Narrowings) :
      Onward may s t → may n → Onward may s (t.pushNarrowings n).1
  | left {undo : Undo} {t u : Session} : Onward may s t → undo.isNested → undo.run t = .ok u →
      Onward may s u

variable {s t u : Session} {may : Narrowings → Prop}

/-- Names mean symbols, and the frames in force are among those that were pushed. -/
structure Proper (s : Session) : Prop where
  orderly : s.scopes.outline.Orderly
  follows : s.followsScopes = true
  live : s.narrowing.LivePushed

/-- The session after has the symbols of the session before and more, and under narrowings
that were in force the frames recall what they knew. -/
structure Later (bound : SymbolId) (s t : Session) : Prop where
  orderly : t.scopes.outline.Orderly
  nextId : s.scopes.nextId ≤ t.scopes.nextId
  fresh : ∀ i, ∀ x ∈ t.scopes.outline.headings i,
    x ∈ s.scopes.outline.headings i ∨ s.scopes.nextId ≤ x.id
  recalls : s.Recalls bound t
  live : ∀ i ∈ t.narrowing.stack.toList, i ∈ s.narrowing.stack.toList

namespace Later

lemma of_leads (hs : s.scopes.outline.Orderly) (h : s.Leads t) (hrecalls : s.Recalls bound t)
    (hlive : t.narrowing.stack.toList = s.narrowing.stack.toList) : Later bound s t where
  orderly := (h.grows hs).orderly
  nextId := (h.grows hs).nextId
  fresh := (h.grows hs).fresh
  recalls := hrecalls
  live _ hi := hlive ▸ hi

lemma of_runsTo (h : s.RunsTo t) (hs : s.scopes.outline.Orderly)
    (hbound : bound ≤ s.scopes.nextId) : Later bound s t := by
  obtain ⟨⟨hkept, hleads⟩, hrecalls⟩ := h _ (Recalls.stepLaws bound) id ⟨hs, hbound⟩
  exact .of_leads hs hleads hrecalls hkept.frames.toList_eq

lemma entered {enter : Session → Session × Undo} (he : Entry enter) (hs : s.scopes.outline.Orderly)
    (hpushed : (enter s).1.narrowing.pushed = s.narrowing.pushed) : Later bound s (enter s).1 where
  orderly := orderly_entered he hs
  nextId := Nat.le_of_eq (nextId_entered he s).symm
  fresh i x hx := by
    rw [Scopes.outline] at hx
    dsimp only at hx
    rw [slot_entered he s i] at hx
    exact .inl hx
  recalls := Recalls.entered he s
  live i hi := by
    cases he with
    | scope => exact hi
    | function f => exact hi
    | cls name => exact hi
    | breakable b => exact hi
    | detach => simp [detach, NarrowingStack.detach, SharedStack.toList, SharedStack.fresh,
        SharedStack.under, StackMark.bottom] at hi
    | narrowings n => simp [pushNarrowings, NarrowingStack.push] at hpushed

lemma left {undo : Undo} (hnested : undo.isNested) (h : undo.run s = .ok t)
    (hs : s.scopes.outline.Orderly) : Later bound s t := by
  have hleft := left_of_run h
  obtain ⟨dropped, locals, depth, hlocals, hscopes⟩ := hleft.scopes hnested
  have hslot (i : Option ScopeId) : t.scopes.slot i = s.scopes.slot i := by
    rw [hscopes]
    cases i <;> rfl
  refine ⟨?_, ?_, fun i x hx => .inl ?_, .left h, hleft.live hnested⟩
  · have hsub : locals.Sublist s.scopes.locals := hlocals ▸ List.sublist_append_right _ _
    rw [hscopes]
    exact hs.within hsub
  · rw [hscopes]
    exact Nat.le_refl _
  · rw [Scopes.outline] at hx
    dsimp only at hx
    rw [hslot] at hx
    exact hx

end Later

namespace Proper

lemma later (hs : s.Proper) (h : Later bound s t) : t.Proper where
  orderly := h.orderly
  follows := h.recalls.follows.trans hs.follows
  live i hi := Nat.lt_of_lt_of_le (hs.live i (h.live i hi)) h.recalls.size

lemma narrowed (hs : s.Proper) (n : Narrowings) : (s.pushNarrowings n).1.Proper where
  orderly := hs.orderly
  follows := hs.follows
  live := hs.live.push s.binder n

end Proper

/-- The relation of each step that pushes no narrowings, and what pushing them does, decide
about a property of the sessions that checks come to. -/
lemma Onward.induct (bound : SymbolId) {P : Session → Prop}
    (hP : ∀ t, P t → t.Proper ∧ bound ≤ t.scopes.nextId)
    (hlater : ∀ t u, P t → Later bound t u → P u)
    (hnarrowed : ∀ t n, P t → may n → P (t.pushNarrowings n).1) (h : s.Onward may t) (hs : P s) :
    P t := by
  induction h with
  | here => exact hs
  | runs _ hruns ih =>
    obtain ⟨hproper, hbound⟩ := hP _ ih
    exact hlater _ _ ih (.of_runsTo hruns hproper.orderly hbound)
  | step _ hleads hnarrowing hfollows htypes ih =>
    refine hlater _ _ ih (.of_leads (hP _ ih).1.orderly hleads ?_ (by rw [hnarrowing]))
    exact .of_pushed_eq hfollows htypes (congrArg _ hnarrowing)
  | entered _ he hpushed ih => exact hlater _ _ ih (.entered he (hP _ ih).1.orderly hpushed)
  | narrowed n _ hn ih => exact hnarrowed _ n ih hn
  | left _ hnested hrun ih => exact hlater _ _ ih (.left hnested hrun (hP _ ih).1.orderly)

lemma proper_start (options : Options) : Proper { options } where
  orderly := orderly_start
  follows := rfl
  live i hi := by
    simp [SharedStack.toList, SharedStack.empty, SharedStack.under, StackMark.bottom] at hi

lemma Onward.trans (h : s.Onward may t) (k : t.Onward may u) : s.Onward may u := by
  induction k with
  | here => exact h
  | runs _ hruns ih => exact .runs ih hruns
  | step _ hleads hnarrowing hfollows htypes ih => exact .step ih hleads hnarrowing hfollows htypes
  | entered _ he hpushed ih => exact .entered ih he hpushed
  | narrowed n _ hn ih => exact .narrowed n ih hn
  | left _ hnested hrun ih => exact .left ih hnested hrun

lemma Onward.proper (h : s.Onward may t) (hs : s.Proper) : t.Proper :=
  h.induct 0 (fun _ ht => ⟨ht, Nat.zero_le _⟩) (fun _ _ ht => ht.later)
    (fun _ n ht _ => ht.narrowed n) hs

end Session

/-- The sessions inside a run come later than the one that it begins in. -/
lemma Check.Within.onward {α β : Type} {may : Narrowings → Prop} {c : Check α} {d : Check β}
    {s t : Session} (h : d.Within may t c s) : s.Onward may t := by
  induction h with
  | here => exact .here
  | next _ hruns _ ih => exact .trans (.runs .here hruns) ih
  | inside he hpushed _ ih => exact .trans (.entered .here he hpushed) ih
  | narrowed n hn _ ih => exact .trans (.narrowed n .here hn) ih
  | @once _ id s _ _ ih =>
    have hbegun : s.Onward may (s.beginInference id) :=
      .step .here (.stay rfl) rfl rfl fun _ hf => hf
    exact hbegun.trans ih
  | first _ _ ih | reported _ ih | marked _ _ ih | caught _ _ ih => exact ih

/-- The type of a symbol is looked up by its number. -/
lemma Check.exists_run_currentType? {s : Session} {x : Symbol} (hx : s.scopes.Has x) :
    ∃ y, s.scopes.Has y ∧ y.id = x.id ∧ currentType? x s = (.ok y.type, s) := by
  rw [currentType?, run_bind, run_get]
  dsimp only
  cases hy : s.scopes.symbol? x.id with
  | none => exact ⟨x, hx, rfl, rfl⟩
  | some y =>
    obtain ⟨hhas, hid⟩ := Scopes.has_of_symbol? hy
    exact ⟨y, hhas, hid, rfl⟩

namespace Name

variable {d : Demand} {place : Location} {name : String} {s : Session} {x : Symbol}

lemma run_value_of_narrowed {t : Ty} (h : s.narrowed? name = some t) :
    value d place name s = (.ok t, s) := by
  rw [value, Check.run_bind, Check.run_get]
  dsimp only
  rw [h]
  rfl

/-- A name that nothing more is known of has the type that its symbol is declared with. -/
lemma exists_run_value (hnarrowed : s.narrowed? name = none) (hx : s.scopes.lookup? name = some x)
    (hvalue : x.kind.isType = false) (hkind : x.kind ≠ .function) :
    ∃ y, s.scopes.Has y ∧ y.id = x.id ∧
      value d place name s = (.ok (s.deref (y.type.getD .unknown)), s) := by
  have hlookup : Check.lookup? name s = (.ok (some x), s) := hx ▸ rfl
  have hawaits : x.awaitsResult = false := by simp [Symbol.awaitsResult, hkind]
  have hrun : value d place name s =
      (Check.currentType? x >>= fun t => Check.deref (t.getD .unknown)) s := by
    rw [value, Check.run_bind, Check.run_get]
    dsimp only
    rw [hnarrowed]
    dsimp only
    rw [Check.run_bind, hlookup]
    dsimp only
    rw [hawaits]
    generalize x.kind = kind at hvalue
    cases kind with
    | cls | interface | enum | typeAlias | typeParam => cases hvalue
    | var | constant | function | parameter | other => rfl
  obtain ⟨y, hy, hid, hcurrent⟩ := Check.exists_run_currentType? (Scopes.has_of_lookup? hx)
  refine ⟨y, hy, hid, ?_⟩
  rw [hrun, Check.run_bind, hcurrent]
  rfl

end Name

namespace Session

variable {s t u : Session} {may : Narrowings → Prop} {bound : SymbolId}

/-- The symbol stands for a value, and what the narrowings in force know of it is one of these
types or one that it was declared with. -/
structure Bounded (known : Ty → Prop) (name : String) (id : SymbolId) (s : Session) : Prop where
  proper : s.Proper
  old : id < s.scopes.nextId
  value : ∀ x, s.scopes.Has x → x.id = id → x.kind.isType = false ∧ x.kind ≠ .function
  frames : ∀ i ∈ s.narrowing.stack.toList, ∀ type,
    (s.narrowing.frame i).lookup? name (some id) = some type → known type ∨ s.Declared id type

namespace Bounded

variable {known : Ty → Prop} {name : String} {id : SymbolId}

lemma later (hs : s.Bounded known name id) (h : Later (id + 1) s t) : t.Bounded known name id where
  proper := hs.proper.later h
  old := Nat.lt_of_lt_of_le hs.old h.nextId
  value x hx hid := by
    obtain ⟨i, hx⟩ := hx
    obtain hold | hnew := h.fresh i _ (Scopes.mem_headings hx)
    · obtain ⟨y, hy, hheading⟩ := List.mem_map.1 hold
      have hkind : y.kind = x.kind := congrArg Heading.kind hheading
      rw [← hkind]
      exact hs.value y ⟨i, hy⟩ ((congrArg Heading.id hheading).trans hid)
    · exact absurd hs.old (Nat.not_lt.2 (hid ▸ hnew))
  frames i hi type htype := by
    have hlive := h.live i hi
    obtain hsame | ⟨type', hdeclared, hlookup⟩ :=
      h.recalls.frames i (hs.proper.live i hlive) name id (Nat.lt_succ_self id)
    · exact (hs.frames i hlive type (hsame ▸ htype)).imp_right fun hdeclared =>
        hdeclared.mono h.recalls.types
    · obtain rfl : type' = type := Option.some.inj (hlookup.symm.trans htype)
      exact .inr hdeclared

/-- A frame about other names does not matter. -/
lemma narrowed (hs : s.Bounded known name id) {n : Narrowings} (hn : n.Spares name) :
    (s.pushNarrowings n).1.Bounded known name id where
  proper := hs.proper.narrowed n
  old := hs.old
  value := hs.value
  frames i hi type htype := by
    simp only [pushNarrowings, NarrowingStack.push, SharedStack.toList_push, List.mem_cons] at hi
    obtain rfl | hi := hi
    · have hnone := s.narrowing.lookup?_frame_push s.binder hn (some id)
      cases hnone.symm.trans htype
    · have hframe := s.narrowing.frame_push_of_lt s.binder n (hs.proper.live i hi)
      exact hs.frames i hi type (hframe ▸ htype)

lemma onward (hs : s.Bounded known name id) (h : s.Onward (·.Spares name) t) :
    t.Bounded known name id :=
  h.induct (id + 1) (fun _ ht => ⟨ht.proper, ht.old⟩) (fun _ _ ht => ht.later)
    (fun _ _ ht hn => ht.narrowed hn) hs

/-- A read notes a type that is known, or one that the symbol was declared with. -/
lemma read (hs : s.Bounded known name id) (hname : s.binder name = some id) (limit : Nat) (m : Mark)
    (h : Hint) : ∃ type,
    Walk.expr (Walk.demand limit) (.ident m name) h s = (.ok type, s.record m.id type) ∧
      (known type ∨ (s.record m.id type).Declared id type) := by
  obtain ⟨x, hx, rfl⟩ : ∃ x, s.scopes.lookup? name = some x ∧ x.id = id := by
    rw [binder, if_pos hs.proper.follows] at hname
    exact Option.map_eq_some_iff.1 hname
  have hwalk (type : Ty)
      (hvalue : Name.value (Walk.demand limit) m.location name s = (.ok type, s)) :
      Walk.expr (Walk.demand limit) (.ident m name) h s = (.ok type, s.record m.id type) := by
    change Rule.recorded m (Name.value (Walk.demand limit) m.location name) s = _
    rw [Rule.recorded, Check.run_bind, hvalue]
    rfl
  cases hnarrowed : s.narrowed? name with
  | some type =>
    refine ⟨type, hwalk type (Name.run_value_of_narrowed hnarrowed), ?_⟩
    obtain ⟨f, hf, hlookup⟩ := List.exists_of_findSome?_eq_some hnarrowed
    obtain ⟨i, hi, rfl⟩ := List.mem_map.1 hf
    rw [hname] at hlookup
    exact (hs.frames i hi type hlookup).imp_right fun hdeclared =>
      hdeclared.mono fun _ => List.mem_cons_of_mem _
  | none =>
    obtain ⟨hvalue, hkind⟩ := hs.value x (Scopes.has_of_lookup? hx) rfl
    obtain ⟨y, hy, hid, hrun⟩ := Name.exists_run_value hnarrowed hx hvalue hkind
    exact ⟨_, hwalk _ hrun, .inr ⟨_, List.mem_cons_self, ⟨y, hy, hid, rfl⟩, rfl⟩⟩

end Bounded

/-- An assignment ends by resetting the variable to the type that was noted for the target. -/
lemma exists_of_run_assign {limit : Nat} {m : Mark} {lhs y : Expr} {op : Operator} {h : Hint}
    {name : String} {type : Ty} (hs : s.Proper) (hlhs : lhs.name? = some name)
    (hrun : Walk.expr (Walk.demand limit) (.assign m lhs op y) h s = (.ok type, u)) :
    ∃ (x : Symbol) (t : Session) (i : NodeId), s.scopes.lookup? name = some x ∧
      type = s.deref (x.type.getD .unknown) ∧ ⟨i, type, s.scopes⟩ ∈ t.types ∧
      u = (t.forget name type).record m.id type := by
  have laws := Recalls.stepLaws 0
  have hpart := laws.walkPart (laws.demand limit) y
  obtain ⟨m', htarget⟩ := Walk.target_of_name? (d := Walk.demand limit) lhs.location hlhs
  obtain ⟨type', t₃, hassign, hrecord⟩ := Check.exists_of_run_bind hrun
  cases hrecord
  obtain ⟨type', t₁, htarget', hrest⟩ := Check.exists_of_run_bind hassign
  rw [htarget] at htarget'
  obtain ⟨x, hx, rfl, rfl⟩ := Name.of_run_target htarget'
  have hs₁ : (Recalls.contract 0).Holds (s.record m'.id (s.deref (x.type.getD .unknown))) :=
    ⟨hs.orderly, Nat.zero_le _⟩
  dsimp only at hrest
  split at hrest
  all_goals
    obtain ⟨v, t₂, hvalue, hrest⟩ := Check.exists_of_run_bind hrest
    obtain ⟨_, t, hfits, hrest⟩ := Check.exists_of_run_bind hrest
    have hrel := (hpart _ False.elim _).rel hs₁ hvalue
    have hs₂ := laws.after hs₁ hrel
    have hnoted := hrel.2.types _ List.mem_cons_self
    rw [hlhs] at hrest
    cases hrest
    refine ⟨x, t, m'.id, hx, rfl, ?_, rfl⟩
  · exact ((laws.assignable _ _ _ _ _).rel hs₂ hfits).2.types _ hnoted
  · exact ((laws.settle _ _ False.elim _).rel hs₂ hfits).2.types _ hnoted

/-- After an assignment the narrowings in force know no more than the declared type. -/
lemma Bounded.assigned {known : Ty → Prop} {name : String} {id : SymbolId} {limit : Nat} {m : Mark}
    {lhs y : Expr} {op : Operator} {h : Hint} {type : Ty} (hs : s.Bounded known name id)
    (hlhs : lhs.name? = some name)
    (hrun : Walk.expr (Walk.demand limit) (.assign m lhs op y) h s = (.ok type, u))
    (hbefore : s.binder name = some id) (hafter : u.binder name = some id) :
    u.Bounded (fun _ => False) name id := by
  have hruns := RunsTo.expr limit (.assign m lhs op y) h s
  rw [hrun] at hruns
  have hlater : Later (id + 1) s u := .of_runsTo hruns hs.proper.orderly hs.old
  have hu := hs.later hlater
  refine ⟨hu.proper, hu.old, hu.value, fun i hi type' htype' => .inr ?_⟩
  obtain ⟨x, t, j, hx, htype, hnoted, rfl⟩ := exists_of_run_assign hs.proper hlhs hrun
  have hmeaning : t.binder name = some id := hafter
  have hlive : i ∈ t.narrowing.stack.toList := hi
  have hframe := (t.narrowing.frame_forget t.binder name type i).trans (if_pos hlive)
  have hid : x.id = id := by
    rw [binder, if_pos hs.proper.follows, hx] at hbefore
    exact Option.some.inj hbefore
  obtain rfl : type = type' := by
    change ((t.narrowing.forget t.binder name type).frame i).lookup? name (some id) = _ at htype'
    rw [hframe, Frame.lookup?_reset, if_pos ⟨rfl, hmeaning.symm⟩] at htype'
    obtain ⟨_, -, h⟩ := Option.map_eq_some_iff.1 htype'
    exact h
  exact ⟨_, List.mem_cons_of_mem _ hnoted, ⟨x, Scopes.has_of_lookup? hx, hid, htype⟩, rfl⟩

/-! ## Loops -/

/-- The session in which the body of a loop is checked. -/
def inLoop (s : Session) (n : Narrowings) : Session :=
  ((s.enterBreakable .loop).1.pushNarrowings n).1.enterScope.1

/-- A narrowing in force gives the symbol this type. -/
def Refines (s : Session) (name : String) (id : SymbolId) (type : Ty) : Prop :=
  ∃ f ∈ s.narrowing.live, f.lookup? name (some id) = some type

/-- Wherever the name is read now, its type is noted and has the property. -/
def ReadsAs (s : Session) (name : String) (P : Session → Ty → Prop) : Prop :=
  ∀ (limit : Nat) (m : Mark) (h : Hint), ∃ type,
    Walk.expr (Walk.demand limit) (.ident m name) h s = (.ok type, s.record m.id type) ∧
      P (s.record m.id type) type

/-- What is known before a loop of a variable that its condition does not test. -/
lemma narrowed?_inLoop (hs : s.Proper) {n : Narrowings} {name : String} (hn : n.Spares name) :
    (s.inLoop n).narrowed? name = s.narrowed? name := by
  have hbinder : (s.inLoop n).binder = s.binder := by
    funext key
    simp only [binder, inLoop, enterScope, pushNarrowings, enterBreakable, Scopes.lookup?_enter]
  rw [narrowed?, hbinder]
  exact s.narrowing.lookup?_push hn s.binder s.binder hs.live

lemma within_loopBody (s : Session) {n : Narrowings} (hn : may n) (body : Check Unit) :
    body.Within may (s.inLoop n) (Rule.loopBody n body) s :=
  .inside (.breakable .loop) rfl (.narrowed n hn (.inside .scope rfl .here))

/-- A variable before a loop: the narrowings in force are all there is to know. -/
lemma Proper.bounded (hs : s.Proper) {name : String} {x : Symbol}
    (hx : s.scopes.lookup? name = some x) (hvalue : x.kind.isType = false)
    (hkind : x.kind ≠ .function) : s.Bounded (s.Refines name x.id) name x.id where
  proper := hs
  old := by
    obtain ⟨i, hmem⟩ := Scopes.has_of_lookup? hx
    exact hs.orderly.numbered i _ (Scopes.mem_headings hmem)
  value y hy hid := by
    obtain ⟨i, hxmem⟩ := Scopes.has_of_lookup? hx
    obtain ⟨j, hymem⟩ := hy
    have hheading := hs.orderly.unique j i _ (Scopes.mem_headings hymem) _
      (Scopes.mem_headings hxmem) hid
    have hsame : y.kind = x.kind := congrArg Heading.kind hheading
    rw [hsame]
    exact ⟨hvalue, hkind⟩
  frames i hi type htype := .inl ⟨_, List.mem_map_of_mem hi, htype⟩

/-- What is entered is left again, and the result is that of the check inside. -/
lemma fst_during {α : Type} {enter : Session → Session × Undo} (he : Entry enter) {c : Check α}
    (hc : c.Keeps Kept.contract) (s : Session) :
    (Check.during enter c s).1 = (c (enter s).1).1 := by
  obtain ⟨u, hu, -⟩ := Kept.leave he (hc (enter s).1 trivial).1
  rw [Check.run_during hu]

lemma fst_loopBody {body : Check Unit} (hbody : body.Keeps Kept.contract) (n : Narrowings)
    (s : Session) : (Rule.loopBody n body s).1 = (body (s.inLoop n)).1 := by
  have laws := Kept.stepLaws
  have hscope : (Check.during Session.enterScope body).Keeps Kept.contract :=
    laws.during .scope hbody
  have hinner : (Rule.inScope n body).Keeps Kept.contract := laws.narrowed False.elim hscope
  rw [Rule.loopBody, fst_during (.breakable .loop) hinner, Rule.inScope, Rule.narrowed,
    fst_during (.narrowings n) hscope, fst_during .scope hbody]
  rfl

/-- The body of a loop is checked with what is known before the loop of a variable that the
condition does not test. Until the variable is assigned a read in the body may find a type that
it was refined to outside; outside of conditions that test it, there is no other type but those
that it was declared with. After an assignment only these are left, in the rest of the body and
wherever the variable is read later. -/
theorem loop_reads_declared_after_assignment {options : Options} {s : Session} {name : String}
    {x : Symbol} {n : Narrowings} (hs : Onward (fun _ => True) { options } s)
    (hx : s.scopes.lookup? name = some x) (hvalue : x.kind.isType = false)
    (hkind : x.kind ≠ .function) (hn : n.Spares name) :
    (∀ limit b, (Rule.loopBody n (Walk.block (Walk.demand limit) b) s).1 =
      (Walk.block (Walk.demand limit) b (s.inLoop n)).1) ∧
    (s.inLoop n).narrowed? name = s.narrowed? name ∧
    (∀ t, (s.inLoop n).Onward (·.Spares name) t → t.binder name = some x.id →
      t.ReadsAs name fun u type => s.Refines name x.id type ∨ u.Declared x.id type) ∧
    (∀ limit b m h t,
      (Walk.expr (Walk.demand limit) (.ident m name) h).Within (·.Spares name) t
        (Walk.block (Walk.demand limit) b) (s.inLoop n) → t.binder name = some x.id →
      ∃ f ∈ (Rule.loopBody n (Walk.block (Walk.demand limit) b) s).2.types, f.id = m.id ∧
        (s.Refines name x.id f.type ∨
          (Rule.loopBody n (Walk.block (Walk.demand limit) b) s).2.Declared x.id f.type)) ∧
    (∀ t, (s.inLoop n).Onward (·.Spares name) t → t.binder name = some x.id →
      ∀ limit m lhs op y h type u, lhs.name? = some name →
      Walk.expr (Walk.demand limit) (.assign m lhs op y) h t = (.ok type, u) →
      u.binder name = some x.id →
      ∀ v, u.Onward (·.Spares name) v → v.binder name = some x.id →
      v.ReadsAs name fun w type => w.Declared x.id type) := by
  have hproper := hs.proper (proper_start options)
  have hbody := (hproper.bounded hx hvalue hkind).onward (s.within_loopBody hn (pure ())).onward
  refine ⟨fun limit b => ?_, narrowed?_inLoop hproper hn, fun t ht hname => ?_,
    fun limit b m h t hread hname => ?_,
    fun t ht hname limit m lhs op y h type u hlhs hrun hu v hv hname' => ?_⟩
  · exact fst_loopBody (Kept.stepLaws.walkBlock (Kept.stepLaws.demand limit) b) n s
  · exact (hbody.onward ht).read hname
  · obtain ⟨type, hrun, htype⟩ := (hbody.onward hread.onward).read hname limit m h
    have hgrows := (hread.trans (s.within_loopBody hn _)).grows
    rw [hrun] at hgrows
    exact ⟨⟨m.id, type, t.scopes⟩, hgrows.types _ List.mem_cons_self, rfl,
      htype.imp_right fun hdeclared => hdeclared.mono hgrows.types⟩
  · have hassigned := (hbody.onward ht).assigned hlhs hrun hname hu
    intro limit m h
    obtain ⟨type, hread, hknown | hdeclared⟩ := (hassigned.onward hv).read hname' limit m h
    · exact hknown.elim
    · exact ⟨type, hread, hdeclared⟩

/-- After `let x: int? = 1` the variable is known to be an integer. -/
def refinedVariable : Session :=
  ((Walk.node (Walk.demand 1) (.varDecl {} ⟨"x", {}⟩ (.nullable {} (.named {} "int" []))
    (some (.literal ⟨1, {}⟩ .int "1")) false) {}).2.pushNarrowings [("x", .int)]).1

/-- In the body of a loop it is assigned by `x = null`. -/
def assignedInLoop : Session :=
  (Walk.expr (Walk.demand 1) (.assign ⟨2, {}⟩ (.ident ⟨3, {}⟩ "x") .assign
    (.literal ⟨4, {}⟩ .null "null")) none (refinedVariable.inLoop [])).2

/-- The body `x; x = null;`. -/
def readingBody : Block :=
  ⟨[.exprStmt {} (.ident ⟨5, {}⟩ "x"), .exprStmt {} (.assign ⟨2, {}⟩ (.ident ⟨3, {}⟩ "x") .assign
    (.literal ⟨4, {}⟩ .null "null"))], {}⟩

def afterLoop : Session :=
  (Rule.loopBody [] (Walk.block (Walk.demand 1) readingBody) refinedVariable).2

/-- The loop begins with the integer, and a type is noted for the read before the assignment. After
it reads find the declared type. -/
theorem refined_variable_declared_after_assignment :
    (refinedVariable.inLoop []).narrowed? "x" = some .int ∧
      (∃ f ∈ afterLoop.types, f.id = 5 ∧
        (refinedVariable.Refines "x" 0 f.type ∨ afterLoop.Declared 0 f.type)) ∧
      assignedInLoop.ReadsAs "x" fun u type => u.Declared 0 type := by
  have hfacts : (refinedVariable.scopes.lookup? "x").map (fun x => (x.id, x.kind)) =
      some (0, .var) := by decide +kernel
  obtain ⟨⟨id, _, kind, _, _, _⟩, hx, hsymbol⟩ := Option.map_eq_some_iff.1 hfacts
  cases hsymbol
  have hstart : Onward (fun _ => True) { options := {} } refinedVariable :=
    .narrowed _ (.runs .here (.node 1 _ _)) trivial
  obtain ⟨-, hnarrowed, -, hread, hafter⟩ := loop_reads_declared_after_assignment hstart hx rfl
    (fun h => nomatch h) (n := []) (fun _ h => nomatch h)
  have hfirst : (Walk.node (Walk.demand 1) (.exprStmt {} (.ident ⟨5, {}⟩ "x"))).Within
      (·.Spares "x") (refinedVariable.inLoop []) (Walk.block (Walk.demand 1) readingBody)
      (refinedVariable.inLoop []) := Walk.within_block [] rfl rfl
  refine ⟨hnarrowed, hread 1 readingBody ⟨5, {}⟩ none _ (.trans (.mapped .here) hfirst) rfl, ?_⟩
  exact hafter _ .here rfl 1 ⟨2, {}⟩ (.ident ⟨3, {}⟩ "x") .assign
    (.literal ⟨4, {}⟩ .null "null") none (.nullable .int) assignedInLoop rfl (Prod.ext rfl rfl)
    rfl assignedInLoop .here rfl

end Session

/-- The program `let x: int? = 1; if (x != null) { while (true) { x; x = null; } }`. -/
def assigningLoop : Program :=
  ⟨"m.te", [.varDecl {} ⟨"x", {}⟩ (.nullable {} (.named {} "int" []))
      (some (.literal ⟨1, {}⟩ .int "1")) false,
    .ifStmt {} (.binary ⟨2, {}⟩ (.ident ⟨3, {}⟩ "x") .notEq (.literal ⟨4, {}⟩ .null "null"))
      ⟨[.whileLoop {} (.literal ⟨5, {}⟩ .bool "true")
        ⟨[.exprStmt {} (.ident ⟨6, {}⟩ "x"),
          .exprStmt {} (.assign ⟨7, {}⟩ (.ident ⟨8, {}⟩ "x") .assign
            (.literal ⟨9, {}⟩ .null "null"))], {}⟩], {}⟩ .empty]⟩

/-- The read at the start of the body finds the type that the variable was refined to outside,
while the declared type is noted for the target of the assignment. -/
theorem loop_read_refined_outside :
    (Analysis.run (some assigningLoop) {}).map (fun s => (s.errorCount,
      (s.recorded? 6).map Ty.text, (s.recorded? 8).map Ty.text)) =
      .ok (0, some "Int", some "Int?") := by
  decide +kernel

end TypedScript
