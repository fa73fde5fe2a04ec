import TypedScript.Proofs.Registration

/-!
# What classes at module level are founded on

A class holds a snapshot of its superclass, taken when it was registered. Classes are
filled in later on, and then the superclass differs from its snapshot. What stays the same
is its heritage, and which members it has and offers: only the types of members are found
out after registration.

So the snapshots behind a class at module level are like the classes that go by their names,
throughout an analysis. As long as declarations are all that is read they are the same.
-/
namespace TypedScript

/-! ## Classes that differ in types only -/

namespace Class

/-- Whether the class has a property and a method of this name, and offers them. -/
def offering (c : Class) (name : String) : Option Bool × Option Bool :=
  ((c.property? name).map Member.isOffered, (c.method? name).map Member.isOffered)

/-- The classes have the same heritage and offer the same members, of whatever types. -/
structure Alike (c d : Class) : Prop where
  heritage : c.heritage = d.heritage
  offering : c.offering = d.offering

namespace Alike

variable {c d e : Class}

lemma refl (c : Class) : c.Alike c := ⟨rfl, rfl⟩

lemma symm (h : c.Alike d) : d.Alike c := ⟨h.heritage.symm, h.offering.symm⟩

lemma trans (h : c.Alike d) (k : d.Alike e) : c.Alike e :=
  ⟨h.heritage.trans k.heritage, h.offering.trans k.offering⟩

end Alike

lemma name_of_property? {c : Class} {name : String} {m : Member} (h : c.property? name = some m) :
    m.name = name := by
  simpa using List.find?_some h

lemma name_of_method? {c : Class} {name : String} {m : Member} (h : c.method? name = some m) :
    m.name = name := by
  simpa using List.find?_some h

lemma isOffered_ownedBy (m : Member) (className : String) :
    (m.ownedBy className).isOffered = m.isOffered := by
  unfold Member.ownedBy
  split <;> rfl

/-- A property may get another type. -/
lemma alike_withProperty {c : Class} {name : String} {m : Member} (h : c.property? name = some m)
    (t : Ty) : (c.withProperty { m with type := t }).Alike c := by
  refine ⟨rfl, funext fun n => ?_⟩
  have hmethod : (c.withProperty { m with type := t }).method? n = c.method? n := rfl
  unfold offering
  rw [hmethod]
  by_cases hn : n = m.name
  · have hadded := c.property?_withProperty_self { m with type := t }
    rw [hn, hadded, name_of_property? h, h]
    simp only [Option.map_some, isOffered_ownedBy]
    rfl
  · rw [c.property?_withProperty_of_ne { m with type := t } hn]

/-- A method may get another type, if there is one that is offered to the same. -/
lemma alike_withMethod {c : Class} {m : Member}
    (h : (c.method? m.name).map Member.isOffered = some m.isOffered) (t : Ty) :
    (c.withMethod { m with type := t }).Alike c := by
  refine ⟨rfl, funext fun n => ?_⟩
  have hproperty : (c.withMethod { m with type := t }).property? n = c.property? n := rfl
  unfold offering
  rw [hproperty]
  by_cases hn : n = m.name
  · have hadded := c.method?_withMethod_self { m with type := t }
    rw [hn, hadded, h]
    simp only [Option.map_some, isOffered_ownedBy]
    rfl
  · rw [c.method?_withMethod_of_ne { m with type := t } hn]

/-- A way of comparing classes that goes by their heritage at least. -/
structure Likeness (like : Class → Class → Prop) : Prop where
  refl (c : Class) : like c c
  trans {c d e : Class} : like c d → like d e → like c e
  heritage {c d : Class} : like c d → c.heritage = d.heritage

lemma likeness_eq : Likeness (· = ·) := ⟨fun _ => rfl, Eq.trans, fun h => h ▸ rfl⟩

lemma likeness_alike : Likeness Alike := ⟨.refl, .trans, Alike.heritage⟩

end Class

/-! ## A scope of classes -/

namespace Scope

variable {like : Class → Class → Prop} {g h k : Scope} {name n : String} {x y : Symbol}
  {c p : Class} {t : Ty}

/-- The class of this name. -/
def class? (g : Scope) (name : String) : Option Class :=
  match g.named? name with
  | some x => if x.kind = .cls then x.type.bind Ty.class? else none
  | none => none

lemma class?_eq_some : g.class? name = some c ↔
    ∃ x, g.named? name = some x ∧ x.kind = .cls ∧ x.type = some (.cls c) := by
  unfold class?
  cases hx : g.named? name with
  | none => simp
  | some x =>
    by_cases hkind : x.kind = .cls
    · simp [hkind, Ty.bind_class?_eq_some]
    · simp [hkind]

/-- The class of a name is the one that its symbol is declared for. -/
lemma eq_of_class? (hx : g.named? name = some x) (htype : x.type = some (.cls p))
    (hc : g.class? name = some c) : p = c := by
  obtain ⟨y, hy, -, hytype⟩ := class?_eq_some.1 hc
  obtain rfl := Option.some.inj (hx.symm.trans hy)
  simpa [htype] using hytype

/-- Each name is declared once, each class under its own name, and its superclass is like the
class that goes by that name. -/
structure Founded (like : Class → Class → Prop) (g : Scope) : Prop where
  nodup : (g.map Symbol.name).Nodup
  named : ∀ {name : String} {c : Class}, g.class? name = some c → c.name = name
  parent : ∀ {name : String} {c p : Class}, g.class? name = some c → c.parent = some p →
    ∃ q, g.class? p.name = some q ∧ like q p

/-- Every class of `g` goes on in `h`, like it was. -/
def Lasts (like : Class → Class → Prop) (g h : Scope) : Prop :=
  ∀ name c, g.class? name = some c → ∃ d, h.class? name = some d ∧ like d c

lemma Founded.named?_of_mem (hg : g.Founded like) (hx : x ∈ g) : g.named? x.name = some x := by
  cases hfound : g.named? x.name with
  | none => exact absurd (List.find?_eq_none.1 hfound x hx) (by simp)
  | some y =>
    obtain ⟨hy, hname⟩ := mem_of_named? hfound
    exact congrArg some (List.inj_on_of_nodup_map hg.nodup hy hx hname)

lemma Lasts.refl (hl : Class.Likeness like) (g : Scope) : g.Lasts like g :=
  fun _ c hc => ⟨c, hc, hl.refl c⟩

lemma Lasts.trans (hl : Class.Likeness like) (hgh : g.Lasts like h) (hhk : h.Lasts like k) :
    g.Lasts like k := by
  intro name c hc
  obtain ⟨d, hd, hdc⟩ := hgh name c hc
  obtain ⟨e, he, hed⟩ := hhk name d hd
  exact ⟨e, he, hl.trans hed hdc⟩

/-- Where classes go on, so do superclasses. -/
lemma Founded.parent_of_lasts (hl : Class.Likeness like) (hg : g.Founded like)
    (hgh : g.Lasts like h) (hc : g.class? name = some c) (hp : c.parent = some p) :
    ∃ q, h.class? p.name = some q ∧ like q p := by
  obtain ⟨q, hq, hqp⟩ := hg.parent hc hp
  obtain ⟨q', hq', hqq⟩ := hgh _ q hq
  exact ⟨q', hq', hl.trans hqq hqp⟩

/-! ### Declaring a symbol -/

lemma lasts_append (hl : Class.Likeness like) (hfree : g.named? x.name = none) :
    g.Lasts like (g ++ [x]) := by
  intro name c hc
  obtain ⟨y, hy, hkind, htype⟩ := class?_eq_some.1 hc
  have hne : name ≠ x.name := by
    rintro rfl
    simp [hfree] at hy
  refine ⟨c, class?_eq_some.2 ⟨y, ?_, hkind, htype⟩, hl.refl c⟩
  rw [named?_append hfree, if_neg hne, hy]

/-- A class may be declared whose superclass is there. -/
lemma Founded.append (hl : Class.Likeness like) (hg : g.Founded like)
    (hfree : g.named? x.name = none)
    (hx : x.kind = .cls → ∀ c, x.type = some (.cls c) → c.name = x.name ∧
      ∀ p, c.parent = some p → ∃ y ∈ g, y.kind = .cls ∧ y.type = some (.cls p)) :
    (g ++ [x]).Founded like := by
  have hclass {name : String} {c : Class} (hc : (g ++ [x]).class? name = some c) :
      g.class? name = some c ∨ name = x.name ∧ x.kind = .cls ∧ x.type = some (.cls c) := by
    obtain ⟨y, hy, hkind, htype⟩ := class?_eq_some.1 hc
    rw [named?_append hfree] at hy
    split at hy
    · rename_i hn
      obtain rfl := Option.some.inj hy
      exact .inr ⟨hn, hkind, htype⟩
    · exact .inl (class?_eq_some.2 ⟨y, hy, hkind, htype⟩)
  have hlasts := lasts_append hl hfree
  refine ⟨?_, fun {name c} hc => ?_, fun {name c p} hc hp => ?_⟩
  · rw [List.map_append]
    refine List.nodup_append.2 ⟨hg.nodup, List.nodup_singleton _, fun n hn m hm => ?_⟩
    obtain ⟨y, hy, rfl⟩ := List.mem_map.1 hn
    obtain rfl : m = x.name := by simpa using hm
    have hne := List.find?_eq_none.1 hfree y hy
    simpa using hne
  · obtain hc | ⟨rfl, hkind, htype⟩ := hclass hc
    · exact hg.named hc
    · exact (hx hkind c htype).1
  · obtain hc | ⟨rfl, hkind, htype⟩ := hclass hc
    · exact hg.parent_of_lasts hl hlasts hc hp
    · obtain ⟨y, hy, hykind, hytype⟩ := (hx hkind c htype).2 p hp
      have hq : g.class? y.name = some p :=
        class?_eq_some.2 ⟨y, hg.named?_of_mem hy, hykind, hytype⟩
      exact hlasts _ p (hg.named hq ▸ hq)

/-! ### Changing the type of a symbol -/

lemma named?_retype : (g.retype name t).named? n =
    (g.named? n).map fun x => if n = name then { x with type := some t } else x := by
  induction g with
  | nil => rfl
  | cons x g ih =>
    unfold named? retype at ih ⊢
    by_cases hx : x.name = n
    · by_cases hn : n = name
      · simp [hx, hn]
      · have hname : x.name ≠ name := fun e => hn (hx ▸ e)
        simp [hx, hn]
    · have hx' : ((if x.name = name then { x with type := some t } else x).name == n) = false := by
        split <;> simpa using hx
      simpa [List.find?_cons, hx, hx'] using ih

lemma map_name_retype (g : Scope) (name : String) (t : Ty) :
    (g.retype name t).map Symbol.name = g.map Symbol.name := by
  rw [retype, List.map_map]
  refine List.map_congr_left fun x _ => ?_
  simp only [Function.comp_apply]
  split <;> rfl

/-- A class may get another type that is like it. -/
lemma lasts_retype (hl : Class.Likeness like) (hy : g.named? name = some y)
    (hbefore : y.kind = .cls → ∀ c, y.type = some (.cls c) → ∃ d, t = .cls d ∧ like d c) :
    g.Lasts like (g.retype name t) := by
  intro n c hc
  obtain ⟨x, hx, hkind, htype⟩ := class?_eq_some.1 hc
  by_cases hn : n = name
  · subst hn
    obtain rfl := Option.some.inj (hx.symm.trans hy)
    obtain ⟨d, rfl, hd⟩ := hbefore hkind c htype
    refine ⟨d, class?_eq_some.2 ⟨{ x with type := some (.cls d) }, ?_, hkind, rfl⟩, hd⟩
    simp [named?_retype, hx]
  · refine ⟨c, class?_eq_some.2 ⟨x, ?_, hkind, htype⟩, hl.refl c⟩
    simp [named?_retype, hx, hn]

/-- A class after the change comes from one before it that it is like. -/
lemma exists_class?_of_retype (hl : Class.Likeness like) (hy : g.named? name = some y)
    (hbefore : y.kind = .cls → ∀ c, y.type = some (.cls c) → ∃ d, t = .cls d ∧ like d c)
    (hafter : y.kind = .cls → ∀ d, t = .cls d → ∃ c, y.type = some (.cls c))
    (hc : (g.retype name t).class? n = some c) : ∃ d, g.class? n = some d ∧ like c d := by
  obtain ⟨x', hx', hkind, htype⟩ := class?_eq_some.1 hc
  rw [named?_retype, Option.map_eq_some_iff] at hx'
  obtain ⟨x, hx, rfl⟩ := hx'
  by_cases hn : n = name
  · subst hn
    obtain rfl := Option.some.inj (hx.symm.trans hy)
    simp only [if_true] at hkind htype
    obtain rfl := Option.some.inj htype
    obtain ⟨d, hd⟩ := hafter hkind c rfl
    obtain ⟨c', hc', hlike⟩ := hbefore hkind d hd
    obtain rfl := Ty.cls.inj hc'
    exact ⟨d, class?_eq_some.2 ⟨x, hx, hkind, hd⟩, hlike⟩
  · simp only [hn, if_false] at hkind htype
    exact ⟨c, class?_eq_some.2 ⟨x, hx, hkind, htype⟩, hl.refl c⟩

/-- What happens to the class of a scope when the type of a symbol is changed. -/
lemma retype_founded (hl : Class.Likeness like) (hg : g.Founded like)
    (hy : g.named? name = some y) (hbefore : y.kind = .cls → ∀ c, y.type = some (.cls c) →
      ∃ d, t = .cls d ∧ like d c)
    (hafter : y.kind = .cls → ∀ d, t = .cls d → ∃ c, y.type = some (.cls c)) :
    (g.retype name t).Founded like ∧ g.Lasts like (g.retype name t) := by
  have hlasts := lasts_retype hl hy hbefore
  refine ⟨⟨?_, fun {n d} hd => ?_, fun {n d p} hd hp => ?_⟩, hlasts⟩
  · exact (map_name_retype g name t).symm ▸ hg.nodup
  · obtain ⟨c, hc, hdc⟩ := exists_class?_of_retype hl hy hbefore hafter hd
    exact (congrArg Heritage.name (hl.heritage hdc)).trans (hg.named hc)
  · obtain ⟨c, hc, hdc⟩ := exists_class?_of_retype hl hy hbefore hafter hd
    have hcp : c.parent = some p := (congrArg Heritage.parent (hl.heritage hdc)).symm.trans hp
    exact hg.parent_of_lasts hl hlasts hc hcp

end Scope

/-! ## Module level -/

namespace Scopes

variable {s scopes : Scopes} {name : String} {t : Ty} {x : Symbol}

lemma global_define {kind : SymbolKind} {type : Option Ty} {isConst : Bool} {origin : Origin}
    (h : s.define name kind type isConst origin = .ok (x, scopes)) :
    x = ⟨s.nextId, name, kind, type, isConst, origin⟩ ∧
      (scopes.global = s.global ∨
        s.locals = [] ∧ s.global.named? name = none ∧ scopes.global = s.global ++ [x]) := by
  obtain ⟨hx, hfree, rfl⟩ := define_eq_ok h
  refine ⟨hx, ?_⟩
  cases hl : s.locals with
  | nil =>
    rw [hl] at hfree
    refine .inr ⟨rfl, List.find?_eq_none.2 fun y hy => ?_, rfl⟩
    simpa using hfree y hy
  | cons i ls => exact .inl rfl

/-- A name that no local scope has means what it means in the global one. -/
lemma lookup?_of_global (hlocals : ∀ i ∈ s.locals, (s.scope i).named? name = none) :
    s.lookup? name = s.global.named? name := by
  have hnone : s.locals.findSome? (fun i => (s.scope i).named? name) = none :=
    List.findSome?_eq_none_iff.2 hlocals
  simp [lookup?, chain, List.findSome?_append, List.findSome?_map, Function.comp_def, hnone]

/-- The type of a symbol of the global scope is changed where no local scope has its name. -/
lemma global_updateSymbol {id : SymbolId} (h : s.updateSymbol id name t = .ok scopes) :
    scopes.global = s.global ∨ (∀ i ∈ s.locals, (s.scope i).named? name = none) ∧
      ∃ y, s.global.named? name = some y ∧ y.id = id ∧
        scopes.global = s.global.retype name t := by
  obtain ⟨x, i, hx, hid, -, -, -⟩ := exists_slot_of_updateSymbol h
  have hupdate : s.update name t = .ok scopes := by
    unfold updateSymbol at h
    rw [hx] at h
    dsimp only at h
    rwa [if_pos hid] at h
  unfold update at hupdate
  split at hupdate
  · exact .inl (Except.ok.inj hupdate ▸ rfl)
  · rename_i hlocals
    have hlocals : ∀ i ∈ s.locals, (s.scope i).named? name = none := by
      intro i hi
      simpa using List.find?_eq_none.1 hlocals i hi
    split at hupdate
    · rename_i y hy
      have hlookup : s.lookup? name = some y := (lookup?_of_global hlocals).trans hy
      obtain rfl := Option.some.inj (hx.symm.trans hlookup)
      exact .inr ⟨hlocals, x, hy, hid, Except.ok.inj hupdate ▸ rfl⟩
    · cases hupdate

end Scopes

namespace Session

variable {like : Class → Class → Prop} {s t u : Session} {enter : Session → Session × Undo}

lemma global_left (he : Entry enter) (hu : (enter s).2.run t = .ok u) :
    u.scopes.global = t.scopes.global := by
  cases he with
  | scope =>
    simp only [enterScope, Undo.run, exitScope, Scopes.exit] at hu
    split at hu
    · cases hu
    · cases hu
      rfl
  | narrowings n =>
    simp only [pushNarrowings, Undo.run, NarrowingStack.popAt, NarrowingStack.pop] at hu
    split at hu
    · split at hu
      · cases hu
      · cases hu
        rfl
    · cases hu
  | function f =>
    cases hu
    rfl
  | cls name =>
    cases hu
    rfl
  | breakable b =>
    simp only [enterBreakable, Undo.run, leaveBreakable] at hu
    split at hu
    · cases hu
    · cases hu
      rfl
  | detach =>
    cases hu
    rfl

/-- The classes at module level stay founded, and go on. -/
def founding (like : Class → Class → Prop) : Contract where
  Holds s := s.scopes.outline.Orderly ∧ s.scopes.global.Founded like
  Rel s t := Leads.contract.Rel s t ∧ t.scopes.global.Founded like ∧
    s.scopes.global.Lasts like t.scopes.global
  Knows := Leads.contract.Knows

namespace founding

lemma opens (he : (founding like).Opens enter) : Leads.contract.Opens enter := he.entry.opens id

lemma of_global_eq (hl : Class.Likeness like) (hs : (founding like).Holds s)
    (h : Leads.contract.Rel s t) (hg : t.scopes.global = s.scopes.global) :
    (founding like).Rel s t :=
  ⟨h, hg ▸ hs.2, hg ▸ .refl hl _⟩

/-- A symbol is added to the global scope, for a class whose superclass is there. -/
lemma of_append (hl : Class.Likeness like) (hs : (founding like).Holds s)
    (h : Leads.contract.Rel s t) {x : Symbol} (hfree : s.scopes.global.named? x.name = none)
    (hx : x.kind = .cls → ∀ c, x.type = some (.cls c) → c.name = x.name ∧
      ∀ p, c.parent = some p → ∃ y ∈ s.scopes.global, y.kind = .cls ∧ y.type = some (.cls p))
    (hg : t.scopes.global = s.scopes.global ++ [x]) : (founding like).Rel s t :=
  ⟨h, hg ▸ hs.2.append hl hfree hx, hg ▸ Scope.lasts_append hl hfree⟩

lemma basicLaws (hl : Class.Likeness like) : BasicLaws (founding like) where
  refl hs := of_global_eq hl hs (Leads.symbolLaws.refl hs.1) rfl
  trans h k := ⟨Leads.symbolLaws.trans h.1 k.1, k.2.1, h.2.2.trans hl k.2.2⟩
  canonical _ := False.elim
  report d hs := of_global_eq hl hs (Leads.symbolLaws.report d hs.1) rfl
  trace style line hs := of_global_eq hl hs (Leads.symbolLaws.trace style line hs.1) rfl
  record id t hs ht := of_global_eq hl hs (Leads.symbolLaws.record id t hs.1 ht) rfl
  define hs hd ht h := by
    have hleads := Leads.symbolLaws.define hs.1 hd ht h
    obtain ⟨rfl, hsame | ⟨hlocals, hfree, happended⟩⟩ := Scopes.global_define h
    · exact of_global_eq hl hs hleads hsame
    · refine of_append hl hs hleads hfree (fun hkind c hc => ?_) happended
      obtain ⟨hname, hparent⟩ := hd hkind c hc
      refine ⟨hname, fun p hp => ?_⟩
      obtain ⟨y, hy, hyclass⟩ := hparent p hp
      refine ⟨y, ?_, hyclass⟩
      simpa [Scopes.chain, hlocals] using hy
  forget name t hs _ _ := of_global_eq hl hs ⟨.forget name t, .stay rfl⟩ rfl
  markChecked id hs := of_global_eq hl hs (Leads.symbolLaws.markChecked id hs.1) rfl
  inference hs hfree h := ⟨Leads.symbolLaws.inference hs.1 hfree h.1, h.2⟩
  leave {enter s t} he hs h := by
    obtain ⟨u, hu, hrel⟩ := Leads.symbolLaws.leave (opens he) hs.1 h.1
    have hentered : (enter s).1.scopes.global = s.scopes.global := slot_entered he.entry s none
    have hlasts := h.2.2
    rw [hentered] at hlasts
    have hleft := global_left he.entry hu
    exact ⟨u, hu, hrel, hleft ▸ h.2.1, hleft ▸ hlasts⟩
  after hs h := ⟨Leads.symbolLaws.after hs.1 h.1, h.2.1⟩
  entered {enter s} he hs := by
    have hentered : (enter s).1.scopes.global = s.scopes.global := slot_entered he.entry s none
    exact ⟨Leads.symbolLaws.entered (opens he) hs.1, hentered ▸ hs.2⟩
  begun id hs := ⟨Leads.symbolLaws.begun id hs.1, hs.2⟩
  learn hs := Leads.symbolLaws.learn hs.1
  learnDefined hs := Leads.symbolLaws.learnDefined hs.1
  knowsAfter hs h := Leads.symbolLaws.knowsAfter hs.1 h.1
  knowsEntered he hs := Leads.symbolLaws.knowsEntered (opens he) hs.1
  knowsBegun i hs := Leads.symbolLaws.knowsBegun i hs.1

/-- Registering a class, whole or without members, adds one symbol, or none. -/
lemma declareLaws (hl : Class.Likeness like) : DeclareLaws (founding like) where
  toBasicLaws := basicLaws hl
  declareClass d := by
    intro s hs
    obtain ⟨hrel, horderly, -⟩ := Leads.stepLaws.declareClass d s hs.1
    refine ⟨?_, horderly, fun h => False.elim h⟩
    by_cases hadmits : ∃ parent, s.Admits d parent
    · obtain ⟨parent, hparent, hfree⟩ := hadmits
      obtain ⟨hok, herror⟩ := Declare.cls_endsAt hs.1 hparent hfree
      have hadded : ∃ c, c.heritage = ⟨d.name.name, parent⟩ ∧
          (s.scopes.withSymbol (d.symbol s.scopes.nextId c)).SameBut []
            (Declare.cls d s).2.scopes := by
        rcases hrun : Declare.cls d s with ⟨e | a, t⟩
        · obtain ⟨tps, hsame⟩ := herror e t hrun
          exact ⟨d.bare parent tps, rfl, hsame⟩
        · exact hok a t hrun
      obtain ⟨c, hheritage, hsame⟩ := hadded
      have hglobal := hsame.slot none (fun _ h => nomatch h) (List.not_mem_nil)
      rw [Scopes.slot_withSymbol hs.1] at hglobal
      split at hglobal
      · rename_i hhead
        have hlocals : s.scopes.locals = [] := List.head?_eq_none_iff.1 hhead.symm
        refine of_append hl hs hrel ?_ (fun _ c' hc' => ?_) hglobal
        · rwa [Scopes.current, hlocals] at hfree
        · obtain rfl : c = c' := by simpa [ClassDecl.symbol] using hc'
          refine ⟨congrArg Heritage.name hheritage, fun p hp => ?_⟩
          obtain rfl : parent = some p := (congrArg Heritage.parent hheritage).symm.trans hp
          have hgiven := Declare.parent_givesAt d s _ _ (Prod.ext hparent rfl)
          obtain ⟨y, hy, hyclass⟩ := hgiven.2 p rfl
          exact ⟨y, by simpa [Scopes.chain, hlocals] using hy, hyclass⟩
      · exact of_global_eq hl hs hrel hglobal
    · have hsame := Declare.cls_refused (d := d) (s := s) fun parent hparent hfree =>
        hadmits ⟨parent, hparent, hfree⟩
      exact of_global_eq hl hs hrel (hsame.slot none (fun _ h => nomatch h) List.not_mem_nil)

/-! ### Changing the types of classes -/

/-- A symbol of the global scope with an old number was there before. -/
lemma symbol_before (hs : (founding like).Holds s)
    (hrel : (founding like).Rel s u) {name : String} {y : Symbol} {d : Class}
    (hy : u.scopes.global.named? name = some y) (hid : y.id < s.scopes.nextId)
    (hkind : y.kind = .cls) (htype : y.type = some (.cls d)) :
    ∃ z c, s.scopes.global.named? name = some z ∧ z.id = y.id ∧ z.type = some (.cls c) ∧
      like d c := by
  obtain ⟨hmem, hname⟩ := Scope.mem_of_named? hy
  have hgrows := hrel.1.2.grows hs.1
  obtain hold | hnew := hgrows.fresh none _ (Scopes.mem_headings hmem)
  · obtain ⟨z, hz, hheading⟩ := List.mem_map.1 hold
    have hzname : z.name = name := (congrArg Heading.name hheading).trans hname
    have hzkind : z.kind = .cls := (congrArg Heading.kind hheading).trans hkind
    have hnamed : s.scopes.global.named? name = some z := hzname ▸ hs.2.named?_of_mem hz
    have hheritage : z.heritage? = some d.heritage :=
      (congrArg Heading.heritage? hheading).trans (Symbol.heritage?_eq_some.2 ⟨d, htype, rfl⟩)
    obtain ⟨c, hv, -⟩ := Symbol.heritage?_eq_some.1 hheritage
    obtain ⟨d', hd', hlike⟩ := hrel.2.2 name c (Scope.class?_eq_some.2 ⟨z, hnamed, hzkind, hv⟩)
    obtain rfl := Scope.eq_of_class? hy htype hd'
    exact ⟨z, c, hnamed, congrArg Heading.id hheading, hv, hlike⟩
  · exact absurd hid (Nat.not_lt.2 hnew)

/-- A symbol may get another type of its heritage, for a class at module level one that is
like it. -/
lemma retypeAt (hl : Class.Likeness like) (x : Symbol) {t : Ty}
    (hknows : Leads.contract.Knows s x.id t.heritage?)
    (hlike : ∀ y c d, (∀ i ∈ s.scopes.locals, (s.scopes.scope i).named? x.name = none) →
      s.scopes.global.named? x.name = some y → y.id = x.id → y.kind = .cls →
      y.type = some (.cls c) → t = .cls d → like d c) :
    (Check.retype x t).KeepsAt (founding like) s := by
  intro hs
  rw [Check.run_retype]
  split
  · rename_i scopes hupdate
    have hleads := Leads.symbolLaws.update hs.1 hknows False.elim hupdate
    refine ⟨?_, fun _ h => by simp at h, fun _ _ _ => trivial⟩
    obtain hsame | ⟨hlocals, y, hy, hid, hglobal⟩ := Scopes.global_updateSymbol hupdate
    · exact of_global_eq hl hs hleads hsame
    · have hheritage : y.heritage? = t.heritage? := by
        obtain ⟨z, ⟨i, hz⟩, hzid, hzheritage⟩ := hknows
        have hsame := hs.1.unique none i _ (Scopes.mem_headings (Scope.mem_of_named? hy).1) _
          (Scopes.mem_headings hz) (hid.trans hzid.symm)
        exact (congrArg Heading.heritage? hsame).trans hzheritage
      have hretyped := Scope.retype_founded (t := t) hl hs.2 hy (fun hkind c hc => ?_)
        fun hkind d hd => ?_
      · exact ⟨hleads, hglobal ▸ hretyped.1, hglobal ▸ hretyped.2⟩
      · have ht := hheritage.symm.trans (Symbol.heritage?_eq_some.2 ⟨c, hc, rfl⟩)
        obtain ⟨d, rfl, -⟩ := Ty.heritage?_eq_some.1 ht
        exact ⟨d, rfl, hlike y c d hlocals hy hid hkind hc rfl⟩
      · have hy := hheritage.trans (Ty.heritage?_eq_some.2 ⟨d, hd, rfl⟩)
        obtain ⟨c, hc, -⟩ := Symbol.heritage?_eq_some.1 hy
        exact ⟨c, hc⟩
  · refine ⟨(basicLaws hl).refl hs, fun _ h => ?_, fun _ _ _ => trivial⟩
    cases h
    trivial

/-- A class that is not at module level may change its type freely, and one at module level is
the class that was read before the initial value was checked, or like it. -/
lemma fieldValueAt {x : Symbol} {c : Class}
    (hknows : Leads.contract.Knows s x.id (some c.heritage))
    (hcurrent : ∀ y d, s.scopes.global.named? x.name = some y → y.id = x.id →
      y.type = some (.cls d) → d = c)
    {name : String} {m : Member} (hm : c.property? name = some m) (f : FieldDecl) {value : Part}
    (hv : value.Keeps (founding Class.Alike)) :
    (Rule.fieldValue x c m f value).KeepsAt (founding Class.Alike) s := by
  have laws := basicLaws Class.likeness_alike
  have hvalue (expected : Hint) := hv expected False.elim (s.enterFunction
    { name := f.name.name, declared := some .void, isStatic := f.isStatic }).1
  unfold Rule.fieldValue
  split
  · refine laws.bindOk (laws.pure none s) fun expected t hrun _ => ?_
    cases hrun
    refine laws.duringAt (.function _ False.elim) fun hs => ?_
    refine laws.bindOk (hvalue none) (fun t u hrun _ => ?_) hs
    have hrel := (hvalue none).rel hs hrun
    refine laws.bindAt (retypeAt Class.likeness_alike x ?_ fun y d e _ hy hid hkind hd he => ?_)
      fun _ _ => laws.traceLine _ _
    · exact laws.knowsAfter hs hrel hknows
    · have hold : y.id < s.scopes.nextId := by
        obtain ⟨z, ⟨i, hz⟩, hzid, -⟩ := hknows
        rw [hid, ← hzid]
        exact hs.1.numbered i _ (Scopes.mem_headings hz)
      obtain ⟨z, c', hz, hzid, hztype, hlike⟩ := symbol_before hs hrel hy hold hkind hd
      obtain rfl := hcurrent z c' hz (hzid.trans hid) hztype
      obtain rfl := Ty.cls.inj he
      exact (Class.alike_withProperty hm t).trans hlike.symm
  · have hderef : (some <$> Check.deref m.type).Keeps (founding Class.Alike) :=
      laws.map (laws.deref m.type)
    refine laws.bindOk (hderef s) fun expected t hrun _ => ?_
    cases hrun
    refine laws.duringAt (.function _ False.elim) fun hs => ?_
    exact laws.bindOk (hvalue _) (fun _ u _ _ => laws.assignable _ _ _ _ u) hs

/-- A symbol of the global scope is the one that has its number. -/
lemma symbol?_of_global (hs : (founding like).Holds s) {name : String} {y : Symbol}
    (hy : s.scopes.global.named? name = some y) : s.scopes.symbol? y.id = some y := by
  obtain ⟨hmem, -⟩ := Scope.mem_of_named? hy
  -- The global scope is searched first, and no two of its symbols have one number.
  cases hfind : List.find? (fun z => z.id == y.id) s.scopes.global with
  | none => exact absurd (List.find?_eq_none.1 hfind y hmem) (by simp)
  | some z =>
    have hzid : z.id = y.id := by simpa using List.find?_some hfind
    have hzmem := List.mem_of_find?_eq_some hfind
    have hheading := hs.1.unique none none _ (Scopes.mem_headings hzmem) _
      (Scopes.mem_headings hmem) hzid
    have hzy : z = y := List.inj_on_of_nodup_map hs.2.nodup hzmem hmem
      (congrArg Heading.name hheading)
    simp [Scopes.symbol?, hfind, hzy]

lemma field {x : Symbol} (f : FieldDecl) (value : Option Part)
    (hv : ∀ v, value = some v → v.Keeps (founding Class.Alike)) :
    (Rule.field x f value).Keeps ((founding Class.Alike).given x.id x.heritage?) := by
  have laws := basicLaws Class.likeness_alike
  have known := laws.given x.id x.heritage?
  intro s hs
  refine known.bindOk (known.currentType? False.elim s) (fun t? t hrun _ => ?_) hs
  have hcurrent : t = s ∧ Leads.contract.Knows s x.id (t?.bind Ty.heritage?) ∧
      ∀ y, s.scopes.global.named? x.name = some y → y.id = x.id → y.type = t? := by
    cases hrun
    refine ⟨rfl, ?_, fun y hy hid => ?_⟩
    · split
      · rename_i y hy
        obtain ⟨hhas, hid⟩ := Scopes.has_of_symbol? hy
        exact hid ▸ laws.learn hs.1 hhas
      · exact hs.2
    · rw [← hid, symbol?_of_global hs.1 hy]
  obtain ⟨rfl, hknows, hglobal⟩ := hcurrent
  split
  · rename_i v c hclass
    obtain rfl := Ty.bind_class?_eq_some.1 hclass
    split
    · rename_i m hm
      refine fun ht => fieldValueAt hknows (fun y d hy hid hd => ?_) hm f (hv v rfl) ht.1
      simpa using hd.symm.trans (hglobal y hy hid)
    · exact known.pure _ _
  · exact known.pure _ _

/-- Where a name means a class at module level, it has meant that class before, at the same
place. -/
lemma class_before (hs : (founding like).Holds s) (hrel : (founding like).Rel s u) {name : String}
    {c : Class} (hc : s.scopes.classNamed? name = some c)
    (hlocals : ∀ i ∈ u.scopes.locals, (u.scopes.scope i).named? name = none) :
    s.scopes.global.class? name = some c := by
  obtain ⟨x, hlookup, hkind, htype⟩ := Scopes.classNamed?_eq_some hc
  have hgrows := hrel.1.2.grows hs.1
  have hnone : ∀ i ∈ s.scopes.locals, (s.scopes.scope i).named? name = none := by
    intro i hi
    cases hnamed : (s.scopes.scope i).named? name with
    | none => rfl
    | some z =>
      obtain ⟨hz, hzname⟩ := Scope.mem_of_named? hnamed
      obtain ⟨z', hz', hheading⟩ := List.mem_map.1
        (hgrows.kept (some i) (Scopes.mem_headings (i := some i) hz))
      have hzname' : z'.name = name := (congrArg Heading.name hheading).trans hzname
      have hlocal : i ∈ u.scopes.locals := hrel.1.1.scopes.locals.symm ▸ hi
      exact absurd (List.find?_eq_none.1 (hlocals i hlocal) z' hz') (by simp [hzname'])
  have hglobal : s.scopes.global.named? name = some x :=
    (Scopes.lookup?_of_global hnone).symm.trans hlookup
  exact Scope.class?_eq_some.2 ⟨x, hglobal, hkind, htype⟩

/-- If the class that a name means by then is at module level, it has the method that was read
before. -/
lemma patchMethodAt (hs : (founding Class.Alike).Holds s)
    (hrel : (founding Class.Alike).Rel s u) {className name : String} {c : Class} {member : Member}
    (hc : s.scopes.classNamed? className = some c) (hmethod : c.method? name = some member)
    (sig : Signature) (result : Ty) :
    (Rule.patchMethod className member sig result).KeepsAt (founding Class.Alike) u := by
  have laws := basicLaws Class.likeness_alike
  refine .lookup ?_
  cases hlookup : u.scopes.lookup? className with
  | none => exact laws.pure _ u
  | some x =>
    obtain ⟨-, hxname⟩ := Scopes.lookup?_mem hlookup
    dsimp only
    split
    · rename_i c' hc'
      intro hu
      refine retypeAt Class.likeness_alike x ?_
        (fun y d e hlocals hy hid hkind hd he => ?_) hu
      · have hknows := laws.learn hu (Scopes.has_of_lookup? hlookup)
        rwa [Symbol.heritage?_eq_some.2 ⟨c', hc', rfl⟩] at hknows
      · rw [hxname] at hlocals hy
        have hbefore := class_before hs hrel hc hlocals
        obtain ⟨d', hd', halike⟩ := hrel.2.2 className c hbefore
        have hxy : x = y := Option.some.inj (hlookup.symm.trans
          ((Scopes.lookup?_of_global hlocals).trans hy))
        obtain rfl : c' = d := by simpa [hxy, hd] using hc'.symm
        obtain rfl := Scope.eq_of_class? hy hd hd'
        obtain rfl := Ty.cls.inj he
        refine Class.alike_withMethod ?_ _
        have hname := Class.name_of_method? hmethod
        have hoffering := congrArg Prod.snd (congrFun halike.offering member.name)
        rw [Class.offering, Class.offering, hname, hmethod] at hoffering
        rwa [hname]
    · exact laws.pure _ u

lemma method (className : String) (m : Callable) {body : BodyCheck}
    (hb : body.Keeps (founding Class.Alike)) :
    (Rule.method className m body).Keeps (founding Class.Alike) := by
  have laws := basicLaws Class.likeness_alike
  intro s hs
  refine laws.bindOk (laws.classNamed? className s) (fun c? t hrun _ => ?_) hs
  cases hrun
  split
  · exact laws.pure _ s
  · rename_i member hmember
    obtain ⟨c, hc, hmethod⟩ := Option.bind_eq_some_iff.1 hmember
    split
    · rename_i sig _
      refine laws.onceAt m.id fun hs => ?_
      have hbody := laws.andThen (laws.functionBody ⟨m.name.name, m.location, sig, m.params,
        m.isAsync, m.isStatic, m.result.isOmitted⟩ hb False.elim) (fun _ => laws.markChecked m.id)
        (s.beginInference m.id)
      refine laws.bindOk hbody (fun result u hrun _ => ?_) hs
      have hrel := hbody.rel hs hrun
      split
      · exact patchMethodAt hs hrel hc hmethod sig result
      · exact laws.pure _ u
    · exact laws.pure _ s

/-- The rules that change types keep the classes at module level like they were. -/
lemma stepLaws : StepLaws (founding Class.Alike) where
  toDeclareLaws := declareLaws Class.likeness_alike
  function f _ hb := (basicLaws Class.likeness_alike).functionRule f hb fun _ x _ _ _ =>
    .inr fun _ _ _ hs =>
      retypeAt Class.likeness_alike x hs.2 (fun _ _ _ _ _ _ _ _ h => nomatch h) hs.1
  field f value _ hv := field f value hv
  method className m _ hb := method className m hb
  addReturn t hs ht := of_global_eq Class.likeness_alike hs (Leads.symbolLaws.addReturn t hs.1 ht) rfl

end founding

end Session

end TypedScript
