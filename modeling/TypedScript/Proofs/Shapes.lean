import TypedScript.Proofs.Assignability
import TypedScript.Proofs.Lineage.Foundations

/-!
# Shapes of classes and access to members

What an instance of a class offers can be told in two ways. Access to a member goes up the
lineage and reads each ancestor anew by its name. Assignability to an interface goes by the
shape of the class, which is made of the snapshots of its superclasses.

The two agree on which members there are. They agree on the types of a class's own members,
but an inherited member has in the shape the type it had after the first pass: that of a
field without annotation, or the result of a method without one, is not known there.
-/
namespace TypedScript

/-! ## Shapes -/

/-- What a member offers to everyone. -/
def Member.toProperty (m : Member) : Property := ⟨m.name, m.type, false⟩

namespace Class

variable {c : Class} {name : String} {m : Member}

/-- The members that the class itself offers, properties before methods. -/
def ownShape (c : Class) : List Property :=
  ((c.properties ++ c.methods).filter Member.isOffered).map Member.toProperty

/-- The members that instances offer, nearest class first. The first of a name stands. -/
def shape (c : Class) : Interface where
  name := c.name
  properties := c.chain.flatMap ownShape
  typeParams := []

lemma memberOffers_eq (ms : List Member) :
    memberOffers ms = Ty.propertyOffers ((ms.filter Member.isOffered).map Member.toProperty) := by
  induction ms with
  | nil => rfl
  | cons m ms ih =>
    obtain ⟨name, type, visibility, isStatic, isReadonly, owner⟩ := m
    simp only [memberOffers, List.filter_cons, ih]
    split
    · rfl
    · rfl

lemma propertyOffers_append (ps qs : List Property) :
    Ty.propertyOffers (ps ++ qs) = Ty.propertyOffers ps ++ Ty.propertyOffers qs := by
  induction ps with
  | nil => rfl
  | cons p ps ih =>
    obtain ⟨name, type, isOptional⟩ := p
    simp only [List.cons_append, Ty.propertyOffers, ih]

mutual

/-- Assignability to an interface goes by the shape. -/
lemma offers_eq : (c : Class) → c.offers = Ty.propertyOffers c.shape.properties
  | ⟨name, parent, properties, methods, ctor, typeParams, isAbstract⟩ => by
    have hparent := parentOffers_eq parent
    simp only [offers, memberOffers_eq, hparent, shape, chain, List.flatMap_cons, ownShape,
      List.filter_append, List.map_append, propertyOffers_append]
termination_by structural c => c

lemma parentOffers_eq : (parent : Option Class) →
    parentOffers parent = Ty.propertyOffers ((parentChain parent).flatMap ownShape)
  | none => rfl
  | some c => offers_eq c
termination_by structural c => c

end

lemma assignableTo_interface (c : Class) (wanted : Interface) :
    (Ty.cls c).assignableTo (.interface wanted) =
      Offer.satisfy (Ty.propertyOffers c.shape.properties) wanted := by
  rw [← offers_eq]
  simp [Ty.assignableTo, Ty.accepts, Ty.equals, Ty.equalsBy, Ty.isAbsorbing]

/-! ### Lookups in a shape -/

lemma find?_ownShape_of_none (h : c.ownMember? name = none) :
    ByName.find? Property.name name c.ownShape = none := by
  obtain ⟨hproperty, hmethod⟩ := Option.or_eq_none_iff.1 h
  refine List.find?_eq_none.2 fun p hp => ?_
  obtain ⟨m, hm, rfl⟩ := List.mem_map.1 hp
  obtain hm | hm := List.mem_append.1 (List.mem_of_mem_filter hm)
  · exact List.find?_eq_none.1 hproperty m hm
  · exact List.find?_eq_none.1 hmethod m hm

/-- The first member of a name that is offered. -/
lemma find?_offered {ms : List Member} (h : ByName.find? Member.name name ms = some m)
    (hm : m.isOffered = true) :
    ByName.find? Property.name name ((ms.filter Member.isOffered).map Member.toProperty) =
      some m.toProperty := by
  obtain ⟨hname, before, after, rfl, hbefore⟩ := List.find?_eq_some_iff_append.1 h
  have hnone : ((before.filter Member.isOffered).map Member.toProperty).find?
      (fun p => p.name == name) = none := by
    refine List.find?_eq_none.2 fun p hp => ?_
    obtain ⟨n, hn, rfl⟩ := List.mem_map.1 hp
    simpa [Member.toProperty] using hbefore n (List.mem_of_mem_filter hn)
  have hfirst : (m.toProperty.name == name) = true := hname
  simp [ByName.find?, List.filter_append, hm, hnone, hfirst]

lemma find?_ownShape (h : c.ownMember? name = some m) (hm : m.isOffered = true) :
    ByName.find? Property.name name c.ownShape = some m.toProperty := by
  have happend : ByName.find? Property.name name c.ownShape =
      (ByName.find? Property.name name
        ((c.properties.filter Member.isOffered).map Member.toProperty)).or
      (ByName.find? Property.name name
        ((c.methods.filter Member.isOffered).map Member.toProperty)) := by
    simp [ownShape, ByName.find?, List.filter_append]
  rw [happend]
  obtain h | ⟨hproperty, h⟩ := Option.or_eq_some_iff.1 h
  · rw [find?_offered h hm]
    rfl
  · have hnone : ByName.find? Property.name name
        ((c.properties.filter Member.isOffered).map Member.toProperty) = none := by
      refine List.find?_eq_none.2 fun p hp => ?_
      obtain ⟨n, hn, rfl⟩ := List.mem_map.1 hp
      exact List.find?_eq_none.1 hproperty n (List.mem_of_mem_filter hn)
    rw [hnone, find?_offered h hm]
    rfl

/-- The member that the snapshots find, if it is offered, is the one in the shape. -/
lemma shape_property? (h : c.findMember? name = some m) (hm : m.isOffered = true) :
    c.shape.property? name = some m.toProperty := by
  suffices hchain : ∀ ds : List Class, (ds.findSome? fun d => d.ownMember? name) = some m →
      ByName.find? Property.name name (ds.flatMap ownShape) = some m.toProperty from
    hchain c.chain h
  intro ds
  induction ds with
  | nil => simp
  | cons d ds ih =>
    intro hfound
    have happend : ByName.find? Property.name name ((d :: ds).flatMap ownShape) =
        (ByName.find? Property.name name d.ownShape).or
          (ByName.find? Property.name name (ds.flatMap ownShape)) := by
      simp [ByName.find?]
    rw [happend]
    cases hown : d.ownMember? name with
    | none =>
      rw [find?_ownShape_of_none hown]
      rw [List.findSome?_cons, hown] at hfound
      exact ih hfound
    | some n =>
      rw [List.findSome?_cons, hown] at hfound
      obtain rfl := Option.some.inj hfound
      rw [find?_ownShape hown hm]
      rfl

lemma findMember?_eq (c : Class) (name : String) : c.findMember? name =
    (c.ownMember? name).or ((parentChain c.parent).findSome? fun d => d.ownMember? name) := by
  rw [findMember?, c.chain_eq, List.findSome?_cons]
  cases c.ownMember? name <;> rfl

/-- Classes that differ in types only have the same members. -/
lemma Alike.ownMember? {d : Class} (h : c.Alike d) (name : String) :
    (c.ownMember? name).map Member.isOffered = (d.ownMember? name).map Member.isOffered := by
  have hoffering := congrFun h.offering name
  obtain ⟨hproperty, hmethod⟩ := Prod.mk.inj hoffering
  simp only [Class.ownMember?, Option.map_or, hproperty, hmethod]

end Class

/-! ## Walks up a lineage at module level -/

namespace Scopes

variable {like : Class → Class → Prop} {s : Scopes} {c p q : Class} {name : String} {m : Member}

lemma classNamed?_module (hs : s.locals = []) (name : String) :
    s.classNamed? name = s.global.class? name := by
  have hlookup : s.lookup? name = s.global.named? name := lookup?_of_global (by simp [hs])
  cases hx : s.global.named? name with
  | none => simp [classNamed?, Scope.class?, hlookup, hx]
  | some x => simp [classNamed?, Scope.class?, hlookup, hx]

lemma refresh_module (hs : s.locals = []) (hq : s.global.class? p.name = some q) :
    s.refresh p = q := by
  rw [refresh, classNamed?_module hs, hq, Option.getD_some]

/-- Where the ancestors that go by their names are like their snapshots, what the walk finds is
found among the snapshots too, and offered to the same. -/
lemma findMember?_of_lineage (hs : s.locals = []) (hg : s.global.Founded Class.Alike)
    (hq : s.global.class? p.name = some q) (halike : q.Alike p) {limit : Nat}
    (h : ((s.lineageWithin limit p).findSome? fun d => d.ownMember? name) = some m) :
    ∃ n, p.findMember? name = some n ∧ n.isOffered = m.isOffered := by
  induction limit generalizing p q with
  | zero => simp [lineageWithin] at h
  | succ limit ih =>
    have hown := halike.ownMember? name
    have hparents : q.parent = p.parent := congrArg Heritage.parent halike.heritage
    rw [p.findMember?_eq]
    rw [lineageWithin, refresh_module hs hq] at h
    cases hqown : q.ownMember? name with
    | some n =>
      have hfound : n = m := by
        split at h <;> simpa [hqown] using h
      rw [hqown, hfound] at hown
      obtain ⟨n', hn', hoffered⟩ := Option.map_eq_some_iff.1 hown.symm
      exact ⟨n', by rw [hn']; rfl, hoffered⟩
    | none =>
      have hpown : p.ownMember? name = none := by
        rw [hqown] at hown
        exact Option.map_eq_none_iff.1 hown.symm
      rw [hpown, Option.none_or]
      split at h
      · simp [hqown] at h
      · rename_i r hr
        obtain ⟨q', hq', halike'⟩ := hg.parent hq hr
        rw [List.findSome?_cons, hqown] at h
        rw [← hparents, hr]
        exact ih hq' halike' h

/-- Where the ancestors that go by their names are their snapshots, the lineage is made of them. -/
lemma lineageWithin_eq_chain (hs : s.locals = []) (hg : s.global.Founded (· = ·)) {limit : Nat}
    (hc : s.global.class? c.name = some c) (hlimit : c.chain.length ≤ limit) :
    s.lineageWithin limit c = c.chain := by
  induction limit generalizing c with
  | zero =>
    rw [c.chain_eq] at hlimit
    simp at hlimit
  | succ limit ih =>
    rw [lineageWithin, refresh_module hs hc, c.chain_eq]
    cases hp : c.parent with
    | none => rfl
    | some p =>
      obtain ⟨q, hq, rfl⟩ := hg.parent hc hp
      have hshort : q.chain.length ≤ limit := by
        rw [c.chain_eq, hp] at hlimit
        simpa [Class.parentChain] using hlimit
      exact congrArg (c :: ·) (ih hq hshort)

lemma findMember_of_snapshots (hs : s.locals = []) (hg : s.global.Founded (· = ·))
    (hc : s.global.class? c.name = some c) (h : c.findMember? name = some m) :
    s.findMember c name = .found m := by
  have hlineage : s.lineage c = c.chain :=
    lineageWithin_eq_chain hs hg hc (by simp [lineageLimit, inSight])
  unfold findMember nearest
  rw [hlineage]
  unfold Class.findMember? at h
  rw [h]

end Scopes

/-! ## Both passes -/

namespace Analysis

/-- The session after the first pass. -/
def registered (program : Program) (options : Options) : Session :=
  (collect program.nodes { options := optionsFor (some program) options }).2

/-- What holds of the session after the first pass and lasts holds in the end. -/
lemma run_of_registered {R : Contract} {P : Session → Prop} (laws : StepLaws R)
    (hP : R.Sustains P) {program : Program} {options : Options} {t : Session}
    (hstart : P (registered program options)) (h : run (some program) options = .ok t)
    (hreport : ∀ (s : Session) (d : Diagnostic), P s → P (s.report d)) : P t := by
  have hpasses : P (passes program.nodes { options := optionsFor (some program) options }).2 := by
    rw [passes, Check.run_bind]
    unfold registered at hstart
    rcases hrun : collect program.nodes { options := optionsFor (some program) options }
      with ⟨e | a, s⟩ <;> rw [hrun] at hstart
    · exact hstart
    · have hrest : Check.Preserves P (do
          check program.nodes
          let s ← get
          Check.trace .blue (s.options.file ++ ": " ++ toString s.errorCount ++ " error(s)")) :=
        .bind (hP.check laws program.nodes) fun _ => .bind (hP.preserves laws.get) fun _ =>
          hP.preserves (laws.traceLine _ _)
      exact hrest s hstart
  unfold run at h
  dsimp only [Option.map_some, Option.getD_some] at h
  split at h
  · rename_i hrun
    rw [hrun] at hpasses
    exact Except.ok.inj h ▸ hpasses
  · cases h
  · rename_i d _ hrun
    rw [hrun] at hpasses
    exact Except.ok.inj h ▸ hreport _ d hpasses
  · rename_i e _ hrun
    rw [hrun] at hpasses
    exact Except.ok.inj h ▸ hreport _ _ hpasses

/-- In the first pass nothing is filled in, so the snapshots are the classes themselves. -/
lemma founded_registered (program : Program) (options : Options) :
    (Session.founding (· = ·)).Holds (registered program options) ∧
      (registered program options).scopes.locals = [] := by
  have hsustains : (Session.founding (· = ·)).Sustains fun s =>
      (Session.founding (· = ·)).Holds s ∧ s.scopes.locals = [] :=
    ⟨fun hs => hs.1, fun hs h => ⟨(Session.founding.basicLaws Class.likeness_eq).after hs.1 h,
      h.1.1.scopes.locals.trans hs.2⟩, fun _ hs => hs⟩
  refine hsustains.collect (Session.founding.declareLaws Class.likeness_eq) program.nodes _
    ⟨⟨Session.orderly_start, List.nodup_nil, fun h => ?_, fun h => ?_⟩, rfl⟩
  · cases h
  · cases h

/-- Afterwards the classes are filled in, and stay like they were. -/
lemma founded_run {program : Program} {options : Options} {t : Session}
    (h : run (some program) options = .ok t) :
    t.scopes.locals = [] ∧ t.scopes.global.Founded Class.Alike ∧
      (registered program options).scopes.global.Lasts Class.Alike t.scopes.global := by
  obtain ⟨⟨horderly, hfounded⟩, hlocals⟩ := founded_registered program options
  have laws := Session.founding.stepLaws
  have hsustains : (Session.founding Class.Alike).Sustains fun u =>
      (Session.founding Class.Alike).Holds u ∧ u.scopes.locals = [] ∧
        (registered program options).scopes.global.Lasts Class.Alike u.scopes.global :=
    ⟨fun hu => hu.1, fun hu h => ⟨laws.after hu.1 h, h.1.1.scopes.locals.trans hu.2.1,
      hu.2.2.trans Class.likeness_alike h.2.2⟩, fun _ hu => hu⟩
  have hstart : (registered program options).scopes.global.Founded Class.Alike := by
    refine ⟨hfounded.nodup, hfounded.named, fun hc hp => ?_⟩
    obtain ⟨q, hq, rfl⟩ := hfounded.parent hc hp
    exact ⟨q, hq, .refl q⟩
  obtain ⟨⟨-, hend⟩, hmodule, hlasts⟩ := run_of_registered laws hsustains
    ⟨⟨horderly, hstart⟩, hlocals, .refl Class.likeness_alike _⟩ h fun _ _ hs => hs
  exact ⟨hmodule, hend, hlasts⟩

end Analysis

/-- After both passes, every member that access finds on a class at module level and that is
offered to everyone stands in the shape of the class. If it is a member of the class itself it
has the same type there. If it is inherited, and the class was registered in the first pass, it
has the type there that access found after the first pass. So a class without members of its
own is assignable to the interfaces that its superclass was assignable to then. -/
theorem shapes_have_first_pass_types (program : Program) (options : Options) (t : Session)
    (h : Analysis.run (some program) options = .ok t) (x : Symbol) (hx : x ∈ t.scopes.global)
    (hkind : x.kind = .cls) (c : Class) (hc : x.type = some (.cls c)) :
    (∀ name m, t.scopes.findMember c name = .found m → m.isOffered = true →
      ∃ p, c.shape.property? name = some p ∧
        ((c.ownMember? name).isSome = true → p.type = m.type) ∧
        ((c.ownMember? name).isSome = false →
          ∀ c₁, (Analysis.registered program options).scopes.classNamed? c.name = some c₁ →
            ∃ m₁, (Analysis.registered program options).scopes.findMember c₁ name = .found m₁ ∧
              p.type = m₁.type)) ∧
    (∀ wanted, (Ty.cls c).assignableTo (.interface wanted) =
      Offer.satisfy (Ty.propertyOffers c.shape.properties) wanted) ∧
    ∀ c₁ q, (Analysis.registered program options).scopes.classNamed? c.name = some c₁ →
      c.parent = some q → c.properties = [] → c.methods = [] →
      (Analysis.registered program options).scopes.classNamed? q.name = some q ∧
      ∀ wanted, (Ty.cls c).assignableTo (.interface wanted) =
        (Ty.cls q).assignableTo (.interface wanted) := by
  obtain ⟨⟨-, hfounded₁⟩, hlocals₁⟩ := Analysis.founded_registered program options
  obtain ⟨hlocals, hfounded, hlasts⟩ := Analysis.founded_run h
  have hclass : t.scopes.global.class? x.name = some c :=
    Scope.class?_eq_some.2 ⟨x, hfounded.named?_of_mem hx, hkind, hc⟩
  have hname : c.name = x.name := hfounded.named hclass
  rw [← hname] at hclass
  -- What the class was after the first pass differs from it in types only.
  have hfirst : ∀ c₁, (Analysis.registered program options).scopes.classNamed? c.name = some c₁ →
      (Analysis.registered program options).scopes.global.class? c₁.name = some c₁ ∧
        c.Alike c₁ := by
    intro c₁ hc₁
    rw [Scopes.classNamed?_module hlocals₁] at hc₁
    obtain ⟨d, hd, halike⟩ := hlasts _ c₁ hc₁
    obtain rfl := Option.some.inj (hclass.symm.trans hd)
    exact ⟨(hfounded₁.named hc₁).symm ▸ hc₁, halike⟩
  refine ⟨fun name m hm hoffered => ?_, c.assignableTo_interface,
    fun c₁ q hc₁ hq hproperties hmethods => ?_⟩
  · have hfound := Scopes.findSome?_of_nearest hm
    obtain ⟨n, hn, hsame⟩ :=
      Scopes.findMember?_of_lineage hlocals hfounded hclass (.refl c) hfound
    refine ⟨n.toProperty, Class.shape_property? hn (hsame.trans hoffered), fun hown => ?_,
      fun hinherited c₁ hc₁ => ?_⟩
    · obtain ⟨own, hown⟩ := Option.isSome_iff_exists.1 hown
      obtain ⟨rest, hlineage⟩ := t.scopes.exists_lineage_eq_cons c
      rw [hlineage, Scopes.refresh_module hlocals hclass, List.findSome?_cons, hown] at hfound
      rw [c.findMember?_eq, hown] at hn
      obtain rfl := Option.some.inj hfound
      obtain rfl := Option.some.inj hn
      rfl
    · obtain ⟨hclass₁, halike⟩ := hfirst c₁ hc₁
      have hown : c.ownMember? name = none := by simpa using hinherited
      have hown₁ : c₁.ownMember? name = none := by
        have hboth := halike.ownMember? name
        rw [hown] at hboth
        exact Option.map_eq_none_iff.1 hboth.symm
      have hparents : c.parent = c₁.parent := congrArg Heritage.parent halike.heritage
      have hn₁ : c₁.findMember? name = some n := by
        rwa [c₁.findMember?_eq, hown₁, ← hparents, ← hown, ← c.findMember?_eq]
      exact ⟨n, Scopes.findMember_of_snapshots hlocals₁ hfounded₁ hclass₁ hn₁, rfl⟩
  · obtain ⟨hclass₁, halike⟩ := hfirst c₁ hc₁
    have hparent : c₁.parent = some q :=
      (congrArg Heritage.parent halike.heritage).symm.trans hq
    obtain ⟨q', hq', rfl⟩ := hfounded₁.parent hclass₁ hparent
    refine ⟨(Scopes.classNamed?_module hlocals₁ _).trans hq', fun wanted => ?_⟩
    have hshape : c.shape.properties = q'.shape.properties := by
      simp [Class.shape, c.chain_eq, hq, Class.parentChain, Class.ownShape, hproperties, hmethods]
    rw [c.assignableTo_interface, q'.assignableTo_interface, hshape]

/-! ### A field without annotation -/

/-- What was found, if anything was. -/
def Search.found? {α : Type} : Search α → Option α
  | .found a => some a
  | .absent | .endless => none

lemma Search.found?_eq_some {α : Type} {r : Search α} {a : α} (h : r.found? = some a) :
    r = .found a := by
  cases r with
  | found b => exact congrArg Search.found (Option.some.inj h)
  | absent => cases h
  | endless => cases h

/-- A class `B` with a field `x = 1`, a class `D` that extends it and has no members of its own,
and a variable for an interface with `x: int` that is given an instance of `D`. -/
def inferredField : Program where
  path := "m.te"
  nodes :=
    [.classDecl ⟨1, ⟨"B", {}⟩, [], none, [⟨⟨"x", {}⟩, .omitted,
        some (.literal ⟨2, {}⟩ .int "1"), .pub, false, false, {}⟩], [], none, false, {}⟩,
      .classDecl ⟨3, ⟨"D", {}⟩, [], some ⟨"B", {}⟩, [], [], none, false, {}⟩,
      .interfaceDecl ⟨⟨"HasX", {}⟩, [], [], [⟨"x", .named {} "int" [], false, {}⟩], {}⟩,
      .varDecl {} ⟨"i", {}⟩ (.named {} "HasX" [])
        (some (.construct ⟨4, {}⟩ ⟨"D", {}⟩ [] [])) false]

/-- The field is found on the subclass as an integer after both passes. In the shape it has the
type that was found after the first, which is not known. -/
theorem inferred_field_keeps_first_pass_type :
    ∃ t x c m p c₁ m₁, Analysis.run (some inferredField) {} = .ok t ∧ x ∈ t.scopes.global ∧
      x.kind = .cls ∧ x.type = some (.cls c) ∧ c.name = "D" ∧
      t.scopes.findMember c "x" = .found m ∧ m.isOffered = true ∧
      c.shape.property? "x" = some p ∧
      (Analysis.registered inferredField {}).scopes.classNamed? "D" = some c₁ ∧
      (Analysis.registered inferredField {}).scopes.findMember c₁ "x" = .found m₁ ∧
      p.type = m₁.type := by
  have hrun : (Analysis.run (some inferredField) {}).toOption.any (fun t =>
      (t.scopes.global.named? "D").any fun x => x.kind = .cls ∧
        (x.type.bind Ty.class?).any (fun c => c.name = "D" ∧ c.ownMember? "x" = none ∧
          (t.scopes.findMember c "x").found?.any Member.isOffered)) = true := by decide +kernel
  have hregistered : ((Analysis.registered inferredField {}).scopes.classNamed? "D").isSome =
      true := by decide +kernel
  obtain ⟨t, ht, hrun⟩ := (Option.any_eq_true _ _).1 hrun
  obtain ⟨x, hx, hrun⟩ := (Option.any_eq_true _ _).1 hrun
  obtain ⟨hkind, hrun⟩ := of_decide_eq_true hrun
  obtain ⟨c, hc, hrun⟩ := (Option.any_eq_true _ _).1 hrun
  obtain ⟨hname, hown, hrun⟩ := of_decide_eq_true hrun
  obtain ⟨m, hm, hoffered⟩ := (Option.any_eq_true _ _).1 hrun
  obtain ⟨c₁, hc₁⟩ := Option.isSome_iff_exists.1 hregistered
  have ht := eq_ok_of_toOption ht
  have hx := (Scope.mem_of_named? hx).1
  have htype := Ty.bind_class?_eq_some.1 hc
  have hm := Search.found?_eq_some hm
  obtain ⟨hmembers, -⟩ := shapes_have_first_pass_types inferredField {} t ht x hx hkind c htype
  obtain ⟨p, hp, -, hinherited⟩ := hmembers "x" m hm hoffered
  obtain ⟨m₁, hm₁, hsame⟩ := hinherited (by simp [hown]) c₁ (hname.symm ▸ hc₁)
  exact ⟨t, x, c, m, p, c₁, m₁, ht, hx, hkind, htype, hname, hm, hoffered, hp, hc₁, hm₁, hsame⟩

/-- On the subclass the field is found as an integer, and in its shape it has another type. So
the subclass is not assignable to the interface, though its superclass is and it has no members
of its own, and the program is refused. -/
theorem inferred_field_differs_in_subclass_shape :
    ∃ t b d m p wanted, Analysis.run (some inferredField) {} = .ok t ∧
      t.scopes.classNamed? "B" = some b ∧ t.scopes.classNamed? "D" = some d ∧
      t.scopes.typeNamed? "HasX" = some wanted ∧ wanted.kind = .interface ∧
      t.scopes.findMember d "x" = .found m ∧ m.isOffered = true ∧ d.ownMember? "x" = none ∧
      d.shape.property? "x" = some p ∧ p.type.equals m.type = false ∧
      (Ty.cls b).assignableTo wanted = true ∧ (Ty.cls d).assignableTo wanted = false ∧
      t.errorCount = 1 := by
  have hrun : (Analysis.run (some inferredField) {}).toOption.any (fun t =>
      (t.scopes.classNamed? "B").any fun b => (t.scopes.classNamed? "D").any fun d =>
      (t.scopes.typeNamed? "HasX").any fun wanted =>
      (t.scopes.findMember d "x").found?.any fun m => (d.shape.property? "x").any fun p =>
        wanted.kind = .interface ∧ m.isOffered = true ∧ d.ownMember? "x" = none ∧
        p.type.equals m.type = false ∧ (Ty.cls b).assignableTo wanted = true ∧
        (Ty.cls d).assignableTo wanted = false ∧ t.errorCount = 1) = true := by decide +kernel
  obtain ⟨t, ht, hrun⟩ := (Option.any_eq_true _ _).1 hrun
  obtain ⟨b, hb, hrun⟩ := (Option.any_eq_true _ _).1 hrun
  obtain ⟨d, hd, hrun⟩ := (Option.any_eq_true _ _).1 hrun
  obtain ⟨wanted, hwanted, hrun⟩ := (Option.any_eq_true _ _).1 hrun
  obtain ⟨m, hm, hrun⟩ := (Option.any_eq_true _ _).1 hrun
  obtain ⟨p, hp, hrun⟩ := (Option.any_eq_true _ _).1 hrun
  obtain ⟨hkind, hoffered, hown, hdiffer, hfits, hmisfits, herrors⟩ := of_decide_eq_true hrun
  exact ⟨t, b, d, m, p, wanted, eq_ok_of_toOption ht, hb, hd, hwanted, hkind,
    Search.found?_eq_some hm, hoffered, hown, hp, hdiffer, hfits, hmisfits, herrors⟩

end TypedScript
