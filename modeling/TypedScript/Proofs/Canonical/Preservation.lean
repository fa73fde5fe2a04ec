import TypedScript.Proofs.Discipline

/-!
# Types stay canonical

Unions and nullables are built in few places, and everything else goes through these. So
canonical types are all that comes of canonical ones: of the operations on types, of what
annotations mean, of references that are followed, and of the members of a value.

To find the type of a member a method may have to be checked first, and with it any part
of the program. Checks keep a session canonical, however they end, and an analysis begins
with such a session.
-/
namespace TypedScript

/-! ## Symbols -/

namespace Scopes.Canonical

variable {s scopes : Scopes} {name : String} {t : Ty}

lemma of_slot (hs : s.Canonical)
    (h : ∀ i, ∀ x ∈ scopes.slot i, s.Has x ∨ x.Canonical) : scopes.Canonical := by
  rintro x ⟨i, hx⟩
  obtain hx | hx := h i x hx
  · exact hs x hx
  · exact hx

lemma define {kind : SymbolKind} {type : Option Ty} {isConst : Bool} {origin : Origin}
    {x : Symbol} (hs : s.Canonical) (ht : Hint.Canonical type)
    (h : s.define name kind type isConst origin = .ok (x, scopes)) : scopes.Canonical := by
  obtain ⟨hx, -, rfl⟩ := define_eq_ok h
  refine hs.of_slot fun i y hy => ?_
  have hy : y ∈ (s.modifySlot s.locals.head? (· ++ [x])).slot i := by cases i <;> exact hy
  obtain hy | hy := mem_slot_modifySlot hy
  · exact .inl ⟨i, hy⟩
  · obtain hy | hy := List.mem_append.1 hy
    · exact .inl ⟨i, hy⟩
    · obtain rfl := List.mem_singleton.1 hy
      subst hx
      exact .inr ht

lemma updateSymbol {id : SymbolId} (hs : s.Canonical) (ht : t.Canonical)
    (h : s.updateSymbol id name t = .ok scopes) : scopes.Canonical := by
  obtain ⟨_, i, -, -, -, -, rfl⟩ := exists_slot_of_updateSymbol h
  refine hs.of_slot fun j y hy => ?_
  obtain hy | hy := mem_slot_modifySlot hy
  · exact .inl ⟨j, hy⟩
  · obtain ⟨z, hz, rfl⟩ := List.mem_map.1 hy
    split
    · exact .inr (Hint.canonical_some.2 ht)
    · exact .inl ⟨j, hz⟩

lemma retypeSymbol (hs : s.Canonical) (ht : t.Canonical) (id : SymbolId) :
    (s.retypeSymbol id t).Canonical := by
  refine hs.of_slot fun j y hy => ?_
  rw [slot_retypeSymbol] at hy
  obtain ⟨z, hz, rfl⟩ := List.mem_map.1 hy
  split
  · exact .inr (Hint.canonical_some.2 ht)
  · exact .inl ⟨j, hz⟩

lemma enter (hs : s.Canonical) : s.enter.Canonical :=
  hs.of_slot fun i _ hx => .inl ⟨i, s.slot_enter i ▸ hx⟩

/-- It does not matter which scopes are in force. -/
lemma reattach (hs : s.Canonical) (locals : List ScopeId) (depth : Nat) :
    (s.reattach locals depth).Canonical :=
  hs.of_slot fun i _ hx => .inl ⟨i, by cases i <;> exact hx⟩

end Scopes.Canonical

/-! ## Narrowings -/

namespace NarrowingStack.Canonical

variable {s : NarrowingStack}

lemma push (hs : s.Canonical) (bind : Binder) {n : Narrowings} (hn : Subst.Canonical n) :
    (s.push bind n).Canonical := by
  intro i r hr
  simp only [NarrowingStack.frame, NarrowingStack.push, Array.getD_eq_getD_getElem?,
    Array.getElem?_push] at hr
  split at hr
  · obtain ⟨e, he, rfl⟩ := List.mem_map.1 hr
    exact hn e he
  · refine hs i r ?_
    rwa [NarrowingStack.frame, Array.getD_eq_getD_getElem?]

lemma mem_reset {f : Frame} {name : String} {meaning : Option SymbolId} {declared : Ty}
    {r : Refinement} (h : r ∈ f.reset name meaning declared) : r ∈ f ∨ r.type = declared := by
  obtain ⟨q, hq, rfl⟩ := List.mem_map.1 h
  split
  · exact .inr rfl
  · exact .inl hq

lemma forget (hs : s.Canonical) (bind : Binder) (name : String) {declared : Ty}
    (ht : declared.Canonical) : (s.forget bind name declared).Canonical := by
  suffices h : ∀ (ids : List FrameId) (frames : Array Frame),
      (∀ i, ∀ r ∈ frames.getD i [], r.type.Canonical) →
      ∀ i, ∀ r ∈ (ids.foldl (fun frames i => frames.modify i fun f =>
        f.reset name (bind name) declared) frames).getD i [], r.type.Canonical from h _ _ hs
  intro ids
  induction ids with
  | nil => exact fun _ hframes => hframes
  | cons k ids ih =>
    intro frames hframes
    refine ih _ fun i r hr => ?_
    simp only [Array.getD_eq_getD_getElem?, Array.getElem?_modify] at hr hframes
    split at hr
    · cases hi : frames[i]? with
      | none => simp [hi] at hr
      | some f =>
        have hf : ∀ r ∈ f, r.type.Canonical := by simpa [hi] using hframes i
        simp only [hi, Option.map_some, Option.getD_some] at hr
        obtain hr | rfl := mem_reset hr
        · exact hf r hr
        · exact ht
    · exact hframes i r hr

end NarrowingStack.Canonical

/-! ## Sessions -/

namespace Session

variable {s t u : Session} {enter : Session → Session × Undo}

namespace Canonical

lemma withScopes {scopes : Scopes} (hs : s.Canonical) (h : scopes.Canonical) :
    Session.Canonical { s with scopes } :=
  ⟨h, hs.narrowing, hs.function, hs.types, hs.builtins⟩

lemma withNarrowing {narrowing : NarrowingStack} (hs : s.Canonical) (h : narrowing.Canonical) :
    Session.Canonical { s with narrowing } :=
  ⟨hs.scopes, h, hs.function, hs.types, hs.builtins⟩

lemma record (hs : s.Canonical) (id : NodeId) {t : Ty} (ht : t.Canonical) :
    (s.record id t).Canonical :=
  ⟨hs.scopes, hs.narrowing, hs.function, List.forall_mem_cons.2 ⟨ht, hs.types⟩, hs.builtins⟩

lemma addReturn (hs : s.Canonical) {t : Ty} (ht : t.Canonical) :
    Session.Canonical
      { s with function := s.function.map fun f => { f with returns := f.returns ++ [t] } } := by
  refine ⟨hs.scopes, hs.narrowing, fun g hg => ?_, hs.types, hs.builtins⟩
  obtain ⟨f, hf, rfl⟩ := Option.map_eq_some_iff.1 hg
  refine ⟨(hs.function f hf).declared, fun u hu => ?_⟩
  obtain hu | hu := List.mem_append.1 hu
  · exact (hs.function f hf).returns u hu
  · obtain rfl := List.mem_singleton.1 hu
    exact ht

/-- All types are to be canonical, before and after. -/
def contract : Contract where
  Holds := Session.Canonical
  Rel s t := s.Kept t ∧ t.Canonical
  Knows _ _ _ := True
  typed := True

lemma entered (he : contract.Opens enter) (hs : s.Canonical) : (enter s).1.Canonical := by
  cases he with
  | scope => exact hs.withScopes hs.scopes.enter
  | narrowings n hn => exact hs.withNarrowing (hs.narrowing.push _ (hn trivial))
  | function f hf =>
    refine ⟨hs.scopes, hs.narrowing, fun g hg => ?_, hs.types, hs.builtins⟩
    exact Option.some.inj hg ▸ hf trivial
  | cls name => exact ⟨hs.scopes, hs.narrowing, hs.function, hs.types, hs.builtins⟩
  | breakable b => exact ⟨hs.scopes, hs.narrowing, hs.function, hs.types, hs.builtins⟩
  | detach =>
    refine ⟨hs.scopes.reattach [] 0, hs.narrowing, fun _ hg => ?_, hs.types, hs.builtins⟩
    cases hg

/-- What was set aside is put back. -/
lemma left (he : contract.Opens enter) (hs : s.Canonical) (ht : t.Canonical)
    (hu : (enter s).2.run t = .ok u) : u.Canonical := by
  cases he with
  | scope =>
    simp only [Session.enterScope, Undo.run, exitScope, Scopes.exit] at hu
    split at hu
    · cases hu
    · cases hu
      exact ht.withScopes (ht.scopes.reattach _ _)
  | narrowings n _ =>
    simp only [Session.pushNarrowings, Undo.run, NarrowingStack.popAt, NarrowingStack.pop] at hu
    split at hu
    · split at hu
      · cases hu
      · cases hu
        exact ht.withNarrowing ht.narrowing
    · cases hu
  | function f _ =>
    cases hu
    exact ⟨ht.scopes, ht.narrowing, hs.function, ht.types, ht.builtins⟩
  | cls name =>
    cases hu
    exact ⟨ht.scopes, ht.narrowing, ht.function, ht.types, ht.builtins⟩
  | breakable b =>
    simp only [Session.enterBreakable, Undo.run, leaveBreakable] at hu
    split at hu
    · cases hu
    · cases hu
      exact ⟨ht.scopes, ht.narrowing, ht.function, ht.types, ht.builtins⟩
  | detach =>
    cases hu
    exact ⟨ht.scopes.reattach _ _, ht.narrowing, hs.function, ht.types, ht.builtins⟩

/-- Every step of a check, taken with canonical types, keeps the session canonical. -/
lemma symbolLaws : SymbolLaws contract where
  refl hs := ⟨.refl _, hs⟩
  trans h k := ⟨h.1.trans k.1, k.2⟩
  canonical hs _ := hs
  report d hs := ⟨Kept.symbolLaws.report d trivial,
    hs.scopes, hs.narrowing, hs.function, hs.types, hs.builtins⟩
  trace style line hs := ⟨Kept.symbolLaws.trace style line trivial,
    hs.scopes, hs.narrowing, hs.function, hs.types, hs.builtins⟩
  record id t hs ht := ⟨Kept.symbolLaws.record id t trivial False.elim,
    hs.record id (ht trivial)⟩
  define hs hd ht h := ⟨Kept.symbolLaws.define trivial hd False.elim h,
    hs.withScopes (hs.scopes.define (ht trivial) h)⟩
  update hs _ ht h := ⟨Kept.symbolLaws.update trivial trivial False.elim h,
    hs.withScopes (hs.scopes.updateSymbol (ht trivial) h)⟩
  retypeSymbol hs _ ht := ⟨Kept.symbolLaws.retypeSymbol trivial trivial False.elim,
    hs.withScopes (hs.scopes.retypeSymbol (ht trivial) _)⟩
  forget name t hs ht _ := ⟨.forget name t,
    hs.withNarrowing (hs.narrowing.forget _ _ (ht trivial))⟩
  addReturn t hs ht := ⟨Kept.symbolLaws.addReturn t trivial False.elim,
    hs.addReturn (ht trivial)⟩
  markChecked id hs := ⟨Kept.symbolLaws.markChecked id trivial,
    hs.scopes, hs.narrowing, hs.function, hs.types, hs.builtins⟩
  inference _ hfree h := ⟨Kept.symbolLaws.inference trivial hfree h.1,
    h.2.scopes, h.2.narrowing, h.2.function, h.2.types, h.2.builtins⟩
  leave he hs h := by
    obtain ⟨u, hu, hkept⟩ := Kept.leave he.entry h.1
    exact ⟨u, hu, hkept, left he hs h.2 hu⟩
  after _ h := h.2
  entered := entered
  begun _ hs := ⟨hs.scopes, hs.narrowing, hs.function, hs.types, hs.builtins⟩
  learn _ _ := trivial
  learnDefined _ _ := trivial
  knowsAfter _ _ _ := trivial
  knowsEntered _ _ _ := trivial
  knowsBegun _ _ _ := trivial

lemma stepLaws : StepLaws contract := symbolLaws.stepLaws

/-- Nothing is declared, narrowed or found at the start. -/
lemma start {options : Options} (h : options.builtins.Canonical) :
    Session.Canonical { options } := by
  refine ⟨?_, ?_, by simp, by simp, h⟩
  · rintro x ⟨_ | i, hx⟩
    · cases hx
    · simp [Scopes.slot, Scopes.scope] at hx
  · intro i r hr
    simp [NarrowingStack.frame] at hr

lemma sustains : contract.Sustains Session.Canonical where
  holds hs := hs
  after _ h := h.2
  phase _ hs := ⟨hs.scopes, hs.narrowing, hs.function, hs.types, hs.builtins⟩

/-- The type of a member, whatever has to be checked to tell it. -/
lemma memberType (hs : s.Canonical) {t u : Ty} (ht : t.Canonical) {limit : Nat}
    {receiver : Option String} {field : Ident}
    (h : (Member.typeOf (Walk.demand limit) receiver t field s).1 = .ok u) : u.Canonical := by
  have laws := stepLaws
  exact (laws.memberType (laws.demand limit) receiver (fun _ => ht) field s hs).2.2 trivial u h

/-- An analysis ends with the session of its passes, or reports what stopped them. -/
lemma run {program : Option Program} {options : Options} (hb : options.builtins.Canonical)
    (h : Analysis.run program options = .ok s) : s.Canonical := by
  have hstart : Session.Canonical { options := Analysis.optionsFor program options } := by
    refine start ?_
    unfold Analysis.optionsFor
    dsimp only
    split <;> exact hb
  have hend := sustains.passes stepLaws ((program.map Program.nodes).getD []) _ hstart
  unfold Analysis.run at h
  dsimp only at h
  split at h
  · rename_i hrun
    rw [hrun] at hend
    exact Except.ok.inj h ▸ hend
  · cases h
  · rename_i d _ hrun
    rw [hrun] at hend
    exact Except.ok.inj h ▸ (symbolLaws.report d hend).2
  · rename_i e _ hrun
    rw [hrun] at hend
    exact Except.ok.inj h ▸ (symbolLaws.report _ hend).2

end Canonical

end Session

/-- Canonical types are all that comes of canonical types: of making unions, nullables and
futures, of leaving out null, of putting types for parameters, of the common type of several,
of the type arguments that are inferred, of a hint, of an item, of annotations and of
references, of members, and of an analysis as a whole. -/
theorem types_stay_canonical :
    (∀ ts : List Ty, (∀ t ∈ ts, t.Canonical) → (Ty.unionOf ts).Canonical) ∧
    (∀ t : Ty, t.Canonical → t.orNull.Canonical ∧ t.asFuture.Canonical ∧ t.stripNull.Canonical) ∧
    (∀ (t : Ty) (s : Subst), t.Canonical → s.Canonical → (t.substitute s).Canonical) ∧
    (∀ (ts : List Ty) (width : Int), (∀ t ∈ ts, t.Canonical) → (Ty.common ts width).Canonical) ∧
    (∀ (declared : List TypeParam) (pairs : List (Ty × Ty)),
      (∀ b ∈ TypeParam.bounds declared, b.Canonical) →
      (∀ p ∈ pairs, p.1.Canonical ∧ p.2.Canonical) →
      (TypeParam.inferArguments declared pairs).Canonical) ∧
    (∀ h : Hint, h.Canonical → h.unwrap.Canonical) ∧
    (∀ object item : Ty, object.Canonical → item.Canonical →
      (Typing.index object item).Canonical) ∧
    (∀ (s : Scopes) (file : String) (a : Annotation) (t : Ty), s.Canonical →
      s.resolve file a = .ok t → t.Canonical) ∧
    (∀ (s : Scopes) (t : Ty), s.Canonical → t.Canonical → (s.deref t).Canonical) ∧
    (∀ (s : Session) (limit : Nat) (receiver : Option String) (t u : Ty) (field : Ident),
      s.Canonical → t.Canonical →
      (Member.typeOf (Walk.demand limit) receiver t field s).1 = .ok u → u.Canonical) ∧
    (∀ (program : Option Program) (options : Options) (s : Session),
      options.builtins.Canonical → Analysis.run program options = .ok s → s.Canonical) := by
  refine ⟨fun ts h => Ty.canonical_unionOf h, fun t h => ⟨h.orNull, h.asFuture, h.stripNull⟩,
    fun t s ht hs => ht.substitute hs, fun ts width h => Ty.canonical_common h width,
    fun declared pairs hb hp => ?_, fun h hh => hh.unwrap,
    fun object item ho _ => Typing.canonical_index ho item,
    fun s file a t hs h => Scopes.canonical_resolve hs file a t h,
    fun s t hs ht => hs.deref ht, fun s limit receiver t u field hs ht h => hs.memberType ht h,
    fun program options s hb h => .run hb h⟩
  exact TypeParam.canonical_inferArguments hb fun p h => (hp p h).2

/-- A class with a field of type `T | str?`, where `T` is `int | str` and comes later. -/
def fieldOfLaterUnion : Program where
  path := "m.te"
  nodes :=
    let named (name : String) : Annotation := .named {} name []
    [.classDecl ⟨1, ⟨"A", {}⟩, [], none, [⟨⟨"x", {}⟩, .union {} [named "T",
        .nullable {} (named "str")], none, .pub, false, false, {}⟩], [], none, false, {}⟩,
      .aliasDecl ⟨⟨"T", {}⟩, [], .union {} [named "int", named "str"], {}⟩]

/-- The field has one flat union for its type, once the reference in it is followed. -/
theorem field_of_later_union_canonical :
    ∃ s u, Analysis.run (some fieldOfLaterUnion) {} = .ok s ∧
      (Member.typeOf (Walk.demand 1) none (.ref "A" "m.te") ⟨"x", {}⟩ s).1 = .ok u ∧
      u.alternatives.map Ty.kind = [.prim .int, .prim .str, .nullable] ∧
      s.Canonical ∧ u.Canonical := by
  have hrun : ((Analysis.run (some fieldOfLaterUnion) {}).toOption.bind fun s =>
      (Member.typeOf (Walk.demand 1) none (.ref "A" "m.te") ⟨"x", {}⟩ s).1.toOption).any
        (fun u => u.alternatives.map Ty.kind = [.prim .int, .prim .str, .nullable]) = true := by
    decide +kernel
  obtain ⟨u, hu, hkinds⟩ := (Option.any_eq_true _ _).1 hrun
  obtain ⟨s, hs, hu⟩ := Option.bind_eq_some_iff.1 hu
  have hs := eq_ok_of_toOption hs
  have hu := eq_ok_of_toOption hu
  obtain ⟨-, -, -, -, -, -, -, -, -, hmember, hanalysis⟩ := types_stay_canonical
  have hcanonical := hanalysis (some fieldOfLaterUnion) {} s trivial hs
  exact ⟨s, u, hs, hu, of_decide_eq_true hkinds, hcanonical,
    hmember s 1 none _ u _ hcanonical (Ty.canonical_ref _ _) hu⟩

end TypedScript
