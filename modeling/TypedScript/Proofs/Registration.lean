import TypedScript.Proofs.Lineage.Endings

/-!
# What a failed declaration leaves behind

A declaration is registered in several steps, and most of them may fail. Functions,
interfaces, enums and aliases are declared in the last step that can, so a failure leaves
every scope as it was. A class is declared before its members are read, since they may
mention it. If a later step fails the name stays declared, for the class without members.
-/
namespace TypedScript

namespace Scopes

variable {changed : List (Option ScopeId)} {s t u : Scopes}

/-- The same scopes are in force, and none but these has other symbols than before. Scopes
may have been entered and left in the meantime. -/
structure SameBut (changed : List (Option ScopeId)) (s t : Scopes) : Prop where
  locals : t.locals = s.locals
  size_le : s.entered.size ≤ t.entered.size
  slot : ∀ i, s.HasSlot i → i ∉ changed → t.slot i = s.slot i
  nextId_le : s.nextId ≤ t.nextId

lemma HasSlot.mono {i : Option ScopeId} (h : s.HasSlot i)
    (hsize : s.entered.size ≤ t.entered.size) : t.HasSlot i := by
  intro j hj
  exact Nat.lt_of_lt_of_le (h j hj) hsize

namespace SameBut

lemma refl (s : Scopes) : SameBut changed s s :=
  ⟨rfl, Nat.le_refl _, fun _ _ _ => rfl, Nat.le_refl _⟩

lemma trans (h : SameBut changed s t) (k : SameBut changed t u) : SameBut changed s u where
  locals := k.locals.trans h.locals
  size_le := Nat.le_trans h.size_le k.size_le
  slot i hi hni := (k.slot i (hi.mono h.size_le) hni).trans (h.slot i hi hni)
  nextId_le := Nat.le_trans h.nextId_le k.nextId_le

lemma mono {changed' : List (Option ScopeId)} (h : SameBut changed s t)
    (hsub : changed ⊆ changed') : SameBut changed' s t :=
  ⟨h.locals, h.size_le, fun i hi hni => h.slot i hi fun hmem => hni (hsub hmem), h.nextId_le⟩

/-- A scope that is entered and left again is none of those before. -/
lemma leave (h : SameBut [some s.entered.size] s.enter t) (depth : Nat) :
    SameBut changed s (t.reattach s.locals depth) where
  locals := rfl
  size_le := by
    have hsize : s.enter.entered.size ≤ t.entered.size := h.size_le
    simp only [enter, Array.size_push] at hsize
    simp only [reattach]
    omega
  slot i hi _ := by
    have hnew : i ∉ [some s.entered.size] := by
      intro hmem
      exact Nat.lt_irrefl _ (hi _ (List.mem_singleton.1 hmem))
    have hsize : s.entered.size ≤ s.enter.entered.size := by simp [enter]
    calc (t.reattach s.locals depth).slot i = t.slot i := by cases i <;> rfl
      _ = s.enter.slot i := h.slot i (hi.mono hsize) hnew
      _ = s.slot i := s.slot_enter i
  nextId_le := h.nextId_le

end SameBut

@[simp] lemma locals_modifySlot (s : Scopes) (i : Option ScopeId) (f : Scope → Scope) :
    (s.modifySlot i f).locals = s.locals := by
  cases i <;> rfl

@[simp] lemma size_modifySlot (s : Scopes) (i : Option ScopeId) (f : Scope → Scope) :
    (s.modifySlot i f).entered.size = s.entered.size := by
  cases i <;> simp [modifySlot, modifyScope]

@[simp] lemma nextId_modifySlot (s : Scopes) (i : Option ScopeId) (f : Scope → Scope) :
    (s.modifySlot i f).nextId = s.nextId := by
  cases i <;> rfl

lemma slot_modifySlot_of_ne {i j : Option ScopeId} (h : j ≠ i) (f : Scope → Scope) :
    (s.modifySlot i f).slot j = s.slot j := by
  cases i with
  | none => cases j <;> simp_all [modifySlot, slot, scope]
  | some i =>
    cases j with
    | none => rfl
    | some j =>
      have hne : i ≠ j := by simpa [eq_comm] using h
      simp [modifySlot, slot, scope, modifyScope, Array.getD_eq_getD_getElem?,
        Array.getElem?_modify, hne]

/-- The scopes with another symbol at the end of the innermost one. -/
def withSymbol (s : Scopes) (x : Symbol) : Scopes := s.modifySlot s.locals.head? (· ++ [x])

@[simp] lemma locals_withSymbol (s : Scopes) (x : Symbol) :
    (s.withSymbol x).locals = s.locals :=
  s.locals_modifySlot _ _

@[simp] lemma size_withSymbol (s : Scopes) (x : Symbol) :
    (s.withSymbol x).entered.size = s.entered.size :=
  s.size_modifySlot _ _

@[simp] lemma nextId_withSymbol (s : Scopes) (x : Symbol) :
    (s.withSymbol x).nextId = s.nextId :=
  s.nextId_modifySlot _ _

/-- Declaring adds a symbol to the innermost scope. -/
lemma sameBut_define {name : String} {kind : SymbolKind} {type : Option Ty} {isConst : Bool}
    {origin : Origin} {x : Symbol} (h : s.define name kind type isConst origin = .ok (x, t)) :
    x = ⟨s.nextId, name, kind, type, isConst, origin⟩ ∧ (s.withSymbol x).SameBut [] t := by
  obtain ⟨hx, -, rfl⟩ := define_eq_ok h
  have hid : (s.withSymbol x).nextId ≤ s.nextId + 1 := by simp
  exact ⟨hx, rfl, Nat.le_refl _, fun i _ _ => by cases i <;> rfl, hid⟩

lemma sameBut_withSymbol (s : Scopes) (x : Symbol) :
    s.SameBut [s.locals.head?] (s.withSymbol x) where
  locals := s.locals_withSymbol x
  size_le := by simp
  slot i _ hi := slot_modifySlot_of_ne (by simpa using hi) _
  nextId_le := by simp

lemma mem_slot_withSymbol {x y : Symbol} {i : Option ScopeId}
    (h : y ∈ (s.withSymbol x).slot i) : y ∈ s.slot i ∨ y = x := by
  obtain h | h := mem_slot_modifySlot h
  · exact .inl h
  · simpa using h

lemma slot_withSymbol (hs : s.outline.Orderly) (x : Symbol) (i : Option ScopeId) :
    (s.withSymbol x).slot i = if i = s.locals.head? then s.slot i ++ [x] else s.slot i := by
  rw [withSymbol, slot_modifySlot (hasSlot_current hs), Function.update_apply]
  split
  · rename_i h
    rw [h]
  · rfl

end Scopes

namespace Check

variable {α β : Type} {c d : Check α} {f : α → Check β}
variable {changed : List ScopeId → List (Option ScopeId)}

/-- The check changes nothing at all. -/
def Reads (c : Check α) : Prop := ∀ s, (c s).2 = s

namespace Reads

lemma pure (a : α) : (Pure.pure a : Check α).Reads := fun _ => rfl

lemma fail (d : Diagnostic) : (Check.fail d : Check α).Reads := fun _ => rfl

lemma bind (hc : c.Reads) (hf : ∀ a, (f a).Reads) : (c >>= f).Reads := by
  intro s
  have hcs := hc s
  rw [run_bind]
  rcases hrun : c s with ⟨e | a, t⟩ <;> rw [hrun] at hcs
  · exact hcs
  · exact (hf a t).trans hcs

/-- To read the session and go on by what was read. -/
lemma read {f : Session → Check α} (hf : ∀ s, (f s).Reads) : (get >>= f).Reads :=
  fun s => hf s s

lemma ite {p : Prop} [Decidable p] (hc : c.Reads) (hd : d.Reads) :
    (if p then c else d).Reads := by
  split
  · exact hc
  · exact hd

/-- A value that is found in one of two ways, and what is done with it. -/
lemma bindIte {p : Prop} [Decidable p] (hc : c.Reads) (hd : d.Reads) (hf : ∀ a, (f a).Reads) :
    (if p then c >>= f else d >>= f).Reads :=
  .ite (.bind hc hf) (.bind hd hf)

/-- A step that is taken on a condition, and what follows it either way. -/
lemma onlyIf {p : Prop} [Decidable p] {c : Check Unit} {next : Unit → Check β} (hc : c.Reads)
    (hn : ∀ a, (next a).Reads) : (if p then c >>= next else next ()).Reads :=
  .ite (.bind hc hn) (hn ())

lemma lookup? (name : String) : (Check.lookup? name).Reads := .read fun _ => .pure _

lemma failAt (d : String → Diagnostic) :
    (file >>= fun f => Check.fail (d f) : Check α).Reads :=
  .read fun _ => .fail _

lemma refuse (code : String) (place : Location) (label message help : String) :
    (Check.refuse code place label message help : Check α).Reads :=
  .failAt _

end Reads

/-- The check changes the symbols of these scopes at most, which depend on those in force. -/
def Alters (changed : List ScopeId → List (Option ScopeId)) (c : Check α) : Prop :=
  ∀ s : Session, s.scopes.SameBut (changed s.scopes.locals) (c s).2.scopes

/-- No scope. -/
def nowhere : List ScopeId → List (Option ScopeId) := fun _ => []

/-- The innermost scope. -/
def innermost : List ScopeId → List (Option ScopeId) := fun locals => [locals.head?]

/-- A scope that is still the innermost one is left with what was put into the others. -/
lemma run_inScope {s : Session}
    (h : (c s.enterScope.1).2.scopes.locals = s.scopes.entered.size :: s.scopes.locals) :
    Check.during Session.enterScope c s = ((c s.enterScope.1).1, { (c s.enterScope.1).2 with
      scopes := (c s.enterScope.1).2.scopes.reattach s.scopes.locals
        ((c s.enterScope.1).2.scopes.depth - 1) }) := by
  refine run_during ?_
  simp only [Session.enterScope, Undo.run, Session.exitScope, Scopes.exit] at h ⊢
  rw [h]
  rfl

lemma Reads.alters (h : c.Reads) : c.Alters changed := by
  intro s
  rw [h s]
  exact .refl _

namespace Alters

lemma bind (hc : c.Alters changed) (hf : ∀ a, (f a).Alters changed) :
    (c >>= f).Alters changed := by
  intro s
  have hcs := hc s
  rw [run_bind]
  rcases hrun : c s with ⟨e | a, t⟩ <;> rw [hrun] at hcs
  · exact hcs
  · have hft := hf a t
    rw [hcs.locals] at hft
    exact hcs.trans hft

lemma ite {p : Prop} [Decidable p] (hc : c.Alters changed) (hd : d.Alters changed) :
    (if p then c else d).Alters changed := by
  split
  · exact hc
  · exact hd

/-- What is done inside a scope of its own shows nowhere. -/
lemma during (hc : c.Alters innermost) : (Check.during Session.enterScope c).Alters changed := by
  intro s
  have hcs := hc s.enterScope.1
  rw [run_inScope hcs.locals]
  exact Scopes.SameBut.leave hcs _

end Alters

/-- A run from `s` ends in `P` with a result, and in `Q` with a fault. -/
def EndsAt (s : Session) (c : Check α) (P : α → Session → Prop) (Q : Session → Prop) : Prop :=
  c.GivesAt s P ∧ ∀ e t, c s = (.error e, t) → Q t

lemma EndsAt.bind {s : Session} {P : α → Session → Prop} {P' : β → Session → Prop}
    {Q : Session → Prop} (hc : c.EndsAt s P Q) (hf : ∀ a t, P a t → (f a).EndsAt t P' Q) :
    (c >>= f).EndsAt s P' Q := by
  refine ⟨fun b t h => ?_, fun e t h => ?_⟩
  all_goals
    rw [run_bind] at h
    rcases hrun : c s with ⟨e' | a, u⟩ <;> rw [hrun] at h
  · cases h
  · exact (hf a u (hc.1 a u hrun)).1 b t h
  · cases h
    exact hc.2 _ _ hrun
  · exact (hf a u (hc.1 a u hrun)).2 e t h

lemma EndsAt.mono {s : Session} {P P' : α → Session → Prop} {Q Q' : Session → Prop}
    (h : c.EndsAt s P Q) (hP : ∀ a t, P a t → P' a t) (hQ : ∀ t, Q t → Q' t) :
    c.EndsAt s P' Q' :=
  ⟨fun a t hrun => hP a t (h.1 a t hrun), fun e t hrun => hQ t (h.2 e t hrun)⟩

lemma EndsAt.inScope {s : Session} {P : α → Scopes → Prop} {Q : Scopes → Prop}
    (h : c.EndsAt s.enterScope.1
      (fun a t => t.scopes.locals = s.scopes.entered.size :: s.scopes.locals ∧
        P a (t.scopes.reattach s.scopes.locals (t.scopes.depth - 1)))
      fun t => t.scopes.locals = s.scopes.entered.size :: s.scopes.locals ∧
        Q (t.scopes.reattach s.scopes.locals (t.scopes.depth - 1))) :
    (Check.during Session.enterScope c).EndsAt s (fun a t => P a t.scopes) fun t => Q t.scopes := by
  rcases hrun : c s.enterScope.1 with ⟨e | a, u⟩
  · obtain ⟨hlocals, hQ⟩ := h.2 e u hrun
    refine ⟨fun b t hb => ?_, fun e' t he => ?_⟩
    all_goals rw [run_inScope (by rw [hrun]; exact hlocals), hrun] at *
    · cases hb
    · cases he
      exact hQ
  · obtain ⟨hlocals, hP⟩ := h.1 a u hrun
    refine ⟨fun b t hb => ?_, fun e' t he => ?_⟩
    all_goals rw [run_inScope (by rw [hrun]; exact hlocals), hrun] at *
    · cases hb
      exact hP
    · cases he

/-- A fault leaves the scopes as they were. -/
def Atomic (c : Check α) : Prop :=
  ∀ s e t, c s = (.error e, t) → s.scopes.SameBut [] t.scopes

lemma Atomic.bind (hc : c.Alters nowhere) (hf : ∀ a, (f a).Atomic) : (c >>= f).Atomic := by
  intro s e t h
  have hcs := hc s
  rw [run_bind] at h
  rcases hrun : c s with ⟨e' | a, u⟩ <;> rw [hrun] at h hcs
  · cases h
    exact hcs
  · exact hcs.trans (hf a u e t h)

/-- What fails to be declared is not there, and what is declared last cannot fail any more. -/
lemma declare_atomic (name : Ident) (kind : SymbolKind) (type : Ty) (isConst : Bool)
    (origin : Origin) (style : Style) (line : String) :
    (declare name kind type isConst origin >>= fun _ => trace style line).Atomic := by
  intro s e t h
  rw [run_bind, run_declare] at h
  cases hnamed : s.scopes.current.named? name.name with
  | some earlier =>
    rw [hnamed] at h
    cases h
    exact .refl _
  | none =>
    rw [hnamed, run_define] at h
    cases hdefine : s.scopes.define name.name kind (some type) isConst origin with
    | error e =>
      rw [hdefine] at h
      cases h
      exact .refl _
    | ok r =>
      rw [hdefine] at h
      cases h

end Check

namespace Declare

open Check

/-! ## Steps that only read -/

lemma resolve_reads (place : Location) (a : Annotation) : (resolve place a).Reads := by
  refine .read fun s => ?_
  split
  · exact .pure _
  · exact .refuse _ _ _ _ _

lemma typeParamBounds_reads (ps : List TypeParamDecl) : (typeParamBounds ps).Reads := by
  induction ps with
  | nil => exact .pure _
  | cons p ps ih =>
    exact .bindIte (.pure _) (.bind (resolve_reads _ _) fun _ => .pure _) fun _ =>
      .bind ih fun _ => .pure _

lemma parent_reads (d : ClassDecl) : (parent d).Reads := by
  unfold parent
  split
  · exact .pure _
  · refine .bind (.lookup? _) fun x => ?_
    split
    · exact .failAt _
    · split
      · exact .pure _
      · exact .failAt _

lemma fields_reads (c : Class) (fs : List FieldDecl) : (fields c fs).Reads := by
  induction fs generalizing c with
  | nil => exact .pure _
  | cons f fs ih =>
    exact .onlyIf (.failAt _) fun _ => .bindIte (.pure _) (resolve_reads _ _) fun _ => ih _

lemma inherited_reads (bases : List Ident) : (inherited bases).Reads := by
  induction bases with
  | nil => exact .pure _
  | cons base rest ih =>
    refine .bind (.lookup? _) fun x => ?_
    split
    · exact .failAt _
    · split
      · exact .bind ih fun _ => .pure _
      · exact .refuse _ _ _ _ _

lemma properties_reads (ps : List PropertyDecl) : (properties ps).Reads := by
  induction ps with
  | nil => exact .pure _
  | cons p ps ih => exact .bind (resolve_reads _ _) fun _ => .bind ih fun _ => .pure _

lemma enumMembers_reads (next : Int) (done : List EnumMember) (ms : List EnumMemberDecl) :
    (enumMembers next done ms).Reads := by
  induction ms generalizing next done with
  | nil => exact .pure _
  | cons m ms ih =>
    refine .onlyIf (.failAt _) fun _ => ?_
    split
    · exact ih _ _
    · split
      · exact ih _ _
      · exact ih _ _
      · exact .refuse _ _ _ _ _

/-! ## Steps that define type parameters -/

lemma typeParamNames_alters (ps : List TypeParamDecl) : (typeParamNames ps).Alters innermost := by
  induction ps with
  | nil => exact (Reads.pure _).alters
  | cons p ps ih =>
    intro s
    rw [typeParamNames, run_bind, run_get]
    dsimp only
    cases hdefine : s.scopes.define p.name .typeParam (some (.param p.name)) false .unknown with
    | error e => exact .refl _
    | ok r =>
      obtain ⟨x, scopes⟩ := r
      dsimp only
      have hdefined : s.scopes.SameBut [s.scopes.locals.head?] scopes :=
        (s.scopes.sameBut_withSymbol x).trans ((Scopes.sameBut_define hdefine).2.mono (by simp))
      have hrest : scopes.SameBut [scopes.locals.head?]
          (typeParamNames ps { s with scopes }).2.scopes := ih { s with scopes }
      rw [hdefined.locals] at hrest
      exact hdefined.trans hrest

/-- Type parameters are new symbols. -/
lemma typeParamNames_later (ps : List TypeParamDecl) (s : Session) (i : Option ScopeId) :
    ∀ y ∈ (typeParamNames ps s).2.scopes.slot i, y ∈ s.scopes.slot i ∨ s.scopes.nextId ≤ y.id := by
  induction ps generalizing s with
  | nil => exact fun y hy => .inl hy
  | cons p ps ih =>
    rw [typeParamNames, run_bind, run_get]
    dsimp only
    cases hdefine : s.scopes.define p.name .typeParam (some (.param p.name)) false .unknown with
    | error e => exact fun y hy => .inl hy
    | ok r =>
      obtain ⟨x, scopes⟩ := r
      obtain ⟨rfl, -, rfl⟩ := Scopes.define_eq_ok hdefine
      intro y hy
      obtain hy | hy := ih _ y hy
      · obtain hy | rfl :=
          Scopes.mem_slot_withSymbol (s := s.scopes) (i := i) (by cases i <;> exact hy)
        · exact .inl hy
        · exact .inr (Nat.le_refl _)
      · exact .inr (Nat.le_trans (Nat.le_succ _) hy)

lemma typeParams_alters (ps : List TypeParamDecl) : (typeParams ps).Alters innermost :=
  .bind (typeParamNames_alters ps) fun _ => (typeParamBounds_reads ps).alters

lemma signature_alters (tps : List TypeParamDecl) (params : List ParamDecl) (result : Annotation)
    (isAsync : Bool) (place : Location) {changed : List ScopeId → List (Option ScopeId)} :
    (signature tps params result isAsync place).Alters changed := by
  refine .during (.bind (typeParams_alters tps) fun _ => Reads.alters (.read fun s => ?_))
  split
  · exact .refuse _ _ _ _ _
  · exact .ite (.pure _) (.ite (.pure _) (.pure _))

lemma methods_alters (c : Class) (ms : List Callable) : (methods c ms).Alters nowhere := by
  induction ms generalizing c with
  | nil => exact (Reads.pure _).alters
  | cons m ms ih =>
    have hnext : (callableSignature m >>= fun sig => methods (c.withMethod
        ⟨m.name.name, .function sig, m.visibility, m.isStatic, false, ""⟩) ms).Alters nowhere :=
      .bind (signature_alters _ _ _ _ _) fun _ => ih _
    exact .ite (.bind (Reads.failAt _).alters fun _ => hnext) hnext

/-! ## What is declared last -/

lemma function_atomic (f : Callable) : (function f).Atomic :=
  .bind (signature_alters _ _ _ _ _) fun _ => declare_atomic _ _ _ _ _ _ _

lemma interface_atomic (d : InterfaceDecl) : (interface d).Atomic := by
  have hshape : (during Session.enterScope do
      let tps ← typeParams d.typeParams
      let base ← inherited d.bases
      let own ← properties d.properties
      return (⟨d.name.name, ByName.ofList Property.name (base ++ own), tps⟩ : Interface)).Alters
        nowhere :=
    .during (.bind (typeParams_alters _) fun _ => Reads.alters (.bind (inherited_reads _) fun _ =>
      .bind (properties_reads _) fun _ => .pure _))
  exact .bind hshape fun _ => declare_atomic _ _ _ _ _ _ _

lemma enum_atomic (d : EnumDecl) : (enum d).Atomic :=
  .bind (enumMembers_reads _ _ _).alters fun _ => declare_atomic _ _ _ _ _ _ _

lemma typeAlias_atomic (d : AliasDecl) : (typeAlias d).Atomic := by
  have hbody : (during Session.enterScope do
      let _ ← typeParams d.typeParams
      resolve d.location d.type).Alters nowhere :=
    .during (.bind (typeParams_alters _) fun _ => (resolve_reads _ _).alters)
  exact .bind hbody fun _ => declare_atomic _ _ _ _ _ _ _

end Declare

/-! ## Classes -/

namespace ClassDecl

/-- The class of a declaration with type parameters and without members. -/
def bare (d : ClassDecl) (parent : Option Class) (typeParams : List TypeParam) : Class :=
  { Class.empty d.name.name parent with isAbstract := d.isAbstract, typeParams }

/-- The symbol of a declaration while it stands for this class. -/
def symbol (d : ClassDecl) (id : SymbolId) (c : Class) : Symbol :=
  ⟨id, d.name.name, .cls, some (.cls c), false, .cls d⟩

end ClassDecl

lemma Scope.retype_append (g h : Scope) (name : String) (t : Ty) :
    (g ++ h).retype name t = g.retype name t ++ h.retype name t :=
  List.map_append

/-- A name that a scope does not have gets no other type there. -/
lemma Scope.retype_of_free {g : Scope} {name : String} {t : Ty} (h : ∀ x ∈ g, x.name ≠ name) :
    g.retype name t = g := by
  conv_rhs => rw [← List.map_id g]
  exact List.map_congr_left fun x hx => if_neg (h x hx)

namespace Scopes

variable {s t : Scopes} {d : ClassDecl} {c : Class} {changed : List (Option ScopeId)}

/-- A class that was declared last gets another type by its number, and nothing else does. -/
lemma sameBut_retypeSymbol (hs : s.outline.Orderly) (c' : Class)
    (h : (s.withSymbol (d.symbol s.nextId c)).enter.SameBut changed t) :
    (s.withSymbol (d.symbol s.nextId c')).enter.SameBut changed
      (t.retypeSymbol s.nextId (.cls c')) where
  locals := by
    have hlocals := h.locals
    simpa [enter, retypeSymbol] using hlocals
  size_le := by
    have hsize := h.size_le
    simpa [enter, retypeSymbol] using hsize
  slot i hi hni := by
    have hold : ∀ x ∈ s.slot i, x.id ≠ s.nextId := by
      intro x hx
      have hlt : x.heading.id < s.nextId := hs.numbered i _ (mem_headings hx)
      exact Nat.ne_of_lt hlt
    have hkept : (s.slot i).map (fun x => if x.id = s.nextId then { x with type := some (.cls c') }
        else x) = s.slot i := by
      conv_rhs => rw [← List.map_id (s.slot i)]
      exact List.map_congr_left fun x hx => if_neg (hold x hx)
    have hslot : (s.withSymbol (d.symbol s.nextId c)).enter.HasSlot i := by
      intro j hj
      have := hi j hj
      simpa [enter] using this
    rw [slot_retypeSymbol, h.slot i hslot hni, slot_enter, slot_enter, slot_withSymbol hs,
      slot_withSymbol hs]
    split
    · rw [List.map_append, hkept]
      simp [ClassDecl.symbol]
    · exact hkept
  nextId_le := by
    have hnext := h.nextId_le
    simpa [enter, retypeSymbol] using hnext

end Scopes

/-- The class is being registered: it is the last symbol declared in `s`, it stands for `c`, and
the scope of its type parameters is entered. -/
structure ClassDecl.Underway (d : ClassDecl) (s : Scopes) (c : Class) (u : Scopes) : Prop
    extends Scopes.SameBut [some s.entered.size] (s.withSymbol (d.symbol s.nextId c)).enter u where
  own : ∀ y ∈ u.slot (some s.entered.size), y.id ≠ s.nextId
  later : s.nextId < u.nextId

namespace ClassDecl.Underway

open Check

variable {d : ClassDecl} {s u v : Scopes} {c : Class} {α : Type}

lemma locals_eq (h : d.Underway s c u) : u.locals = s.entered.size :: s.locals := by
  have hlocals := h.locals
  simpa [Scopes.enter] using hlocals

lemma hasSlot (h : d.Underway s c u) : u.HasSlot (some s.entered.size) := by
  rintro j ⟨⟩
  have hsize := h.size_le
  simp only [Scopes.enter, Array.size_push, Scopes.size_withSymbol] at hsize
  exact hsize

lemma size_le_of (h : d.Underway s c u) : s.entered.size ≤ u.entered.size :=
  Nat.le_of_lt (h.hasSlot _ rfl)

lemma start {x : Symbol}
    (h : s.define d.name.name .cls (some (.cls c)) false (.cls d) = .ok (x, u)) :
    x = d.symbol s.nextId c ∧ d.Underway s c u.enter := by
  obtain ⟨rfl, -, rfl⟩ := Scopes.define_eq_ok h
  have hnew (x : Symbol) : (s.withSymbol x).enter.slot (some s.entered.size) = [] := by
    calc (s.withSymbol x).enter.slot (some s.entered.size)
        = (s.withSymbol x).scope s.entered.size := Scopes.scope_enter _ _
      _ = [] := by simp [Scopes.scope, Array.getD_eq_getD_getElem?]
  refine ⟨rfl, ⟨rfl, Nat.le_refl _, fun i _ _ => by cases i <;> rfl, ?_⟩, fun y hy => ?_, ?_⟩
  · exact Nat.le_trans (by simp [Scopes.enter]) (Nat.le_succ _)
  · exact absurd (hnew _ ▸ hy : y ∈ []) List.not_mem_nil
  · exact Nat.lt_succ_self _

/-- What changes no scope leaves the class as it is. -/
lemma alters {b : Check α} {t : Session} (h : d.Underway s c t.scopes) (hb : b.Alters nowhere) :
    d.Underway s c (b t).2.scopes where
  toSameBut := h.toSameBut.trans ((hb t).mono (List.nil_subset _))
  own := by
    rw [(hb t).slot _ h.hasSlot List.not_mem_nil]
    exact h.own
  later := Nat.lt_of_lt_of_le h.later (hb t).nextId_le

lemma typeParamNames {t : Session} (h : d.Underway s c t.scopes) (ps : List TypeParamDecl) :
    d.Underway s c (Declare.typeParamNames ps t).2.scopes := by
  have hsame := Declare.typeParamNames_alters ps t
  have hinnermost : innermost t.scopes.locals = [some s.entered.size] := by
    rw [h.locals_eq]
    rfl
  rw [hinnermost] at hsame
  refine ⟨h.toSameBut.trans hsame, fun y hy => ?_, Nat.lt_of_lt_of_le h.later hsame.nextId_le⟩
  obtain hy | hy := Declare.typeParamNames_later ps t _ y hy
  · exact h.own y hy
  · exact Nat.ne_of_gt (Nat.lt_of_lt_of_le h.later hy)

lemma retypeSymbol (h : d.Underway s c u) (hs : s.outline.Orderly) (c' : Class) :
    d.Underway s c' (u.retypeSymbol s.nextId (.cls c')) where
  toSameBut := Scopes.sameBut_retypeSymbol hs c' h.toSameBut
  own y hy := by
    rw [Scopes.slot_retypeSymbol] at hy
    obtain ⟨x, hx, rfl⟩ := List.mem_map.1 hy
    split
    · exact h.own x hx
    · exact h.own x hx
  later := h.later

/-- The scopes of before are as they were, but for the class at the end of the innermost one. -/
lemma slot_eq (h : d.Underway s c u) (hs : s.outline.Orderly) {i : Option ScopeId}
    (hi : s.HasSlot i) :
    u.slot i = if i = s.locals.head? then s.slot i ++ [d.symbol s.nextId c] else s.slot i := by
  have hnew : i ∉ [some s.entered.size] := by
    intro hmem
    exact Nat.lt_irrefl _ (hi _ (List.mem_singleton.1 hmem))
  rw [← Scopes.slot_withSymbol hs, ← Scopes.slot_enter (s.withSymbol _)]
  refine h.slot i (hi.mono ?_) hnew
  simp [Scopes.enter]

/-- In the scopes in force, the number of the class stands where it was declared. -/
lemma eq_current (h : d.Underway s c u) (hs : s.outline.Orderly) {i : Option ScopeId} {y : Symbol}
    (hi : ∀ j, i = some j → j ∈ u.locals) (hy : y ∈ u.slot i) (hid : y.id = s.nextId) :
    i = s.locals.head? := by
  have hslot : s.HasSlot i := by
    rintro j rfl
    have hj := hi j rfl
    rw [h.locals_eq] at hj
    obtain rfl | hj := List.mem_cons.1 hj
    · exact absurd hid (h.own y hy)
    · exact hs.local_lt hj
  by_contra hne
  rw [h.slot_eq hs hslot, if_neg hne] at hy
  have hlt : y.heading.id < s.nextId := hs.numbered i _ (Scopes.mem_headings hy)
  exact Nat.ne_of_lt hlt hid

/-- The class gets another type by its name too, if the name was free. -/
lemma update (h : d.Underway s c u) (hs : s.outline.Orderly)
    (hfree : ∀ y ∈ s.slot s.locals.head?, y.name ≠ d.name.name) {c' : Class}
    (hv : u.updateSymbol s.nextId d.name.name (.cls c') = .ok v) : d.Underway s c' v := by
  obtain ⟨y, i, -, hid, hi, hmem, rfl⟩ := Scopes.exists_slot_of_updateSymbol hv
  obtain rfl := h.eq_current hs hi hmem hid
  have hcurrent := Scopes.hasSlot_current hs
  refine ⟨⟨?_, ?_, fun j hj hnj => ?_, ?_⟩, ?_, ?_⟩
  · rw [Scopes.locals_modifySlot, h.locals]
    simp [Scopes.enter]
  · have hsize := h.size_le
    simpa [Scopes.enter] using hsize
  · have hjs : s.HasSlot j := by
      rintro k rfl
      have hk := hj k rfl
      simp only [Scopes.enter, Array.size_push, Scopes.size_withSymbol] at hk
      have hne : k ≠ s.entered.size := by simpa using hnj
      exact Nat.lt_of_le_of_ne (Nat.le_of_lt_succ hk) hne
    rw [Scopes.slot_enter, Scopes.slot_withSymbol hs]
    split
    · rename_i hjc
      subst hjc
      rw [Scopes.slot_modifySlot (hcurrent.mono h.size_le_of), Function.update_self,
        h.slot_eq hs hcurrent, if_pos rfl, Scope.retype_append, Scope.retype_of_free hfree]
      simp [Scope.retype, symbol]
    · rename_i hjc
      rw [Scopes.slot_modifySlot_of_ne hjc, h.slot_eq hs hjs, if_neg hjc]
  · have hnext := h.nextId_le
    simpa [Scopes.enter] using hnext
  · rw [Scopes.slot_modifySlot_of_ne fun hnew => ?_]
    · exact h.own
    · exact Nat.lt_irrefl _ (hcurrent _ hnew.symm)
  · simpa using h.later

/-- The class is left as the last symbol of the scope it was declared in. -/
lemma leave (h : d.Underway s c u) (depth : Nat) :
    (s.withSymbol (d.symbol s.nextId c)).SameBut [] (u.reattach s.locals depth) := by
  have hsame := h.toSameBut
  rw [← Scopes.size_withSymbol s (d.symbol s.nextId c)] at hsame
  have hleft : (s.withSymbol (d.symbol s.nextId c)).SameBut []
      (u.reattach (s.withSymbol (d.symbol s.nextId c)).locals depth) := .leave hsame depth
  rwa [Scopes.locals_withSymbol] at hleft

end ClassDecl.Underway

namespace Declare

open Check

variable {d : ClassDecl} {s : Scopes} {parent : Option Class}

lemma setType_endsAt (hs : s.outline.Orderly) {t : Session} {c : Class} {Q : Session → Prop}
    (h : d.Underway s c t.scopes) (c₀ c' : Class) :
    (setType (d.symbol s.nextId c₀) (.cls c')).EndsAt t
      (fun _ u => d.Underway s c' u.scopes) Q := by
  refine ⟨fun _ u hrun => ?_, fun _ u hrun => ?_⟩
  · cases hrun
    exact h.retypeSymbol hs c'
  · cases hrun

/-- The type parameters of a class are found, or it is left without them. -/
lemma classTypeParams_endsAt (hs : s.outline.Orderly) {t : Session} (c₀ : Class)
    (h : d.Underway s (d.bare parent []) t.scopes) :
    (classTypeParams (d.symbol s.nextId c₀) (d.bare parent []) d.typeParams).EndsAt t
      (fun c u => ∃ tps, c = d.bare parent tps ∧ d.Underway s c u.scopes)
      fun u => ∃ tps, d.Underway s (d.bare parent tps) u.scopes := by
  have hnames := h.typeParamNames d.typeParams
  refine .bind (P := fun _ u => d.Underway s (d.bare parent []) u.scopes)
    ⟨fun _ u hrun => ?_, fun _ u hrun => ?_⟩ fun _ u hu => ?_
  · rwa [hrun] at hnames
  · rw [hrun] at hnames
    exact ⟨[], hnames⟩
  refine .bind (setType_endsAt hs hu c₀ _) fun _ v hv => ?_
  refine .bind (P := fun _ w => d.Underway s
    (d.bare parent (d.typeParams.map fun p => ⟨p.name, none⟩)) w.scopes) ?_ fun tps w hw => ?_
  · have hbounds := typeParamBounds_reads d.typeParams v
    refine ⟨fun tps w hrun => ?_, fun e w hrun => ?_⟩
    all_goals
      rw [run_tryCatch] at hrun
      rcases hrun' : typeParamBounds d.typeParams v with ⟨e' | tps', v'⟩
      all_goals
        rw [hrun'] at hrun hbounds
        obtain rfl : v' = v := hbounds
    · cases hrun
    · cases hrun
      exact hv
    · cases hrun
      exact ⟨[], hv.retypeSymbol hs _⟩
    · cases hrun
  · refine .bind (setType_endsAt hs hw c₀ (d.bare parent tps)) fun _ w' hw' => ?_
    refine ⟨fun c u hrun => ?_, fun _ u hrun => ?_⟩
    · cases hrun
      exact ⟨tps, rfl, hw'⟩
    · cases hrun

/-- A step that changes no scope, while a class is being registered. -/
lemma step_endsAt {α : Type} {b : Check α} {t : Session} {tps : List TypeParam} {P : α → Prop}
    (h : d.Underway s (d.bare parent tps) t.scopes) (hb : b.Alters nowhere) (hP : b.Gives P) :
    b.EndsAt t (fun a u => P a ∧ d.Underway s (d.bare parent tps) u.scopes)
      fun u => ∃ tps, d.Underway s (d.bare parent tps) u.scopes := by
  have hstep := h.alters hb
  refine ⟨fun a u hrun => ?_, fun e u hrun => ?_⟩
  all_goals rw [hrun] at hstep
  · exact ⟨hP t a u hrun, hstep⟩
  · exact ⟨tps, hstep⟩

/-- A class that is registered whole gets its members last of all. -/
lemma retype_endsAt (hs : s.outline.Orderly)
    (hfree : ∀ y ∈ s.slot s.locals.head?, y.name ≠ d.name.name) {t : Session}
    {tps : List TypeParam} {c : Class} (h : d.Underway s (d.bare parent tps) t.scopes)
    (hc : c.heritage = ⟨d.name.name, parent⟩) (c₀ : Class) (style : Style) (line : String) :
    (retype (d.symbol s.nextId c₀) (.cls c) >>= fun _ => trace style line).EndsAt t
      (fun _ u => ∃ c, c.heritage = ⟨d.name.name, parent⟩ ∧ d.Underway s c u.scopes)
      fun u => ∃ tps, d.Underway s (d.bare parent tps) u.scopes := by
  refine .bind (P := fun _ u => d.Underway s c u.scopes) ⟨fun _ u hrun => ?_, fun _ u hrun => ?_⟩
    fun _ u hu => ⟨fun _ v hrun => ?_, fun _ v hrun => ?_⟩
  · rw [run_retype] at hrun
    split at hrun
    · rename_i scopes hupdate
      cases hrun
      exact h.update hs hfree hupdate
    · cases hrun
  · rw [run_retype] at hrun
    split at hrun
    · cases hrun
    · cases hrun
      exact ⟨tps, h⟩
  · cases hrun
    exact ⟨c, hc, hu⟩
  · cases hrun

/-- Once its superclass is found and its name is free, a class is registered whole, or what is
left of it is the class without members. -/
lemma cls_endsAt {s : Session} (hs : s.scopes.outline.Orderly)
    (hparent : (Declare.parent d s).1 = .ok parent)
    (hfree : s.scopes.current.named? d.name.name = none) :
    (cls d).EndsAt s
      (fun _ t => ∃ c, c.heritage = ⟨d.name.name, parent⟩ ∧
        (s.scopes.withSymbol (d.symbol s.scopes.nextId c)).SameBut [] t.scopes)
      fun t => ∃ tps,
        (s.scopes.withSymbol (d.symbol s.scopes.nextId (d.bare parent tps))).SameBut []
          t.scopes := by
  refine .bind (P := fun parent' t => parent' = parent ∧ t = s) ?_ ?_
  · have hreads := parent_reads d s
    refine ⟨fun a t hrun => ?_, fun e t hrun => ?_⟩
    all_goals
      rw [hrun] at hparent hreads
      cases hparent
    exact ⟨rfl, hreads⟩
  rintro parent s ⟨rfl, rfl⟩
  refine .bind (P := fun x t => x = d.symbol s.scopes.nextId (d.bare parent []) ∧
    t.scopes.locals = s.scopes.locals ∧ t.scopes.entered.size = s.scopes.entered.size ∧
    (∀ y ∈ s.scopes.slot s.scopes.locals.head?, y.name ≠ d.name.name) ∧
    d.Underway s.scopes (d.bare parent []) t.enterScope.1.scopes)
    ⟨fun x t hrun => ?_, fun e t hrun => ?_⟩ ?_
  · obtain ⟨scopes, hdefine, rfl⟩ := define_of_run_declare hrun
    obtain ⟨hx, hunderway⟩ := ClassDecl.Underway.start hdefine
    obtain ⟨-, hnames, rfl⟩ := Scopes.define_eq_ok hdefine
    exact ⟨hx, by simp, by simp, hnames, hunderway⟩
  · rw [run_declare, hfree, run_define, Scopes.define, hfree] at hrun
    cases hrun
  rintro _ t ⟨rfl, hlocals, hsize, hnames, hunderway⟩
  have hleave {c : Class} {u : Session} (hu : d.Underway s.scopes c u.scopes) :
      u.scopes.locals = t.scopes.entered.size :: t.scopes.locals ∧
        (s.scopes.withSymbol (d.symbol s.scopes.nextId c)).SameBut []
          (u.scopes.reattach t.scopes.locals (u.scopes.depth - 1)) := by
    rw [hlocals, hsize]
    exact ⟨hu.locals_eq, hu.leave _⟩
  refine .inScope (P := fun _ v => ∃ c, c.heritage = ⟨d.name.name, parent⟩ ∧
      (s.scopes.withSymbol (d.symbol s.scopes.nextId c)).SameBut [] v)
    (Q := fun v => ∃ tps,
      (s.scopes.withSymbol (d.symbol s.scopes.nextId (d.bare parent tps))).SameBut [] v) ?_
  refine EndsAt.mono
    (P := fun _ u => ∃ c, c.heritage = ⟨d.name.name, parent⟩ ∧ d.Underway s.scopes c u.scopes)
    (Q := fun u => ∃ tps, d.Underway s.scopes (d.bare parent tps) u.scopes) ?_ ?_ ?_
  · refine .bind (classTypeParams_endsAt hs _ hunderway) ?_
    rintro _ u ⟨tps, rfl, hu⟩
    refine .bind (step_endsAt hu (fields_reads _ _).alters (fields_gives _ _)) fun c₁ u₁ h₁ => ?_
    obtain ⟨hheritage₁, hu₁⟩ := h₁
    refine .bind (step_endsAt hu₁ (methods_alters _ _) (methods_gives _ _)) fun c₂ u₂ h₂ => ?_
    obtain ⟨hheritage₂, hu₂⟩ := h₂
    have hc₂ : c₂.heritage = ⟨d.name.name, parent⟩ := hheritage₂.trans hheritage₁
    dsimp only
    split
    · exact retype_endsAt hs hnames hu₂ hc₂ _ _ _
    · refine .bind (step_endsAt (P := fun _ => True) hu₂ (signature_alters _ _ _ _ _)
        fun _ _ _ _ => trivial) fun sig u₃ h₃ => ?_
      exact retype_endsAt hs hnames h₃.2 (c := c₂.withConstructor (sig.withResult .void)) hc₂ _ _ _
  · rintro _ u ⟨c, hc, hu⟩
    exact ⟨(hleave hu).1, c, hc, (hleave hu).2⟩
  · rintro u ⟨tps, hu⟩
    exact ⟨(hleave hu).1, tps, (hleave hu).2⟩

/-- A class is not declared at all without its superclass, or where its name is taken. -/
lemma cls_refused {s : Session} (hrefused : ∀ parent, (Declare.parent d s).1 = .ok parent →
    s.scopes.current.named? d.name.name ≠ none) : s.scopes.SameBut [] (cls d s).2.scopes := by
  have hreads := parent_reads d s
  rw [cls, run_bind]
  rcases hparent : Declare.parent d s with ⟨e | parent, u⟩ <;> rw [hparent] at hreads
  · exact hreads ▸ .refl _
  · obtain rfl : u = s := hreads
    obtain ⟨earlier, hearlier⟩ := Option.ne_none_iff_exists'.1 (hrefused parent (by rw [hparent]))
    dsimp only
    rw [run_bind, run_declare, hearlier]
    exact .refl _

lemma cls_atomic {s t : Session} {e : Fault} (h : cls d s = (.error e, t))
    (hrefused : ∀ parent, (Declare.parent d s).1 = .ok parent →
      s.scopes.current.named? d.name.name ≠ none) : s.scopes.SameBut [] t.scopes := by
  have hsame := cls_refused hrefused
  rwa [h] at hsame

end Declare

namespace Session

/-- The superclass of a declaration is found and its name is free, so the class is declared. -/
def Admits (s : Session) (d : ClassDecl) (parent : Option Class) : Prop :=
  (Declare.parent d s).1 = .ok parent ∧ s.scopes.current.named? d.name.name = none

/-- A declaration that fails leaves every scope as it was. Only the name of a class whose
superclass is found and whose name is free stays declared, for the class without members. -/
theorem failed_declaration_leaves_bare_class (n : Node) (s t : Session) (e : Fault)
    (hs : s.Reached) (h : Declare.node n s = (.error e, t)) :
    ((∀ d parent, n = .classDecl d → ¬ s.Admits d parent) → s.scopes.SameBut [] t.scopes) ∧
    ∀ d parent, n = .classDecl d → s.Admits d parent → ∃ typeParams,
      (s.scopes.withSymbol
        (d.symbol s.scopes.nextId (d.bare parent typeParams))).SameBut [] t.scopes := by
  refine ⟨fun hrefused => ?_, ?_⟩
  · unfold Declare.node at h
    split at h
    · exact Declare.cls_atomic h fun parent hparent hfree => hrefused _ parent rfl ⟨hparent, hfree⟩
    · exact Declare.interface_atomic _ s e t h
    · exact Declare.enum_atomic _ s e t h
    · exact Declare.typeAlias_atomic _ s e t h
    · exact Declare.function_atomic _ s e t h
    · cases h
  · rintro d parent rfl ⟨hparent, hfree⟩
    exact (Declare.cls_endsAt hs.layered.1 hparent hfree).2 e t h

/-- A function with two type parameters of one name, which cannot be declared. -/
def ambiguousFunction : Node :=
  .function ⟨1, ⟨"f", {}⟩, [⟨"T", .omitted, {}⟩, ⟨"T", .omitted, {}⟩], [], .omitted, .missing,
    false, .pub, false, {}⟩

/-- The first type parameter is declared in a scope that is left again. -/
theorem ambiguous_function_leaves_nothing : ∃ e t,
    Declare.node ambiguousFunction {} = (.error e, t) ∧ t.scopes.entered.size = 1 ∧
      ({} : Session).scopes.SameBut [] t.scopes := by
  have hfails : (Declare.node ambiguousFunction {}).1.isOk = false := by decide +kernel
  have hentered : (Declare.node ambiguousFunction {}).2.scopes.entered.size = 1 := by
    decide +kernel
  rcases hrun : Declare.node ambiguousFunction {} with ⟨e | a, t⟩ <;> rw [hrun] at hfails hentered
  · exact ⟨e, t, rfl, hentered,
      (failed_declaration_leaves_bare_class _ _ _ _ (.start {}) hrun).1 nofun⟩
  · cases hfails

/-- A class with two fields of one name. -/
def ambiguousClass : Node :=
  .classDecl ⟨1, ⟨"C", {}⟩, [], none, [⟨⟨"x", {}⟩, .omitted, none, .pub, false, false, {}⟩,
    ⟨⟨"x", {}⟩, .omitted, none, .pub, false, false, {}⟩], [], none, false, {}⟩

/-- It is refused, and stays declared. -/
theorem ambiguous_class_stays_declared :
    (Declare.node ambiguousClass {}).1.isOk = false ∧
    ({} : Session).scopes.global.length = 0 ∧
    (Declare.node ambiguousClass {}).2.scopes.global.map Symbol.name = ["C"] := by
  refine ⟨?_, rfl, ?_⟩ <;> decide +kernel

end Session

end TypedScript
