import TypedScript.Proofs.Generics.Substitution
import TypedScript.Proofs.Lineage.Endings
import TypedScript.Proofs.References.Dereferencing
import TypedScript.Proofs.Results.Returns

/-!
# A function whose result is being found out

While the body of a function is checked, the symbol of the function keeps the type that it was
declared with. Only the rule of the function itself would change the type, and that rule leaves a
function alone that is being inferred, also where it is asked on demand from deep inside.

So a call of the function from anywhere inside its own body has the result that the function was
declared with, which is unknown where no result is annotated.
-/
namespace TypedScript

namespace Scopes

variable {s scopes : Scopes} {name : String} {t : Ty} {id : SymbolId} {x : Symbol}

/-- A symbol of another number than the one that is declared was there before. -/
lemma has_of_define {kind : SymbolKind} {type : Option Ty} {isConst : Bool} {origin : Origin}
    {y : Symbol} (h : s.define name kind type isConst origin = .ok (y, scopes))
    (hx : scopes.Has x) (hid : x.id ≠ s.nextId) : s.Has x := by
  obtain ⟨rfl, -, rfl⟩ := define_eq_ok h
  obtain ⟨j, hx⟩ := hx
  have hx : x ∈ (s.modifySlot s.locals.head?
      (· ++ [⟨s.nextId, name, kind, type, isConst, origin⟩])).slot j := by cases j <;> exact hx
  obtain hx | hx := mem_slot_modifySlot hx
  · exact ⟨j, hx⟩
  · obtain hx | hx := List.mem_append.1 hx
    · exact ⟨j, hx⟩
    · rw [List.mem_singleton.1 hx] at hid
      exact absurd rfl hid

/-- The symbols of other numbers than the one whose type is changed were there before. -/
lemma has_of_updateSymbol (hs : s.outline.Orderly)
    (h : s.updateSymbol id name t = .ok scopes) (hx : scopes.Has x) (hid : x.id ≠ id) :
    s.Has x := by
  obtain ⟨y, i, hy, hyid, hi, hmem, rfl⟩ := exists_slot_of_updateSymbol h
  obtain ⟨j, hx⟩ := hx
  have hslot : s.HasSlot i := by
    rintro k rfl
    exact hs.local_lt (hi k rfl)
  rw [slot_modifySlot hslot] at hx
  by_cases hj : j = i
  · subst hj
    rw [Function.update_self] at hx
    obtain ⟨z, hz, rfl⟩ := List.mem_map.1 hx
    by_cases hname : z.name = name
    · -- a scope has one symbol of a name, and that is the one whose type is changed
      have hsame : z.heading = y.heading :=
        hs.named j _ (mem_headings hz) _ (mem_headings hmem) (hname.trans (lookup?_mem hy).2.symm)
      have hzid : z.id = id := (congrArg Heading.id hsame).trans hyid
      rw [if_pos hname] at hid
      exact absurd hzid hid
    · rw [if_neg hname]
      exact ⟨j, hz⟩
  · rw [Function.update_of_ne hj] at hx
    exact ⟨j, hx⟩

lemma has_of_retypeSymbol (hx : (s.retypeSymbol id t).Has x) (hid : x.id ≠ id) : s.Has x := by
  obtain ⟨j, hx⟩ := hx
  rw [slot_retypeSymbol] at hx
  obtain ⟨z, hz, rfl⟩ := List.mem_map.1 hx
  by_cases hzid : z.id = id
  · rw [if_pos hzid] at hid
    exact absurd hzid hid
  · rw [if_neg hzid]
    exact ⟨j, hz⟩

lemma has_reattach {locals : List ScopeId} {depth : Nat} (hx : (s.reattach locals depth).Has x) :
    s.Has x := by
  obtain ⟨j, hx⟩ := hx
  refine ⟨j, ?_⟩
  cases j <;> exact hx

end Scopes

namespace Session

variable {options : Options} {i : SymbolId} {k : NodeId} {sig : Signature}
variable {enter : Session → Session × Undo} {s t u : Session}

/-- Leaving something changes the place in the program only. -/
lemma exists_of_undo {undo : Undo} (h : undo.run t = .ok u) :
    ∃ locals depth narrowing function className breakables, u = { t with
      scopes := t.scopes.reattach locals depth, narrowing, function, className, breakables } := by
  cases undo with
  | scope =>
    simp only [Undo.run, exitScope, Scopes.exit] at h
    split at h
    · cases h
    · cases h
      exact ⟨_, _, _, _, _, _, rfl⟩
  | frame depth =>
    simp only [Undo.run, NarrowingStack.popAt] at h
    split at h
    · simp only [NarrowingStack.pop] at h
      split at h
      · cases h
      · cases h
        exact ⟨t.scopes.locals, t.scopes.depth, _, _, _, _, rfl⟩
    · cases h
  | breakable =>
    simp only [Undo.run, leaveBreakable] at h
    split at h
    · cases h
    · cases h
      exact ⟨t.scopes.locals, t.scopes.depth, _, _, _, _, rfl⟩
  | frames _ | function _ _ | className _ =>
    cases h
    exact ⟨t.scopes.locals, t.scopes.depth, _, _, _, _, rfl⟩
  | detached locals depth frames function className breakables =>
    cases h
    exact ⟨_, _, _, _, _, _, rfl⟩

/-- The declaration numbered `k` is being inferred. The symbol numbered `i` belongs to it and is a
function of this signature. -/
structure Pending (options : Options) (i : SymbolId) (k : NodeId) (sig : Signature)
    (s : Session) : Prop where
  options : s.options = options
  inferring : s.isInferring k = true
  numbered : i < s.scopes.nextId
  symbols : ∀ x, s.scopes.Has x → x.id = i →
    x.type = some (.function sig) ∧ (x.origin.function?.any fun g => g.id == k) = true

namespace Pending

/-- The symbol is no class. -/
lemma ne_of_knows (hs : s.Pending options i k sig) {id : SymbolId} {h : Heritage}
    (hknows : Leads.contract.Knows s id (some h)) : id ≠ i := by
  obtain ⟨x, hx, rfl, hheritage⟩ := hknows
  intro hid
  have htype := (hs.symbols x hx hid).1
  rw [Symbol.heritage?, htype] at hheritage
  cases hheritage

/-- The rule of another function may change the type of another symbol. -/
lemma busy_or_ne (hs : s.Pending options i k sig) {x : Symbol} (hx : s.scopes.Has x)
    {f : Callable} (hown : (x.origin.function?.any fun g => g.id == f.id) = true) :
    s.isInferring f.id = true ∨ x.id ≠ i := by
  by_cases hid : x.id = i
  · have hk := (hs.symbols x hx hid).2
    cases hfunction : x.origin.function? with
    | none => simp [hfunction] at hown
    | some g =>
      have hgk : g.id = k := by simpa [hfunction] using hk
      have hgf : g.id = f.id := by simpa [hfunction] using hown
      exact .inl (hgf ▸ hgk ▸ hs.inferring)
  · exact .inr hid

/-- A function stays as it was declared until its own rule is done. -/
def contract (options : Options) (i : SymbolId) (k : NodeId) (sig : Signature) : Contract where
  Holds s := s.scopes.outline.Orderly ∧ s.Pending options i k sig
  Rel s t := Leads.contract.Rel s t ∧ s.reports.size ≤ t.reports.size ∧
    (s.Pending options i k sig → t.Pending options i k sig)
  Knows := Leads.contract.Knows

variable (options i k sig) in
/-- What a step does that brings no other symbol of that number about. -/
lemma rel_of_has (hs : s.scopes.outline.Orderly) (h : Leads.contract.Rel s t)
    (hreports : s.reports.size ≤ t.reports.size) (hoptions : t.options = s.options)
    (hhas : s.Pending options i k sig → ∀ x, t.scopes.Has x → x.id = i → s.scopes.Has x) :
    (contract options i k sig).Rel s t := by
  refine ⟨h, hreports, fun hpending => ⟨hoptions.trans hpending.options, ?_, ?_, ?_⟩⟩
  · rw [isInferring, h.1.inferring]
    exact hpending.inferring
  · exact Nat.lt_of_lt_of_le hpending.numbered (h.2.grows hs).nextId
  · intro x hx hid
    exact hpending.symbols x (hhas hpending x hx hid) hid

variable (options i k sig) in
/-- What a step does that leaves the scopes alone. -/
lemma rel_of_scopes (hs : s.scopes.outline.Orderly) (h : Leads.contract.Rel s t)
    (hreports : s.reports.size ≤ t.reports.size) (hoptions : t.options = s.options)
    (hscopes : t.scopes = s.scopes) : (contract options i k sig).Rel s t :=
  rel_of_has options i k sig hs h hreports hoptions fun _ _ hx _ => hscopes ▸ hx

lemma entered (he : Entry enter) (hs : s.Pending options i k sig) :
    (enter s).1.Pending options i k sig where
  options := by cases he <;> exact hs.options
  inferring := by cases he <;> exact hs.inferring
  numbered := by cases he <;> exact hs.numbered
  symbols x := by
    rintro ⟨j, hx⟩
    exact hs.symbols x ⟨j, slot_entered he s j ▸ hx⟩

/-- The inference of another declaration begins. -/
lemma begun (id : NodeId) (hs : s.Pending options i k sig) :
    (s.beginInference id).Pending options i k sig := by
  refine ⟨hs.options, ?_, hs.numbered, hs.symbols⟩
  have hbusy := hs.inferring
  rw [isInferring] at hbusy
  rw [isInferring, beginInference, List.contains_cons, hbusy, Bool.or_true]

lemma reports_entered (he : Entry enter) (s : Session) : (enter s).1.reports = s.reports := by
  cases he <;> rfl

/-- The symbol of a function gets another type only by the rule of that function. -/
lemma notingLaws : NotingLaws (contract options i k sig) where
  refl hs := ⟨Leads.symbolLaws.refl hs.1, Nat.le_refl _, id⟩
  trans h h' := ⟨Leads.symbolLaws.trans h.1 h'.1, Nat.le_trans h.2.1 h'.2.1, h'.2.2 ∘ h.2.2⟩
  canonical _ := False.elim
  report d hs := rel_of_scopes _ _ _ _ hs.1 (Leads.symbolLaws.report d hs.1)
    (by simp [Session.report]) rfl rfl
  trace style line hs := rel_of_scopes _ _ _ _ hs.1 (Leads.symbolLaws.trace style line hs.1)
    (Nat.le_refl _) rfl rfl
  record id t hs ht := rel_of_scopes _ _ _ _ hs.1 (Leads.symbolLaws.record id t hs.1 ht)
    (Nat.le_refl _) rfl rfl
  define {s _ _ _ _ _ _ _} hs hd ht h := by
    refine rel_of_has _ _ _ _ hs.1 (Leads.symbolLaws.define hs.1 hd ht h) (Nat.le_refl _) rfl ?_
    intro hpending x hx hid
    have hnew : x.id ≠ s.scopes.nextId := hid ▸ Nat.ne_of_lt hpending.numbered
    exact Scopes.has_of_define h hx hnew
  forget name t hs _ _ := rel_of_scopes _ _ _ _ hs.1 ⟨.forget name t, .stay rfl⟩
    (Nat.le_refl _) rfl rfl
  addReturn t hs ht := rel_of_scopes _ _ _ _ hs.1 (Leads.symbolLaws.addReturn t hs.1 ht)
    (Nat.le_refl _) rfl rfl
  markChecked id hs := rel_of_scopes _ _ _ _ hs.1 (Leads.symbolLaws.markChecked id hs.1)
    (Nat.le_refl _) rfl rfl
  inference {s t id} hs hfree h := by
    have hleads := Leads.symbolLaws.inference hs.1 hfree h.1
    refine ⟨hleads, h.2.1, fun hpending => ?_⟩
    have hended := h.2.2 (hpending.begun id)
    refine ⟨hended.options, ?_, hended.numbered, hended.symbols⟩
    rw [isInferring, hleads.1.inferring]
    exact hpending.inferring
  leave {enter s t} he hs h := by
    obtain ⟨u, hu, hleads⟩ := Leads.symbolLaws.leave (he.entry.opens id) hs.1 h.1
    obtain ⟨locals, depth, narrowing, function, className, breakables, rfl⟩ := exists_of_undo hu
    have hreports := reports_entered he.entry s ▸ h.2.1
    refine ⟨_, hu, hleads, hreports, fun hpending => ?_⟩
    have hinside := h.2.2 (hpending.entered he.entry)
    exact ⟨hinside.options, hinside.inferring, hinside.numbered,
      fun x hx => hinside.symbols x (Scopes.has_reattach hx)⟩
  after hs h := ⟨Leads.symbolLaws.after hs.1 h.1, h.2.2 hs.2⟩
  entered he hs := ⟨orderly_entered he.entry hs.1, hs.2.entered he.entry⟩
  begun id hs := ⟨hs.1, hs.2.begun id⟩
  learn hs := Leads.symbolLaws.learn hs.1
  learnDefined hs := Leads.symbolLaws.learnDefined hs.1
  knowsAfter hs h := Leads.symbolLaws.knowsAfter hs.1 h.1
  knowsEntered he hs := Leads.symbolLaws.knowsEntered (he.entry.opens id) hs.1
  knowsBegun i hs := Leads.symbolLaws.knowsBegun i hs.1

lemma classLaws : ClassLaws (contract options i k sig) where
  toBasicLaws := notingLaws.toBasicLaws
  update hs hknows hheritage ht h :=
    rel_of_has _ _ _ _ hs.1 (Leads.symbolLaws.update hs.1 (hheritage ▸ hknows) ht h)
      (Nat.le_refl _) rfl fun hpending _ hx hid =>
        Scopes.has_of_updateSymbol hs.1 h hx (hid ▸ (hpending.ne_of_knows hknows).symm)
  retypeSymbol hs hknows hheritage ht :=
    rel_of_has _ _ _ _ hs.1 (Leads.symbolLaws.retypeSymbol hs.1 (hheritage ▸ hknows) ht)
      (Nat.le_refl _) rfl fun hpending _ hx hid =>
        Scopes.has_of_retypeSymbol hx (hid ▸ (hpending.ne_of_knows hknows).symm)

/-- Another function gets its result. -/
lemma retypeOther {x : Symbol} (hne : x.id ≠ i) (other : Signature) :
    (Check.retype x (.function other)).Keeps ((contract options i k sig).given x.id none) :=
  classLaws.retype x fun hs hknows h =>
    rel_of_has _ _ _ _ hs.1
      (Leads.symbolLaws.update (t := .function other) hs.1 hknows False.elim h) (Nat.le_refl _) rfl
      fun _ _ hx hid => Scopes.has_of_updateSymbol hs.1 h hx (hid ▸ hne.symm)

/-- While a function is inferred every check leaves its symbol alone. -/
lemma reportLaws : ReportLaws (contract options i k sig) where
  toPartLaws := by
    refine classLaws.partLaws (fun f _ hb => ?_) (.inl notingLaws)
    refine classLaws.functionRule f hb fun s x hs hx hown => ?_
    exact (hs.2.busy_or_ne hx hown).imp_right fun hne other _ => retypeOther hne other
  addReturn := notingLaws.addReturn
  untyped := id
  reports h := h.2.1

end Pending

end Session

/-! ## Calls from inside -/

/-- The expression calls the symbol of this number, by a name that is not narrowed. Parentheses
around the call and around the name do not matter. -/
def Expr.Calls (e : Expr) (i : SymbolId) (s : Session) : Prop :=
  ∃ m callee typeArgs args name x, e.unparen = .call m callee typeArgs args ∧
    callee.name? = some name ∧ s.narrowed? name = none ∧ s.scopes.lookup? name = some x ∧ x.id = i

lemma Expr.unparen_of_name? {e : Expr} {name : String} (h : e.name? = some name) :
    ∃ m, e.unparen = .ident m name := by
  unfold Expr.name? at h
  split at h
  case h_1 m n heq => exact ⟨m, Option.some.inj h ▸ heq⟩
  case h_2 => cases h

/-- Whoever checks an expression checks what is inside its parentheses. -/
lemma Walk.exists_run_unparen {d : Demand} {h : Hint} {s u : Session} {t : Ty} : (e : Expr) →
    Walk.expr d e h s = (.ok t, u) → ∃ v, Walk.expr d e.unparen h s = (.ok t, v)
  | .paren m x, hrun => by
    rw [Walk.expr] at hrun
    obtain ⟨r, v, hinside, hrun⟩ := Check.exists_of_run_bind hrun
    obtain ⟨_, _, -, hrun⟩ := Check.exists_of_run_bind hrun
    cases hrun
    exact Walk.exists_run_unparen x hinside
  | .literal .., hrun | .template .., hrun | .ident .., hrun | .binary .., hrun
  | .unary .., hrun | .stepBefore .., hrun | .stepAfter .., hrun | .assign .., hrun
  | .call .., hrun | .construct .., hrun | .select .., hrun | .optionalSelect .., hrun
  | .methodCall .., hrun | .index .., hrun | .await .., hrun | .this .., hrun | .super .., hrun
  | .typeOf .., hrun | .instanceOf .., hrun | .range .., hrun | .conditional .., hrun
  | .coalesce .., hrun | .nonNull .., hrun | .matchExpr .., hrun | .classExpr .., hrun
  | .namelessClass .., hrun | .list .., hrun | .object .., hrun | .arrow .., hrun
  | .spread .., hrun => ⟨u, hrun⟩
termination_by structural e => e

/-- The type of a function whose result is unknown. -/
def Ty.AwaitsResult (t : Ty) : Prop := ∃ sig, t = .function sig ∧ sig.result = .unknown

namespace Session.Pending

variable {options : Options} {i : SymbolId} {k : NodeId} {sig : Signature} {d : Demand}
variable {s u : Session} {t : Ty}

/-- References in the parameters may have been replaced. -/
lemma awaitsResult_deref (scopes : Scopes) (hresult : sig.result = .unknown) :
    (scopes.deref (.function sig)).AwaitsResult := by
  have hderef := Ty.derefBy_function
    (fun name => (scopes.typeNamed? name).map (scopes.derefWithin 32)) sig
  refine ⟨_, hderef, ?_⟩
  simp [hresult, Ty.derefBy]

/-- The symbol is read as it was declared, whatever was checked on demand before. -/
lemma run_currentType? (hs : (contract options i k sig).Holds s) {x : Symbol}
    (hid : x.id = i) (htype : x.type = some (.function sig)) :
    Check.currentType? x s = (.ok (some (.function sig)), s) := by
  rw [Check.currentType?, Check.run_bind, Check.run_get]
  cases hsymbol : s.scopes.symbol? x.id with
  | none => simp only [hsymbol, htype, Check.run_pure]
  | some y =>
    obtain ⟨hy, hyid⟩ := Scopes.has_of_symbol? hsymbol
    simp only [hsymbol, (hs.2.symbols y hy (hyid.trans hid)).1, Check.run_pure]

/-- The name of the function has the type that the function was declared with. -/
lemma value_awaitsResult (hd : d.Keeps (contract options i k sig))
    (hs : (contract options i k sig).Holds s) (hresult : sig.result = .unknown)
    {place : Location} {name : String} {x : Symbol} (hnarrowed : s.narrowed? name = none)
    (hlookup : s.scopes.lookup? name = some x) (hid : x.id = i)
    (hrun : Name.value d place name s = (.ok t, u)) : t.AwaitsResult := by
  have htype := (hs.2.symbols x (Scopes.has_of_lookup? hlookup) hid).1
  have hself : (x.type.getD .unknown).AwaitsResult := ⟨sig, by rw [htype]; rfl, hresult⟩
  have hcurrent {v : Session} {b : Bool} (c : Check Ty) (hv : (contract options i k sig).Holds v)
      (hfail : ∀ v, (c v).1 ≠ .ok t)
      (hrun : (if b then c else Check.currentType? x >>= fun t? =>
        Check.deref (t?.getD .unknown)) v = (.ok t, u)) : t.AwaitsResult := by
    cases b with
    | true => exact absurd (congrArg Prod.fst hrun) (hfail v)
    | false =>
      simp only [Bool.false_eq_true, if_false] at hrun
      rw [Check.run_bind, run_currentType? hv hid htype] at hrun
      cases hrun
      exact awaitsResult_deref _ hresult
  rw [Name.value, Check.run_bind, Check.run_get] at hrun
  simp only [hnarrowed] at hrun
  obtain ⟨_, _, hfound, hrun⟩ := Check.exists_of_run_bind hrun
  cases hfound
  simp only [hlookup] at hrun
  cases hkind : x.kind <;> simp only [hkind] at hrun
  case cls | enum =>
    cases hrun
    exact hself
  all_goals
    by_cases hawaits : x.awaitsResult = true
    · simp only [hawaits, if_true] at hrun
      obtain ⟨_, v, hdemand, hrun⟩ := Check.exists_of_run_bind hrun
      have hv := reportLaws.after hs ((hd.function x s).rel hs hdemand)
      exact hcurrent _ hv (fun _ h => by cases h) hrun
    · simp only [hawaits, Bool.false_eq_true, if_false] at hrun
      exact hcurrent _ hs (fun _ h => by cases h) hrun

/-- A call of a value gives nothing when nothing is known of its result. -/
lemma callValue_unknown {place : Location} {callee : Ty} (hcallee : callee.AwaitsResult)
    {explicit : List Ty} {args : List Argument}
    (hrun : Call.value place callee explicit args s = (.ok t, u)) : t = .unknown := by
  obtain ⟨sig, rfl, hresult⟩ := hcallee
  obtain ⟨r, v, happly, hrun⟩ := Check.exists_of_run_bind hrun
  cases hrun
  -- the steps before the result only bind the type parameters, and the result has none
  obtain ⟨_, _, -, happly⟩ := Check.exists_of_run_bind happly
  obtain ⟨_, _, -, happly⟩ := Check.exists_of_run_bind happly
  obtain ⟨_, _, -, happly⟩ := Check.exists_of_run_bind happly
  obtain ⟨_, _, -, happly⟩ := Check.exists_of_run_bind happly
  obtain ⟨_, _, -, happly⟩ := Check.exists_of_run_bind happly
  obtain ⟨_, _, hderef, happly⟩ := Check.exists_of_run_bind happly
  cases happly
  rw [hresult, Ty.substitute_prim] at hderef
  cases hderef
  rfl

/-- While the result of a function is looked for, a call of it gives nothing. -/
lemma call_unknown (hd : d.Keeps (contract options i k sig))
    (hs : (contract options i k sig).Holds s) (hresult : sig.result = .unknown) {e : Expr}
    (he : e.Calls i s) {h : Hint} (hrun : Walk.expr d e h s = (.ok t, u)) : t = .unknown := by
  obtain ⟨m, callee, typeArgs, args, name, x, hunparen, hname?, hnarrowed, hlookup, hid⟩ := he
  obtain ⟨n, hident⟩ := Expr.unparen_of_name? hname?
  obtain ⟨v, hrun⟩ := Walk.exists_run_unparen e hrun
  rw [hunparen, Walk.expr] at hrun
  obtain ⟨r, _, hcall, hrun⟩ := Check.exists_of_run_bind hrun
  obtain ⟨_, _, -, hrun⟩ := Check.exists_of_run_bind hrun
  cases hrun
  simp only [Rule.call, hident] at hcall
  obtain ⟨f, w, hcallee, hcall⟩ := Check.exists_of_run_bind hcall
  obtain ⟨_, _, -, hcall⟩ := Check.exists_of_run_bind hcall
  obtain ⟨w', hcallee⟩ := Walk.exists_run_unparen callee hcallee
  rw [hident, Walk.expr] at hcallee
  obtain ⟨_, _, hname, hcallee⟩ := Check.exists_of_run_bind hcallee
  obtain ⟨_, _, -, hcallee⟩ := Check.exists_of_run_bind hcallee
  cases hcallee
  exact callValue_unknown (value_awaitsResult hd hs hresult hnarrowed hlookup hid hname) hcall

end Session.Pending

end TypedScript
