import TypedScript.Proofs.Discipline
import TypedScript.Proofs.Relating.Still

/-!
# Values that are present

A value is taken apart by selecting a member, indexing, calling or iterating. Each of these
succeeds only for a type that has no null in it.
-/
namespace TypedScript

namespace Ty

/-- Null, a nullable, a union with one of these among its members, or one of these
applied to arguments. -/
def mayBeNull : Ty → Bool
  | prim p => p = .null
  | nullable _ => true
  | union ms => ms.any fun m => m.isNull || m.kind = .nullable
  | generic base _ => base.mayBeNull
  | _ => false
termination_by structural t => t

lemma mayBeNull_orNull (t : Ty) : t.orNull.mayBeNull := by
  unfold orNull
  split <;> rfl

lemma mayBeNull_derefBy_nullable (follow : String → Option Ty) (t : Ty) :
    ((nullable t).derefBy follow).mayBeNull := by
  unfold derefBy
  split
  · rfl
  · exact mayBeNull_orNull _

/-- What is applied may be null exactly if the whole may. -/
lemma mayBeNull_applied (t : Ty) : t.applied.1.mayBeNull = t.mayBeNull := by
  unfold applied
  split
  · split <;> rfl
  · rfl

lemma mayBeNull_of_isAbsorbing {t : Ty} (h : t.isAbsorbing) : t.mayBeNull = false := by
  cases t with
  | prim p => cases p <;> first | rfl | cases h
  | _ => cases h

lemma isAbsorbing_of_isAny {t : Ty} (h : t.isAny) : t.isAbsorbing := by
  cases t with
  | prim p => cases p <;> first | rfl | cases h
  | _ => cases h

lemma isAbsorbing_of_isUnknown {t : Ty} (h : t.isUnknown) : t.isAbsorbing := by
  cases t with
  | prim p => cases p <;> first | rfl | cases h
  | _ => cases h

end Ty

namespace Session

/-- In the session, null is no value of the type. -/
def Opens (s : Session) (t : Ty) : Prop := (s.deref t).mayBeNull = false

variable {s : Session}

lemma opens_cls (c : Class) : s.Opens (.cls c) := rfl

lemma not_opens_nullable (t : Ty) : ¬ s.Opens (.nullable t) := by
  intro h
  have hnull : (s.deref (.nullable t)).mayBeNull := Ty.mayBeNull_derefBy_nullable _ t
  rw [Opens, hnull] at h
  cases h

lemma opens_of_isAbsorbing {t : Ty} (h : t.isAbsorbing) : s.Opens t := by
  cases t with
  | prim p => exact Ty.mayBeNull_of_isAbsorbing h
  | _ => cases h

lemma opens_function (sig : Signature) : s.Opens (.function sig) := by
  cases sig
  rfl

lemma opens_of_index {object i t : Ty} (h : Typing.index (Typing.operand object) i = .ok t) :
    s.Opens object := by
  by_cases hunknown : object.isUnknown
  · exact opens_of_isAbsorbing (Ty.isAbsorbing_of_isUnknown hunknown)
  · rw [Typing.operand, if_neg hunknown] at h
    unfold Typing.index at h
    split at h
    case isTrue hany => exact opens_of_isAbsorbing (Ty.isAbsorbing_of_isAny hany)
    split at h
    · rfl
    · split at h
      · cases h
      · split at h
        · rfl
        · rfl
        · cases h

lemma opens_of_iteration {t element : Ty} (h : Typing.iteration? t = some element) :
    s.Opens t := by
  unfold Typing.iteration? at h
  split at h <;> first | rfl | cases h

/-! ## Checks leave the options alone -/

/-- Checks come back to where they started and do not change the options. -/
def optionsContract : Contract where
  Holds _ := True
  Rel s t := s.Kept t ∧ t.options = s.options
  Knows _ _ _ := True

lemma optionsLaws : SymbolLaws optionsContract where
  refl hs := ⟨Kept.symbolLaws.refl hs, rfl⟩
  trans h k := ⟨h.1.trans k.1, k.2.trans h.2⟩
  canonical _ := False.elim
  report d hs := ⟨Kept.symbolLaws.report d hs, rfl⟩
  trace style line hs := ⟨Kept.symbolLaws.trace style line hs, rfl⟩
  record id t hs ht := ⟨Kept.symbolLaws.record id t hs ht, rfl⟩
  define hs hd ht h := ⟨Kept.symbolLaws.define hs hd ht h, rfl⟩
  update hs hk ht h := ⟨Kept.symbolLaws.update hs hk ht h, rfl⟩
  retypeSymbol hs hk ht := ⟨Kept.symbolLaws.retypeSymbol hs hk ht, rfl⟩
  forget name t _ _ _ := ⟨.forget name t, rfl⟩
  addReturn t hs ht := ⟨Kept.symbolLaws.addReturn t hs ht, rfl⟩
  markChecked id hs := ⟨Kept.symbolLaws.markChecked id hs, rfl⟩
  inference hs hid h := ⟨Kept.symbolLaws.inference hs hid h.1, h.2⟩
  leave {enter s t} he _ h := by
    obtain ⟨u, hu, hkept⟩ := Kept.leave he.entry h.1
    have hentered : s.Still (fun _ => True) (enter s).1 := still_entered he.entry s
    have hleft : t.Still (fun _ => True) u := still_left he.entry hu
    exact ⟨u, hu, hkept, hleft.options.trans (h.2.trans hentered.options)⟩
  after _ _ := trivial
  entered _ _ := trivial
  begun _ _ := trivial
  learn _ _ := trivial
  learnDefined _ _ := trivial
  knowsAfter _ _ _ := trivial
  knowsEntered _ _ _ := trivial
  knowsBegun _ _ _ := trivial

end Session

/-! ## Members -/

namespace Check

variable {α β : Type}

/-- Every element was looked at somewhere on the way, under the same options. -/
lemma exists_of_run_mapM {g : α → Check β} (hg : ∀ a, (g a).Keeps Session.optionsContract) :
    ∀ {as : List α} {s u : Session} {bs : List β}, as.mapM g s = (.ok bs, u) →
      ∀ a ∈ as, ∃ t b v, t.options = s.options ∧ g a t = (.ok b, v)
  | [], _, _, _, _ => by simp
  | a :: as, s, u, bs, h => by
    rw [List.mapM_cons] at h
    obtain ⟨b, t, hrun, h⟩ := exists_of_run_bind h
    obtain ⟨cs, v, hrest, -⟩ := exists_of_run_bind h
    have hopt : t.options = s.options := ((hg a s).rel trivial hrun).2
    intro x hx
    obtain rfl | hx := List.mem_cons.1 hx
    · exact ⟨s, b, t, rfl, hrun⟩
    · obtain ⟨t', b', v', ht', hb'⟩ := exists_of_run_mapM hg hrest x hx
      exact ⟨t', b', v', ht'.trans hopt, hb'⟩

lemma of_run_settle {place : Location} {label : String} {verdict : Typing.Verdict} {t : Ty}
    {s u : Session} (h : settle place label verdict s = (.ok t, u)) : verdict = .ok t := by
  cases verdict with
  | ok t' =>
    cases h
    rfl
  | error d => cases h

end Check

namespace Member

open Check

variable {d : Demand} {field : Ident}

/-- Only strings and lists have members without a declaration. -/
lemma mayBeNull_of_standard {t a : Ty} {name : String}
    (h : Builtins.standard.member? t name = some a) : t.mayBeNull = false := by
  simp only [Builtins.member?] at h
  split at h
  · split at h
    · rfl
    · rfl
    · cases h
  · cases h

lemma mayBeNull_of_builtin {base a : Ty} {s u : Session} (hb : s.options.builtins = .standard)
    (h : (if base.isAbsorbing then pure .any
      else get >>= fun s => match s.options.builtins.member? base field.name with
        | some t => pure t
        | none => notFound field base.text : Check Ty) s = (.ok a, u)) :
    base.mayBeNull = false := by
  split at h
  case isTrue habs => exact Ty.mayBeNull_of_isAbsorbing habs
  rw [run_bind, run_get] at h
  dsimp only at h
  rw [hb] at h
  cases hmember : Builtins.standard.member? base field.name with
  | some t => exact mayBeNull_of_standard hmember
  | none =>
    rw [hmember] at h
    cases h

/-- A member is selected from what is present only. -/
lemma opens_of_typeWithin (hd : d.Keeps Session.optionsContract) :
    ∀ {limit : Nat} {receiver : Option String} {t a : Ty} {s u : Session},
      s.options.builtins = .standard →
      typeWithin d limit receiver t field s = (.ok a, u) → s.Opens t
  | 0, _, _, _, _, _, _, h => by cases h
  | limit + 1, receiver, t, a, s, u, hb, h => by
    rw [typeWithin, run_bind] at h
    have hderef : Check.deref t s = (.ok (s.deref t), s) := rfl
    rw [hderef] at h
    dsimp only at h
    rw [Session.Opens, ← Ty.mayBeNull_applied]
    generalize (s.deref t).applied = base at h
    obtain ⟨base, σ⟩ := base
    dsimp only at h ⊢
    cases base with
    | cls c => rfl
    | interface shape => rfl
    | enum e => rfl
    | nullable x => cases h
    | union ms =>
      obtain ⟨ts, v, hmap, -⟩ := exists_of_run_bind h
      have laws := Session.optionsLaws.toBasicLaws
      have hkeeps (m : Ty) : (if m.isNull then refuseNull field (.union ms)
          else typeWithin d limit none m field).Keeps Session.optionsContract :=
        .ite (laws.refuse _ _ _ _ _)
          ((laws.typeWithin hd limit none False.elim field).mono fun _ _ => trivial)
      -- A nullable member is looked at in its turn and refused there.
      simp only [Ty.mayBeNull, List.any_eq_false]
      intro m hm hnull
      obtain ⟨s', b, v', hopt, hrun⟩ := exists_of_run_mapM hkeeps hmap m hm
      split at hrun
      · cases hrun
      · have hopens := opens_of_typeWithin hd (hopt ▸ hb) hrun
        cases m with
        | nullable x => exact s'.not_opens_nullable x hopens
        | _ => simp_all [Ty.kind]
    | _ => exact mayBeNull_of_builtin hb h

lemma opens_of_typeOf (hd : d.Keeps Session.optionsContract) {receiver : Option String} {t a : Ty}
    {s u : Session} (hb : s.options.builtins = .standard)
    (h : typeOf d receiver t field s = (.ok a, u)) : s.Opens t :=
  opens_of_typeWithin hd hb h

lemma opens_of_targetType (hd : d.Keeps Session.optionsContract) {receiver : Option String}
    {t a : Ty} {s u : Session} (hb : s.options.builtins = .standard)
    (h : targetType d receiver t field s = (.ok a, u)) : s.Opens t := by
  rw [targetType, run_bind] at h
  have hderef : Check.deref t s = (.ok (s.deref t), s) := rfl
  rw [hderef] at h
  dsimp only at h
  cases happlied : (s.deref t).applied with
  | mk base σ =>
    rw [happlied] at h
    cases base with
    | cls c =>
      rw [Session.Opens, ← Ty.mayBeNull_applied, happlied]
      rfl
    | _ => exact opens_of_typeOf hd hb h

end Member

/-- A function or something absorbing is called. -/
lemma Call.opens_of_value {place : Location} {callee a : Ty} {explicit : List Ty}
    {args : List Argument} {s u : Session}
    (h : Call.value place callee explicit args s = (.ok a, u)) {t : Session} : t.Opens callee := by
  unfold Call.value at h
  split at h
  case isTrue habs => exact Session.opens_of_isAbsorbing habs
  split at h
  · exact Session.opens_function _
  · cases h

/-- With the usual builtins, what is taken from a value that may be null is refused. -/
def Check.Opening {α : Type} (next : Ty → Check α) : Prop :=
  ∀ t s a u, s.options.builtins = .standard → next t s = (.ok a, u) → s.Opens t

end TypedScript
