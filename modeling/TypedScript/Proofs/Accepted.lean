import TypedScript.Proofs.Keeping.Within
import TypedScript.Proofs.Once
import TypedScript.Proofs.Relating.Tree

/-!
# Runs without an error

What a check finds is wrong at times, and then an error is reported or the check fails. In a
run that gives a result, in a session without errors, everything that was found on the way is
right: values that were taken apart are present, types were noted for the expressions, and
those in the body of a callable when it had its mark.

A fault that may be caught leaves nothing wrong behind, and every other fault is reported as
an error in the end.
-/
namespace TypedScript

namespace Session

lemma errorCount_report_ne_zero (s : Session) {d : Diagnostic} (hd : d.severity = .error) :
    (s.report d).errorCount ≠ 0 := by
  rw [errorCount_report, if_pos hd]
  exact Nat.succ_ne_zero _

/-- The expressions that types were noted for. -/
def noted (s : Session) : Set NodeId := { i | ∃ f ∈ s.types, f.id = i }

lemma recorded?_isSome {s : Session} {id : NodeId} (h : id ∈ s.noted) :
    (s.recorded? id).isSome := by
  obtain ⟨f, hf, rfl⟩ := h
  rw [recorded?, Option.isSome_map, List.find?_isSome]
  exact ⟨f, hf, beq_self_eq_true _⟩

lemma Grows.noted {s t : Session} (h : s.Grows t) : s.noted ⊆ t.noted := by
  rintro i ⟨f, hf, rfl⟩
  exact ⟨f, h.types f hf, rfl⟩

/-- Errors are not taken back. -/
lemma Grows.accepted {s t : Session} (h : s.Grows t) (ht : t.errorCount = 0) : s.errorCount = 0 :=
  Nat.le_zero.1 (ht ▸ h.errors)

end Session

/-- The value was present, with the usual builtins. -/
def Finding.Present (f : Finding) (options : Options) : Prop :=
  options.builtins = .standard → (f.scopes.deref f.type).mayBeNull = false

namespace Accepted

variable (opened : Set NodeId) (owed : NodeId → Set NodeId)

/-- No expression in another role has the number of one that is taken apart, and the types
that are owed for a callable are noted when its body is checked. -/
def Fits : Fragment → Prop
  | .expr .plain e => e.id ∉ opened
  | .expr .opened _ => True
  | .bare e => e.id ∉ opened
  | .callable f => owed f.id ⊆ Fragment.noted (f.body.fragments false)

/-- What every run keeps. -/
structure Grown (s t : Session) : Prop extends Session.Grows s t where
  fit : s.scopes.Fit (Fits opened owed) → t.scopes.Fit (Fits opened owed)
  options : t.options = s.options

/-- What has been found and marked since is right. -/
structure Clean (s t : Session) : Prop where
  types : ∀ f ∈ t.types, f ∈ s.types ∨ (f.id ∈ opened → f.Present t.options)
  checked : ∀ id ∈ t.checked, id ∈ s.checked ∨ owed id ⊆ t.noted

/-- The run gave a result, or a fault that may be caught. -/
def Settled {α : Type} : Manner → Except Fault α → Prop
  | _, .ok _ => True
  | .mild, .error (.diagnostic _) => True
  | .mild, .error (.symbol _) => True
  | _, _ => False

lemma not_settled {α : Type} (e : Fault) : ¬ Settled .plain (.error e : Except Fault α) := by
  cases e <;> exact id

lemma not_settled_misuse {α : Type} (m : Manner) (e : Misuse) :
    ¬ Settled m (.error (.misuse e) : Except Fault α) := by
  cases m <;> exact id

/-- What is shown of a run from `s`. -/
structure Outcome {α : Type} (m : Manner) (ids : Set NodeId) (s : Session)
    (run : Except Fault α × Session) : Prop where
  grown : Grown opened owed s run.2
  error : ∀ e, run.1 = .error e → e.IsError
  clean : run.2.errorCount = 0 → Settled m run.1 → Clean opened owed s run.2
  noted : run.2.errorCount = 0 → ∀ a, run.1 = .ok a → ids ⊆ run.2.noted

/-- What is shown of a run from `s` that finds a value to be taken apart. -/
structure OpenedOutcome (ids : Set NodeId) (s : Session) (run : Except Fault Ty × Session) :
    Prop where
  grown : Grown opened owed s run.2
  error : ∀ e, run.1 = .error e → e.IsError
  clean : run.2.errorCount = 0 → ∀ t, run.1 = .ok t →
    (run.2.options.builtins = .standard → run.2.Opens t) →
    Clean opened owed s run.2 ∧ ids ⊆ run.2.noted

def family : Family where
  Fits := Fits opened owed
  Rel m ids c _ := ∀ s, s.scopes.Fit (Fits opened owed) → Outcome opened owed m ids s (c s)
  Opened ids c _ := ∀ s, s.scopes.Fit (Fits opened owed) → OpenedOutcome opened owed ids s (c s)

variable {opened owed} {s t u : Session} {α : Type} {m : Manner} {I J : Set NodeId}

/-! ## Sessions -/

lemma Grown.of_still (h : s.Still (Fits opened owed) t) : Grown opened owed s t :=
  ⟨.of_still h, h.fit, h.options⟩

lemma Grown.trans (h : Grown opened owed s t) (k : Grown opened owed t u) :
    Grown opened owed s u where
  toGrows := h.toGrows.trans k.toGrows
  fit hs := k.fit (h.fit hs)
  options := k.options.trans h.options

lemma Clean.of_still (h : s.Still (Fits opened owed) t) : Clean opened owed s t :=
  ⟨fun _ hf => .inl (h.types ▸ hf), fun _ hid => .inl (h.checked ▸ hid)⟩

lemma Clean.trans (h : Clean opened owed s t) (k : Clean opened owed t u)
    (hgrown : Grown opened owed t u) : Clean opened owed s u where
  types f hf := by
    obtain hf | hf := k.types f hf
    · rw [hgrown.options]
      exact h.types f hf
    · exact .inr hf
  checked id hid := by
    obtain hid | hid := k.checked id hid
    · exact (h.checked id hid).imp_right fun howed => howed.trans hgrown.noted
    · exact .inr hid

/-! ## Runs -/

namespace Outcome

variable {r : Except Fault α}

lemma of_still (hstill : s.Still (Fits opened owed) t) (he : ∀ e, r = .error e → e.IsError) :
    Outcome opened owed m ∅ s (r, t) :=
  ⟨.of_still hstill, he, fun _ _ => .of_still hstill, fun _ _ _ => Set.empty_subset _⟩

/-- A still step before. -/
lemma after (hstill : s.Still (Fits opened owed) t) {run : Except Fault α × Session}
    (h : Outcome opened owed m I t run) : Outcome opened owed m I s run where
  grown := (Grown.of_still hstill).trans h.grown
  error := h.error
  clean hu hr := (Clean.of_still hstill).trans (h.clean hu hr) h.grown
  noted := h.noted

/-- A still step after, whatever becomes of the result. -/
lemma followed (h : Outcome opened owed m I s (r, t)) (hstill : t.Still (Fits opened owed) u) :
    Outcome opened owed m I s (r, u) where
  grown := h.grown.trans (.of_still hstill)
  error := h.error
  clean hu hr := (h.clean ((Grown.of_still hstill).accepted hu) hr).trans (.of_still hstill)
    (.of_still hstill)
  noted hu a ha := (h.noted ((Grown.of_still hstill).accepted hu) a ha).trans
    (Grown.of_still hstill).noted

/-- A run that is followed by another one. -/
lemma bind {β : Type} {c : Check α} {f : α → Check β} (hc : Outcome opened owed m I s (c s))
    (hf : ∀ a t, c s = (.ok a, t) → Outcome opened owed m J t (f a t)) :
    Outcome opened owed m (I ∪ J) s ((c >>= f) s) := by
  rw [Check.run_bind]
  rcases hrun : c s with ⟨e | a, t⟩ <;> rw [hrun] at hc
  · refine ⟨hc.grown, fun e' h => ?_, fun ht hr => hc.clean ht ?_, fun _ _ h => by cases h⟩
    · cases h
      exact hc.error e rfl
    · cases m <;> rcases e with _ | _ | _ <;> exact hr
  · have hrest := hf a t hrun
    have haccepted := hrest.grown.accepted
    refine ⟨hc.grown.trans hrest.grown, hrest.error, fun hu hr => ?_, fun hu b hb => ?_⟩
    · exact (hc.clean (haccepted hu) trivial).trans (hrest.clean hu hr) hrest.grown
    · exact Set.union_subset ((hc.noted (haccepted hu) a rfl).trans hrest.grown.noted)
        (hrest.noted hu b hb)

end Outcome

/-- What follows refuses values that are not present. -/
lemma OpenedOutcome.bind {c : Check Ty} {f : Ty → Check α}
    (hc : OpenedOutcome opened owed I s (c s)) (hopening : Check.Opening f)
    (hf : ∀ a t, c s = (.ok a, t) → Outcome opened owed .plain J t (f a t)) :
    Outcome opened owed .plain (I ∪ J) s ((c >>= f) s) := by
  rw [Check.run_bind]
  rcases hrun : c s with ⟨e | a, t⟩ <;> rw [hrun] at hc
  · refine ⟨hc.grown, fun e' h => ?_, fun _ hr => absurd hr (not_settled e),
      fun _ _ h => by cases h⟩
    cases h
    exact hc.error e rfl
  · have hrest := hf a t hrun
    have haccepted := hrest.grown.accepted
    have hopen {b : α} (hb : (f a t).1 = .ok b) (hstandard : t.options.builtins = .standard) :
        t.Opens a :=
      hopening a t b (f a t).2 hstandard (Prod.ext hb rfl)
    refine ⟨hc.grown.trans hrest.grown, hrest.error, fun hu hr => ?_, fun hu b hb => ?_⟩
    · dsimp only at hr
      cases hb : (f a t).1 with
      | error e =>
        rw [hb] at hr
        exact absurd hr (not_settled e)
      | ok b =>
        exact (hc.clean (haccepted hu) a rfl (hopen hb)).1.trans (hrest.clean hu hr) hrest.grown
    · exact Set.union_subset
        ((hc.clean (haccepted hu) a rfl (hopen hb)).2.trans hrest.grown.noted) (hrest.noted hu b hb)

/-! ## The family -/

namespace Outcome

/-- A misuse says nothing but what all runs keep. -/
lemma misuse (hgrown : Grown opened owed s t) (e : Misuse) :
    Outcome opened owed m I s ((.error (.misuse e), t) : Except Fault α × Session) := by
  refine ⟨hgrown, fun e' h => ?_, fun _ hr => absurd hr (not_settled_misuse m e),
    fun _ _ h => by cases h⟩
  cases h
  trivial

lemma during {enter : Session → Session × Undo} (he : Session.Entry enter) {c : Check α}
    (hc : Outcome opened owed m I (enter s).1 (c (enter s).1)) :
    Outcome opened owed m I s (Check.during enter c s) := by
  have hbody := hc.after (Session.still_entered he s)
  cases hu : (enter s).2.run (c (enter s).1).2 with
  | ok u =>
    rw [Check.run_during hu]
    exact hbody.followed (Session.still_left he hu)
  | error e =>
    rw [Check.run_during_misuse hu]
    exact .misuse hbody.grown e

/-- A fault that is reported counts. -/
lemma reported {d : Diagnostic} (hd : d.severity = .error) (hgrown : Grown opened owed s t)
    (a : α) :
    Outcome opened owed m I s ((.ok a, t.report d) : Except Fault α × Session) := by
  have hcount := t.errorCount_report_ne_zero hd
  exact ⟨hgrown.trans (.of_still (t.still_report d)), fun _ h => (by cases h),
    fun hu => absurd hu hcount, fun hu => absurd hu hcount⟩

lemma reporting {c : Check Unit} (hc : Outcome opened owed .plain I s (c s)) :
    Outcome opened owed m I s (Check.reporting c s) := by
  rw [Check.reporting]
  rcases hrun : c s with ⟨(d | e | e) | a, t⟩ <;> rw [hrun] at hc
  · exact .reported (hc.error _ rfl) hc.grown ()
  · exact .reported rfl hc.grown ()
  · exact .misuse hc.grown e
  · exact ⟨hc.grown, hc.error, fun hu _ => hc.clean hu trivial, hc.noted⟩

/-- A fault that is caught is thrown again, or a value is given in its place. -/
lemma tryCatch {c : Check α} {handle : Fault → Check α}
    (hc : Outcome opened owed .mild ∅ s (c s))
    (hh : ∀ e, handle e = throw e ∨ ∃ a, handle e = pure a)
    (hmisuse : ∀ m, handle (.misuse m) = throw (.misuse m)) :
    Outcome opened owed .mild ∅ s (MonadExcept.tryCatch c handle s) := by
  rw [Check.run_tryCatch]
  rcases hrun : c s with ⟨e | a, t⟩ <;> rw [hrun] at hc
  · dsimp only
    obtain hthrow | ⟨a, hpure⟩ := hh e
    · rw [hthrow]
      exact hc
    · rw [hpure]
      refine ⟨hc.grown, fun _ h => (by cases h), fun hu _ => ?_, fun _ _ _ => Set.empty_subset _⟩
      cases e with
      | diagnostic d => exact hc.clean hu trivial
      | symbol e => exact hc.clean hu trivial
      | misuse e =>
        have hboth : (throw (.misuse e) : Check α) t = (pure a : Check α) t := by
          rw [← hmisuse, hpure]
        cases hboth
  · exact hc

/-- A type is noted that is right where it matters. -/
lemma record {id : NodeId} {type : Ty}
    (hpresent : id ∈ opened → s.options.builtins = .standard → s.Opens type) :
    Outcome opened owed m {id} s (Check.record id type s) := by
  refine ⟨⟨.record s id type, fun hs => hs, rfl⟩,
    fun _ h => (by cases h), fun _ _ => ⟨fun f hf => ?_, fun _ hid => .inl hid⟩, fun _ _ _ => ?_⟩
  · obtain rfl | hf := List.mem_cons.1 hf
    · exact .inr hpresent
    · exact .inl hf
  · rintro i rfl
    exact ⟨_, List.mem_cons_self, rfl⟩

/-- When the body of a callable is checked, types are noted for the expressions in it. -/
lemma marked {f : Callable} (hf : Fits opened owed (.callable f)) {c : Check α}
    (hc : Outcome opened owed .plain (Fragment.noted (f.body.fragments false)) s (c s)) :
    Outcome opened owed .plain ∅ s (Check.andThen c (fun s => s.markChecked f.id) s) := by
  rw [Check.andThen]
  rcases hrun : c s with ⟨e | a, t⟩ <;> rw [hrun] at hc
  · exact ⟨⟨hc.grown.toGrows.trans (.of_eq rfl rfl), hc.grown.fit, hc.grown.options⟩, hc.error,
      fun _ hr => absurd hr (not_settled e), fun _ _ h => by cases h⟩
  · refine ⟨⟨hc.grown.toGrows.trans (.of_eq rfl rfl), hc.grown.fit, hc.grown.options⟩, hc.error,
      fun hu hr => ⟨(hc.clean hu hr).types, fun id hid => ?_⟩, fun _ _ _ => Set.empty_subset _⟩
    obtain rfl | hid := List.mem_cons.1 hid
    · exact .inr (hf.trans (hc.noted hu a rfl))
    · exact (hc.clean hu hr).checked id hid

end Outcome

/-- The type of a value that is taken apart is noted. -/
lemma OpenedOutcome.recorded {e : Expr} {c : Check Ty} (hc : Outcome opened owed .plain I s (c s)) :
    OpenedOutcome opened owed (insert e.id I) s (Rule.recorded e.mark c s) := by
  rw [Rule.recorded, Check.run_bind]
  rcases hrun : c s with ⟨fault | type, t⟩ <;> rw [hrun] at hc
  · refine ⟨hc.grown, fun e' h => ?_, fun _ _ h => by cases h⟩
    cases h
    exact hc.error fault rfl
  · have hgrown : Grown opened owed t (t.record e.id type) :=
      ⟨.record t e.id type, fun hs => hs, rfl⟩
    refine ⟨hc.grown.trans hgrown, fun _ h => (by cases h), fun hu type' htype hopens => ?_⟩
    obtain rfl : type = type' := Except.ok.inj htype
    have hrecord : Outcome opened owed .plain {e.id} t (Check.record e.id type t) :=
      .record fun _ => hopens
    refine ⟨(hc.clean hu trivial).trans (hrecord.clean hu trivial) hgrown, ?_⟩
    exact Set.insert_subset (hrecord.noted hu _ rfl rfl) ((hc.noted hu _ rfl).trans hgrown.noted)

lemma Outcome.once {f : Callable} (hf : Fits opened owed (.callable f)) {body : BodyCheck}
    (hbody : ∀ spec s, s.scopes.Fit (Fits opened owed) →
      Outcome opened owed .plain (Fragment.noted (f.body.fragments false)) s
        (Rule.functionBody spec body s))
    (spec : FunctionSpec) {first : Check Unit} {rest : Ty → Check Unit}
    (hfirst : first.Still (Fits opened owed)) (hrest : ∀ t, (rest t).Still (Fits opened owed))
    (hs : s.scopes.Fit (Fits opened owed)) :
    Outcome opened owed .plain ∅ s (Rule.once f.id (first >>= fun _ =>
      Check.andThen (Rule.functionBody spec body) (fun s => s.markChecked f.id) >>= rest) s) := by
  rw [Rule.run_once]
  split
  · exact .of_still (.refl s) fun _ h => by cases h
  · -- The declarations being inferred do not matter.
    have hrun : Outcome opened owed .plain ∅ (s.beginInference f.id) ((first >>= fun _ =>
        Check.andThen (Rule.functionBody spec body) (fun s => s.markChecked f.id) >>= rest)
          (s.beginInference f.id)) := by
      obtain ⟨hstill, herror⟩ := hfirst (s.beginInference f.id)
      rw [← Set.union_empty ∅]
      refine .bind (.of_still hstill herror) fun _ t ht => ?_
      rw [ht] at hstill
      rw [← Set.union_empty ∅]
      refine .bind (.marked hf (hbody spec t (hstill.fit hs))) fun type u _ => ?_
      exact .of_still (hrest type u).1 (hrest type u).2
    have hgrows : s.Grows (s.beginInference f.id) := .of_eq rfl rfl
    exact ⟨⟨hgrows.trans (hrun.grown.toGrows.trans (.of_eq rfl rfl)), hrun.grown.fit,
        hrun.grown.options⟩, hrun.error,
      fun hu hr => ⟨(hrun.clean hu hr).types, (hrun.clean hu hr).checked⟩, hrun.noted⟩

lemma laws (opened : Set NodeId) (owed : NodeId → Set NodeId) : (family opened owed).Laws where
  mono hIJ h s hs :=
    ⟨(h s hs).grown, (h s hs).error, (h s hs).clean,
      fun hu a ha => hIJ.trans ((h s hs).noted hu a ha)⟩
  plain h s hs := by
    refine ⟨(h s hs).grown, (h s hs).error, fun hu hr => (h s hs).clean hu ?_, (h s hs).noted⟩
    rename_i c _
    cases hrun : (c s).1 with
    | ok a => trivial
    | error e =>
      rw [hrun] at hr
      exact absurd hr (not_settled e)
  still hc s _ := .of_still (hc s).1 (hc s).2
  fails _ _ hc hnever s _ :=
    ⟨.of_still (hc s).1, (hc s).2, fun _ _ => .of_still (hc s).1,
      fun _ a ha => (hnever s a _ (Prod.ext ha rfl)).elim⟩
  bind hc hf s hs := (hc s hs).bind fun a t hrun =>
    hf a t (by simpa [hrun] using (hc s hs).grown.fit hs)
  lookup hf s hs := hf _ (fun x hx => hs x (Scopes.has_of_lookup? hx)) s hs
  tryCatch hc hh hm s hs := (hc s hs).tryCatch hh hm
  record t h s _ := .record fun hid => h.elim (absurd hid) (absurd hid)
  recordClass c _ s _ := .record fun _ _ => s.opens_cls c
  recorded _ hc s hs := .recorded (hc s hs)
  opened hc ho hf s hs :=
    (hc s hs).bind ho fun a t hrun => hf a t (by simpa [hrun] using (hc s hs).grown.fit hs)
  during he hc s hs := .during he (hc _ ((Session.still_entered he s).fit hs))
  reporting hc s hs := (hc s hs).reporting
  once hf hbody spec first rest hfirst hrest s hs := .once hf hbody spec hfirst hrest hs

/-- Both passes over a program. -/
lemma passes (opened : Set NodeId) (owed : NodeId → Set NodeId) {nodes : List Node}
    (options : Options) (hfits : ∀ g ∈ Node.fragmentsIn true nodes, Fits opened owed g) :
    Outcome opened owed .plain (Fragment.noted (Node.fragmentsIn false nodes)) { options }
      (Analysis.passes nodes { options }) := by
  have hlaws := laws opened owed
  rw [Analysis.passes_eq]
  exact hlaws.passesWithin (hlaws.demand _) hfits _ .start

/-- Where nothing is asked, all fragments fit. -/
lemma fits_empty (g : Fragment) : Fits ∅ (fun _ => ∅) g := by
  rcases g with ⟨_ | _, e⟩ | e | f
  · exact Set.notMem_empty e.id
  · trivial
  · exact Set.notMem_empty e.id
  · exact Set.empty_subset _

/-- A program that is accepted went through both passes without a fault. -/
lemma passes_of_run {program : Program} {options : Options}
    (hrun : Analysis.run (some program) options = .ok s) (hs : s.errorCount = 0) :
    Analysis.passes program.nodes { options := Analysis.optionsFor (some program) options } =
      (.ok (), s) := by
  have hfits : ∀ g ∈ Node.fragmentsIn true program.nodes, Fits ∅ (fun _ => ∅) g :=
    fun g _ => fits_empty g
  have herror := (passes ∅ (fun _ => ∅) (Analysis.optionsFor (some program) options) hfits).error
  rw [Analysis.run] at hrun
  dsimp only [Option.map_some, Option.getD_some] at hrun
  rcases hpasses : Analysis.passes program.nodes
    { options := Analysis.optionsFor (some program) options } with ⟨(d | e | e) | a, t⟩ <;>
    rw [hpasses] at hrun herror <;> cases hrun
  · exact absurd hs (t.errorCount_report_ne_zero (herror _ rfl))
  · exact absurd hs (t.errorCount_report_ne_zero rfl)
  · rfl

end Accepted

end TypedScript
