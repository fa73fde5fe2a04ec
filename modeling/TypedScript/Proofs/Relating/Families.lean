import TypedScript.Proofs.Relating.Presence
import TypedScript.Proofs.Relating.Steps

/-!
# Families of checks

What is shown of all checks of a tree is often shown of two of them side by side, which
differ in how they check on demand. It may depend on properties that the fragments of the
tree have in common, and it may say that types are noted for expressions. A `Family` is a
relation of this kind. Its laws are about the few steps that are not still, and the rules of
the language follow from them.

A check of a value that is taken apart afterwards is related in a weaker sense, since its
type may turn out to be wrong for that. A mild check keeps the relation where it fails, so
that its fault may be caught.
-/
namespace TypedScript

/-- Whether a relation of checks says something about runs that end in a fault. -/
inductive Manner where
  | plain
  | mild

structure Family where
  /-- What the fragments of the tree have in common. -/
  Fits : Fragment → Prop
  /-- The checks are related, and they note types for these expressions. -/
  Rel {α : Type} (m : Manner) (noted : Set NodeId) (c d : Check α) : Prop
  /-- The checks are related, provided that the value they find is present. -/
  Opened (noted : Set NodeId) (c d : Check Ty) : Prop

namespace Family

variable (F : Family)

/-- The checks are related as those of a value of which this becomes. -/
def At : Role → Set NodeId → Check Ty → Check Ty → Prop
  | .plain => F.Rel .plain
  | .opened => F.Opened

/-- The body of a callable, checked once, is related to the other. -/
def Once (f : Callable) (body other : BodyCheck) : Prop :=
  ∀ (spec : FunctionSpec) (first : Check Unit) (rest : Ty → Check Unit), first.Still F.Fits →
    (∀ t, (rest t).Still F.Fits) →
    F.Rel .plain ∅
      (Rule.once f.id (first >>= fun _ =>
        Check.andThen (Rule.functionBody spec body) (fun s => s.markChecked f.id) >>= rest))
      (Rule.once f.id (first >>= fun _ =>
        Check.andThen (Rule.functionBody spec other) (fun s => s.markChecked f.id) >>= rest))

end Family

/-- The expressions for which types are noted. -/
def Fragment.noted (fs : List Fragment) : Set NodeId :=
  { i | ∃ role e, .expr role e ∈ fs ∧ e.id = i }

namespace Fragment

@[simp] lemma noted_nil : noted [] = ∅ := by
  simp [noted]

@[simp] lemma noted_expr (role : Role) (e : Expr) (fs : List Fragment) :
    noted (.expr role e :: fs) = insert e.id (noted fs) := by
  ext i
  constructor
  · rintro ⟨role', e', h, rfl⟩
    obtain h | h := List.mem_cons.1 h
    · cases h
      exact .inl rfl
    · exact .inr ⟨role', e', h, rfl⟩
  · rintro (rfl | ⟨role', e', h, rfl⟩)
    · exact ⟨role, e, List.mem_cons_self, rfl⟩
    · exact ⟨role', e', List.mem_cons_of_mem _ h, rfl⟩

@[simp] lemma noted_bare (e : Expr) (fs : List Fragment) : noted (.bare e :: fs) = noted fs := by
  simp [noted]

@[simp] lemma noted_callable (f : Callable) (fs : List Fragment) :
    noted (.callable f :: fs) = noted fs := by
  simp [noted]

@[simp] lemma noted_append (fs gs : List Fragment) : noted (fs ++ gs) = noted fs ∪ noted gs := by
  ext i
  simp only [noted, List.mem_append, Set.mem_union, Set.mem_ofPred_eq]
  constructor
  · rintro ⟨role, e, h | h, rfl⟩
    · exact .inl ⟨role, e, h, rfl⟩
    · exact .inr ⟨role, e, h, rfl⟩
  · rintro (⟨role, e, h, rfl⟩ | ⟨role, e, h, rfl⟩)
    · exact ⟨role, e, .inl h, rfl⟩
    · exact ⟨role, e, .inr h, rfl⟩

@[simp] lemma noted_map_bare (es : List Expr) : noted (es.map .bare) = ∅ := by
  simp [noted]

end Fragment

/-- What the steps that are not still do for a family. -/
structure Family.Laws (F : Family) : Prop where
  mono {α : Type} {m : Manner} {I J : Set NodeId} {c d : Check α} : I ⊆ J → F.Rel m J c d →
    F.Rel m I c d
  plain {α : Type} {I : Set NodeId} {c d : Check α} : F.Rel .mild I c d → F.Rel .plain I c d
  still {α : Type} {m : Manner} {c : Check α} : c.Still F.Fits → F.Rel m ∅ c c
  /-- A check without a result may be said to note anything. -/
  fails {α : Type} {m : Manner} (I : Set NodeId) {c : Check α} : c.Still F.Fits →
    (∀ s a t, c s ≠ (.ok a, t)) → F.Rel m I c c
  bind {α β : Type} {m : Manner} {I J : Set NodeId} {c d : Check α} {f g : α → Check β} :
    F.Rel m I c d → (∀ a, F.Rel m J (f a) (g a)) → F.Rel m (I ∪ J) (c >>= f) (d >>= g)
  lookup {α : Type} {m : Manner} {I : Set NodeId} {name : String} {f g : Option Symbol → Check α} :
    (∀ x?, (∀ x, x? = some x → x.Fits F.Fits) → F.Rel m I (f x?) (g x?)) →
    F.Rel m I (Check.lookup? name >>= f) (Check.lookup? name >>= g)
  /-- A fault that is caught is thrown again, or a value is given in its place. -/
  tryCatch {α : Type} {c d : Check α} {handle : Fault → Check α} : F.Rel .mild ∅ c d →
    (∀ e, handle e = throw e ∨ ∃ a, handle e = pure a) →
    (∀ m, handle (.misuse m) = throw (.misuse m)) →
    F.Rel .mild ∅ (MonadExcept.tryCatch c handle) (MonadExcept.tryCatch d handle)
  record {e : Expr} (t : Ty) : F.Fits (.expr .plain e) ∨ F.Fits (.bare e) →
    F.Rel .plain {e.id} (Check.record e.id t) (Check.record e.id t)
  recordClass {e : Expr} (c : Class) : F.Fits (.expr .opened e) →
    F.Rel .plain {e.id} (Check.record e.id (.cls c)) (Check.record e.id (.cls c))
  recorded {e : Expr} {I : Set NodeId} {c d : Check Ty} : F.Fits (.expr .opened e) →
    F.Rel .plain I c d →
    F.Opened (insert e.id I) (Rule.recorded e.mark c) (Rule.recorded e.mark d)
  opened {α : Type} {I J : Set NodeId} {c d : Check Ty} {f g : Ty → Check α} : F.Opened I c d →
    Check.Opening f → (∀ t, F.Rel .plain J (f t) (g t)) →
    F.Rel .plain (I ∪ J) (c >>= f) (d >>= g)
  during {α : Type} {m : Manner} {I : Set NodeId} {enter : Session → Session × Undo}
    {c d : Check α} : Session.Entry enter → F.Rel m I c d →
    F.Rel m I (Check.during enter c) (Check.during enter d)
  reporting {m : Manner} {I : Set NodeId} {c d : Check Unit} : F.Rel .plain I c d →
    F.Rel m I (Check.reporting c) (Check.reporting d)
  once {f : Callable} {body other : BodyCheck} : F.Fits (.callable f) →
    (∀ spec, F.Rel .plain (Fragment.noted (f.body.fragments false))
      (Rule.functionBody spec body) (Rule.functionBody spec other)) →
    F.Once f body other

namespace Family.Laws

variable {F : Family} (laws : F.Laws)
variable {α β : Type} {m : Manner} {I J : Set NodeId} {c d : Check α} {f g : α → Check β}
include laws

/-- A still step before. -/
lemma first {c : Check α} (hc : c.Still F.Fits) (hf : ∀ a, F.Rel m J (f a) (g a)) :
    F.Rel m J (c >>= f) (c >>= g) := by
  simpa using laws.bind (laws.still hc) hf

/-- A still step after. -/
lemma last (hc : F.Rel m I c d) (hf : ∀ a, (f a).Still F.Fits) :
    F.Rel m I (c >>= f) (d >>= f) := by
  simpa using laws.bind hc fun a => laws.still (hf a)

lemma map {k : α → β} (hc : F.Rel m I c d) : F.Rel m I (k <$> c) (k <$> d) :=
  laws.last hc fun _ => .pure _

lemma read {f g : Session → Check α} (h : ∀ s, F.Rel m I (f s) (g s)) :
    F.Rel m I (get >>= f) (get >>= g) :=
  laws.first (fun s => ⟨.refl s, fun _ h => by cases h⟩) h

omit laws in
lemma ite {p : Prop} [Decidable p] {c' d' : Check α} (h : F.Rel m I c d) (h' : F.Rel m I c' d') :
    F.Rel m I (if p then c else c') (if p then d else d') := by
  split
  · exact h
  · exact h'

/-- A still step that is taken on a condition, and what follows it either way. -/
lemma onlyIf {p : Prop} [Decidable p] {c : Check Unit} {f g : Unit → Check β}
    (hc : c.Still F.Fits) (hf : ∀ a, F.Rel m I (f a) (g a)) :
    F.Rel m I (if p then c >>= f else f ()) (if p then c >>= g else g ()) :=
  ite (laws.first hc hf) (hf ())

/-- A diagnostic that is thrown on a condition, and what follows otherwise. -/
lemma orFail {p : Prop} [Decidable p] {d : String → Diagnostic} {f g : Unit → Check β}
    (hf : ∀ a, F.Rel m I (f a) (g a)) (hd : ∀ file, (d file).severity = .error := by simp) :
    F.Rel m I (if p then Check.file >>= fun file => Check.fail (d file) >>= f else f ())
      (if p then Check.file >>= fun file => Check.fail (d file) >>= g else g ()) :=
  ite (laws.first .file fun file => laws.first (.throw (hd file)) hf) (hf ())

/-- One of two still steps, and what follows. -/
lemma bindIte {p : Prop} [Decidable p] {c c' : Check α} (hc : c.Still F.Fits)
    (hc' : c'.Still F.Fits) (hf : ∀ a, F.Rel m I (f a) (g a)) :
    F.Rel m I (if p then c >>= f else c' >>= f) (if p then c >>= g else c' >>= g) :=
  ite (laws.first hc hf) (laws.first hc' hf)

lemma mapM {k l : α → Check β} (as : List α) (h : ∀ a, F.Rel m ∅ (k a) (l a)) :
    F.Rel m ∅ (as.mapM k) (as.mapM l) := by
  induction as with
  | nil => exact laws.still (.pure _)
  | cons a as ih =>
    rw [List.mapM_cons, List.mapM_cons]
    have hrest (b : β) : F.Rel m ∅ (as.mapM k >>= fun bs => pure (b :: bs))
        (as.mapM l >>= fun bs => pure (b :: bs)) :=
      laws.last ih fun _ => .pure _
    simpa using laws.bind (h a) hrest

/-- Note the type of an expression in its role. -/
lemma noteAt {role : Role} {e : Expr} {c d : Check Ty} (he : F.Fits (.expr role e))
    (hc : F.Rel .plain I c d) :
    F.At role (insert e.id I) (Rule.recorded e.mark c) (Rule.recorded e.mark d) := by
  cases role with
  | opened => exact laws.recorded he hc
  | plain =>
    have hnote (t : Ty) : F.Rel .plain {e.id} (Check.record e.id t >>= fun _ => pure t)
        (Check.record e.id t >>= fun _ => pure t) :=
      laws.last (laws.record t (.inl he)) fun _ => .pure _
    exact laws.mono (by simp) (laws.bind hc hnote)

end Family.Laws

end TypedScript
