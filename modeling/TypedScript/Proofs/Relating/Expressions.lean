import TypedScript.Proofs.Relating.Members

/-!
# Expressions in a family

The rule of each form of expression keeps a family, given that the checks of its parts do.
What the rule notes is what its parts note.
-/
namespace TypedScript

namespace Family

variable (F : Family)

/-- Two ways of checking an expression that are related under every hint. -/
abbrev Checks (I : Set NodeId) (c d : Checker) : Prop := ∀ h, F.Rel .plain I (c h) (d h)

/-- Two ways of checking an expression whose value is taken apart. -/
abbrev Opens (I : Set NodeId) (c d : Checker) : Prop := ∀ h, F.Opened I (c h) (d h)

inductive Parts : Set NodeId → List Part → List Part → Prop
  | nil : Parts ∅ [] []
  | cons {I J : Set NodeId} {e : Expr} {c c' : Checker} {ps ps' : List Part} :
    F.Checks I c c' → Parts J ps ps' → Parts (I ∪ J) (⟨e, c⟩ :: ps) (⟨e, c'⟩ :: ps')

inductive Part? : Set NodeId → Option Part → Option Part → Prop
  | none : Part? ∅ none none
  | some {I : Set NodeId} {e : Expr} {c c' : Checker} :
    F.Checks I c c' → Part? I (some ⟨e, c⟩) (some ⟨e, c'⟩)

/-- The pattern `_` is not looked at, so its checks need not be related. -/
inductive Arms : Set NodeId → List Arm → List Arm → Prop
  | nil : Arms ∅ [] []
  | case {I J K : Set NodeId} {p e : Expr} {c c' k k' : Checker} {as as' : List Arm} :
    (p.name? ≠ some "_" → F.Checks I c c') → F.Checks J k k' → Arms K as as' →
    Arms ((if p.name? = some "_" then ∅ else I) ∪ (J ∪ K))
      (⟨some ⟨p, c⟩, ⟨e, k⟩⟩ :: as) (⟨some ⟨p, c'⟩, ⟨e, k'⟩⟩ :: as')
  | otherwise {J K : Set NodeId} {e : Expr} {k k' : Checker} {as as' : List Arm} :
    F.Checks J k k' → Arms K as as' →
    Arms (J ∪ K) (⟨none, ⟨e, k⟩⟩ :: as) (⟨none, ⟨e, k'⟩⟩ :: as')

inductive Entries : Set NodeId → List Entry → List Entry → Prop
  | nil : Entries ∅ [] []
  | property {I J : Set NodeId} {key : Ident} {e : Expr} {c c' : Checker} {es es' : List Entry} :
    F.Checks I c c' → Entries J es es' →
    Entries (I ∪ J) (.property key ⟨e, c⟩ :: es) (.property key ⟨e, c'⟩ :: es')
  | spread {I J : Set NodeId} {e : Expr} {c c' : Checker} {es es' : List Entry} :
    F.Checks I c c' → Entries J es es' →
    Entries (I ∪ J) (.spread ⟨e, c⟩ :: es) (.spread ⟨e, c'⟩ :: es')

end Family

namespace Rule

/-- Elements at the same place with the same type. -/
structure AlikeElements (p q : Argument × Ty) : Prop where
  place : p.1.location = q.1.location
  type : p.2 = q.2

variable {ps qs : List (Argument × Ty)}

lemma fitElements_congr (h : List.Forall₂ AlikeElements ps qs) (want : Ty) :
    fitElements want ps = fitElements want qs := by
  induction h with
  | nil => rfl
  | @cons p q ps qs h _ ih =>
    obtain ⟨a, t⟩ := p
    obtain ⟨b, u⟩ := q
    obtain ⟨hplace, rfl⟩ := h
    dsimp only at hplace
    rw [fitElements, fitElements, hplace, ih]

lemma map_snd_congr (h : List.Forall₂ AlikeElements ps qs) : ps.map Prod.snd = qs.map Prod.snd := by
  induction h with
  | nil => rfl
  | cons h _ ih => rw [List.map_cons, List.map_cons, h.type, ih]

end Rule

namespace Family.Laws

open Check (Still)

variable {F : Family} (laws : F.Laws) {d d' : Demand} (hd : F.Demands d d')
variable {I J K : Set NodeId} {x y z : Expr} {c c' k k' l l' : Checker}
variable (hx : F.Checks I c c') (hy : F.Checks J k k') (hz : F.Checks K l l')
include laws

lemma narrowed {α : Type} {c d : Check α} (n : Narrowings) (hc : F.Rel .plain I c d) :
    F.Rel .plain I (Rule.narrowed n c) (Rule.narrowed n d) :=
  laws.during (.narrowings n) hc

lemma each {ps ps' : List Part} (hp : F.Parts I ps ps') :
    F.Rel .plain I (Rule.each ps) (Rule.each ps') := by
  induction hp with
  | nil => exact laws.still (.pure _)
  | cons hc _ ih => exact laws.bind (hc _) fun _ => ih

lemma template {ps ps' : List Part} (hp : F.Parts I ps ps') :
    F.Rel .plain I (Rule.template ps) (Rule.template ps') :=
  laws.last (laws.each hp) fun _ => .pure _

/-! ## Operators -/

include hx hy in
lemma binary (place : Location) (op : Operator) :
    F.Rel .plain (I ∪ J) (Rule.binary place ⟨x, c⟩ op ⟨y, k⟩)
      (Rule.binary place ⟨x, c'⟩ op ⟨y, k'⟩) := by
  have hsettle (t u : Ty) : (Check.settle place "invalid operands"
      (Typing.binary op (Typing.operand t) (Typing.operand u))).Still F.Fits :=
    .settle _ _ (Typing.refuses_binary _ _ _)
  refine ite ?_ ?_
  · rw [Set.union_comm]
    exact laws.bind (hy _) fun _ => laws.last (hx _) fun _ => hsettle _ _
  · exact laws.bind (hx _) fun _ => laws.last (hy _) fun _ => hsettle _ _

include hx hy in
lemma logical (place : Location) (op : Operator) :
    F.Rel .plain (I ∪ J) (Rule.logical place ⟨x, c⟩ op ⟨y, k⟩)
      (Rule.logical place ⟨x, c'⟩ op ⟨y, k'⟩) :=
  laws.bind (hx _) fun _ => laws.first (.outcomes _) fun _ =>
    laws.last (laws.narrowed _ (hy _)) fun _ =>
      .ite (.pure _) (.settle _ _ (Typing.refuses_binary _ _ _))

/-- A negated integer is not checked by itself; its type is that of the whole. -/
lemma unaryInteger (place : Location) {op : Operator} (hop : op = .minus) (hint : x.isInteger)
    (hfits : F.Fits (.expr .plain x)) (expected : Hint) :
    F.Rel .plain {x.id} (Rule.unary place op ⟨x, c⟩ expected)
      (Rule.unary place op ⟨x, c'⟩ expected) := by
  unfold Expr.isInteger at hint
  split at hint
  · rename_i m text hliteral
    subst hop
    simp only [Rule.unary, hliteral]
    exact laws.first (.settle _ _ (Typing.refuses_literal _ _ _)) fun t =>
      laws.last (laws.record t (.inl hfits)) fun _ => .pure _
  · cases hint

include hx in
lemma unary (place : Location) {op : Operator} (hop : ¬ (op = .minus ∧ x.isInteger))
    (expected : Hint) :
    F.Rel .plain I (Rule.unary place op ⟨x, c⟩ expected)
      (Rule.unary place op ⟨x, c'⟩ expected) := by
  unfold Rule.unary
  dsimp only
  split
  · rename_i hliteral
    exact absurd ⟨rfl, by simp [Expr.isInteger, hliteral]⟩ hop
  · exact laws.last (hx _) fun _ => .settle _ _ (Typing.refuses_unary _ _)

lemma step (place : Location) (op : Operator) {t t' : Check Ty} (ht : F.Rel .plain I t t') :
    F.Rel .plain I (Rule.step place op t) (Rule.step place op t') :=
  laws.last ht fun _ => .settle _ _ (Typing.refuses_step _ _)

include hy in
lemma assign (place : Location) (lhs : Expr) (op : Operator) {t t' : Check Ty}
    (ht : F.Rel .plain I t t') :
    F.Rel .plain (I ∪ J) (Rule.assign place lhs t op ⟨y, k⟩)
      (Rule.assign place lhs t' op ⟨y, k'⟩) := by
  refine laws.bind ht fun t => ite (laws.last (hy _) fun _ => ?_) (laws.last (hy _) fun _ => ?_)
  -- both ways of assigning end by forgetting what was known of the target
  · refine (Still.assignable _ _ _ _).bind fun _ => ?_
    dsimp only
    split
    · exact (Still.forget _ _).bind fun _ => .pure _
    · exact .pure _
  · refine (Still.settle _ _ (Typing.refuses_compound _ _ _)).bind fun _ => ?_
    dsimp only
    split
    · exact (Still.forget _ _).bind fun _ => .pure _
    · exact .pure _

include hx hy in
lemma range (place : Location) :
    F.Rel .plain (I ∪ J) (Rule.range place ⟨x, c⟩ ⟨y, k⟩) (Rule.range place ⟨x, c'⟩ ⟨y, k'⟩) :=
  laws.bind (hx _) fun _ => laws.last (hy _) fun _ => .settle _ _ (Typing.refuses_range _ _)

include hx in
lemma await (place : Location) (expected : Hint) :
    F.Rel .plain I (Rule.await place ⟨x, c⟩ expected) (Rule.await place ⟨x, c'⟩ expected) := by
  refine laws.read fun s => laws.onlyIf (.misplaced _ _ _ _) fun _ =>
    laws.last (hx _) fun t => .ite (.pure _) ?_
  split
  · exact .pure _
  · exact .typeMismatch _ _

include hx in
lemma condition : F.Rel .plain I (Rule.condition ⟨x, c⟩) (Rule.condition ⟨x, c'⟩) :=
  laws.last (hx _) fun _ => .ite (.typeMismatch _ _) (.outcomes _)

include hx hy hz in
lemma conditional (expected : Hint) :
    F.Rel .plain (I ∪ (J ∪ K)) (Rule.conditional ⟨x, c⟩ ⟨y, k⟩ ⟨z, l⟩ expected)
      (Rule.conditional ⟨x, c'⟩ ⟨y, k'⟩ ⟨z, l'⟩ expected) :=
  laws.bind (laws.condition hx) fun _ => laws.bind (laws.narrowed _ (hy _)) fun _ =>
    laws.last (laws.narrowed _ (hz _)) fun _ => .common _

include hx hy in
lemma coalesce (expected : Hint) :
    F.Rel .plain (I ∪ J) (Rule.coalesce ⟨x, c⟩ ⟨y, k⟩ expected)
      (Rule.coalesce ⟨x, c'⟩ ⟨y, k'⟩ expected) :=
  laws.bind (hx _) fun _ => laws.last (hy _) fun _ => .common _

include hx in
lemma nonNull (expected : Hint) :
    F.Rel .plain I (Rule.nonNull ⟨x, c⟩ expected) (Rule.nonNull ⟨x, c'⟩ expected) :=
  laws.last (hx _) fun _ => .pure _

/-! ## Matches -/

lemma pattern (subject : Ty) (hp : x.name? ≠ some "_" → F.Checks I c c') :
    F.Rel .plain (if x.name? = some "_" then ∅ else I) (Rule.pattern subject (some ⟨x, c⟩))
      (Rule.pattern subject (some ⟨x, c'⟩)) := by
  by_cases hwild : x.name? = some "_"
  · simp only [Rule.pattern, hwild, ne_eq, not_true_eq_false, if_false, if_true]
    exact laws.still (.pure _)
  · simp only [Rule.pattern, hwild, ne_eq, not_false_eq_true, if_false, if_true]
    exact laws.last (hp hwild _) fun _ => .pure _

lemma arms (subject : Ty) (expected : Hint) {as as' : List Arm} (ha : F.Arms I as as') :
    F.Rel .plain I (Rule.arms subject expected as) (Rule.arms subject expected as') := by
  induction ha with
  | nil => exact laws.still (.pure _)
  | case hp hk _ ih =>
    refine laws.bind (laws.pattern subject hp) fun _ => laws.bind (hk _) fun t => ?_
    dsimp only
    split
    · exact laws.onlyIf (.assignable _ _ _ _) fun _ => laws.last ih fun _ => .pure _
    · exact laws.last ih fun _ => .pure _
  | otherwise hk _ ih =>
    refine laws.first (.pure _) fun _ => laws.bind (hk _) fun t => ?_
    dsimp only
    split
    · exact laws.onlyIf (.assignable _ _ _ _) fun _ => laws.last ih fun _ => .pure _
    · exact laws.last ih fun _ => .pure _

include hx in
lemma matching (expected : Hint) {as as' : List Arm} (ha : F.Arms J as as') :
    F.Rel .plain (I ∪ J) (Rule.matching ⟨x, c⟩ as expected)
      (Rule.matching ⟨x, c'⟩ as' expected) := by
  refine laws.bind (hx _) fun t => laws.last (laws.arms t expected ha) fun ts => ?_
  split
  · exact .ite (.common _) (.pure _)
  · exact .common _

/-! ## Taking a value apart -/

lemma index (place : Location) (ho : F.Opens I c c') (hi : F.Checks J k k') :
    F.Rel .plain (I ∪ J) (Rule.index place ⟨x, c⟩ ⟨y, k⟩) (Rule.index place ⟨x, c'⟩ ⟨y, k'⟩) := by
  refine laws.opened (ho _) (fun object s a u _ h => ?_) fun object =>
    laws.last (hi _) fun _ => .settle _ _ (Typing.refuses_index _ _)
  obtain ⟨t, v, -, h⟩ := Check.exists_of_run_bind h
  exact Session.opens_of_index (Check.of_run_settle h)

variable {noted : Bool} {args args' : List Argument}

/-- Calling `super` does not check the callee as an expression. -/
lemma callSuper (place : Location) (typeArgs : List Annotation) (hsuper : x.isSuper)
    (hfits : F.Fits (.expr .opened x)) (ha : F.Arguments true I args args') :
    F.Rel .plain (insert x.id I) (Rule.call place ⟨x, c⟩ typeArgs args)
      (Rule.call place ⟨x, c'⟩ typeArgs args') := by
  unfold Expr.isSuper at hsuper
  split at hsuper
  · rename_i m hcallee
    simp only [Rule.call, hcallee]
    exact laws.superConstructor place hfits ha
  · cases hsuper

lemma call (place : Location) (typeArgs : List Annotation) (hsuper : ¬ x.isSuper)
    (ho : F.Opens I c c') (ha : F.Arguments false J args args') :
    F.Rel .plain (I ∪ J) (Rule.call place ⟨x, c⟩ typeArgs args)
      (Rule.call place ⟨x, c'⟩ typeArgs args') := by
  unfold Rule.call
  dsimp only
  split
  · rename_i hcallee
    exact absurd (by simp [Expr.isSuper, hcallee]) hsuper
  · refine laws.opened (ho _) (fun f s a u _ h => ?_) fun f =>
      laws.first (.meanings _) fun _ => laws.callValue _ _ _ ha
    obtain ⟨explicit, v, -, h⟩ := Check.exists_of_run_bind h
    exact Call.opens_of_value h

include hd in
lemma methodCall (place : Location) (method : Ident) (typeArgs : List Annotation)
    (ho : F.Opens I c c') (ha : F.Arguments false J args args') :
    F.Rel .plain (I ∪ J) (Rule.methodCall d place ⟨x, c⟩ method typeArgs args)
      (Rule.methodCall d' place ⟨x, c'⟩ method typeArgs args') := by
  refine laws.opened (ho _) (fun t s a u hb h => ?_) fun t => ?_
  · obtain ⟨f, v, hf, -⟩ := Check.exists_of_run_bind h
    exact Member.opens_of_typeOf hd.keeps hb hf
  · have hvalue (f : Ty) : F.Rel .plain J
        (Check.meanings typeArgs >>= fun explicit => Call.value place f explicit args)
        (Check.meanings typeArgs >>= fun explicit => Call.value place f explicit args') :=
      laws.first (.meanings _) fun _ => laws.callValue _ _ _ ha
    simpa using laws.bind (laws.plain (laws.memberType hd _ _ _)) hvalue

include hd in
lemma select (field : Ident) (ho : F.Opens I c c') :
    F.Rel .plain I (Rule.select d ⟨x, c⟩ field) (Rule.select d' ⟨x, c'⟩ field) := by
  rw [← Set.union_empty I]
  exact laws.opened (ho _) (fun _ _ _ _ hb h => Member.opens_of_typeOf hd.keeps hb h) fun _ =>
    laws.plain (laws.memberType hd _ _ _)

include hd hx in
lemma optionalSelect (field : Ident) :
    F.Rel .plain I (Rule.optionalSelect d ⟨x, c⟩ field)
      (Rule.optionalSelect d' ⟨x, c'⟩ field) := by
  rw [← Set.union_empty I]
  exact laws.bind (hx _) fun _ => laws.plain (laws.optionalType hd _ _ _)

include hd in
lemma selectTarget (field : Ident) (ho : F.Opens I c c') :
    F.Rel .plain I (Rule.selectTarget d ⟨x, c⟩ field) (Rule.selectTarget d' ⟨x, c'⟩ field) := by
  rw [← Set.union_empty I]
  exact laws.opened (ho _) (fun _ _ _ _ hb h => Member.opens_of_targetType hd.keeps hb h) fun _ =>
    laws.plain (laws.targetType hd _ _ _)

/-! ## List and object literals -/

/-- The elements differ in their checks, so what follows is related for lists that are
alike. -/
lemma elements {α : Type} (hint : Hint) (ha : F.Arguments true I args args')
    {f g : List (Argument × Ty) → Check α}
    (hf : ∀ ps qs, List.Forall₂ Rule.AlikeElements ps qs → F.Rel .plain J (f ps) (g qs)) :
    F.Rel .plain (I ∪ J) (Rule.elements hint args >>= f) (Rule.elements hint args' >>= g) := by
  induction ha generalizing f g with
  | nil =>
    simp only [Rule.elements, pure_bind, Set.empty_union]
    exact hf [] [] .nil
  | plain hc _ ih =>
    simp only [Rule.elements, bind_assoc, pure_bind, Bool.false_eq_true, if_false]
    rw [Set.union_assoc]
    exact laws.bind (hc _) fun t => ih fun ps qs h => hf _ _ (.cons ⟨rfl, rfl⟩ h)
  | spread he hc _ ih =>
    simp only [Rule.elements, bind_assoc, pure_bind, if_true]
    refine laws.mono ?_ (laws.bind (hc _) fun t => laws.bind (laws.recordSpread he t) fun _ =>
      laws.first (.spreadElement _ _) fun t => ih fun ps qs h => hf _ _ (.cons ⟨rfl, rfl⟩ h))
    intro i
    simp only [Set.mem_union]
    tauto

lemma list (expected : Hint) (ha : F.Arguments true I args args') :
    F.Rel .plain I (Rule.list args expected) (Rule.list args' expected) := by
  rw [← Set.union_empty I]
  refine laws.elements _ ha fun ps qs h => ?_
  have hempty : ps.isEmpty = qs.isEmpty := by
    cases h <;> rfl
  have hcommon : (do return .list (← Rule.common (qs.map Prod.snd)) : Check Ty).Still F.Fits :=
    (Still.common _).bind fun _ => .pure _
  simp only [Rule.fitElements_congr h, Rule.map_snd_congr h, hempty]
  split
  · exact laws.still (.ite ((Still.fitElements _ _).bind fun _ => .pure _)
      (.ite (.pure _) hcommon))
  · exact laws.still (.ite (.pure _) hcommon)

lemma gather (shape : Option Interface) (g : Rule.Gathered) {es es' : List Entry}
    (he : F.Entries I es es') : F.Rel .plain I (Rule.gather shape g es) (Rule.gather shape g es') := by
  induction he generalizing g with
  | nil => exact laws.still (.pure _)
  | property hc _ ih => exact laws.bind (hc _) fun _ => ih _
  | spread hc _ ih =>
    refine laws.bind (hc _) fun t => laws.first (.deref _) fun u =>
      laws.first (.spreadShape? _) fun shape? => ?_
    split
    · exact ih _
    · exact ite (ih _) (laws.fails _ (.misplaced _ _ _ _) fun _ _ _ h => by cases h)

lemma object (place : Location) (expected : Hint) {es es' : List Entry}
    (he : F.Entries I es es') :
    F.Rel .plain I (Rule.object place es expected) (Rule.object place es' expected) := by
  refine laws.last (laws.gather _ _ he) fun g => ?_
  split
  · exact .pure _
  · exact (Still.knownOnly _ _ _ _).bind fun _ => (Still.fitShape _ _ _ _).bind fun _ => .pure _

end Family.Laws

end TypedScript
