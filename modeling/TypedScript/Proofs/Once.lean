import TypedScript.Proofs.Relating.Callables
import TypedScript.Proofs.Relating.Tree

/-!
# No body is checked twice

The body of a function, method or constructor is entered in order, at a use of its name or
at a use of a member, in the middle of other bodies and of itself. A callable is marked as
soon as its body was checked, and while that goes on it counts as being inferred. Along
every run the marks are new ones, of callables that were not being inferred before.

So there is always a callable less to be inferred inside of a body, and checks on demand are
not nested deeper than there are callables. Nothing changes when they may be nested deeper.
-/
namespace TypedScript

/-- The callables that are declared in a tree. -/
def Node.callableIds (nodes : List Node) : List NodeId :=
  (Fragment.callables (Node.fragmentsIn true nodes)).map Callable.id

/-! ## Runs that mark callables -/

namespace Session

variable {ids busy more : List NodeId} {fits : Fragment → Prop} {s t u : Session}

/-- The session `t` comes after `s`. Callables were marked that had no mark and were not
busy, each of them once. -/
structure Progress (fits : Fragment → Prop) (ids busy : List NodeId) (s t : Session) : Prop where
  fit : s.scopes.Fit fits → t.scopes.Fit fits
  inferring : t.inferring = s.inferring
  checked : ∃ new, t.checked = new ++ s.checked ∧ new.Nodup ∧
    ∀ id ∈ new, id ∈ ids ∧ id ∉ s.checked ∧ id ∉ busy

namespace Progress

lemma of_still (h : s.Still fits t) : s.Progress fits ids busy t :=
  ⟨h.fit, h.inferring, [], h.checked, .nil, by simp⟩

lemma trans (h : s.Progress fits ids busy t) (k : t.Progress fits ids busy u) :
    s.Progress fits ids busy u := by
  obtain ⟨new, hnew, hnodup, hids⟩ := h.checked
  obtain ⟨newer, hnewer, hnodup', hids'⟩ := k.checked
  refine ⟨fun hs => k.fit (h.fit hs), k.inferring.trans h.inferring, newer ++ new, ?_, ?_, ?_⟩
  · rw [hnewer, hnew, List.append_assoc]
  · refine hnodup'.append hnodup fun id hid hid' => (hids' id hid).2.1 ?_
    rw [hnew]
    exact List.mem_append_left _ hid'
  · intro id hid
    obtain hid | hid := List.mem_append.1 hid
    · obtain ⟨hmem, hfresh, hbusy⟩ := hids' id hid
      rw [hnew] at hfresh
      exact ⟨hmem, fun h => hfresh (List.mem_append_right _ h), hbusy⟩
    · exact hids id hid

lemma busier (h : s.Progress fits ids busy t) (hmore : ∀ id ∈ more, id ∈ busy) :
    s.Progress fits ids more t := by
  obtain ⟨new, hnew, hnodup, hids⟩ := h.checked
  refine ⟨h.fit, h.inferring, new, hnew, hnodup, fun id hid => ?_⟩
  obtain ⟨hmem, hfresh, hbusy⟩ := hids id hid
  exact ⟨hmem, hfresh, fun h => hbusy (hmore id h)⟩

/-- What is busy has no mark afterwards that it did not have before. -/
lemma not_mem_checked (h : s.Progress fits ids busy t) {id : NodeId} (hbusy : id ∈ busy)
    (hid : id ∉ s.checked) : id ∉ t.checked := by
  obtain ⟨new, hnew, -, hids⟩ := h.checked
  rw [hnew, List.mem_append]
  rintro (hmem | hmem)
  · exact (hids id hmem).2.2 hbusy
  · exact hid hmem

lemma markChecked {id : NodeId} (hid : id ∈ ids) (hfresh : id ∉ s.checked) (hbusy : id ∉ busy) :
    s.Progress fits ids busy (s.markChecked id) := by
  refine ⟨fun hs => hs, rfl, [id], rfl, List.nodup_singleton id, fun i hi => ?_⟩
  rw [List.mem_singleton.1 hi]
  exact ⟨hid, hfresh, hbusy⟩

/-- A callable that was not being inferred is not afterwards. -/
lemma inference {id : NodeId} (hid : id ∉ s.inferring)
    (h : (s.beginInference id).Progress fits ids busy t) :
    s.Progress fits ids busy (t.endInference id) := by
  refine ⟨h.fit, ?_, h.checked⟩
  have hinferring : t.inferring = id :: s.inferring := h.inferring
  simp only [Session.endInference, hinferring, List.filter_cons, bne_self_eq_false]
  refine List.filter_eq_self.2 fun i hi => ?_
  have hne : i ≠ id := fun e => hid (e ▸ hi)
  simpa using hne

end Progress

/-- How many of the callables are not being inferred. -/
def idle (ids : List NodeId) (s : Session) : Nat :=
  (ids.filter fun id => !s.inferring.contains id).length

lemma idle_congr (h : t.inferring = s.inferring) : t.idle ids = s.idle ids := by
  rw [idle, idle, h]

lemma idle_beginInference {id : NodeId} (hid : id ∈ ids) (hidle : id ∉ s.inferring) :
    (s.beginInference id).idle ids < s.idle ids := by
  have hfilter : (ids.filter fun i => !(s.beginInference id).inferring.contains i) =
      (ids.filter fun i => !s.inferring.contains i).filter fun i => i != id := by
    rw [List.filter_filter]
    congr 1
    funext i
    simp only [beginInference, List.contains_cons, Bool.not_or, bne]
  rw [idle, idle, hfilter, List.length_filter_lt_length_iff_exists]
  exact ⟨id, List.mem_filter.2 ⟨hid, by simpa using hidle⟩, by simp⟩

end Session

/-! ## The family of these runs -/

namespace Once

variable {ids : List NodeId} {k : Nat}

/-- The callables are among these. -/
def Fits (ids : List NodeId) : Fragment → Prop
  | .callable f => f.id ∈ ids
  | _ => True

/-- From sessions in which at most `k` of the callables are idle, both checks run alike and
make progress. -/
def Runs (ids : List NodeId) (k : Nat) {α : Type} (c d : Check α) : Prop :=
  ∀ s, s.scopes.Fit (Fits ids) → s.idle ids ≤ k →
    c s = d s ∧ s.Progress (Fits ids) ids s.inferring (c s).2

def family (ids : List NodeId) (k : Nat) : Family where
  Fits := Fits ids
  Rel _ _ c d := Runs ids k c d
  Opened _ c d := Runs ids k c d

namespace Runs

variable {α β : Type} {c d : Check α} {f g : α → Check β}

lemma still (hc : c.Still (Fits ids)) : Runs ids k c c :=
  fun s _ _ => ⟨rfl, .of_still (hc s).1⟩

/-- A run that is followed by another one. -/
lemma bind (hc : Runs ids k c d) (hf : ∀ a, Runs ids k (f a) (g a)) :
    Runs ids k (c >>= f) (d >>= g) := by
  intro s hs hk
  obtain ⟨hrun, hprogress⟩ := hc s hs hk
  rw [Check.run_bind, Check.run_bind, ← hrun]
  rcases h : c s with ⟨e | a, t⟩
  · rw [h] at hprogress
    exact ⟨rfl, hprogress⟩
  · rw [h] at hprogress
    have hidle : t.idle ids ≤ k := (Session.idle_congr hprogress.inferring).trans_le hk
    obtain ⟨hrest, hnext⟩ := hf a t (hprogress.fit hs) hidle
    rw [hprogress.inferring] at hnext
    exact ⟨hrest, hprogress.trans hnext⟩

lemma during {enter : Session → Session × Undo} (he : Session.Entry enter) (hc : Runs ids k c d) :
    Runs ids k (Check.during enter c) (Check.during enter d) := by
  intro s hs hk
  have hentered : s.Still (Fits ids) (enter s).1 := Session.still_entered he s
  obtain ⟨hrun, hprogress⟩ := hc (enter s).1 (hentered.fit hs)
    ((Session.idle_congr hentered.inferring).trans_le hk)
  rw [hentered.inferring] at hprogress
  have hbody := (Session.Progress.of_still hentered).trans hprogress
  refine ⟨by simp only [Check.during, hrun], ?_⟩
  cases hu : (enter s).2.run (c (enter s).1).2 with
  | ok u =>
    rw [Check.run_during hu]
    exact hbody.trans (.of_still (Session.still_left he hu))
  | error m =>
    rw [Check.run_during_misuse hu]
    exact hbody

lemma reporting {c d : Check Unit} (hc : Runs ids k c d) :
    Runs ids k (Check.reporting c) (Check.reporting d) := by
  intro s hs hk
  obtain ⟨hrun, hprogress⟩ := hc s hs hk
  rw [Check.reporting, Check.reporting, ← hrun]
  refine ⟨rfl, ?_⟩
  rcases h : c s with ⟨(d | e | m) | a, t⟩ <;> rw [h] at hprogress
  · exact hprogress.trans (.of_still (t.still_report d))
  · exact hprogress.trans (.of_still (t.still_report _))
  · exact hprogress
  · exact hprogress

/-- A fault that is caught is thrown again, or a value is given in its place. -/
lemma tryCatch {handle : Fault → Check α} (hc : Runs ids k c d)
    (hh : ∀ e, handle e = throw e ∨ ∃ a, handle e = pure a) :
    Runs ids k (MonadExcept.tryCatch c handle) (MonadExcept.tryCatch d handle) := by
  intro s hs hk
  obtain ⟨hrun, hprogress⟩ := hc s hs hk
  rw [Check.run_tryCatch, Check.run_tryCatch, ← hrun]
  refine ⟨rfl, ?_⟩
  rcases h : c s with ⟨e | a, t⟩ <;> rw [h] at hprogress
  · dsimp only
    obtain hthrow | ⟨a, hpure⟩ := hh e
    · rw [hthrow]
      exact hprogress
    · rw [hpure]
      exact hprogress
  · exact hprogress

lemma lookup {name : String} {f g : Option Symbol → Check α}
    (hf : ∀ x?, (∀ x, x? = some x → x.Fits (Fits ids)) → Runs ids k (f x?) (g x?)) :
    Runs ids k (Check.lookup? name >>= f) (Check.lookup? name >>= g) :=
  fun s hs hk => hf (s.scopes.lookup? name) (fun x hx => hs x (Scopes.has_of_lookup? hx)) s hs hk

lemma record (id : NodeId) (t : Ty) : Runs ids k (Check.record id t) (Check.record id t) :=
  fun _ _ _ => ⟨rfl, ⟨fun hs => hs, rfl, [], rfl, .nil, by simp⟩⟩

end Runs

/-- The check of a body, from which the callable has its mark. -/
lemma marked {f : Callable} (hf : f.id ∈ ids) {c d : Check Ty} {rest : Ty → Check Unit}
    (hrest : ∀ t, (rest t).Still (Fits ids)) {s : Session} {busy : List NodeId}
    (hbusy : s.inferring = f.id :: busy) (hidle : f.id ∉ busy) (hfresh : f.id ∉ s.checked)
    (hc : c s = d s) (hprogress : s.Progress (Fits ids) ids s.inferring (c s).2) :
    (Check.andThen c (fun s => s.markChecked f.id) >>= rest) s =
        (Check.andThen d (fun s => s.markChecked f.id) >>= rest) s ∧
      s.Progress (Fits ids) ids busy
        ((Check.andThen c (fun s => s.markChecked f.id) >>= rest) s).2 := by
  rw [hbusy] at hprogress
  have hfresh := hprogress.not_mem_checked List.mem_cons_self hfresh
  have hmark := (hprogress.busier fun _ => List.mem_cons_of_mem _).trans
    (.markChecked hf hfresh hidle)
  rw [Check.run_bind, Check.run_bind, Check.andThen, Check.andThen, ← hc]
  refine ⟨rfl, ?_⟩
  rcases hrun : c s with ⟨e | t, u⟩ <;> rw [hrun] at hmark
  · exact hmark
  · exact hmark.trans (.of_still (hrest t _).1)

/-- A body is checked with one idle callable less. -/
lemma once_of_body {f : Callable} {body other : BodyCheck} (hf : f.id ∈ ids)
    (hbody : ∀ spec s, s.scopes.Fit (Fits ids) → s.idle ids < k →
      Rule.functionBody spec body s = Rule.functionBody spec other s ∧
        s.Progress (Fits ids) ids s.inferring (Rule.functionBody spec body s).2) :
    (family ids k).Once f body other := by
  intro spec first rest hfirst hrest s hs hk
  rw [Rule.run_once, Rule.run_once]
  split
  · exact ⟨rfl, .of_still (.refl s)⟩
  · rename_i hnew
    simp only [Bool.or_eq_true, Session.isChecked, Session.isInferring, List.contains_iff_mem,
      not_or] at hnew
    obtain ⟨hfresh, hidle⟩ := hnew
    rw [Check.run_bind, Check.run_bind]
    have hstill := (hfirst (s.beginInference f.id)).1
    rcases hrun : first (s.beginInference f.id) with ⟨e | a, t⟩ <;> rw [hrun] at hstill
    · exact ⟨rfl, .inference hidle (.of_still hstill)⟩
    · have hless : t.idle ids < k := by
        rw [Session.idle_congr hstill.inferring]
        exact (Session.idle_beginInference hf hidle).trans_le hk
      obtain ⟨hsame, hprogress⟩ := hbody spec t (hstill.fit hs) hless
      obtain ⟨hrest, hmarked⟩ := marked hf hrest hstill.inferring hidle
        (hstill.checked ▸ hfresh) hsame hprogress
      dsimp only
      rw [hrest]
      rw [hrest] at hmarked
      exact ⟨rfl, .inference hidle ((Session.Progress.of_still hstill).trans hmarked)⟩

lemma laws (ids : List NodeId) (k : Nat) : (family ids k).Laws where
  mono _ h := h
  plain h := h
  still hc := .still hc
  fails _ _ hc _ := .still hc
  bind hc hf := .bind hc hf
  lookup hf := .lookup hf
  tryCatch hc hh _ := .tryCatch hc hh
  record t _ := .record _ t
  recordClass c _ := .record _ (.cls c)
  recorded _ hc := .bind hc fun t => .bind (.record _ t) fun _ => .still (.pure _)
  opened hc _ hf := .bind hc hf
  during he hc := .during he hc
  reporting hc := .reporting hc
  once hf hbody := once_of_body hf fun spec s hs hk => hbody spec s hs hk.le

/-- Checks on demand run alike as soon as they may be nested deeper than there are idle
callables. -/
lemma demands {limit other : Nat} (hlimit : k < limit) (hother : k < other) :
    (family ids k).Demands (Walk.demand limit) (Walk.demand other) := by
  induction k generalizing limit other with
  | zero =>
    obtain ⟨limit, rfl⟩ := Nat.exists_eq_succ_of_ne_zero hlimit.ne'
    obtain ⟨other, rfl⟩ := Nat.exists_eq_succ_of_ne_zero hother.ne'
    refine (laws ids 0).demandSucc fun f hf => once_of_body (hf _ f.mem_fragments) ?_
    exact fun _ _ _ hk => absurd hk (Nat.not_lt_zero _)
  | succ k ih =>
    obtain ⟨limit, rfl⟩ := Nat.exists_eq_succ_of_ne_zero (Nat.ne_zero_of_lt hlimit)
    obtain ⟨other, rfl⟩ := Nat.exists_eq_succ_of_ne_zero (Nat.ne_zero_of_lt hother)
    have hd := ih (Nat.lt_of_succ_lt_succ hlimit) (Nat.lt_of_succ_lt_succ hother)
    refine (laws ids (k + 1)).demandSucc fun f hf => once_of_body (hf _ f.mem_fragments) ?_
    intro spec s hs hk
    exact (laws ids k).functionBody spec ((laws ids k).walkCallable hd f hf) s hs
      (Nat.le_of_lt_succ hk)

/-- Both passes, with checks on demand nested deeper than there are callables. -/
lemma passesWithin {nodes : List Node} (options : Options) {limit other : Nat}
    (hlimit : Node.callablesIn nodes < limit) (hother : Node.callablesIn nodes < other) :
    Analysis.passesWithin limit nodes { options } = Analysis.passesWithin other nodes { options } ∧
      ({ options } : Session).Progress (Fits (Node.callableIds nodes)) (Node.callableIds nodes) []
        (Analysis.passesWithin limit nodes { options }).2 := by
  have hcount : (Node.callableIds nodes).length ≤ Node.callablesIn nodes := by
    rw [Node.callableIds, List.length_map]
    exact Node.length_callablesIn_le nodes
  have hfits : (family (Node.callableIds nodes) (Node.callablesIn nodes)).FitsAll
      (Node.fragmentsIn true nodes) := by
    intro g hg
    cases g with
    | callable f => exact List.mem_map_of_mem (Fragment.mem_callables.2 hg)
    | _ => trivial
  have hidle : Session.idle (Node.callableIds nodes) { options } ≤ Node.callablesIn nodes :=
    (List.length_filter_le _ _).trans hcount
  exact (laws _ _).passesWithin (demands hlimit hother) hfits _ .start hidle

end Once

/-! ## Entering a body -/

/-- Run from a session, the rule does not look at the body, or else the callable has no mark
and is not being inferred. Then the body is entered, from a session in which the callable is
being inferred, and the callable has its mark right after. -/
def Rule.EntersOnce (id : NodeId) (rule : BodyCheck → Check Unit) : Prop :=
  ∀ s, (∀ body other, rule body s = rule other s) ∨
    (id ∉ s.checked ∧ id ∉ s.inferring ∧ ∃ spec t, t.checked = s.checked ∧
      t.inferring = id :: s.inferring ∧
      ∀ body, (rule body s).2.checked = id :: (functionBody spec body t).2.checked)

namespace Rule.EntersOnce

open Check

variable {id : NodeId}

lemma const (c : Check Unit) : EntersOnce id fun _ => c := fun _ => .inl fun _ _ => rfl

/-- A still step before. -/
lemma first {α : Type} {c : Check α} {rule : α → BodyCheck → Check Unit} (hc : c.Still fun _ => True)
    (hrule : ∀ a, EntersOnce id (rule a)) : EntersOnce id fun body => c >>= fun a => rule a body := by
  intro s
  have hstill := (hc s).1
  simp only [run_bind]
  rcases hrun : c s with ⟨e | a, t⟩ <;> rw [hrun] at hstill
  · exact .inl fun _ _ => rfl
  · dsimp only
    rw [← hstill.checked, ← hstill.inferring]
    exact hrule a t

lemma ite {p : Prop} [Decidable p] {rule : BodyCheck → Check Unit} {c : Check Unit}
    (hrule : EntersOnce id rule) : EntersOnce id fun body => if p then rule body else c := by
  split
  · exact hrule
  · exact const c

lemma once (spec : FunctionSpec) {before : Check Unit} {rest : Ty → Check Unit}
    (hbefore : before.Still fun _ => True) (hrest : ∀ t, (rest t).Still fun _ => True) :
    EntersOnce id fun body => Rule.once id (before >>= fun _ =>
      andThen (functionBody spec body) (fun s => s.markChecked id) >>= rest) := by
  intro s
  simp only [run_once]
  split
  · exact .inl fun _ _ => rfl
  · rename_i hnew
    simp only [Bool.or_eq_true, Session.isChecked, Session.isInferring, List.contains_iff_mem,
      not_or] at hnew
    have hstill := (hbefore (s.beginInference id)).1
    simp only [run_bind]
    rcases hrun : before (s.beginInference id) with ⟨e | a, t⟩ <;> rw [hrun] at hstill
    · exact .inl fun _ _ => rfl
    · refine .inr ⟨hnew.1, hnew.2, spec, t, hstill.checked, hstill.inferring, fun body => ?_⟩
      simp only [andThen]
      rcases functionBody spec body t with ⟨e | type, u⟩
      · rfl
      · exact (hrest type _).1.checked

lemma alone (spec : FunctionSpec) {rest : Ty → Check Unit}
    (hrest : ∀ t, (rest t).Still fun _ => True) :
    EntersOnce id fun body => Rule.once id
      (andThen (functionBody spec body) (fun s => s.markChecked id) >>= rest) := by
  simpa only [pure_bind] using once spec (.pure ()) hrest

lemma function (f : Callable) : EntersOnce f.id (Rule.function f) := by
  refine first (.lookup? _) fun x? => ?_
  cases x? with
  | none => exact const (pure ())
  | some x =>
    dsimp only
    generalize x.type = type
    rcases type with _ | type
    · exact const (pure ())
    · cases type with
      | function sig => exact ite (once _ (.trace _ _) fun _ => .ite (.retype _ _) (.pure _))
      | _ => exact const (pure ())

lemma constructor (className : String) (m : Callable) :
    EntersOnce m.id (Rule.constructor className m) := by
  refine first (.classNamed? _) fun c? => ?_
  generalize c?.bind Class.ctor = sig?
  cases sig? with
  | none => exact const (pure ())
  | some sig => exact alone _ fun _ => .pure _

lemma method (className : String) (m : Callable) :
    EntersOnce m.id (Rule.method className m) := by
  refine first (.classNamed? _) fun c? => ?_
  generalize (c?.bind fun c => c.method? m.name.name) = member?
  cases member? with
  | none => exact const (pure ())
  | some member =>
    dsimp only
    generalize member.type = type
    cases type with
    | function sig => exact alone _ fun _ => .ite (.patchMethod _ _ _ _) (.pure _)
    | _ => exact const (pure ())

end Rule.EntersOnce

/-- Whoever enters the body of a function, a constructor or a method leaves a mark, and only
enters it where there is none. After both passes no callable has two marks, only callables
of the tree have one, and none is being inferred. Checks on demand that may be nested deeper
than there are callables give the same run. -/
theorem body_entered_once (nodes : List Node) (options : Options) :
    (∀ f, Rule.EntersOnce f.id (Rule.function f)) ∧
    (∀ className m, Rule.EntersOnce m.id (Rule.constructor className m)) ∧
    (∀ className m, Rule.EntersOnce m.id (Rule.method className m)) ∧
    (Analysis.passes nodes { options }).2.checked.Nodup ∧
    (∀ id ∈ (Analysis.passes nodes { options }).2.checked, id ∈ Node.callableIds nodes) ∧
    (Analysis.passes nodes { options }).2.inferring = [] ∧
    ∀ limit, Node.callablesIn nodes < limit →
      Analysis.passesWithin limit nodes { options } = Analysis.passes nodes { options } := by
  have hlimit : Node.callablesIn nodes < Node.callablesIn nodes + 2 := by omega
  obtain ⟨new, hnew, hnodup, hids⟩ := (Once.passesWithin options hlimit hlimit).2.checked
  rw [List.append_nil] at hnew
  rw [Analysis.passes_eq]
  refine ⟨Rule.EntersOnce.function, Rule.EntersOnce.constructor, Rule.EntersOnce.method,
    hnew ▸ hnodup, fun id hid => (hids id (hnew ▸ hid)).1,
    (Once.passesWithin options hlimit hlimit).2.inferring, fun limit hless => ?_⟩
  exact (Once.passesWithin options hless hlimit).1

/-- A function that returns a call of another one, its result to be inferred. -/
def Once.caller (id : NodeId) (name callee : String) : Node :=
  .function ⟨id, ⟨name, {}⟩, [], [], .omitted,
    .block ⟨[.ret {} (some (.call ⟨id + 10, {}⟩ (.ident ⟨id + 20, {}⟩ callee) [] []))], {}⟩,
    false, .pub, false, {}⟩

/-- Of two functions that call each other the second one is checked in the middle of the
first, and the check does not go back into the first. -/
theorem mutual_bodies_entered_once :
    Node.callablesIn [Once.caller 1 "even" "odd", Once.caller 2 "odd" "even"] < 3 ∧
    Analysis.passesWithin 3 [Once.caller 1 "even" "odd", Once.caller 2 "odd" "even"] {} =
      Analysis.passes [Once.caller 1 "even" "odd", Once.caller 2 "odd" "even"] {} ∧
    (Analysis.passes [Once.caller 1 "even" "odd", Once.caller 2 "odd" "even"] {}).2.checked =
      [1, 2] :=
  ⟨by decide, (body_entered_once _ {}).2.2.2.2.2.2 3 (by decide), by decide +kernel⟩

end TypedScript
