import TypedScript.Proofs.References.Dereferencing

/-!
# Following references to their end

What a name stands for may have references in turn, even to the same name. Replacing them ends
nevertheless: the type at hand gets smaller, and where a reference is followed out of it, the
depth grows, which is limited. To say so without a limit in the recursion, replacing references
is described by rules here. Every canonical type has a derivation, and what it derives is what
the function computes.

If no chain of references is longer than the limit, nothing is left to replace: each
reference that can still be found has a name that stands for no type.
-/
namespace TypedScript

namespace Ty

variable {follow : String → Option Ty} {t : Ty} {ts : List Ty} {name : String}

/-! ## The references that are left -/

lemma mem_refNames_of_orNull (h : name ∈ t.orNull.refNames) : name ∈ t.refNames := by
  unfold orNull at h
  split at h
  · exact h
  · exact absurd h List.not_mem_nil
  · exact h

lemma mem_refNames_of_alternatives {a : Ty} (ht : t.Canonical) (ha : a ∈ t.alternatives)
    (h : name ∈ a.refNames) : name ∈ t.refNames := by
  rw [← members_eq_alternatives ht] at ha
  cases t with
  | union ms => exact mem_allRefNames.2 ⟨a, ha, h⟩
  | _ => exact List.mem_singleton.1 ha ▸ h

/-- A union has no references but those of the types it is made of. -/
lemma mem_refNames_of_unionOf (hts : ∀ t ∈ ts, t.Canonical) :
    ∀ name ∈ (unionOf ts).refNames, ∃ t ∈ ts, name ∈ t.refNames := by
  refine unionOf_of_alternatives (P := fun u => ∀ name ∈ u.refNames, ∃ t ∈ ts, name ∈ t.refNames)
    (fun _ h => absurd h List.not_mem_nil) ?_ ?_
  · intro ms hms name hname
    obtain ⟨m, hm, hname⟩ := mem_allRefNames.1 hname
    exact hms m hm name hname
  · exact fun t ht a ha name hname => ⟨t, ht, mem_refNames_of_alternatives (hts t ht) ha hname⟩

/-- A reference that is left was there before and has not been followed, or comes from a type
that was put in. -/
lemma forall_refNames_derefBy {P : String → Prop} (ht : t.Canonical)
    (hf : ∀ name t, follow name = some t → t.Canonical)
    (h : ∀ name ∈ t.refNames, ∀ n ∈ (follow name).elim [name] refNames, P n) :
    ∀ n ∈ (t.derefBy follow).refNames, P n := by
  induction t using induction_on_parts with
  | step t ih =>
    have hall {ts : List Ty} (hparts : ∀ u ∈ ts, u ∈ t.parts) (hts : ∀ u ∈ ts, u.Canonical)
        (hnames : ∀ u ∈ ts, ∀ name ∈ u.refNames, name ∈ t.refNames) :
        ∀ u ∈ ts.map (derefBy follow), ∀ n ∈ u.refNames, P n := by
      refine List.forall_mem_map.2 fun u hu => ih u (hparts u hu) (hts u hu) fun name hname => ?_
      exact h name (hnames u hu name hname)
    cases t with
    | ref name file =>
      have hname := h name List.mem_cons_self
      unfold derefBy
      cases hfollow : follow name with
      | none => simpa [hfollow, refNames] using hname
      | some u => simpa [hfollow] using hname
    | list a => exact ih a (by simp [parts]) (canonical_list.1 ht) h
    | map k v =>
      obtain ⟨hk, hv⟩ := canonical_map.1 ht
      obtain ⟨hfork, hforv⟩ := List.forall_mem_append.1 h
      exact List.forall_mem_append.2
        ⟨ih k (by simp [parts]) hk hfork, ih v (by simp [parts]) hv hforv⟩
    | nullable a =>
      intro n hn
      rw [derefBy_nullable ht] at hn
      exact ih a (by simp [parts]) (canonical_nullable.1 ht).2 h n (mem_refNames_of_orNull hn)
    | future a => exact ih a (by simp [parts]) (canonical_future.1 ht) h
    | union ms =>
      intro n hn
      have hms := (canonical_union.1 ht).2
      rw [derefBy_union ht] at hn
      obtain ⟨u, hu, hn⟩ := mem_refNames_of_unionOf (canonical_map_derefBy hf hms) n hn
      exact hall (fun _ hm => hm) hms
        (fun m hm _ hname => mem_allRefNames.2 ⟨m, hm, hname⟩) u hu n hn
    | function sig =>
      intro n hn
      obtain ⟨hparams, hresult, -⟩ := canonical_function.1 ht
      rw [derefBy_function, mem_refNames_function] at hn
      obtain ⟨q, hq, hn⟩ | hn := hn
      · obtain ⟨p, hp, rfl⟩ := List.mem_map.1 hq
        exact ih p.type (param_mem_parts hp) (hparams p hp)
          (fun name hname => h name (mem_refNames_function.2 (.inl ⟨p, hp, hname⟩))) n hn
      · exact ih sig.result result_mem_parts hresult
          (fun name hname => h name (mem_refNames_function.2 (.inr hname))) n hn
    | generic base args =>
      intro n hn
      obtain ⟨hbase, hargs⟩ := canonical_generic.1 ht
      obtain ⟨hforbase, hforargs⟩ := List.forall_mem_append.1 h
      obtain hn | hn := List.mem_append.1 hn
      · exact ih base List.mem_cons_self hbase hforbase n hn
      · rw [derefAll_eq_map] at hn
        obtain ⟨u, hu, hn⟩ := mem_allRefNames.1 hn
        refine hall (fun _ hx => List.mem_cons_of_mem _ hx) hargs (fun x hx _ hname => ?_) u hu n hn
        exact List.mem_append_right _ (mem_allRefNames.2 ⟨x, hx, hname⟩)
    | _ => exact fun n hn => absurd hn List.not_mem_nil

end Ty

namespace Scopes

/-! ## Chains -/

/-- From the type on, `length` references can be followed one after the other. -/
inductive Chain (s : Scopes) : Ty → (length : Nat) → Prop
  | nil {t : Ty} : Chain s t 0
  | follow {t u : Ty} {name : String} {n : Nat} (hname : name ∈ t.refNames)
    (hu : s.typeNamed? name = some u) (h : Chain s u n) : Chain s t (n + 1)

variable {s : Scopes} {t u : Ty} {name file : String} {depth n : Nat}

lemma chainsEndWithin_iff : s.chainsEndWithin n t = true ↔ ∀ k, s.Chain t k → k ≤ n := by
  induction n generalizing t with
  | zero =>
    simp only [chainsEndWithin, List.all_eq_true, Option.isNone_iff_eq_none]
    constructor
    · rintro h k (_ | ⟨hname, hu, -⟩)
      · exact Nat.le_refl 0
      · simp [h _ hname] at hu
    · intro h name hname
      cases hu : s.typeNamed? name with
      | none => rfl
      | some u => exact absurd (h 1 (.follow hname hu .nil)) (by simp)
  | succ n ih =>
    simp only [chainsEndWithin, List.all_eq_true, Option.all_eq_true, ih]
    constructor
    · rintro h k (_ | ⟨hname, hu, hchain⟩)
      · exact Nat.zero_le _
      · exact Nat.succ_le_succ (h _ hname _ hu _ hchain)
    · exact fun h name hname u hu k hchain => Nat.le_of_succ_le_succ (h _ (.follow hname hu hchain))

/-- Where chains end within the limit, only names that stand for no type are left. -/
lemma typeNamed?_of_mem_refNames_derefWithin (hs : s.Canonical) (ht : t.Canonical)
    (h : s.chainsEndWithin n t = true) :
    ∀ name ∈ (s.derefWithin n t).refNames, s.typeNamed? name = none := by
  induction n generalizing t with
  | zero => exact fun name hname => Option.isNone_iff_eq_none.1 (List.all_eq_true.1 h name hname)
  | succ n ih =>
    refine Ty.forall_refNames_derefBy ht (fun name u hu => ?_) fun name hname => ?_
    · obtain ⟨v, hv, rfl⟩ := Option.map_eq_some_iff.1 hu
      exact hs.derefWithin n (hs.typeNamed? hv)
    · have hends := List.all_eq_true.1 h name hname
      cases hu : s.typeNamed? name with
      | none => simpa using hu
      | some u =>
        rw [hu] at hends
        exact ih (hs.typeNamed? hu) hends

lemma deref_eq_self (ht : t.Canonical) (h : ∀ name ∈ t.refNames, s.typeNamed? name = none) :
    s.deref t = t :=
  Ty.derefBy_eq_self ht fun name hname => by rw [h name hname, Option.map_none]

/-! ## Rules for replacing references -/

/-- The type has a reference and stands at a depth where references are replaced. -/
def IsOpen (depth : Nat) (t : Ty) : Prop := depth < derefLimit ∧ t.findRef ≠ none

/-- At some depth a type becomes another as its references are replaced. A part stands as deep
as the type, what a name stands for one deeper than the reference. What is made of the parts
depends on them only, so a function says what each becomes. -/
inductive Derefs (s : Scopes) : (depth : Nat) → Ty → Ty → Prop
  | keep {depth : Nat} {t : Ty} (h : ¬ IsOpen depth t) : Derefs s depth t t
  | unknown {depth : Nat} {name file : String} (h : s.typeNamed? name = none) :
    Derefs s depth (.ref name file) (.ref name file)
  | follow {depth : Nat} {name file : String} {t u : Ty} (hlt : depth < derefLimit)
    (ht : s.typeNamed? name = some t) (h : Derefs s (depth + 1) t u) :
    Derefs s depth (.ref name file) u
  | list {depth : Nat} {t u : Ty} (ho : IsOpen depth (.list t)) (h : Derefs s depth t u) :
    Derefs s depth (.list t) (.list u)
  | map {depth : Nat} {k v l w : Ty} (ho : IsOpen depth (.map k v)) (hk : Derefs s depth k l)
    (hv : Derefs s depth v w) : Derefs s depth (.map k v) (.map l w)
  | nullable {depth : Nat} {t u : Ty} (ho : IsOpen depth (.nullable t))
    (h : Derefs s depth t u) : Derefs s depth (.nullable t) u.orNull
  | future {depth : Nat} {t u : Ty} (ho : IsOpen depth (.future t)) (h : Derefs s depth t u) :
    Derefs s depth (.future t) (.future u)
  | union {depth : Nat} {ms : List Ty} {become : Ty → Ty} (ho : IsOpen depth (.union ms))
    (h : ∀ m ∈ ms, Derefs s depth m (become m)) :
    Derefs s depth (.union ms) (Ty.unionOf (ms.map become))
  | function {depth : Nat} {sig : Signature} {u : Ty} {become : Ty → Ty}
    (ho : IsOpen depth (.function sig))
    (hparams : ∀ p ∈ sig.params, Derefs s depth p.type (become p.type))
    (hresult : Derefs s depth sig.result u) :
    Derefs s depth (.function sig) (.function { sig with
      params := sig.params.map fun p => ⟨p.name, become p.type⟩
      result := u })
  | generic {depth : Nat} {base u : Ty} {args : List Ty} {become : Ty → Ty}
    (ho : IsOpen depth (.generic base args)) (hbase : Derefs s depth base u)
    (hargs : ∀ a ∈ args, Derefs s depth a (become a)) :
    Derefs s depth (.generic base args) (.generic u (args.map become))

lemma derefWithin_of_findRef (ht : t.Canonical) (h : t.findRef = none) :
    s.derefWithin n t = t := by
  cases n with
  | zero => rfl
  | succ n =>
    refine Ty.derefBy_eq_self ht ?_
    simp [Ty.refNames_of_findRef h]

/-- One level: the parts of a type are taken as deep as the type, and so only what names stand
for has to be derived one deeper. -/
lemma derefs_derefBy {become : Ty → Ty} (hlt : depth < derefLimit)
    (hf : ∀ name u, s.typeNamed? name = some u → s.Derefs (depth + 1) u (become u))
    (ht : t.Canonical) :
    s.Derefs depth t (t.derefBy fun name => (s.typeNamed? name).map become) := by
  induction t using Ty.induction_on_parts with
  | step t ih =>
    by_cases hnone : t.findRef = none
    · rw [Ty.derefBy_eq_self ht (by simp [Ty.refNames_of_findRef hnone])]
      exact .keep fun ho => ho.2 hnone
    have ho : IsOpen depth t := ⟨hlt, hnone⟩
    cases t with
    | ref name file =>
      unfold Ty.derefBy
      cases hu : s.typeNamed? name with
      | none => exact .unknown hu
      | some u => exact .follow hlt hu (hf name u hu)
    | list a => exact .list ho (ih a (by simp [Ty.parts]) (Ty.canonical_list.1 ht))
    | map k v =>
      obtain ⟨hk, hv⟩ := Ty.canonical_map.1 ht
      exact .map ho (ih k (by simp [Ty.parts]) hk) (ih v (by simp [Ty.parts]) hv)
    | nullable a =>
      rw [Ty.derefBy_nullable ht]
      exact .nullable ho (ih a (by simp [Ty.parts]) (Ty.canonical_nullable.1 ht).2)
    | future a => exact .future ho (ih a (by simp [Ty.parts]) (Ty.canonical_future.1 ht))
    | union ms =>
      rw [Ty.derefBy_union ht]
      exact .union ho fun m hm => ih m hm ((Ty.canonical_union.1 ht).2 m hm)
    | function sig =>
      obtain ⟨hparams, hresult, -⟩ := Ty.canonical_function.1 ht
      rw [Ty.derefBy_function]
      exact .function ho (fun p hp => ih p.type (Ty.param_mem_parts hp) (hparams p hp))
        (ih sig.result Ty.result_mem_parts hresult)
    | generic base args =>
      obtain ⟨hbase, hargs⟩ := Ty.canonical_generic.1 ht
      unfold Ty.derefBy
      rw [Ty.derefAll_eq_map]
      exact .generic ho (ih base List.mem_cons_self hbase) fun a ha =>
        ih a (List.mem_cons_of_mem _ ha) (hargs a ha)
    | _ => exact absurd rfl hnone

/-- Every type has a derivation, also where types refer to themselves. -/
lemma derefs_derefWithin (hs : s.Canonical) (hle : n ≤ derefLimit) (ht : t.Canonical) :
    s.Derefs (derefLimit - n) t (s.derefWithin n t) := by
  induction n generalizing t with
  | zero => exact .keep fun ho => absurd ho.1 (Nat.lt_irrefl derefLimit)
  | succ n ih =>
    -- The depth goes up as the limit that is left goes down.
    refine derefs_derefBy (by omega) (fun name u hu => ?_) ht
    have hdepth : derefLimit - (n + 1) + 1 = derefLimit - n := by omega
    rw [hdepth]
    exact ih (Nat.le_of_succ_le hle) (hs.typeNamed? hu)

/-- Below the limit one reference more can be followed. -/
lemma derefWithin_of_lt (h : depth < derefLimit) (t : Ty) :
    s.derefWithin (derefLimit - depth) t = t.derefBy fun name =>
      (s.typeNamed? name).map (s.derefWithin (derefLimit - (depth + 1))) := by
  have hdepth : derefLimit - depth = derefLimit - (depth + 1) + 1 := by omega
  rw [hdepth]
  rfl

/-- A derivation gives nothing but what the limit gives that is left at its depth. -/
lemma Derefs.eq_derefWithin (hs : s.Canonical) (h : s.Derefs depth t u) (ht : t.Canonical) :
    u = s.derefWithin (derefLimit - depth) t := by
  induction h with
  | @keep depth t h =>
    by_cases hlt : depth < derefLimit
    · have hnone : t.findRef = none := by_contra fun hne => h ⟨hlt, hne⟩
      exact (derefWithin_of_findRef ht hnone).symm
    · rw [Nat.sub_eq_zero_of_le (Nat.le_of_not_lt hlt)]
      rfl
  | unknown h =>
    refine (Scopes.derefWithin_eq_of_chainsEndWithin hs (Nat.zero_le _) ht ?_).symm
    simp [chainsEndWithin, Ty.refNames, h]
  | follow hlt hu _ ih =>
    rw [derefWithin_of_lt hlt, Ty.derefBy, hu]
    exact ih (hs.typeNamed? hu)
  | list ho _ ih =>
    rw [derefWithin_of_lt ho.1, Ty.derefBy, ← derefWithin_of_lt ho.1, ← ih (Ty.canonical_list.1 ht)]
  | map ho _ _ ihk ihv =>
    obtain ⟨hk, hv⟩ := Ty.canonical_map.1 ht
    rw [derefWithin_of_lt ho.1, Ty.derefBy, ← derefWithin_of_lt ho.1, ← derefWithin_of_lt ho.1,
      ← ihk hk, ← ihv hv]
  | nullable ho _ ih =>
    rw [derefWithin_of_lt ho.1, Ty.derefBy_nullable ht, ← derefWithin_of_lt ho.1,
      ← ih (Ty.canonical_nullable.1 ht).2]
  | future ho _ ih =>
    rw [derefWithin_of_lt ho.1, Ty.derefBy, ← derefWithin_of_lt ho.1,
      ← ih (Ty.canonical_future.1 ht)]
  | union ho _ ih =>
    rw [derefWithin_of_lt ho.1, Ty.derefBy_union ht]
    congr 1
    refine List.map_congr_left fun m hm => ?_
    rw [← derefWithin_of_lt ho.1]
    exact ih m hm ((Ty.canonical_union.1 ht).2 m hm)
  | function ho _ _ ihparams ihresult =>
    obtain ⟨hparams, hresult, -⟩ := Ty.canonical_function.1 ht
    rw [derefWithin_of_lt ho.1, Ty.derefBy_function, ← derefWithin_of_lt ho.1,
      ← ihresult hresult]
    congr 2
    refine List.map_congr_left fun p hp => ?_
    rw [← derefWithin_of_lt ho.1, ← ihparams p hp (hparams p hp)]
  | generic ho _ _ ihbase ihargs =>
    obtain ⟨hbase, hargs⟩ := Ty.canonical_generic.1 ht
    rw [derefWithin_of_lt ho.1, Ty.derefBy, Ty.derefAll_eq_map, ← derefWithin_of_lt ho.1,
      ← ihbase hbase]
    congr 1
    refine List.map_congr_left fun a ha => ?_
    rw [← derefWithin_of_lt ho.1]
    exact ihargs a ha (hargs a ha)

/-! ## What is reached in the end -/

/-- Let the scopes and a type be canonical. Then the rules derive exactly one type from it, which
is the type with its references replaced. If at most as many references can be followed one
after the other as the limit says, those that are left stand for no type, and replacing them
again gives an equal type. -/
theorem references_followed_to_their_end (hs : s.Canonical) (ht : t.Canonical) :
    (∀ u, s.Derefs 0 t u ↔ u = s.deref t) ∧
    ((∀ k, s.Chain t k → k ≤ derefLimit) →
      (∀ name ∈ (s.deref t).refNames, s.typeNamed? name = none) ∧
      (s.deref (s.deref t)).equals (s.deref t) = true) := by
  refine ⟨fun u => ⟨fun h => h.eq_derefWithin hs ht, ?_⟩, fun hchains => ?_⟩
  · rintro rfl
    exact derefs_derefWithin hs (Nat.le_refl derefLimit) ht
  · have hleft := typeNamed?_of_mem_refNames_derefWithin hs ht (chainsEndWithin_iff.2 hchains)
    have hderef := hs.deref ht
    refine ⟨hleft, ?_⟩
    rw [deref_eq_self hderef hleft]
    exact Ty.equals_refl hderef.proper

/-- The aliases `type Id = Key`, `type Key = int | Token` and `type Tree = Tree[]`, where nothing
is said about `Token`. -/
def idsAndTrees : Scopes where
  global := [⟨0, "Id", .typeAlias, some (.ref "Key" "m"), false, .unknown⟩,
    ⟨1, "Key", .typeAlias, some (.union [.int, .ref "Token" "m"]), false, .unknown⟩,
    ⟨2, "Tree", .typeAlias, some (.list (.ref "Tree" "m")), false, .unknown⟩]
  nextId := 3

/-- `Tree` is derived to the limit, where its name is left; from `Id` on a type is reached of
which only `Token` is not known. -/
theorem ids_and_trees_followed :
    idsAndTrees.Derefs 0 (.ref "Tree" "m") (idsAndTrees.deref (.ref "Tree" "m")) ∧
    (idsAndTrees.deref (.ref "Tree" "m")).findRef = some ("Tree", "m") ∧
    idsAndTrees.deref (.map .str (.nullable (.ref "Id" "m"))) =
      .map .str (.nullable (.union [.int, .ref "Token" "m"])) ∧
    (∀ name ∈ ["Token"], idsAndTrees.typeNamed? name = none) ∧
    (idsAndTrees.deref (.map .str (.nullable (.union [.int, .ref "Token" "m"])))).equals
      (.map .str (.nullable (.union [.int, .ref "Token" "m"]))) = true := by
  have hkey : (Ty.union [.int, .ref "Token" "m"]).Canonical :=
    Ty.canonical_union.2 ⟨by decide, by simp⟩
  have hscopes : idsAndTrees.Canonical := by
    rintro y ⟨i, hy⟩ v hv
    cases i with
    | none =>
      have hmem : y ∈ idsAndTrees.global := hy
      simp only [idsAndTrees, List.mem_cons, List.not_mem_nil, or_false] at hmem
      obtain rfl | rfl | rfl := hmem
      · exact Option.some.inj hv ▸ Ty.canonical_ref _ _
      · exact Option.some.inj hv ▸ hkey
      · exact Option.some.inj hv ▸ Ty.canonical_list.2 (Ty.canonical_ref _ _)
    | some i => simp [slot, scope, idsAndTrees] at hy
  have hids : (Ty.map .str (.nullable (.ref "Id" "m"))).Canonical :=
    Ty.canonical_map.2 ⟨Ty.canonical_prim _,
      Ty.canonical_nullable.2 ⟨by decide, Ty.canonical_ref _ _⟩⟩
  refine ⟨((references_followed_to_their_end hscopes (Ty.canonical_ref _ _)).1 _).2 rfl,
    rfl, rfl, ?_⟩
  exact (references_followed_to_their_end hscopes hids).2 (chainsEndWithin_iff.1 rfl)

end Scopes

end TypedScript
