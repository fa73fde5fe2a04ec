import TypedScript.Proofs.Canonical.Operations
import TypedScript.Proofs.Lineage.Outline

/-!
# Annotations mean canonical types

In scopes that hold canonical types every annotation means a canonical type, and so does
every canonical type once its references are replaced. What a reference is replaced by may
be a union or a nullable; where the reference stood in one, the type around it is made anew.
-/
namespace TypedScript

namespace Scopes

/-- Every symbol, in force or not, has a canonical type. -/
def Canonical (s : Scopes) : Prop := ∀ x, s.Has x → ∀ t, x.type = some t → t.Canonical

namespace Canonical

variable {s : Scopes} {name : String} {t : Ty}

lemma lookup? (hs : s.Canonical) {x : Symbol} (hx : s.lookup? name = some x)
    (ht : x.type = some t) : t.Canonical :=
  hs x (has_of_lookup? hx) t ht

lemma typeNamed? (hs : s.Canonical) (h : s.typeNamed? name = some t) : t.Canonical := by
  unfold Scopes.typeNamed? at h
  split at h
  · rename_i x hx
    split at h
    · exact hs.lookup? hx h
    · cases h
  · cases h

lemma classNamed? (hs : s.Canonical) {c : Class} (h : s.classNamed? name = some c) :
    (Ty.cls c).Canonical := by
  unfold Scopes.classNamed? at h
  split at h
  · rename_i x hx
    split at h
    · obtain ⟨t, ht, hc⟩ := Option.bind_eq_some_iff.1 h
      have hcanonical := hs.lookup? hx ht
      cases t with
      | cls d => exact Option.some.inj hc ▸ hcanonical
      | _ => cases hc
    · cases h
  · cases h

end Canonical

/-! ## Annotations -/

variable {s : Scopes}

lemma canonical_applySymbol {x? : Option Symbol}
    (hx : ∀ x, x? = some x → ∀ t, x.type = some t → t.Canonical) {file name : String}
    {args : List Ty} (hargs : ∀ a ∈ args, a.Canonical) {t : Ty}
    (h : applySymbol file name args x? = .ok t) : t.Canonical := by
  unfold applySymbol at h
  split at h
  · have hbody := hx _ rfl _ rfl
    split at h
    · cases h
    · split at h
      · exact Except.ok.inj h ▸ hbody
      · split at h
        · unfold applyAlias at h
          split at h
          · exact Except.ok.inj h ▸ hbody.substitute (.zip _ hargs)
          · cases h
        · exact Except.ok.inj h ▸ Ty.canonical_generic.2 ⟨hbody, hargs⟩
  · split at h
    · exact Except.ok.inj h ▸ Ty.canonical_ref _ _
    · exact Except.ok.inj h ▸ Ty.canonical_generic.2 ⟨Ty.canonical_ref _ _, hargs⟩

lemma canonical_applyNamed (hs : s.Canonical) (file name : String) {args : List Ty}
    (hargs : ∀ a ∈ args, a.Canonical) {t : Ty} (h : s.applyNamed file name args = .ok t) :
    t.Canonical := by
  have hhead {as : List Ty} (has : ∀ a ∈ as, a.Canonical) : (as.headD .unknown).Canonical := by
    cases as with
    | nil => exact Ty.canonical_prim _
    | cons a as => exact has a List.mem_cons_self
  have htail : (args.tail.headD .unknown).Canonical :=
    hhead fun a ha => hargs a (List.mem_of_mem_tail ha)
  have harity (expected : Nat) {f : List Ty → Ty} (hf : (f args).Canonical)
      (h : withArity name expected args f = .ok t) : t.Canonical := by
    unfold withArity at h
    split at h
    · exact Except.ok.inj h ▸ hf
    · cases h
  unfold applyNamed at h
  split at h
  · exact harity 1 (Ty.canonical_list.2 (hhead hargs)) h
  · exact harity 1 (Ty.canonical_list.2 (hhead hargs)) h
  · exact harity 2 (Ty.canonical_map.2 ⟨hhead hargs, htail⟩) h
  · exact harity 1 (Ty.canonical_future.2 (hhead hargs)) h
  · exact harity 1 (Ty.canonical_future.2 (hhead hargs)) h
  · split at h
    · exact harity 0 (Ty.canonical_prim _) h
    · exact canonical_applySymbol (fun x hx _ ht => hs.lookup? hx ht) hargs h

/-! What the parts of an annotation mean when the annotation means something. -/

section Parts

variable {file name : String} {place : Location} {t : Ty} {ts : List Ty}

lemma resolve_named_eq_ok {args : List Annotation}
    (h : s.resolve file (.named place name args) = .ok t) :
    ∃ ts, s.resolveAll file args = .ok ts ∧ s.applyNamed file name ts = .ok t := by
  unfold resolve at h
  split at h
  · rename_i ts hts
    exact ⟨ts, hts, h⟩
  · cases h

lemma resolve_array_eq_ok {element : Annotation}
    (h : s.resolve file (.array place element) = .ok t) :
    ∃ u, s.resolve file element = .ok u ∧ t = .list u := by
  unfold resolve at h
  split at h
  · rename_i u hu
    exact ⟨u, hu, (Except.ok.inj h).symm⟩
  · cases h

lemma resolve_nullable_eq_ok {base : Annotation}
    (h : s.resolve file (.nullable place base) = .ok t) :
    ∃ u, s.resolve file base = .ok u ∧ t = u.orNull := by
  unfold resolve at h
  split at h
  · rename_i u hu
    exact ⟨u, hu, (Except.ok.inj h).symm⟩
  · cases h

lemma resolve_union_eq_ok {members : List Annotation}
    (h : s.resolve file (.union place members) = .ok t) :
    ∃ ts, s.resolveAll file members = .ok ts ∧ t = Ty.unionOf ts := by
  unfold resolve at h
  split at h
  · rename_i ts hts
    exact ⟨ts, hts, (Except.ok.inj h).symm⟩
  · cases h

lemma resolve_function_eq_ok {params : List ParamDecl} {result : Annotation}
    (h : s.resolve file (.function place params result) = .ok t) :
    ∃ r u, s.resolveParams file params = .ok r ∧ s.resolve file result = .ok u ∧
      t = .function ⟨r.1, if result.isOmitted then .void else u, r.2, []⟩ := by
  unfold resolve at h
  split at h
  · rename_i ps isVariadic u hps hu
    exact ⟨(ps, isVariadic), u, hps, hu, (Except.ok.inj h).symm⟩
  · cases h
  · cases h

lemma resolve_object_eq_ok {properties : List PropertyDecl}
    (h : s.resolve file (.object place properties) = .ok t) :
    ∃ ps, s.resolveProperties file properties = .ok ps ∧
      t = .interface ⟨"", ByName.ofList Property.name ps, []⟩ := by
  unfold resolve at h
  split at h
  · rename_i ps hps
    exact ⟨ps, hps, (Except.ok.inj h).symm⟩
  · cases h

lemma resolveAll_cons_eq_ok {a : Annotation} {as : List Annotation}
    (h : s.resolveAll file (a :: as) = .ok ts) :
    ∃ u us, s.resolve file a = .ok u ∧ s.resolveAll file as = .ok us ∧ ts = u :: us := by
  unfold resolveAll at h
  split at h
  · cases h
  · rename_i u hu
    split at h
    · cases h
    · rename_i us hus
      exact ⟨u, us, hu, hus, (Except.ok.inj h).symm⟩

lemma resolveParams_cons_eq_ok {p : ParamDecl} {ps : List ParamDecl} {r : List Param × Bool}
    (h : s.resolveParams file (p :: ps) = .ok r) :
    ∃ u rest, s.resolveParam file p = .ok u ∧ s.resolveParams file ps = .ok rest ∧
      r = (⟨p.name.name, u⟩ :: rest.1, p.isVariadic || rest.2) := by
  unfold resolveParams at h
  split at h
  · cases h
  · rename_i u hu
    split at h
    · cases h
    · split at h
      · cases h
      · rename_i rest isVariadic hrest
        exact ⟨u, (rest, isVariadic), hu, hrest, (Except.ok.inj h).symm⟩

lemma resolveParam_eq_ok {n : Ident} {type : Annotation} {isVariadic : Bool} {l : Location}
    (h : s.resolveParam file ⟨n, type, isVariadic, l⟩ = .ok t) :
    type.isOmitted = true ∧ t = (if isVariadic then .list .any else .any) ∨
      type.isOmitted = false ∧ s.resolve file type = .ok t := by
  cases type with
  | omitted => exact .inl ⟨rfl, (Except.ok.inj h).symm⟩
  | _ =>
    refine .inr ⟨rfl, ?_⟩
    simp only [resolveParam] at h
    split at h
    · cases h
    · rename_i u hu
      split at h
      · cases h
      · exact Except.ok.inj h ▸ hu

lemma resolveProperties_cons_eq_ok {n : String} {type : Annotation} {isOptional : Bool}
    {l : Location} {ps : List PropertyDecl} {r : List Property}
    (h : s.resolveProperties file (⟨n, type, isOptional, l⟩ :: ps) = .ok r) :
    ∃ u rest, s.resolve file type = .ok u ∧ s.resolveProperties file ps = .ok rest ∧
      r = ⟨n, u, isOptional⟩ :: rest := by
  unfold resolveProperties at h
  split at h
  · cases h
  · rename_i u hu
    split at h
    · cases h
    · rename_i rest hrest
      exact ⟨u, rest, hu, hrest, (Except.ok.inj h).symm⟩

end Parts

mutual

lemma canonical_resolve (hs : s.Canonical) (file : String) :
    (a : Annotation) → ∀ t, s.resolve file a = .ok t → t.Canonical
  | .omitted => fun _ h => by
    cases h
    exact Ty.canonical_prim _
  | .named _ name args => fun _ h => by
    obtain ⟨ts, hts, h⟩ := resolve_named_eq_ok h
    exact canonical_applyNamed hs file name (canonical_resolveAll hs file args ts hts) h
  | .array _ element => fun _ h => by
    obtain ⟨t, ht, rfl⟩ := resolve_array_eq_ok h
    exact Ty.canonical_list.2 (canonical_resolve hs file element t ht)
  | .nullable _ base => fun _ h => by
    obtain ⟨t, ht, rfl⟩ := resolve_nullable_eq_ok h
    exact (canonical_resolve hs file base t ht).orNull
  | .union _ members => fun _ h => by
    obtain ⟨ts, hts, rfl⟩ := resolve_union_eq_ok h
    exact Ty.canonical_unionOf (canonical_resolveAll hs file members ts hts)
  | .function _ params result => fun _ h => by
    obtain ⟨r, t, hr, ht, rfl⟩ := resolve_function_eq_ok h
    refine Ty.canonical_function.2
      ⟨canonical_resolveParams hs file params r hr, ?_, List.forall_mem_nil _⟩
    dsimp only
    split
    · exact Ty.canonical_prim _
    · exact canonical_resolve hs file result t ht
  | .object _ properties => fun _ h => by
    obtain ⟨ps, hps, rfl⟩ := resolve_object_eq_ok h
    have hproperties := canonical_resolveProperties hs file properties ps hps
    exact Ty.canonical_interface.2 ⟨(ByName.ascends_ofList ps).nodup,
      fun p hp => hproperties p (ByName.mem_of_mem_ofList hp), List.forall_mem_nil _⟩
termination_by structural a => a

lemma canonical_resolveAll (hs : s.Canonical) (file : String) :
    (as : List Annotation) → ∀ ts, s.resolveAll file as = .ok ts → ∀ t ∈ ts, t.Canonical
  | [] => fun _ h => by
    cases h
    exact List.forall_mem_nil _
  | a :: as => fun _ h => by
    obtain ⟨t, ts, ht, hts, rfl⟩ := resolveAll_cons_eq_ok h
    exact List.forall_mem_cons.2
      ⟨canonical_resolve hs file a t ht, canonical_resolveAll hs file as ts hts⟩
termination_by structural as => as

lemma canonical_resolveParams (hs : s.Canonical) (file : String) :
    (ps : List ParamDecl) → ∀ r, s.resolveParams file ps = .ok r → ∀ p ∈ r.1, p.type.Canonical
  | [] => fun _ h => by
    cases h
    exact List.forall_mem_nil _
  | p :: ps => fun _ h => by
    obtain ⟨t, rest, ht, hrest, rfl⟩ := resolveParams_cons_eq_ok h
    exact List.forall_mem_cons.2
      ⟨canonical_resolveParam hs file p t ht, canonical_resolveParams hs file ps rest hrest⟩
termination_by structural ps => ps

lemma canonical_resolveParam (hs : s.Canonical) (file : String) :
    (p : ParamDecl) → ∀ t, s.resolveParam file p = .ok t → t.Canonical
  | ⟨_, type, _, _⟩ => fun t h => by
    obtain ⟨-, rfl⟩ | ⟨-, ht⟩ := resolveParam_eq_ok h
    · split <;> simp
    · exact canonical_resolve hs file type t ht
termination_by structural p => p

lemma canonical_resolveProperties (hs : s.Canonical) (file : String) :
    (ps : List PropertyDecl) → ∀ r, s.resolveProperties file ps = .ok r → ∀ p ∈ r, p.type.Canonical
  | [] => fun _ h => by
    cases h
    exact List.forall_mem_nil _
  | ⟨_, type, _, _⟩ :: ps => fun _ h => by
    obtain ⟨t, rest, ht, hrest, rfl⟩ := resolveProperties_cons_eq_ok h
    exact List.forall_mem_cons.2
      ⟨canonical_resolve hs file type t ht, canonical_resolveProperties hs file ps rest hrest⟩
termination_by structural ps => ps

end

lemma canonical_resolveSignature (hs : s.Canonical) (file : String)
    {typeParams : List TypeParam} {params : List ParamDecl} {result : Annotation}
    (hbounds : ∀ b ∈ TypeParam.bounds typeParams, b.Canonical)
    {sig : Signature} (h : s.resolveSignature file typeParams params result = .ok sig) :
    (Ty.function sig).Canonical := by
  unfold resolveSignature at h
  split at h
  · cases h
  · rename_i ps isVariadic hps
    have hparams := canonical_resolveParams hs file params _ hps
    split at h
    · exact Except.ok.inj h ▸ Ty.canonical_function.2
        ⟨hparams, Ty.canonical_prim _, hbounds⟩
    · split at h
      · rename_i t ht
        exact Except.ok.inj h ▸ Ty.canonical_function.2
          ⟨hparams, canonical_resolve hs file result t ht, hbounds⟩
      · cases h

end Scopes

/-! ## References -/

namespace Ty

variable {follow : String → Option Ty}

mutual

lemma canonical_derefBy (hf : ∀ name t, follow name = some t → t.Canonical) :
    (t : Ty) → t.Canonical → (t.derefBy follow).Canonical
  | .ref name file => fun ht => by
    unfold derefBy
    cases h : follow name with
    | none => exact ht
    | some t => exact hf name t h
  | .list t => fun ht => canonical_list.2 (canonical_derefBy hf t (canonical_list.1 ht))
  | .map k v => fun ht =>
    canonical_map.2 ⟨canonical_derefBy hf k (canonical_map.1 ht).1,
      canonical_derefBy hf v (canonical_map.1 ht).2⟩
  | .nullable t => fun ht => by
    unfold derefBy
    split
    · exact ht
    · exact (canonical_derefBy hf t (canonical_nullable.1 ht).2).orNull
  | .future t => fun ht => canonical_future.2 (canonical_derefBy hf t (canonical_future.1 ht))
  | .union ms => fun ht => by
    unfold derefBy
    split
    · exact ht
    · exact canonical_unionOf (canonical_derefAll hf ms (canonical_union.1 ht).2)
  | .function ⟨params, result, _, _⟩ => fun ht =>
    have ⟨hparams, hresult, hbounds⟩ := canonical_function.1 ht
    canonical_function.2
      ⟨canonical_derefParams hf params hparams, canonical_derefBy hf result hresult, hbounds⟩
  | .generic base args => fun ht =>
    canonical_generic.2 ⟨canonical_derefBy hf base (canonical_generic.1 ht).1,
      canonical_derefAll hf args (canonical_generic.1 ht).2⟩
  | .prim _ | .interface _ | .cls _ | .enum _ | .param _ => fun ht => ht
termination_by structural t => t

lemma canonical_derefAll (hf : ∀ name t, follow name = some t → t.Canonical) :
    (ts : List Ty) → (∀ t ∈ ts, t.Canonical) → ∀ t ∈ derefAll follow ts, t.Canonical
  | [] => fun _ => List.forall_mem_nil _
  | t :: ts => fun hts => List.forall_mem_cons.2
    ⟨canonical_derefBy hf t (List.forall_mem_cons.1 hts).1,
      canonical_derefAll hf ts (List.forall_mem_cons.1 hts).2⟩
termination_by structural ts => ts

lemma canonical_derefParams (hf : ∀ name t, follow name = some t → t.Canonical) :
    (ps : List Param) → (∀ p ∈ ps, p.type.Canonical) →
      ∀ p ∈ derefParams follow ps, p.type.Canonical
  | [] => fun _ => List.forall_mem_nil _
  | ⟨_, t⟩ :: ps => fun hps => List.forall_mem_cons.2
    ⟨canonical_derefBy hf t (List.forall_mem_cons.1 hps).1,
      canonical_derefParams hf ps (List.forall_mem_cons.1 hps).2⟩
termination_by structural ps => ps

end

end Ty

namespace Scopes

variable {s : Scopes} {t : Ty}

lemma Canonical.derefWithin (hs : s.Canonical) (limit : Nat) (ht : t.Canonical) :
    (s.derefWithin limit t).Canonical := by
  induction limit generalizing t with
  | zero => exact ht
  | succ limit ih =>
    refine Ty.canonical_derefBy (fun name u hu => ?_) t ht
    obtain ⟨v, hv, rfl⟩ := Option.map_eq_some_iff.1 hu
    exact ih (hs.typeNamed? hv)

lemma Canonical.deref (hs : s.Canonical) (ht : t.Canonical) : (s.deref t).Canonical :=
  hs.derefWithin derefLimit ht

end Scopes

end TypedScript
