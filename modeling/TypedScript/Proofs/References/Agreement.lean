import TypedScript.Proofs.References.Dereferencing

/-!
# Types that come to mean the same

Two types agree when they are equal once their references have been replaced. Whatever is
made from types that agree agrees as well, with one exception: the properties of a shape keep
their references, so only the same types give the same shape.

For substitution this means that a type parameter may be bound to types that agree where it
stands in no shape, and has to be bound to the same type where it does.
-/
namespace TypedScript

namespace Ty

variable {follow : String → Option Ty} {replaced : Bool} {a b k v l w t u : Ty} {ts us : List Ty}

/-- The types are equal once their references have been replaced. If they stand where
references are not replaced, they are the same. -/
structure Agree (follow : String → Option Ty) (replaced : Bool) (t u : Ty) : Prop where
  left : t.Canonical
  right : u.Canonical
  equals : (t.derefBy follow).equals (u.derefBy follow) = true
  same : replaced = false → t = u

lemma canonical_of_agree (h : List.Forall₂ (Agree follow replaced) ts us) :
    (∀ t ∈ ts, t.Canonical) ∧ ∀ u ∈ us, u.Canonical := by
  induction h with
  | nil => simp
  | cons hab _ ih =>
    exact ⟨List.forall_mem_cons.2 ⟨hab.left, ih.1⟩, List.forall_mem_cons.2 ⟨hab.right, ih.2⟩⟩

lemma eq_of_agree (h : List.Forall₂ (Agree follow false) ts us) : ts = us := by
  induction h with
  | nil => rfl
  | cons hab _ ih => rw [hab.same rfl, ih]

lemma forall₂_equals_of_agree (h : List.Forall₂ (Agree follow replaced) ts us) :
    List.Forall₂ (fun t u => t.equals u = true) (ts.map (derefBy follow))
      (us.map (derefBy follow)) := by
  rw [List.forall₂_map_left_iff, List.forall₂_map_right_iff]
  exact h.imp fun _ _ hab => hab.equals

/-- Parameters of the same names, and of types that agree. -/
def AgreeParams (follow : String → Option Ty) (replaced : Bool) (ps qs : List Param) : Prop :=
  List.Forall₂ (fun p q => p.name = q.name ∧ Agree follow replaced p.type q.type) ps qs

lemma AgreeParams.types {ps qs : List Param} (h : AgreeParams follow replaced ps qs) :
    List.Forall₂ (Agree follow replaced) (ps.map Param.type) (qs.map Param.type) := by
  rw [List.forall₂_map_left_iff, List.forall₂_map_right_iff]
  exact h.imp fun _ _ hpq => hpq.2

lemma AgreeParams.eq {ps qs : List Param} (h : AgreeParams follow false ps qs) : ps = qs := by
  induction h with
  | nil => rfl
  | @cons p q _ _ hpq _ ih =>
    obtain ⟨name, t⟩ := p
    obtain ⟨name', u⟩ := q
    obtain ⟨rfl, htu⟩ : name = name' ∧ Agree follow false t u := hpq
    rw [htu.same rfl, ih]

namespace Agree

lemma mono {replaced' : Bool} (h : Agree follow replaced t u)
    (himp : replaced' = false → replaced = false) : Agree follow replaced' t u :=
  ⟨h.left, h.right, h.equals, fun hr => h.same (himp hr)⟩

lemma list (h : Agree follow replaced t u) : Agree follow replaced (.list t) (.list u) where
  left := canonical_list.2 h.left
  right := canonical_list.2 h.right
  equals := equals_iff.2 (.list h.equals)
  same hr := by rw [h.same hr]

lemma map (hk : Agree follow replaced k l) (hv : Agree follow replaced v w) :
    Agree follow replaced (.map k v) (.map l w) where
  left := canonical_map.2 ⟨hk.left, hv.left⟩
  right := canonical_map.2 ⟨hk.right, hv.right⟩
  equals := equals_iff.2 (.map hk.equals hv.equals)
  same hr := by rw [hk.same hr, hv.same hr]

lemma future (h : Agree follow replaced t u) : Agree follow replaced (.future t) (.future u) where
  left := canonical_future.2 h.left
  right := canonical_future.2 h.right
  equals := equals_iff.2 (.future h.equals)
  same hr := by rw [h.same hr]

lemma orNull (h : Agree follow replaced t u) : Agree follow replaced t.orNull u.orNull where
  left := h.left.orNull
  right := h.right.orNull
  equals := by
    rw [derefBy_orNull h.left, derefBy_orNull h.right]
    exact equals_orNull h.equals
  same hr := by rw [h.same hr]

lemma function {ps qs : List Param} {isVariadic : Bool} {typeParams : List TypeParam}
    (hparams : AgreeParams follow replaced ps qs) (hresult : Agree follow replaced t u)
    (hbounds : ∀ b ∈ TypeParam.bounds typeParams, b.Canonical) :
    Agree follow replaced (.function ⟨ps, t, isVariadic, typeParams⟩)
      (.function ⟨qs, u, isVariadic, typeParams⟩) where
  left := canonical_function.2
    ⟨List.forall_mem_map.1 (canonical_of_agree hparams.types).1, hresult.left, hbounds⟩
  right := canonical_function.2
    ⟨List.forall_mem_map.1 (canonical_of_agree hparams.types).2, hresult.right, hbounds⟩
  equals := by
    rw [derefBy_function, derefBy_function]
    refine equals_iff.2 (.function ?_ rfl hresult.equals)
    simp only [List.forall₂_map_left_iff, List.forall₂_map_right_iff]
    exact hparams.imp fun _ _ hpq => hpq.2.equals
  same hr := by
    subst hr
    rw [hparams.eq, hresult.same rfl]

lemma generic {base base' : Ty} (hbase : Agree follow replaced base base')
    (hargs : List.Forall₂ (Agree follow replaced) ts us) :
    Agree follow replaced (.generic base ts) (.generic base' us) where
  left := canonical_generic.2 ⟨hbase.left, (canonical_of_agree hargs).1⟩
  right := canonical_generic.2 ⟨hbase.right, (canonical_of_agree hargs).2⟩
  equals := by
    simp only [derefBy, derefAll_eq_map]
    exact equals_iff.2 (.generic hbase.equals (forall₂_equals_of_agree hargs))
  same hr := by
    subst hr
    rw [hbase.same rfl, eq_of_agree hargs]

section Canonical

variable (hf : ∀ name t, follow name = some t → t.Canonical)

include hf

lemma refl (replaced : Bool) (ht : t.Canonical) : Agree follow replaced t t :=
  ⟨ht, ht, equals_refl (canonical_derefBy hf t ht).proper, fun _ => rfl⟩

lemma unionOf (h : List.Forall₂ (Agree follow replaced) ts us) :
    Agree follow replaced (Ty.unionOf ts) (Ty.unionOf us) where
  left := canonical_unionOf (canonical_of_agree h).1
  right := canonical_unionOf (canonical_of_agree h).2
  equals := by
    obtain ⟨hts, hus⟩ := canonical_of_agree h
    have hmembers := equals_unionOf_of_forall₂ (canonical_map_derefBy hf hts)
      (canonical_map_derefBy hf hus) (forall₂_equals_of_agree h)
    have hleft := equals_derefBy_unionOf hf hts
    have hright := equals_symm (canonical_derefBy hf _ (canonical_unionOf hus)).proper
      (canonical_unionOf (canonical_map_derefBy hf hus)).proper (equals_derefBy_unionOf hf hus)
    exact equals_trans hleft (equals_trans hmembers hright)
  same hr := by
    subst hr
    rw [eq_of_agree h]

end Canonical

end Agree

end Ty

/-! ## Bindings -/

namespace Subst

variable {r r' : String → Ty → Ty → Prop} {σ τ : Subst}

/-- The same names are bound, each to types in relation. -/
def Related (r : String → Ty → Ty → Prop) (σ τ : Subst) : Prop :=
  List.Forall₂ (fun b c => b.1 = c.1 ∧ r b.1 b.2 c.2) σ τ

namespace Related

lemma mono (h : Related r σ τ) (himp : ∀ name t u, r name t u → r' name t u) :
    Related r' σ τ :=
  List.Forall₂.imp (fun _ _ hbc => ⟨hbc.1, himp _ _ _ hbc.2⟩) h

lemma isEmpty_eq (h : Related r σ τ) : σ.isEmpty = τ.isEmpty := by
  cases h <;> rfl

lemma get? (h : Related r σ τ) (name : String) :
    σ.get? name = none ∧ τ.get? name = none ∨
      ∃ t u, σ.get? name = some t ∧ τ.get? name = some u ∧ r name t u := by
  induction h with
  | nil => exact .inl ⟨rfl, rfl⟩
  | @cons b c bs cs hbc _ ih =>
    obtain ⟨n, t⟩ := b
    obtain ⟨n', u⟩ := c
    obtain ⟨rfl, htu⟩ : n = n' ∧ r n t u := hbc
    by_cases hn : n = name
    · subst hn
      exact .inr ⟨t, u, by simp [Subst.get?, ByName.find?], by simp [Subst.get?, ByName.find?], htu⟩
    · have hskip (rest : Subst) (v : Ty) : Subst.get? ((n, v) :: rest) name = rest.get? name := by
        simp [Subst.get?, ByName.find?, hn]
      rw [hskip, hskip]
      exact ih

/-- Only bindings of names that are not declared are left. -/
lemma without (h : Related r σ τ) (params : List TypeParam) :
    Related (fun name t u => (params.any fun p => p.name == name) = false ∧ r name t u)
      (σ.without params) (τ.without params) := by
  induction h with
  | nil => exact .nil
  | @cons b c bs cs hbc _ ih =>
    obtain ⟨n, t⟩ := b
    obtain ⟨n', u⟩ := c
    obtain ⟨rfl, htu⟩ : n = n' ∧ r n t u := hbc
    cases hdeclared : params.any fun p => p.name == n with
    | true => simpa [Subst.without, hdeclared] using ih
    | false =>
      have hcons (rest : Subst) (v : Ty) :
          Subst.without ((n, v) :: rest) params = (n, v) :: rest.without params := by
        simp [Subst.without, hdeclared]
      rw [hcons, hcons]
      exact .cons ⟨rfl, hdeclared, htu⟩ ih

lemma bind (h : Related r σ τ) {name : String} {t u : Ty} (htu : r name t u) :
    Related r (σ.bind name t) (τ.bind name u) := by
  induction h with
  | nil => exact .cons ⟨rfl, htu⟩ .nil
  | @cons b c bs cs hbc hrest ih =>
    obtain ⟨n, v⟩ := b
    obtain ⟨n', w⟩ := c
    obtain ⟨rfl, hvw⟩ : n = n' ∧ r n v w := hbc
    simp only [Subst.bind, ByName.insert] at ih ⊢
    split
    · exact .cons ⟨rfl, htu⟩ (.cons ⟨rfl, hvw⟩ hrest)
    · split
      · exact .cons ⟨rfl, htu⟩ hrest
      · exact .cons ⟨rfl, hvw⟩ ih

lemma foldl_bind {bs cs : List (String × Ty)} (h : Related r σ τ) (hbs : Related r bs cs) :
    Related r (bs.foldl (fun s b => s.bind b.1 b.2) σ)
      (cs.foldl (fun s b => s.bind b.1 b.2) τ) := by
  induction hbs generalizing σ τ with
  | nil => exact h
  | @cons b c bs cs hbc _ ih =>
    obtain ⟨n, t⟩ := b
    obtain ⟨n', u⟩ := c
    obtain ⟨rfl, htu⟩ : n = n' ∧ r n t u := hbc
    exact ih (h.bind htu)

lemma zip {names : List String} {ts us : List Ty} (h : Related r (names.zip ts) (names.zip us)) :
    Related r (Subst.zip names ts) (Subst.zip names us) :=
  foldl_bind .nil h

end Related

end Subst

/-! ## Substitution -/

mutual

/-- A type parameter occurs in a shape, or anywhere if the type stands in a shape itself. -/
def Ty.hides (name : String) (inShape : Bool) : Ty → Bool
  | .param n => inShape && n == name
  | .list t => t.hides name inShape
  | .map k v => k.hides name inShape || v.hides name inShape
  | .nullable t => t.hides name inShape
  | .future t => t.hides name inShape
  | .union ms => Ty.someHides name inShape ms
  | .function ⟨params, result, _, typeParams⟩ =>
    !(typeParams.any fun p => p.name == name) &&
      (Ty.someParamHides name inShape params || result.hides name inShape)
  | .interface ⟨_, properties, _⟩ => Ty.somePropertyHides name properties
  | .generic _ args => Ty.someHides name inShape args
  | _ => false
termination_by structural t => t

def Ty.someHides (name : String) (inShape : Bool) : List Ty → Bool
  | [] => false
  | t :: ts => t.hides name inShape || Ty.someHides name inShape ts
termination_by structural ts => ts

def Ty.someParamHides (name : String) (inShape : Bool) : List Param → Bool
  | [] => false
  | ⟨_, t⟩ :: ps => t.hides name inShape || Ty.someParamHides name inShape ps
termination_by structural ps => ps

def Ty.somePropertyHides (name : String) : List Property → Bool
  | [] => false
  | ⟨_, t, _⟩ :: ps => t.hides name true || Ty.somePropertyHides name ps
termination_by structural ps => ps

end

namespace Subst

variable {follow : String → Option Ty} {hidden hidden' : String → Bool} {σ τ : Subst}

/-- The same names are bound to types that agree, and hidden ones to the same types. -/
def Agree (follow : String → Option Ty) (hidden : String → Bool) (σ τ : Subst) : Prop :=
  Related (fun name t u => Ty.Agree follow true t u ∧ (hidden name = true → t = u)) σ τ

namespace Agree

lemma mono (h : Agree follow hidden σ τ) (himp : ∀ name, hidden' name = true → hidden name = true) :
    Agree follow hidden' σ τ :=
  Related.mono h fun name _ _ htu => ⟨htu.1, fun hname => htu.2 (himp name hname)⟩

lemma left (h : Agree follow hidden σ τ) : σ.Canonical := by
  induction h with
  | nil => exact .nil
  | cons hbc _ ih => exact List.forall_mem_cons.2 ⟨hbc.2.1.left, ih⟩

end Agree

end Subst

namespace Ty

variable {follow : String → Option Ty}

mutual

/-- What comes of a type by bindings that agree agrees, if they are the same for what the type
hides. -/
lemma agree_substituteIn (hf : ∀ name t, follow name = some t → t.Canonical) :
    (t : Ty) → t.Canonical → ∀ (inShape : Bool) (σ τ : Subst),
    Subst.Agree follow (fun name => t.hides name inShape) σ τ →
      Agree follow (!inShape) (t.substituteIn σ) (t.substituteIn τ)
  | .param name => fun ht inShape σ τ h => by
    obtain ⟨hσ, hτ⟩ | ⟨t, u, hσ, hτ, htu, hsame⟩ := Subst.Related.get? h name
    · simp only [substituteIn, hσ, hτ]
      exact .refl hf _ ht
    · simp only [substituteIn, hσ, hτ]
      exact ⟨htu.left, htu.right, htu.equals, fun hin => hsame (by simpa [hides] using hin)⟩
  | .list t => fun ht inShape σ τ h =>
    (agree_substituteIn hf t (canonical_list.1 ht) inShape σ τ h).list
  | .map k v => fun ht inShape σ τ h => by
    obtain ⟨hk, hv⟩ := canonical_map.1 ht
    refine .map (agree_substituteIn hf k hk inShape σ τ (h.mono fun name hname => ?_))
      (agree_substituteIn hf v hv inShape σ τ (h.mono fun name hname => ?_))
    · simp [hides, hname]
    · simp [hides, hname]
  | .nullable t => fun ht inShape σ τ h =>
    (agree_substituteIn hf t (canonical_nullable.1 ht).2 inShape σ τ h).orNull
  | .future t => fun ht inShape σ τ h =>
    (agree_substituteIn hf t (canonical_future.1 ht) inShape σ τ h).future
  | .union ms => fun ht inShape σ τ h =>
    .unionOf hf (agree_substituteAll hf ms (canonical_union.1 ht).2 inShape σ τ h)
  | .function ⟨params, result, isVariadic, typeParams⟩ => fun ht inShape σ τ h => by
    obtain ⟨hparams, hresult, hbounds⟩ := canonical_function.1 ht
    have hinner : Subst.Agree follow
        (fun name => someParamHides name inShape params || result.hides name inShape)
        (σ.without typeParams) (τ.without typeParams) := by
      refine (Subst.Related.without h typeParams).mono fun name t u htu => ⟨htu.2.1, ?_⟩
      intro hname
      refine htu.2.2 ?_
      simpa [hides, htu.1] using hname
    unfold substituteIn
    dsimp only
    rw [hinner.isEmpty_eq]
    split
    · exact .refl hf _ ht
    · refine .function
        (agree_substituteParams hf params hparams inShape _ _ (hinner.mono fun name hname => ?_))
        (agree_substituteIn hf result hresult inShape _ _ (hinner.mono fun name hname => ?_))
        hbounds
      · simp [hname]
      · simp [hname]
  | .interface ⟨name, properties, typeParams⟩ => fun ht inShape σ τ h => by
    obtain ⟨-, hproperties, -⟩ := canonical_interface.1 ht
    have hcanonical := canonical_substituteIn _ ht σ h.left
    have hsame := agree_substituteProperties hf properties hproperties σ τ h
    unfold substituteIn at hcanonical ⊢
    rw [← hsame]
    exact .refl hf _ hcanonical
  | .generic base args => fun ht inShape σ τ h =>
    have ⟨hbase, hargs⟩ := canonical_generic.1 ht
    .generic (.refl hf _ hbase) (agree_substituteAll hf args hargs inShape σ τ h)
  | .prim _ | .cls _ | .enum _ | .ref _ _ => fun ht _ _ _ _ => .refl hf _ ht
termination_by structural t => t

lemma agree_substituteAll (hf : ∀ name t, follow name = some t → t.Canonical) :
    (ts : List Ty) → (∀ t ∈ ts, t.Canonical) →
    ∀ (inShape : Bool) (σ τ : Subst),
      Subst.Agree follow (fun name => someHides name inShape ts) σ τ →
      List.Forall₂ (Agree follow (!inShape)) (substituteAll σ ts) (substituteAll τ ts)
  | [] => fun _ _ _ _ _ => .nil
  | t :: ts => fun hts inShape σ τ h => by
    obtain ⟨ht, hts⟩ := List.forall_mem_cons.1 hts
    refine .cons (agree_substituteIn hf t ht inShape σ τ (h.mono fun name hname => ?_))
      (agree_substituteAll hf ts hts inShape σ τ (h.mono fun name hname => ?_))
    · simp [someHides, hname]
    · simp [someHides, hname]
termination_by structural ts => ts

lemma agree_substituteParams (hf : ∀ name t, follow name = some t → t.Canonical) :
    (ps : List Param) → (∀ p ∈ ps, p.type.Canonical) →
    ∀ (inShape : Bool) (σ τ : Subst),
      Subst.Agree follow (fun name => someParamHides name inShape ps) σ τ →
      AgreeParams follow (!inShape) (substituteParams σ ps) (substituteParams τ ps)
  | [] => fun _ _ _ _ _ => .nil
  | ⟨_, t⟩ :: ps => fun hps inShape σ τ h => by
    obtain ⟨ht, hps⟩ := List.forall_mem_cons.1 hps
    refine .cons ⟨rfl, agree_substituteIn hf t ht inShape σ τ (h.mono fun name hname => ?_)⟩
      (agree_substituteParams hf ps hps inShape σ τ (h.mono fun name hname => ?_))
    · simp [someParamHides, hname]
    · simp [someParamHides, hname]
termination_by structural ps => ps

lemma agree_substituteProperties (hf : ∀ name t, follow name = some t → t.Canonical) :
    (ps : List Property) → (∀ p ∈ ps, p.type.Canonical) →
    ∀ (σ τ : Subst), Subst.Agree follow (fun name => somePropertyHides name ps) σ τ →
      substituteProperties σ ps = substituteProperties τ ps
  | [] => fun _ _ _ _ => rfl
  | ⟨_, t, _⟩ :: ps => fun hps σ τ h => by
    obtain ⟨ht, hps⟩ := List.forall_mem_cons.1 hps
    have hhead : t.substituteIn σ = t.substituteIn τ := by
      refine (agree_substituteIn hf t ht true σ τ (h.mono fun name hname => ?_)).same rfl
      simp [somePropertyHides, hname]
    have hrest : substituteProperties σ ps = substituteProperties τ ps := by
      refine agree_substituteProperties hf ps hps σ τ (h.mono fun name hname => ?_)
      simp [somePropertyHides, hname]
    simp [substituteProperties, hhead, hrest]
termination_by structural ps => ps

end

lemma agree_substitute (hf : ∀ name t, follow name = some t → t.Canonical) {t : Ty}
    (ht : t.Canonical) (inShape : Bool) {σ τ : Subst}
    (h : Subst.Agree follow (fun name => t.hides name inShape) σ τ) :
    Agree follow (!inShape) (t.substitute σ) (t.substitute τ) := by
  unfold substitute
  rw [Subst.Related.isEmpty_eq h]
  split
  · exact .refl hf _ ht
  · exact agree_substituteIn hf t ht inShape σ τ h

end Ty

end TypedScript
