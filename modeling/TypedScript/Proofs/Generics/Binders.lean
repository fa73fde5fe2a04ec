import TypedScript.Proofs.Generics.Renaming

/-!
# Type parameters that a type declares

A signature hides the type parameters it declares: within it they are not replaced. A shape that
declares type parameters does not hide them.

Declared type parameters may be given new names before a substitution or after it, unless the
substitution puts in a type parameter that happens to have one of their names. It then comes to
stand for the declared one.

New names for the declared type parameters alone are a part of a permutation of names, which
exchanges the old names for the new ones. It does the same to the type if no type inside declares
an old name again.
-/
namespace TypedScript.Ty

variable {ρ : Equiv.Perm String} {s : Subst} {t : Ty} {name : String}

/-- The renaming gives the type parameters that a type declares names that are new to the type and
to the bindings, and concerns no others. -/
structure Freshens (ρ : Equiv.Perm String) (s : Subst) (t : Ty) : Prop where
  fresh : ∀ p ∈ t.declared, ρ p.name ∉ t.names ∧ ρ p.name ∉ s.names
  others : ∀ name, (∀ p ∈ t.declared, name ≠ p.name ∧ name ≠ ρ p.name) → ρ name = name

/-- No type parameter that the type declares is in what the bindings put into the type. -/
def CaptureFree (s : Subst) (t : Ty) : Prop :=
  ∀ name u, Mentions name t → s.get? name = some u → ∀ p ∈ t.declared, p.name ∉ u.names

/-- A type parameter that the type declares stands in what the bindings put into the type. -/
def Captures (s : Subst) (t : Ty) : Prop :=
  ∃ name u, Mentions name t ∧ s.get? name = some u ∧ ∃ p ∈ t.declared, Occurs p.name u

/-- The bindings leave alone what the type declares, where the type mentions it. -/
def LeavesOwn (s : Subst) (t : Ty) : Prop :=
  ∀ p ∈ t.declared, Mentions p.name t → s.get? p.name = none

/-- Only shapes mention type parameters that they declare. -/
lemma leavesOwn_of_kind (h : t.kind ≠ .interface) : LeavesOwn s t := by
  intro p hp hmentions
  cases t with
  | function sig =>
    cases hmentions with
    | inside _ hown => exact absurd (List.mem_map_of_mem hp) hown
  | interface => exact absurd rfl h
  | _ => exact absurd hp List.not_mem_nil

namespace Freshens

lemma eq_self (h : Freshens ρ s t) (hname : name ∈ t.names ∨ name ∈ s.names)
    (hown : ∀ p ∈ t.declared, p.name ≠ name) : ρ name = name := by
  refine h.others name fun p hp => ⟨(hown p hp).symm, ?_⟩
  rintro rfl
  exact hname.elim (h.fresh p hp).1 (h.fresh p hp).2

/-- What is given the name of a declared type parameter is new as well. -/
lemma symm_fresh (h : Freshens ρ s t) {p : TypeParam} (hp : p ∈ t.declared) :
    ρ.symm p.name ∉ t.names ∧ ρ.symm p.name ∉ s.names := by
  by_cases htarget : ∃ q ∈ t.declared, ρ.symm p.name = ρ q.name
  · obtain ⟨q, hq, hname⟩ := htarget
    rw [hname]
    exact h.fresh q hq
  · have hown : ∀ q ∈ t.declared, ρ.symm p.name ≠ q.name := by
      intro q hq hname
      rw [Equiv.symm_apply_eq] at hname
      exact (h.fresh q hq).1 (hname ▸ mem_names_of_declared (List.mem_map_of_mem hp))
    have hfixed := h.others _ fun q hq => ⟨hown q hq, fun hname => htarget ⟨q, hq, hname⟩⟩
    rw [Equiv.apply_symm_apply] at hfixed
    exact absurd hfixed.symm (hown p hp)

end Freshens

/-- The renaming makes no difference to what the bindings put into the type, if they capture
nothing. -/
lemma substitute_rename_symm (ht : t.Canonical) (hρ : Freshens ρ s t) (hown : LeavesOwn s t)
    (hfree : CaptureFree s t) : t.substitute (s.rename ρ.symm) = t.substitute s := by
  refine substitute_congr ht fun name hname => ?_
  have hget : (s.rename ρ.symm).get? name = (s.get? (ρ name)).map (rename ρ.symm) := by
    rw [← Subst.get?_rename, ρ.symm_apply_apply]
  rw [substitute_param, substitute_param, hget]
  by_cases hdeclared : ∃ p ∈ t.declared, p.name = name
  · obtain ⟨p, hp, rfl⟩ := hdeclared
    have hnew : s.get? (ρ p.name) = none :=
      Option.eq_none_iff_forall_ne_some.2 fun u hu => (hρ.fresh p hp).2 (Subst.name_mem_names hu)
    rw [hown p hp hname, hnew]
    rfl
  · have hother : ∀ p ∈ t.declared, p.name ≠ name := by simpa using hdeclared
    rw [hρ.eq_self (.inl hname.occurs.mem_names) hother]
    cases hbound : s.get? name with
    | none => rfl
    | some u =>
      have hu : u.rename ρ.symm = u := by
        refine rename_eq_self fun n hn => (Equiv.symm_apply_eq ρ).2 (Eq.symm ?_)
        refine hρ.eq_self (.inr (Subst.names_subset_names hbound hn)) ?_
        rintro p hp rfl
        exact hfree name u hname hbound p hp hn
      rw [Option.map_some, hu]

/-- Declared type parameters may be renamed before the substitution or after it, if none is
captured. -/
lemma rename_substitute_of_captureFree (ht : t.Canonical) (hρ : Freshens ρ s t)
    (hown : LeavesOwn s t) (hfree : CaptureFree s t) :
    (t.substitute s).rename ρ = (t.rename ρ).substitute s := by
  calc (t.substitute s).rename ρ
      = (t.substitute (s.rename ρ.symm)).rename ρ := by
        rw [substitute_rename_symm ht hρ hown hfree]
    _ = (((t.rename ρ).substitute s).rename ρ.symm).rename ρ := by
        rw [rename_substitute ρ.symm, rename_symm_rename]
    _ = (t.rename ρ).substitute s := rename_symm_rename ρ.symm _

/-- Where one is captured, the two ways differ. -/
lemma rename_substitute_differs (ht : t.Canonical) (hs : s.Canonical) (hρ : Freshens ρ s t)
    (hown : LeavesOwn s t) (hcaptures : Captures s t) :
    ((t.rename ρ).substitute s).equals ((t.substitute s).rename ρ) = false := by
  obtain ⟨name, u, hname, hbound, p, hp, hoccurs⟩ := hcaptures
  have hother : ∀ q ∈ t.declared, q.name ≠ name := by
    rintro q hq rfl
    simp [hown q hq hname] at hbound
  have hmentions : Mentions name (t.rename ρ) := by
    have hrenamed := hname.rename (ρ := ρ)
    rwa [hρ.eq_self (.inl hname.occurs.mem_names) hother] at hrenamed
  have hafter := occurs_substitute ht.rename hs hmentions hbound hoccurs
  have hbefore : ¬ Occurs p.name ((t.substitute s).rename ρ) := by
    intro h
    have hback := h.rename (ρ := ρ.symm)
    rw [rename_symm_rename] at hback
    obtain ⟨hold, hbound⟩ := hρ.symm_fresh hp
    exact (mem_names_of_substitute hback.mem_names).elim hold hbound
  have hproper := ((ht.rename (ρ := ρ)).substitute hs).proper
  have hproper' := ((ht.substitute hs).rename (ρ := ρ)).proper
  exact Bool.eq_false_iff.2 fun hequal => hbefore (hafter.of_equals hproper hproper' hequal)

/-! ## Renaming what a type declares -/

/-- A renaming of the type parameters that are declared here, and of no others. -/
def only (ρ : String → String) (params : List TypeParam) (name : String) : String :=
  if name ∈ params.map TypeParam.name then ρ name else name

/-- Give other names to the type parameters that a type declares. Where a type inside declares one
of them again, it stays. -/
def renameOwn (ρ : String → String) (t : Ty) : Ty :=
  t.mapParts (renameFree (only ρ t.declared)) (only ρ t.declared)

/-- The renaming gives the type parameters that a type declares distinct names that are new to the
type and to the bindings. -/
structure GivesFresh (ρ : String → String) (s : Subst) (t : Ty) : Prop where
  fresh : ∀ p ∈ t.declared, ρ p.name ∉ t.names ∧ ρ p.name ∉ s.names
  distinct : ∀ p ∈ t.declared, ∀ q ∈ t.declared, ρ p.name = ρ q.name → p.name = q.name

/-- The bindings put `u` into the type. -/
def PutsIn (s : Subst) (t u : Ty) : Prop := ∃ name, Mentions name t ∧ s.get? name = some u

/-- No type inside declares a type parameter of the type again, and none that the bindings put in
does. -/
def Unshadowed (s : Subst) (t : Ty) : Prop :=
  ∀ p ∈ t.declared, (∀ q ∈ t.parts, ¬ Declares p.name q) ∧ ∀ u, PutsIn s t u → ¬ Declares p.name u

/-! ### Names that are exchanged -/

section Exchange

variable {ρ : String → String} {own : List String}

/-- Exchange names for other ones. -/
def exchange (ρ : String → String) (own : List String) (name : String) : String :=
  if name ∈ own then ρ name else (own.find? fun n => ρ n == name).getD name

lemma exchange_of_mem (hname : name ∈ own) : exchange ρ own name = ρ name := if_pos hname

lemma exchange_new (hdistinct : ∀ a ∈ own, ∀ b ∈ own, ρ a = ρ b → a = b) (hname : name ∈ own)
    (hnew : ρ name ∉ own) : exchange ρ own (ρ name) = name := by
  rw [exchange, if_neg hnew]
  cases hfound : own.find? fun n => ρ n == ρ name with
  | none => simpa using List.find?_eq_none.1 hfound name hname
  | some other =>
    have hsame : ρ other = ρ name := by simpa using List.find?_some hfound
    exact hdistinct other (List.mem_of_find?_eq_some hfound) name hname hsame

lemma exchange_of_not_mem (hname : name ∉ own) (hnew : ∀ n ∈ own, ρ n ≠ name) :
    exchange ρ own name = name := by
  have hnone : (own.find? fun n => ρ n == name) = none := by simpa using hnew
  rw [exchange, if_neg hname, hnone, Option.getD_none]

/-- To exchange names for new ones twice is to leave them. -/
lemma involutive_exchange (hdistinct : ∀ a ∈ own, ∀ b ∈ own, ρ a = ρ b → a = b)
    (hnew : ∀ n ∈ own, ρ n ∉ own) : Function.Involutive (exchange ρ own) := by
  intro name
  by_cases hname : name ∈ own
  · rw [exchange_of_mem hname, exchange_new hdistinct hname (hnew name hname)]
  · by_cases htarget : ∃ n ∈ own, ρ n = name
    · obtain ⟨n, hn, rfl⟩ := htarget
      rw [exchange_new hdistinct hn (hnew n hn), exchange_of_mem hn]
    · have hother : ∀ n ∈ own, ρ n ≠ name := by simpa using htarget
      rw [exchange_of_not_mem hname hother, exchange_of_not_mem hname hother]

end Exchange

section Own

variable {ρ : String → String} {π : Equiv.Perm String} {q u : Ty}

/-- A renaming to fresh names is part of a permutation that concerns no other names. -/
lemma GivesFresh.exists_perm (h : GivesFresh ρ s t) :
    ∃ π : Equiv.Perm String, Freshens π s t ∧ ∀ p ∈ t.declared, π p.name = ρ p.name := by
  have hdistinct : ∀ a ∈ t.declared.map TypeParam.name, ∀ b ∈ t.declared.map TypeParam.name,
      ρ a = ρ b → a = b :=
    List.forall_mem_map.2 fun p hp => List.forall_mem_map.2 fun q hq => h.distinct p hp q hq
  have hnew : ∀ n ∈ t.declared.map TypeParam.name, ρ n ∉ t.declared.map TypeParam.name :=
    List.forall_mem_map.2 fun p hp hmem => (h.fresh p hp).1 (mem_names_of_declared hmem)
  have hown (p : TypeParam) (hp : p ∈ t.declared) :
      exchange ρ (t.declared.map TypeParam.name) p.name = ρ p.name :=
    exchange_of_mem (List.mem_map_of_mem hp)
  refine ⟨(involutive_exchange hdistinct hnew).toPerm, ⟨fun p hp => ?_, fun name hname => ?_⟩, hown⟩
  · rw [Function.Involutive.coe_toPerm, hown p hp]
    exact h.fresh p hp
  · refine exchange_of_not_mem (fun hmem => ?_) (List.forall_mem_map.2 fun p hp heq => ?_)
    · obtain ⟨p, hp, rfl⟩ := List.mem_map.1 hmem
      exact (hname p hp).1 rfl
    · exact (hname p hp).2 ((hown p hp).trans heq).symm

/-- Where no type inside declares a type parameter again, all places are renamed. -/
lemma renameOwn_eq_rename (hnames : ∀ name ∈ t.names, only ρ t.declared name = π name)
    (hinner : ∀ p ∈ t.declared, ∀ q ∈ t.parts, ¬ Declares p.name q) :
    t.renameOwn ρ = t.rename π := by
  rw [renameOwn, rename_eq_mapParts]
  refine mapParts_congr (fun name hname => ?_) fun hkind q hq => ?_
  · exact hnames name (mem_names_iff.2 (hname.imp_right .inl))
  · have hfree : q.renameFree (only ρ t.declared) = q.rename (only ρ t.declared) := by
      refine renameFree_eq_rename fun name hname => if_neg fun hown => ?_
      obtain ⟨p, hp, rfl⟩ := List.mem_map.1 hown
      exact hinner p hp q hq hname
    rw [hfree]
    exact rename_congr fun name hname => hnames name (mem_names_of_part hkind hq hname)

/-! ### What is declared after a substitution -/

lemma Declares.of_orNull (h : Declares name t.orNull) : Declares name t := by
  unfold orNull at h
  split at h
  case h_3 =>
    cases h with
    | here h => exact absurd h List.not_mem_nil
    | inside _ hp h => exact List.mem_singleton.1 hp ▸ h
  all_goals exact h

lemma Declares.of_alternative (ht : u ∈ t.alternatives) (h : Declares name u) :
    Declares name t := by
  induction t using induction_on_parts with
  | step t ih =>
    obtain ⟨ms, rfl⟩ | hkind := t.union_or_kind_ne
    · obtain ⟨m, hm, hu⟩ := mem_allAlternatives_iff.1 ht
      exact .inside nofun hm (ih m hm hu)
    · rw [alternatives_eq_self hkind] at ht
      exact List.mem_singleton.1 ht ▸ h

lemma Declares.of_unionOf {ts : List Ty} (h : Declares name (unionOf ts)) :
    ∃ t ∈ ts, Declares name t := by
  by_contra hnone
  refine unionOf_of_alternatives (P := fun t => ¬ Declares name t) ?_ ?_ ?_ h
  · rintro (h | ⟨_, hp, _⟩)
    · exact List.not_mem_nil h
    · exact List.not_mem_nil hp
  · rintro ms hms (h | ⟨_, hp, h⟩)
    · exact List.not_mem_nil h
    · exact hms _ hp h
  · exact fun t ht a ha ha' => hnone ⟨t, ht, ha'.of_alternative ha⟩

lemma declared_substitute (hkind : t.kind = .function ∨ t.kind = .interface) :
    (t.substitute s).declared = t.declared := by
  cases t with
  | function sig => rw [substitute_function]; rfl
  | interface shape => rw [substitute_interface]; rfl
  | _ => simp [kind] at hkind

/-- The parts of a signature or a shape after a substitution. -/
lemma mem_parts_substitute (hkind : t.kind = .function ∨ t.kind = .interface)
    (hq : q ∈ (t.substitute s).parts) : q ∈ t.parts ∨ ∃ p ∈ t.replacedParts, ∃ s' : Subst,
      q = p.substitute s' ∧ ∀ n u, s'.get? n = some u → n ∉ t.ownNames ∧ s.get? n = some u := by
  cases t with
  | function sig =>
    rw [substitute_function] at hq
    obtain hq | hq : q ∈ sig.params.map (fun p => p.type.substitute (s.without sig.typeParams)) ++
        [sig.result.substitute (s.without sig.typeParams)] ∨
        q ∈ TypeParam.bounds sig.typeParams := by
      simpa [parts, Signature.retype, or_assoc] using hq
    · have hq : q ∈ (function sig).replacedParts.map fun p =>
          p.substitute (s.without sig.typeParams) := by
        simpa [replacedParts, openParts] using hq
      obtain ⟨p, hp, rfl⟩ := List.mem_map.1 hq
      refine .inr ⟨p, hp, _, rfl, fun n u hu => ?_⟩
      rw [Subst.get?_without] at hu
      split at hu
      case isTrue => cases hu
      case isFalse hown => exact ⟨hown, hu⟩
    · exact .inl (List.mem_append_right _ (List.mem_cons_of_mem _ hq))
  | interface shape =>
    rw [substitute_interface] at hq
    obtain hq | hq := List.mem_append.1 hq
    · have hq : q ∈ (interface shape).replacedParts.map fun p => p.substitute s := by
        rw [← Interface.replacedParts_retype]
        exact hq
      obtain ⟨p, hp, rfl⟩ := List.mem_map.1 hq
      exact .inr ⟨p, hp, s, rfl, fun n u hu => ⟨List.not_mem_nil, hu⟩⟩
    · exact .inl (List.mem_append_right _ hq)
  | _ => simp [kind] at hkind

lemma PutsIn.inside {p : Ty} {s' : Subst} (hp : p ∈ t.replacedParts) (h : PutsIn s' p u)
    (hs : ∀ n u, s'.get? n = some u → n ∉ t.ownNames ∧ s.get? n = some u) : PutsIn s t u := by
  obtain ⟨n, hn, hu⟩ := h
  obtain ⟨hown, hbound⟩ := hs n u hu
  exact ⟨n, .inside hp hown hn, hbound⟩

/-- What is declared in a part of a signature or a shape after a substitution was declared there
before, or in what is put in. -/
lemma Declares.of_part (hkind : t.kind = .function ∨ t.kind = .interface)
    (hparts : ∀ p ∈ t.replacedParts, ∀ s : Subst, Declares name (p.substitute s) →
      Declares name p ∨ ∃ u, PutsIn s p u ∧ Declares name u)
    (hq : q ∈ (t.substitute s).parts) (h : Declares name q) :
    (∃ p ∈ t.parts, Declares name p) ∨ ∃ u, PutsIn s t u ∧ Declares name u := by
  obtain hq | ⟨p, hp, s', rfl, hs⟩ := mem_parts_substitute hkind hq
  · exact .inl ⟨q, hq, h⟩
  · obtain h | ⟨u, hu, h⟩ := hparts p hp s' h
    · exact .inl ⟨p, mem_parts_of_mem_replacedParts hp, h⟩
    · exact .inr ⟨u, hu.inside hp hs, h⟩

/-- What is declared in a type after a substitution was declared there before, or in what is put
in. -/
lemma Declares.of_substitute (h : Declares name (t.substitute s)) :
    Declares name t ∨ ∃ u, PutsIn s t u ∧ Declares name u := by
  induction t using induction_on_parts generalizing s with
  | step t ih =>
    by_cases hs : s = []
    · subst hs
      exact .inl h
    have hpart (p : Ty) (hp : p ∈ t.replacedParts) (hown : t.ownNames = [])
        (h : Declares name (p.substitute s)) :
        Declares name t ∨ ∃ u, PutsIn s t u ∧ Declares name u := by
      obtain h | ⟨u, hu, h⟩ := ih p (mem_parts_of_mem_replacedParts hp) h
      · exact .inl (.inside (kind_ne_cls_of_mem hp) (mem_parts_of_mem_replacedParts hp) h)
      · exact .inr ⟨u, hu.inside hp fun n u hu => ⟨hown ▸ List.not_mem_nil, hu⟩, h⟩
    have hbinder (hkind : t.kind = .function ∨ t.kind = .interface) :
        Declares name t ∨ ∃ u, PutsIn s t u ∧ Declares name u := by
      cases h with
      | here h => exact .inl (.here (declared_substitute hkind ▸ h))
      | inside _ hq h =>
        have hpart := h.of_part hkind (fun p hp s => ih p (mem_parts_of_mem_replacedParts hp)) hq
        refine hpart.imp_left ?_
        rintro ⟨p, hp, h⟩
        refine .inside (fun hcls => ?_) hp h
        obtain hkind | hkind := hkind <;> cases hkind.symm.trans hcls
    cases t with
    | param n =>
      rw [substitute_param] at h
      cases hu : s.get? n with
      | none => exact .inl (by simpa [hu] using h)
      | some u => exact .inr ⟨u, ⟨n, .here, hu⟩, by simpa [hu] using h⟩
    | list t =>
      rw [substitute_list] at h
      rcases h with h | ⟨-, hp, h⟩
      · exact absurd h List.not_mem_nil
      · exact hpart t List.mem_cons_self rfl (List.mem_singleton.1 hp ▸ h)
    | map k v =>
      rw [substitute_map] at h
      rcases h with h | ⟨-, hp, h⟩
      · exact absurd h List.not_mem_nil
      · have hmap : _ ∈ [k, v].map fun t => t.substitute s := hp
        obtain ⟨p, hmem, rfl⟩ := List.mem_map.1 hmap
        exact hpart p hmem rfl h
    | nullable t =>
      rw [substitute_nullable_of_ne hs] at h
      exact hpart t List.mem_cons_self rfl h.of_orNull
    | future t =>
      rw [substitute_future] at h
      rcases h with h | ⟨-, hp, h⟩
      · exact absurd h List.not_mem_nil
      · exact hpart t List.mem_cons_self rfl (List.mem_singleton.1 hp ▸ h)
    | union ms =>
      rw [substitute_union_of_ne hs] at h
      obtain ⟨_, hp, h⟩ := h.of_unionOf
      obtain ⟨m, hm, rfl⟩ := List.mem_map.1 hp
      exact hpart m hm rfl h
    | generic base args =>
      rw [substitute_generic] at h
      rcases h with h | ⟨-, hp, h⟩
      · exact absurd h List.not_mem_nil
      · obtain rfl | hp := List.mem_cons.1 hp
        · exact .inl (.inside nofun List.mem_cons_self h)
        · obtain ⟨a, ha, rfl⟩ := List.mem_map.1 hp
          exact hpart a ha rfl h
    | function => exact hbinder (.inl rfl)
    | interface => exact hbinder (.inr rfl)
    | prim | cls | enum | ref => exact .inl (by simpa using h)

/-- Nothing inside of the type declares its type parameters again after the substitution. -/
lemma Unshadowed.substitute (h : Unshadowed s t)
    (hkind : t.kind = .function ∨ t.kind = .interface) :
    ∀ p ∈ (t.substitute s).declared, ∀ q ∈ (t.substitute s).parts, ¬ Declares p.name q := by
  rw [declared_substitute hkind]
  intro p hp q hq hdeclares
  obtain ⟨r, hr, hdeclares⟩ | ⟨u, hu, hdeclares⟩ :=
    hdeclares.of_part hkind (fun _ _ _ => Declares.of_substitute) hq
  · exact (h p hp).1 r hr hdeclares
  · exact (h p hp).2 u hu hdeclares

lemma Freshens.only_eq (h : Freshens π s t) (hown : ∀ p ∈ t.declared, π p.name = ρ p.name)
    (hname : name ∈ t.names ∨ name ∈ s.names) : only ρ t.declared name = π name := by
  unfold only
  split
  case isTrue hdeclared =>
    obtain ⟨p, hp, rfl⟩ := List.mem_map.1 hdeclared
    exact (hown p hp).symm
  case isFalse hother =>
    exact (h.eq_self hname fun p hp heq => hother (heq ▸ List.mem_map_of_mem hp)).symm

/-- Unless a type parameter is declared again inside, one permutation gives the type its new names
before the substitution and after it. -/
lemma GivesFresh.exists_rename (h : GivesFresh ρ s t) (hinner : Unshadowed s t)
    (hkind : t.kind = .function ∨ t.kind = .interface) :
    ∃ π : Equiv.Perm String, Freshens π s t ∧ t.renameOwn ρ = t.rename π ∧
      (t.substitute s).renameOwn ρ = (t.substitute s).rename π := by
  obtain ⟨π, hπ, hown⟩ := h.exists_perm
  refine ⟨π, hπ, ?_, ?_⟩
  · refine renameOwn_eq_rename (fun name hname => hπ.only_eq hown (.inl hname)) ?_
    exact fun p hp => (hinner p hp).1
  · refine renameOwn_eq_rename (fun name hname => ?_) (hinner.substitute hkind)
    rw [declared_substitute hkind]
    exact hπ.only_eq hown (mem_names_of_substitute hname)

end Own

/-- What the bindings say of declared type parameters makes no difference exactly if the type does
not mention these. -/
lemma equals_substitute_without_iff (ht : t.Canonical) :
    (∀ s : Subst, s.Canonical →
        (t.substitute s).equals (t.substitute (s.without t.declared)) = true) ↔
      ∀ p ∈ t.declared, ¬ Mentions p.name t := by
  constructor
  · intro h p hp hmentions
    obtain ⟨u, hu, hdiffers⟩ := exists_substitute_differs ht hmentions
    have hequal := h [(p.name, u)] (List.forall_mem_singleton.2 hu)
    have hnone : Subst.without [(p.name, u)] t.declared = [] := by
      have hdeclared : (t.declared.any fun q => q.name == p.name) = true :=
        List.any_eq_true.2 ⟨p, hp, beq_self_eq_true _⟩
      simp [Subst.without, hdeclared]
    rw [hnone, substitute_nil, hdiffers] at hequal
    cases hequal
  · intro h s hs
    have hsame : t.substitute s = t.substitute (s.without t.declared) := by
      refine substitute_congr ht fun name hname => ?_
      have hother : name ∉ t.declared.map TypeParam.name := by
        intro hdeclared
        obtain ⟨p, hp, rfl⟩ := List.mem_map.1 hdeclared
        exact h p hp hname
      rw [substitute_param, substitute_param, Subst.get?_without, if_neg hother]
    rw [← hsame]
    exact equals_refl (ht.substitute hs).proper

/-- Inside of a signature, what it declares is left alone. For a shape this holds exactly if it
does not mention what it declares. What is left alone may be given new names before the
substitution or after it, if no type parameter is captured; where one is, the two ways differ. No
type inside may declare the same again, unless it is given new names as well. -/
theorem binders_respected_unless_captured {t : Ty} (ht : t.Canonical) :
    (t.kind = .function → ∀ s : Subst, t.substitute s = t.substitute (s.without t.declared)) ∧
    (t.kind = .interface →
      ((∀ s : Subst, s.Canonical →
          (t.substitute s).equals (t.substitute (s.without t.declared)) = true) ↔
        ∀ p ∈ t.declared, ¬ Mentions p.name t)) ∧
    (t.kind = .function ∨ t.kind = .interface →
      ∀ (s : Subst) (ρ : String → String), s.Canonical → GivesFresh ρ s t → Unshadowed s t →
        (t.kind = .interface → LeavesOwn s t) →
          (CaptureFree s t → (t.substitute s).renameOwn ρ = (t.renameOwn ρ).substitute s) ∧
          (Captures s t →
            ((t.renameOwn ρ).substitute s).equals ((t.substitute s).renameOwn ρ) = false)) ∧
    ∀ (s : Subst) (ρ : Equiv.Perm String), s.Canonical → Freshens ρ s t →
      (t.kind = .interface → LeavesOwn s t) →
        (CaptureFree s t → (t.substitute s).rename ρ = (t.rename ρ).substitute s) ∧
        (Captures s t →
          ((t.rename ρ).substitute s).equals ((t.substitute s).rename ρ) = false) := by
  have hleaves (s : Subst) (hshape : t.kind = .interface → LeavesOwn s t) : LeavesOwn s t := by
    by_cases hkind : t.kind = .interface
    · exact hshape hkind
    · exact leavesOwn_of_kind hkind
  refine ⟨fun hkind s => ?_, fun _ => equals_substitute_without_iff ht, ?_, ?_⟩
  · cases t <;> cases hkind
    rw [substitute_function, substitute_function, declared, Subst.without_without]
  · intro hkind s ρ hs hρ hinner hshape
    obtain ⟨π, hπ, hbefore, hafter⟩ := hρ.exists_rename hinner hkind
    rw [hbefore, hafter]
    exact ⟨rename_substitute_of_captureFree ht hπ (hleaves s hshape),
      rename_substitute_differs ht hs hπ (hleaves s hshape)⟩
  · intro s ρ hs hρ hshape
    exact ⟨rename_substitute_of_captureFree ht hρ (hleaves s hshape),
      rename_substitute_differs ht hs hρ (hleaves s hshape)⟩

/-- A method of pairs that gives back its second argument, whose type is for the caller to say. -/
def second : Ty :=
  function ⟨[⟨"first", param "T"⟩, ⟨"second", param "U"⟩], param "U", false, [⟨"U", none⟩]⟩

lemma freshens_second (h : "V" ∉ s.names) : Freshens (Equiv.swap "U" "V") s second where
  fresh := List.forall_mem_singleton.2 ⟨by decide, h⟩
  others name hname :=
    have hown := hname ⟨"U", none⟩ List.mem_cons_self
    Equiv.swap_apply_of_ne_of_ne hown.1 (by simpa using hown.2)

lemma givesFresh_second (h : "V" ∉ s.names) : GivesFresh (fun _ => "V") s second where
  fresh := List.forall_mem_singleton.2 ⟨by decide, h⟩
  distinct := List.forall_mem_singleton.2 (List.forall_mem_singleton.2 fun _ => rfl)

lemma not_declares_param {other : String} : ¬ Declares name (param other) := by
  rintro (h | ⟨-, hp, -⟩)
  · exact List.not_mem_nil h
  · exact List.not_mem_nil hp

lemma unshadowed_second {u : Ty} (hu : ¬ Declares "U" u) : Unshadowed [("T", u)] second := by
  refine List.forall_mem_singleton.2 ⟨?_, ?_⟩
  · simp [second, parts, TypeParam.bounds, not_declares_param]
  · rintro _ ⟨name, -, hbound⟩
    obtain ⟨-, rfl⟩ : name = "T" ∧ _ = u := by simpa using Subst.mem_of_get? hbound
    exact hu

theorem second_renamed_unless_captured :
    second.Canonical ∧
    second.substitute [("U", int)] = second ∧
    (second.substitute [("T", int)]).renameOwn (fun _ => "V") =
      (second.renameOwn fun _ => "V").substitute [("T", int)] ∧
    ((second.renameOwn fun _ => "V").substitute [("T", list (param "U"))]).equals
      ((second.substitute [("T", list (param "U"))]).renameOwn fun _ => "V") = false ∧
    (second.substitute [("T", int)]).rename (Equiv.swap "U" "V") =
      (second.rename (Equiv.swap "U" "V")).substitute [("T", int)] ∧
    ((second.rename (Equiv.swap "U" "V")).substitute [("T", list (param "U"))]).equals
      ((second.substitute [("T", list (param "U"))]).rename (Equiv.swap "U" "V")) = false := by
  have ht : second.Canonical := by simp [second, TypeParam.bounds]
  obtain ⟨hsignature, -, hown, hrename⟩ := binders_respected_unless_captured ht
  have hshape (s : Subst) (hkind : second.kind = .interface) : LeavesOwn s second :=
    absurd hkind (by decide)
  have hint : Subst.Canonical [("T", int)] := List.forall_mem_singleton.2 (canonical_prim _)
  have hlist : Subst.Canonical [("T", list (param "U"))] :=
    List.forall_mem_singleton.2 (canonical_list.2 (canonical_param _))
  have hfree : CaptureFree [("T", int)] second := by
    intro name u _ hu p _
    obtain ⟨-, rfl⟩ : name = "T" ∧ u = int := by simpa using Subst.mem_of_get? hu
    exact List.not_mem_nil
  have hcaptures : Captures [("T", list (param "U"))] second :=
    ⟨"T", list (param "U"), .inside List.mem_cons_self (by decide) .here, rfl, ⟨"U", none⟩,
      List.mem_cons_self, .inside List.mem_cons_self .here⟩
  have hinner : Unshadowed [("T", int)] second := unshadowed_second <| by
    rintro (h | ⟨-, hp, -⟩)
    · exact List.not_mem_nil h
    · exact List.not_mem_nil hp
  have hinner' : Unshadowed [("T", list (param "U"))] second := unshadowed_second <| by
    rintro (h | ⟨-, hp, h⟩)
    · exact List.not_mem_nil h
    · exact not_declares_param (List.mem_singleton.1 hp ▸ h)
  refine ⟨ht, hsignature rfl _, ?_, ?_, ?_, ?_⟩
  · exact (hown (.inl rfl) _ _ hint (givesFresh_second (by decide)) hinner (hshape _)).1 hfree
  · exact (hown (.inl rfl) _ _ hlist (givesFresh_second (by decide)) hinner' (hshape _)).2 hcaptures
  · exact (hrename _ _ hint (freshens_second (by decide)) (hshape _)).1 hfree
  · exact (hrename _ _ hlist (freshens_second (by decide)) (hshape _)).2 hcaptures

/-- Takes one of two functions. The first declares again what is declared outside of it, and the
second takes what is declared outside. -/
def redeclaring : Ty :=
  function ⟨[⟨"f", union [
      function ⟨[⟨"x", param "U"⟩], param "T", false, [⟨"U", none⟩]⟩,
      function ⟨[⟨"x", param "U"⟩], int, false, [⟨"V", none⟩]⟩]⟩], void, false, [⟨"U", none⟩]⟩

/-- A shape does not hide the type parameter it declares, and a signature captures the one that
happens to have the name of its own. Where a type inside declares a name again, the substitution
can take it for the outer one without any capture. -/
theorem own_parameters_replaced_and_captured :
    ((interface ⟨"Box", [⟨"item", param "T", false⟩], [⟨"T", none⟩]⟩).substitute
        [("T", int)]).equals
      ((interface ⟨"Box", [⟨"item", param "T", false⟩], [⟨"T", none⟩]⟩).substitute
        (Subst.without [("T", int)] [⟨"T", none⟩])) = false ∧
    ((second.renameOwn fun _ => "V").substitute [("T", param "U")]).equals
      ((second.substitute [("T", param "U")]).renameOwn fun _ => "V") = false ∧
    ((redeclaring.renameOwn fun _ => "W").substitute [("T", int)]).equals
      ((redeclaring.substitute [("T", int)]).renameOwn fun _ => "W") = false :=
  ⟨rfl, rfl, rfl⟩

end TypedScript.Ty
