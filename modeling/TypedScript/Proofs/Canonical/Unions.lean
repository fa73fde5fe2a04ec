import TypedScript.Proofs.Canonical.Operations

/-!
# Unions up to equality

A union is made of its alternatives, and it does not matter in what order they are given,
how often, or how the unions around them were nested. Two unions are equal as soon as each
alternative of the one has an equal among those of the other.
-/
namespace TypedScript.Ty

variable {a b t : Ty} {ts us ms kept : List Ty}

/-! ## Alternatives -/

lemma mem_allAlternatives_iff : a ∈ allAlternatives ts ↔ ∃ t ∈ ts, a ∈ t.alternatives := by
  induction ts with
  | nil => simp [allAlternatives]
  | cons t ts ih => simp [allAlternatives, ih]

lemma alternatives_eq_self (h : t.kind ≠ .union) : t.alternatives = [t] := by
  cases t with
  | union ms => exact absurd rfl h
  | _ => rfl

lemma allAlternatives_eq_self (h : ∀ t ∈ ts, t.kind ≠ .union) : allAlternatives ts = ts := by
  induction ts with
  | nil => rfl
  | cons t ts ih =>
    obtain ⟨ht, hts⟩ := List.forall_mem_cons.1 h
    simp [allAlternatives, alternatives_eq_self ht, ih hts]

lemma alternatives_union (h : (union ms).Canonical) : (union ms).alternatives = ms :=
  allAlternatives_eq_self (canonical_union.1 h).1.2.1

lemma allDiffer_alternatives (h : t.Canonical) : AllDiffer t.alternatives := by
  obtain ⟨ms, rfl⟩ | hkind := t.union_or_kind_ne
  · rw [alternatives_union h]
    exact (canonical_union.1 h).1.2.2
  · rw [alternatives_eq_self hkind]
    exact List.pairwise_singleton _ _

/-- No type is all there is to a union. -/
lemma exists_mem_ne (h : (union ms).Canonical) (ht : t.equals t = true) : ∃ m ∈ ms, m ≠ t := by
  obtain ⟨hlen, -, hdiffer⟩ := (canonical_union.1 h).1
  rcases ms with _ | ⟨m, _ | ⟨n, rest⟩⟩
  · simp at hlen
  · simp at hlen
  · by_cases hm : m = t
    · refine ⟨n, by simp, ?_⟩
      rintro rfl
      have hequal := (List.pairwise_cons.1 hdiffer).1 n List.mem_cons_self
      rw [hm, ht] at hequal
      cases hequal
    · exact ⟨m, List.mem_cons_self, hm⟩

lemma alternatives_ne_nil (h : t.Canonical) : t.alternatives ≠ [] := by
  obtain ⟨ms, rfl⟩ | hkind := t.union_or_kind_ne
  · have hlen : 2 ≤ ms.length := (canonical_union.1 h).1.1
    rw [alternatives_union h]
    rintro rfl
    simp at hlen
  · simp [alternatives_eq_self hkind]

lemma allAlternatives_ne_nil (hts : ∀ t ∈ ts, t.Canonical) (hne : ts ≠ []) :
    allAlternatives ts ≠ [] := by
  obtain ⟨t, rest, rfl⟩ := List.exists_cons_of_ne_nil hne
  simp [allAlternatives, alternatives_ne_nil (hts t List.mem_cons_self)]

/-- Equal types have equal alternatives. -/
lemma covered_alternatives (ha : a.Canonical) (hb : b.Canonical) (h : a.equals b = true) :
    Covered a.alternatives b.alternatives := by
  by_cases hkind : a.kind = .union
  · cases matches_of_equals h with
    | union _ _ =>
      rw [alternatives_union ha, alternatives_union hb]
      exact ((equals_union_iff (fun _ => ha.proper.part) fun _ => hb.proper.part).1 h).2
    | _ => simp [kind] at hkind
  · have hkind' : b.kind ≠ .union := kind_eq_of_equals h ▸ hkind
    rw [alternatives_eq_self hkind, alternatives_eq_self hkind']
    simp [Covered, h]

/-! ## Distinct types -/

lemma mem_foldl_addDistinct (h : a ∈ kept) : a ∈ ts.foldl addDistinct kept := by
  induction ts generalizing kept with
  | nil => exact h
  | cons t ts ih =>
    apply ih
    unfold addDistinct
    split
    · exact h
    · exact List.mem_append_left _ h

/-- What is dropped has an equal among what is kept. -/
lemma exists_mem_foldl_addDistinct (hproper : ∀ t ∈ ts, t.Proper) (ha : a ∈ ts) :
    ∃ b ∈ ts.foldl addDistinct kept, b.equals a = true := by
  induction ts generalizing kept with
  | nil => exact absurd ha List.not_mem_nil
  | cons t ts ih =>
    obtain ⟨ht, hts⟩ := List.forall_mem_cons.1 hproper
    obtain rfl | ha := List.mem_cons.1 ha
    · have hkept : ∃ b ∈ addDistinct kept a, b.equals a = true := by
        unfold addDistinct
        split
        · rename_i hany
          exact List.any_eq_true.1 hany
        · exact ⟨a, List.mem_append_right _ List.mem_cons_self, equals_refl ht⟩
      obtain ⟨b, hb, hba⟩ := hkept
      have hb' : b ∈ ts.foldl addDistinct (addDistinct kept a) := mem_foldl_addDistinct hb
      exact ⟨b, hb', hba⟩
    · exact ih hts ha

lemma exists_mem_distinct (hproper : ∀ t ∈ ts, t.Proper) (ha : a ∈ ts) :
    ∃ b ∈ distinct ts, b.equals a = true :=
  exists_mem_foldl_addDistinct hproper ha

lemma foldl_addDistinct_eq_append (h : AllDiffer (kept ++ ts)) :
    ts.foldl addDistinct kept = kept ++ ts := by
  induction ts generalizing kept with
  | nil => simp
  | cons t ts ih =>
    have hnone : kept.any (fun s => s.equals t) = false := by
      rw [List.any_eq_false]
      intro s hs
      simpa using (List.pairwise_append.1 h).2.2 s hs t List.mem_cons_self
    have happend : kept ++ t :: ts = kept ++ [t] ++ ts := by simp
    rw [happend] at h ⊢
    rw [List.foldl_cons, addDistinct, hnone]
    exact ih h

/-- Types that differ are all kept. -/
lemma distinct_eq_self (h : AllDiffer ts) : distinct ts = ts := foldl_addDistinct_eq_append h

/-- Where types have equals in another list, what is kept of them has equals among what is kept
of the other list. -/
lemma Covered.distinct (hus : ∀ u ∈ us, u.Proper) (h : Covered ts us) :
    Covered (distinct ts) (distinct us) := by
  intro a ha
  obtain ⟨u, hu, hau⟩ := h a (mem_of_mem_distinct ha)
  obtain ⟨b, hb, hbu⟩ := exists_mem_distinct hus hu
  have hub := equals_symm (hus b (mem_of_mem_distinct hb)) (hus u hu) hbu
  exact ⟨b, hb, equals_trans hau hub⟩

/-- Types that have equals in another list are no more than those of that list, where equal ones
count once. -/
lemma length_distinct_le (hts : ∀ t ∈ ts, t.Proper) (hus : ∀ u ∈ us, u.Proper)
    (h : Covered ts us) : (distinct ts).length ≤ (distinct us).length := by
  have hsymm : ∀ a ∈ distinct ts, ∀ b ∈ distinct us, (a.equals b = true ↔ b.equals a = true) :=
    fun a ha b hb => equals_comm (hts a (mem_of_mem_distinct ha)) (hus b (mem_of_mem_distinct hb))
  have hpartner : ∀ a ∈ distinct ts, ∃ b ∈ distinct us, b.equals a = true := by
    intro a ha
    obtain ⟨b, hb, hab⟩ := h.distinct hus a ha
    exact ⟨b, hb, (hsymm a ha b hb).1 hab⟩
  exact length_le_of_partner hpartner
    (pairwise_share (allDiffer_distinct ts) fun a ha b hb => (hsymm a ha b hb).2)

/-! ## Making unions -/

/-- The union of the members of a union is that union. -/
lemma unionOf_members (h : (union ms).Canonical) : unionOf ms = union ms := by
  obtain ⟨⟨hlen, hflat, hdiffer⟩, -⟩ := canonical_union.1 h
  unfold unionOf
  rw [allAlternatives_eq_self hflat, distinct_eq_self hdiffer]
  rcases ms with _ | ⟨m, _ | ⟨n, ms⟩⟩
  · simp at hlen
  · simp at hlen
  · rfl

/-- The union of a single type is that type. -/
lemma unionOf_singleton (h : t.Canonical) : unionOf [t] = t := by
  obtain ⟨ms, rfl⟩ | hkind := t.union_or_kind_ne
  · have hflat : allAlternatives [union ms] = allAlternatives ms := by
      simp [allAlternatives, alternatives]
    rw [unionOf, hflat]
    exact unionOf_members h
  · simp [unionOf, allAlternatives, alternatives_eq_self hkind, distinct, addDistinct]

/-- What holds of a union if it holds of the members holds of the union that is made of some
types if it holds of their alternatives. -/
lemma unionOf_of_alternatives {P : Ty → Prop} (hunknown : P unknown)
    (hunion : ∀ ms, (∀ m ∈ ms, P m) → P (union ms))
    (h : ∀ t ∈ ts, ∀ a ∈ t.alternatives, P a) : P (unionOf ts) := by
  have hmembers : ∀ m ∈ distinct (allAlternatives ts), P m := by
    intro m hm
    obtain ⟨t, ht, hmt⟩ := mem_allAlternatives_iff.1 (mem_of_mem_distinct hm)
    exact h t ht m hmt
  unfold unionOf
  split
  · exact hunknown
  · rename_i t hone
    exact hmembers t (hone ▸ List.mem_cons_self)
  · exact hunion _ hmembers

/-- The alternatives of a union are those of its members, an equal one for each. -/
lemma alternatives_unionOf (h : allAlternatives ts ≠ []) :
    (unionOf ts).alternatives = distinct (allAlternatives ts) := by
  have hflat : ∀ a ∈ distinct (allAlternatives ts), a.kind ≠ .union :=
    fun a ha => kind_of_mem_allAlternatives ts a (mem_of_mem_distinct ha)
  unfold unionOf
  split
  · rename_i hnone
    obtain ⟨a, rest, heq⟩ := List.exists_cons_of_ne_nil h
    have ha : a ∈ distinct (allAlternatives ts) := by
      rw [heq, distinct, List.foldl_cons]
      exact mem_foldl_addDistinct (by simp [addDistinct])
    simp [hnone] at ha
  · rename_i a hone
    rw [hone] at hflat ⊢
    exact alternatives_eq_self (hflat a List.mem_cons_self)
  · exact allAlternatives_eq_self hflat

/-- Unions whose alternatives have equals among those of the other are equal. -/
theorem equals_unionOf (hts : ∀ t ∈ ts, t.Canonical) (hus : ∀ u ∈ us, u.Canonical)
    (htu : Covered (allAlternatives ts) (allAlternatives us))
    (hut : Covered (allAlternatives us) (allAlternatives ts)) :
    (unionOf ts).equals (unionOf us) = true := by
  have hproper {ts : List Ty} (hts : ∀ t ∈ ts, t.Canonical) :
      ∀ a ∈ allAlternatives ts, a.Proper :=
    fun a ha => (canonical_allAlternatives ts hts a ha).proper
  have hlen := Nat.le_antisymm (length_distinct_le (hproper hts) (hproper hus) htu)
    (length_distinct_le (hproper hus) (hproper hts) hut)
  have hcover := htu.distinct (hproper hus)
  have has : ∀ a ∈ distinct (allAlternatives ts), a.Proper :=
    fun a ha => hproper hts a (mem_of_mem_distinct ha)
  have hbs : ∀ b ∈ distinct (allAlternatives us), b.Proper :=
    fun b hb => hproper hus b (mem_of_mem_distinct hb)
  unfold unionOf
  generalize distinct (allAlternatives ts) = as at hlen hcover has ⊢
  generalize distinct (allAlternatives us) = bs at hlen hcover hbs ⊢
  rcases as with _ | ⟨a, _ | ⟨a', as⟩⟩
  · obtain rfl : bs = [] := List.length_eq_zero_iff.1 hlen.symm
    rfl
  · obtain ⟨b, rfl⟩ := List.length_eq_one_iff.1 hlen.symm
    simpa [Covered] using hcover
  · rcases bs with _ | ⟨b, _ | ⟨b', bs⟩⟩
    · simp at hlen
    · simp at hlen
    · exact (equals_union_iff has hbs).2 ⟨hlen, hcover⟩

/-- Types that have equals in another list have their alternatives there. -/
lemma Covered.allAlternatives (hts : ∀ t ∈ ts, t.Canonical) (hus : ∀ u ∈ us, u.Canonical)
    (h : Covered ts us) : Covered (allAlternatives ts) (allAlternatives us) := by
  intro a ha
  obtain ⟨t, ht, hat⟩ := mem_allAlternatives_iff.1 ha
  obtain ⟨u, hu, htu⟩ := h t ht
  obtain ⟨b, hb, hab⟩ := covered_alternatives (hts t ht) (hus u hu) htu a hat
  exact ⟨b, mem_allAlternatives_iff.2 ⟨u, hu, hb⟩, hab⟩

lemma covered_of_forall₂ (h : List.Forall₂ (fun t u => t.equals u = true) ts us) :
    Covered ts us := by
  induction h with
  | nil => exact List.forall_mem_nil _
  | @cons t u ts us htu _ ih =>
    intro a ha
    obtain rfl | ha := List.mem_cons.1 ha
    · exact ⟨u, List.mem_cons_self, htu⟩
    · obtain ⟨b, hb, hab⟩ := ih a ha
      exact ⟨b, List.mem_cons_of_mem _ hb, hab⟩

/-- Unions of equal types are equal. -/
lemma equals_unionOf_of_forall₂ (hts : ∀ t ∈ ts, t.Canonical) (hus : ∀ u ∈ us, u.Canonical)
    (h : List.Forall₂ (fun t u => t.equals u = true) ts us) :
    (unionOf ts).equals (unionOf us) = true := by
  have hut := covered_of_forall₂ (forall₂_turn h fun t ht u hu =>
    equals_symm (hts t ht).proper (hus u hu).proper)
  exact equals_unionOf hts hus ((covered_of_forall₂ h).allAlternatives hts hus)
    (hut.allAlternatives hus hts)

/-! ## Making nullables -/

lemma orNull_of_canonical (h : (nullable t).Canonical) : t.orNull = nullable t := by
  obtain ⟨⟨hnull, hnullable⟩, -⟩ := canonical_nullable.1 h
  cases t with
  | prim p => cases p <;> simp_all [orNull, isNull, isPrim]
  | nullable a => exact absurd rfl hnullable
  | _ => rfl

lemma orNull_orNull (t : Ty) : t.orNull.orNull = t.orNull := by
  cases t with
  | prim p => cases p <;> rfl
  | _ => rfl

/-- An operation that makes nullables anew goes through the making of a nullable. -/
lemma become_orNull (become : Ty → Ty) (hnull : become null = null)
    (hnullable : ∀ t, (nullable t).Canonical → become (nullable t) = (become t).orNull)
    (ht : t.Canonical) : become t.orNull = (become t).orNull := by
  have hcanonical := ht.orNull
  unfold orNull at hcanonical
  split at hcanonical
  · rename_i t
    change become (nullable t) = (become (nullable t)).orNull
    rw [hnullable t ht, orNull_orNull]
  · change become null = (become null).orNull
    rw [hnull]
    rfl
  · rw [orNull_of_canonical hcanonical]
    exact hnullable _ hcanonical

lemma equals_orNull (h : a.equals b = true) : a.orNull.equals b.orNull = true := by
  cases matches_of_equals h with
  | prim p => cases p <;> rfl
  | nullable hab => exact h
  | _ => exact equals_iff.2 (.nullable h)

end TypedScript.Ty
