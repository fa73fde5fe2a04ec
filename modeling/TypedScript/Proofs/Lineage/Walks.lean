import Mathlib.Data.List.Nodup
import Mathlib.Data.List.Perm.Subperm
import Mathlib.Tactic.Common
import TypedScript.Checking.Lineage

/-!
# Walks up a lineage

A walk reads each class anew by its name and goes on to the superclass of what it read.
Where it goes next depends on the class it is at and on nothing else, so a walk that ends
never comes to the same class twice. All classes that it can come to are snapshots held by
the class it starts from or by a class in force; there are no more of them than the limit
of a lineage says, and so the search tells a walk without end exactly.
-/
namespace TypedScript

namespace Scopes

variable {s : Scopes} {c d p : Class} {ps qs : List Class} {α : Type}

/-- The walk from a class goes through these classes and ends. -/
inductive Trail (s : Scopes) : Class → List Class → Prop
  | last {c : Class} : (s.refresh c).parent = none → Trail s c [c]
  | step {c p : Class} {ps : List Class} :
      (s.refresh c).parent = some p → Trail s p ps → Trail s c (c :: ps)

/-- The walk from a class ends. -/
def Ends (s : Scopes) (c : Class) : Prop := ∃ ps, s.Trail c ps

lemma Ends.last (h : (s.refresh c).parent = none) : s.Ends c := ⟨_, .last h⟩

lemma Ends.step (h : (s.refresh c).parent = some p) (hp : s.Ends p) : s.Ends c := by
  obtain ⟨ps, hps⟩ := hp
  exact ⟨_, .step h hps⟩

lemma Trail.unique (hp : s.Trail c ps) (hq : s.Trail c qs) : ps = qs := by
  induction hp generalizing qs with
  | last h =>
    cases hq with
    | last => rfl
    | step h' => simp [h] at h'
  | step h _ ih =>
    cases hq with
    | last h' => simp [h] at h'
    | step h' hq =>
      obtain rfl := Option.some.inj (h.symm.trans h')
      rw [ih hq]

/-- From every class on a trail the rest of it leads to the end. -/
lemma Trail.rest (hc : s.Trail c ps) (hd : d ∈ ps) :
    ∃ qs, s.Trail d qs ∧ qs.length ≤ ps.length := by
  induction hc with
  | last h =>
    obtain rfl := List.mem_singleton.1 hd
    exact ⟨_, .last h, Nat.le_refl _⟩
  | step h hp ih =>
    obtain rfl | hd := List.mem_cons.1 hd
    · exact ⟨_, .step h hp, Nat.le_refl _⟩
    · obtain ⟨qs, hqs, hlen⟩ := ih hd
      exact ⟨qs, hqs, Nat.le_succ_of_le hlen⟩

/-- A walk that ends never comes to the same class twice. -/
lemma Trail.nodup (hc : s.Trail c ps) : ps.Nodup := by
  induction hc with
  | last => exact List.nodup_singleton _
  | @step c p ps h hp ih =>
    refine List.nodup_cons.2 ⟨fun hmem => ?_, ih⟩
    obtain ⟨qs, hqs, hlen⟩ := hp.rest hmem
    have hlong := hqs.unique (.step h hp)
    rw [hlong, List.length_cons] at hlen
    omega

end Scopes

/-! ## Snapshots in sight -/

namespace Class

lemma chain_eq (c : Class) : c.chain = c :: Class.parentChain c.parent := by
  cases c
  rfl

lemma mem_chain_self (c : Class) : c ∈ c.chain := by
  rw [c.chain_eq]
  exact List.mem_cons_self

lemma mem_parentChain {parent : Option Class} {p : Class} (h : parent = some p) :
    p ∈ parentChain parent := by
  subst h
  exact p.mem_chain_self

mutual

/-- With a class, its superclass is among the snapshots. -/
lemma parent_mem_chain {d p : Class} (hp : d.parent = some p) :
    (c : Class) → d ∈ c.chain → p ∈ c.chain
  | ⟨name, parent, properties, methods, ctor, typeParams, isAbstract⟩ => fun hd => by
    have hrest := parent_mem_parentChain hp parent
    rw [chain_eq] at hd ⊢
    obtain rfl | hd := List.mem_cons.1 hd
    · exact List.mem_cons_of_mem _ (mem_parentChain hp)
    · exact List.mem_cons_of_mem _ (hrest hd)
termination_by structural c => c

lemma parent_mem_parentChain {d p : Class} (hp : d.parent = some p) :
    (c : Option Class) → d ∈ parentChain c → p ∈ parentChain c
  | none => fun hd => nomatch hd
  | some c => parent_mem_chain hp c
termination_by structural c => c

end

end Class

namespace Scopes

variable {s : Scopes} {c d p : Class} {ps : List Class} {α : Type}

lemma lookup?_mem {name : String} {x : Symbol} (h : s.lookup? name = some x) :
    x ∈ s.chain.flatten ∧ x.name = name := by
  obtain ⟨scope, hscope, hx⟩ := List.exists_of_findSome?_eq_some h
  exact ⟨List.mem_flatten.2 ⟨scope, hscope, List.mem_of_find?_eq_some hx⟩,
    by simpa using List.find?_some hx⟩

/-- A class that a name means is held by a symbol in force. -/
lemma classNamed?_eq_some {name : String} (h : s.classNamed? name = some c) :
    ∃ x, s.lookup? name = some x ∧ x.kind = .cls ∧ x.type = some (.cls c) := by
  unfold classNamed? at h
  cases hlookup : s.lookup? name with
  | none => simp [hlookup] at h
  | some x =>
    rw [hlookup] at h
    dsimp only at h
    split at h
    case isFalse => simp at h
    case isTrue hkind => exact ⟨x, rfl, hkind, Ty.bind_class?_eq_some.1 h⟩

/-- Reading a class anew gives the class itself or one that is held by a symbol in force. -/
lemma refresh_cases (s : Scopes) (c : Class) : s.classNamed? c.name = none ∧ s.refresh c = c ∨
    ∃ x, s.lookup? c.name = some x ∧ x.kind = .cls ∧ x.type = some (.cls (s.refresh c)) := by
  unfold refresh
  cases h : s.classNamed? c.name with
  | none => exact .inl ⟨rfl, rfl⟩
  | some d => exact .inr (classNamed?_eq_some h)

lemma mem_inSight_of_parent (hp : d.parent = some p) (hd : d ∈ s.inSight c) :
    p ∈ s.inSight c := by
  obtain hd | hd := List.mem_append.1 hd
  · exact List.mem_append_left _ (Class.parent_mem_chain hp c hd)
  · obtain ⟨x, hx, hd⟩ := List.mem_flatMap.1 hd
    refine List.mem_append_right _ (List.mem_flatMap.2 ⟨x, hx, ?_⟩)
    unfold Symbol.snapshots at hd ⊢
    split at hd
    · exact Class.parent_mem_chain hp _ hd
    · exact absurd hd List.not_mem_nil

lemma refresh_mem_inSight (hd : d ∈ s.inSight c) : s.refresh d ∈ s.inSight c := by
  obtain ⟨-, heq⟩ | ⟨x, hlookup, -, htype⟩ := s.refresh_cases d
  · rw [heq]
    exact hd
  · refine List.mem_append_right _ (List.mem_flatMap.2 ⟨x, (lookup?_mem hlookup).1, ?_⟩)
    unfold Symbol.snapshots
    rw [htype]
    exact Class.mem_chain_self _

/-- A walk stays among the snapshots in sight. -/
lemma Trail.subset_inSight (hd : s.Trail d ps) (hmem : d ∈ s.inSight c) : ps ⊆ s.inSight c := by
  induction hd with
  | last => exact List.cons_subset.2 ⟨hmem, List.nil_subset _⟩
  | step hp _ ih =>
    have hparent := mem_inSight_of_parent hp (refresh_mem_inSight hmem)
    exact List.cons_subset.2 ⟨hmem, ih hparent⟩

/-! ## What a walk finds -/

lemma findSome?_of_nearest {answer? : Class → Option α} {a : α}
    (h : s.nearest c answer? = .found a) : (s.lineage c).findSome? answer? = some a := by
  unfold nearest at h
  split at h
  · rename_i hfound
    cases h
    exact hfound
  · split at h <;> cases h

/-- A lineage begins with the class as it is defined now. -/
lemma exists_lineage_eq_cons (s : Scopes) (c : Class) :
    ∃ rest, s.lineage c = s.refresh c :: rest := by
  have hlimit : s.lineageLimit c = (s.lineageLimit c - 1) + 1 := by
    simp only [lineageLimit, inSight, c.chain_eq, List.length_append, List.length_cons]
    omega
  rw [lineage, hlimit, lineageWithin]
  cases (s.refresh c).parent with
  | none => exact ⟨[], rfl⟩
  | some p => exact ⟨_, rfl⟩

/-! ## The search for an end -/

lemma endsWithin_of_trail (hc : s.Trail c ps) : ∀ {limit}, ps.length ≤ limit →
    s.endsWithin limit c = true := by
  induction hc with
  | last h =>
    intro limit hlimit
    obtain ⟨limit, rfl⟩ := Nat.exists_eq_add_of_le' hlimit
    simp [endsWithin, h]
  | step h _ ih =>
    intro limit hlimit
    have hpositive : limit ≠ 0 := by
      rintro rfl
      simp at hlimit
    obtain ⟨limit, rfl⟩ := Nat.exists_eq_succ_of_ne_zero hpositive
    simp only [endsWithin, h]
    exact ih (by simpa using hlimit)

lemma ends_of_endsWithin : ∀ {limit c}, s.endsWithin limit c = true → s.Ends c := by
  intro limit
  induction limit with
  | zero =>
    intro c h
    simp [endsWithin] at h
  | succ limit ih =>
    intro c h
    unfold endsWithin at h
    cases hp : (s.refresh c).parent with
    | none => exact .last hp
    | some p =>
      rw [hp] at h
      exact .step hp (ih h)

/-- The search tells exactly whether the walk from a class ends. -/
theorem hasEnd_iff : s.hasEnd c = true ↔ s.Ends c := by
  refine ⟨ends_of_endsWithin, ?_⟩
  rintro ⟨ps, hps⟩
  have hsubset : ps ⊆ s.inSight c :=
    hps.subset_inSight (List.mem_append_left _ c.mem_chain_self)
  have hlen : ps.length ≤ s.lineageLimit c := (List.subperm_of_subset hps.nodup hsubset).length_le
  exact endsWithin_of_trail hps hlen

lemma Ends.nearest_ne (hc : s.Ends c) (answer? : Class → Option α) :
    s.nearest c answer? ≠ .endless := by
  unfold nearest
  rw [hasEnd_iff.2 hc]
  split <;> simp

end Scopes

end TypedScript
