import TypedScript.Proofs.Lineage.Outline

/-!
# Classes in layers

Declared classes lie in layers: the superclasses behind a class were declared before it, in
the same scope or in one around it. A walk goes down by layers as long as the classes in
force that share a name also share the name of their superclass. Then it does not matter
which of them the walk comes to, nor that it stays with a snapshot where a symbol that is
no class hides the name.

Declaring a class puts it above the layers that are there, and entering and leaving scopes
keeps them.
-/
namespace TypedScript

namespace Heading

/-- A class goes by the name of its symbol, and the superclasses behind it belong to class
symbols among `below` that were declared earlier. -/
def Founded (below : List Heading) (x : Heading) : Prop :=
  x.kind = .cls → ∀ h, x.heritage? = some h → h.name = x.name ∧
    ∀ p ∈ Class.parentChain h.parent,
      ∃ z ∈ below, z.kind = .cls ∧ z.heritage? = some p.heritage ∧ z.id < x.id

lemma Founded.mono {below more : List Heading} {x : Heading} (hx : x.Founded below)
    (hsub : below ⊆ more) : x.Founded more := by
  intro hkind h hh
  obtain ⟨hname, hparents⟩ := hx hkind h hh
  refine ⟨hname, fun p hp => ?_⟩
  obtain ⟨z, hz, hbefore⟩ := hparents p hp
  exact ⟨z, hsub hz, hbefore⟩

/-- The name of the superclass of the class that a symbol holds. -/
def parentName? (x : Heading) : Option String :=
  (x.heritage?.bind Heritage.parent).map Class.name

end Heading

/-- The class symbols of each scope are founded on that scope and the scopes around it. -/
def Layered : List (List Heading) → Prop
  | [] => True
  | scope :: outer => (∀ x ∈ scope, x.Founded (scope :: outer).flatten) ∧ Layered outer

namespace Layered

variable {chain outer : List (List Heading)} {scope more : List Heading}

lemma founded (h : Layered chain) : ∀ x ∈ chain.flatten, x.Founded chain.flatten := by
  induction chain with
  | nil => exact fun x hx => absurd hx List.not_mem_nil
  | cons scope outer ih =>
    intro x hx
    rw [List.flatten_cons] at hx ⊢
    obtain hx | hx := List.mem_append.1 hx
    · exact h.1 x hx
    · exact (ih h.2 x hx).mono (List.subset_append_right _ _)

/-- More may stand in the outermost scope. -/
lemma widen (h : Layered (chain ++ [scope])) (hmore : Layered [more]) (hsub : scope ⊆ more) :
    Layered (chain ++ [more]) := by
  induction chain with
  | nil => exact hmore
  | cons inner chain ih =>
    have hflatten : ((inner :: chain) ++ [scope]).flatten ⊆
        ((inner :: chain) ++ [more]).flatten := by
      rw [List.flatten_append, List.flatten_append, List.flatten_singleton, List.flatten_singleton]
      exact List.append_subset.2 ⟨List.subset_append_left _ _,
        List.Subset.trans hsub (List.subset_append_right _ _)⟩
    exact ⟨fun x hx => (h.1 x hx).mono hflatten, ih h.2⟩

lemma outermost (h : Layered (chain ++ [scope])) : Layered [scope] := by
  induction chain with
  | nil => exact h
  | cons inner chain ih => exact ih h.2

/-- A class may be declared on top, where its superclass is in force. -/
lemma declare {x : Heading} (h : Layered (scope :: outer))
    (hid : ∀ y ∈ (scope :: outer).flatten, y.id < x.id)
    (hx : x.kind = .cls → ∀ h, x.heritage? = some h → h.name = x.name ∧ ∀ p, h.parent = some p →
      ∃ y ∈ (scope :: outer).flatten, y.kind = .cls ∧ y.heritage? = some p.heritage) :
    Layered ((scope ++ [x]) :: outer) := by
  have hsub : (scope :: outer).flatten ⊆ ((scope ++ [x]) :: outer).flatten := by
    simp only [List.flatten_cons]
    exact List.append_subset.2 ⟨by simp, by simp⟩
  refine ⟨fun y hy => ?_, h.2⟩
  obtain hy | hy := List.mem_append.1 hy
  · exact (h.1 y hy).mono hsub
  · obtain rfl := List.mem_singleton.1 hy
    intro hkind b hb
    obtain ⟨hname, hparent⟩ := hx hkind b hb
    refine ⟨hname, fun p hp => ?_⟩
    cases hq : b.parent with
    | none =>
      rw [hq] at hp
      exact absurd hp List.not_mem_nil
    | some q =>
      rw [hq] at hp
      obtain ⟨z, hz, hzkind, hzheritage⟩ := hparent q hq
      have hchain : p ∈ q :: Class.parentChain q.parent := q.chain_eq ▸ hp
      obtain rfl | hp := List.mem_cons.1 hchain
      · exact ⟨z, hsub hz, hzkind, hzheritage, hid z hz⟩
      · -- The rest of the chain lies below the superclass already.
        obtain ⟨w, hw, hwkind, hwheritage, hlt⟩ := (h.founded z hz hzkind _ hzheritage).2 p hp
        exact ⟨w, hsub hw, hwkind, hwheritage, Nat.lt_trans hlt (hid z hz)⟩

end Layered

/-! ## Walks through layers -/

lemma Class.sizeOf_parent_lt {c p : Class} (h : c.parent = some p) : sizeOf p < sizeOf c := by
  cases c
  obtain rfl := h
  simp only [Class.mk.sizeOf_spec, Option.some.sizeOf_spec]
  omega

namespace Scopes

variable {s : Scopes} {c p : Class}

/-- Classes in force that share their name have superclasses that share theirs, or none. -/
def ParentsAgree (s : Scopes) : Prop :=
  ∀ x ∈ s.outline.chain.flatten, ∀ y ∈ s.outline.chain.flatten, x.kind = .cls → y.kind = .cls →
    x.name = y.name → x.parentName? = y.parentName?

instance : Decidable s.ParentsAgree :=
  inferInstanceAs (Decidable (∀ x ∈ s.outline.chain.flatten, ∀ y ∈ s.outline.chain.flatten,
    x.kind = .cls → y.kind = .cls → x.name = y.name → x.parentName? = y.parentName?))

lemma heading_mem_chain {x : Symbol} (hx : x ∈ s.chain.flatten) :
    x.heading ∈ s.outline.chain.flatten := by
  rw [chain_outline, ← List.map_flatten]
  exact List.mem_map_of_mem hx

/-- What the name of a class means, where it means a class. -/
lemma refresh_heading (s : Scopes) (c : Class) : s.refresh c = c ∨
    ∃ x ∈ s.outline.chain.flatten, x.kind = .cls ∧ x.name = c.name ∧
      x.heritage? = some (s.refresh c).heritage := by
  obtain ⟨-, heq⟩ | ⟨x, hlookup, hkind, htype⟩ := s.refresh_cases c
  · exact .inl heq
  · obtain ⟨hx, hname⟩ := lookup?_mem hlookup
    refine .inr ⟨x.heading, heading_mem_chain hx, hkind, hname, ?_⟩
    simp [Symbol.heading, Symbol.heritage?, htype, Ty.heritage?]

/-- The walk ends from every snapshot of a class in force. Each step leads to a class whose
name was declared earlier. -/
lemma ends_of_snapshot (hlayers : Layered s.outline.chain) (hagree : s.ParentsAgree)
    (bound : SymbolId) : ∀ p,
      (∃ w ∈ s.outline.chain.flatten, w.kind = .cls ∧ w.name = p.name ∧ w.id < bound) →
      (∃ z ∈ s.outline.chain.flatten, z.kind = .cls ∧ z.heritage? = some p.heritage) →
      s.Ends p := by
  induction bound with
  | zero => exact fun p ⟨_, _, _, _, hid⟩ => absurd hid (Nat.not_lt_zero _)
  | succ bound ih =>
    rintro p ⟨w, hw, hwkind, hwname, hid⟩ ⟨z, hz, hzkind, hzheritage⟩
    have hname {x : Heading} (hx : x ∈ s.outline.chain.flatten) (hkind : x.kind = .cls)
        {h : Heritage} (hh : x.heritage? = some h) : x.name = h.name :=
      (hlayers.founded x hx hkind h hh).1.symm
    -- The class that the walk reads is held by a symbol of the name of `p`.
    obtain ⟨y, hy, hykind, hyname, hyheritage⟩ : ∃ y ∈ s.outline.chain.flatten, y.kind = .cls ∧
        y.name = p.name ∧ y.heritage? = some (s.refresh p).heritage := by
      obtain heq | hfound := s.refresh_heading p
      · exact ⟨z, hz, hzkind, hname hz hzkind hzheritage, heq.symm ▸ hzheritage⟩
      · exact hfound
    cases hparent : (s.refresh p).parent with
    | none => exact .last hparent
    | some q =>
      have hyparent : y.parentName? = some q.name := by
        simp [Heading.parentName?, hyheritage, Class.heritage, hparent]
      have hwparent := (hagree w hw y hy hwkind hykind (hwname.trans hyname.symm)).trans hyparent
      obtain ⟨q', hq', hqname⟩ := Option.map_eq_some_iff.1 hwparent
      obtain ⟨h, hh, hhparent⟩ := Option.bind_eq_some_iff.1 hq'
      -- The symbol of lower number is the one behind `w`, the snapshot is one behind `y`.
      obtain ⟨v, hv, hvkind, hvheritage, hvid⟩ :=
        (hlayers.founded w hw hwkind h hh).2 q' (Class.mem_parentChain hhparent)
      obtain ⟨u, hu, hukind, huheritage, -⟩ :=
        (hlayers.founded y hy hykind _ hyheritage).2 q (Class.mem_parentChain hparent)
      have hvname : v.name = q.name := (hname hv hvkind hvheritage).trans hqname
      have hbelow : v.id < bound := Nat.lt_of_lt_of_le hvid (Nat.le_of_lt_succ hid)
      exact .step hparent (ih q ⟨v, hv, hvkind, hvname, hbelow⟩ ⟨u, hu, hukind, huheritage⟩)

end Scopes

/-- In layers whose superclasses agree every walk ends. -/
theorem Layered.ends {s : Scopes} (hlayers : Layered s.outline.chain) (hagree : s.ParentsAgree)
    (c : Class) : s.Ends c := by
  induction hsize : sizeOf c using Nat.strongRecOn generalizing c with
  | ind size ih =>
    subst hsize
    cases hparent : (s.refresh c).parent with
    | none => exact .last hparent
    | some p =>
      refine .step hparent ?_
      obtain heq | ⟨x, hx, hkind, -, hheritage⟩ := s.refresh_heading c
      · rw [heq] at hparent
        exact ih (sizeOf p) (Class.sizeOf_parent_lt hparent) p rfl
      · obtain ⟨z, hz, hzkind, hzheritage, -⟩ :=
          (hlayers.founded x hx hkind _ hheritage).2 p (Class.mem_parentChain hparent)
        have hname : z.name = p.name := (hlayers.founded z hz hzkind _ hzheritage).1.symm
        exact s.ends_of_snapshot hlayers hagree (z.id + 1) p
          ⟨z, hz, hzkind, hname, Nat.lt_succ_self _⟩ ⟨z, hz, hzkind, hzheritage⟩

/-! ## Outlines that grow -/

namespace Outline

variable {o u w : Outline} {x : Heading}

/-- The outline `u` comes after `o` with the same scopes in force. Headings are added to the
innermost scope of `o`, to the global one and to new scopes only, in layers and under new
numbers. -/
structure Grows (o u : Outline) : Prop where
  orderly : u.Orderly
  locals : u.locals = o.locals
  size : o.size ≤ u.size
  kept : ∀ i, o.headings i ⊆ u.headings i
  still : ∀ i, i < o.size → o.current ≠ some i → u.headings (some i) = o.headings (some i)
  layered : Layered o.chain → Layered u.chain
  nextId : o.nextId ≤ u.nextId
  fresh : ∀ i, ∀ x ∈ u.headings i, x ∈ o.headings i ∨ o.nextId ≤ x.id

namespace Grows

lemma refl (ho : o.Orderly) : o.Grows o :=
  ⟨ho, rfl, Nat.le_refl _, fun _ => List.Subset.refl _, fun _ _ _ => rfl, id, Nat.le_refl _,
    fun _ _ hx => .inl hx⟩

lemma trans (h : o.Grows u) (k : u.Grows w) : o.Grows w where
  orderly := k.orderly
  locals := k.locals.trans h.locals
  size := Nat.le_trans h.size k.size
  kept i := List.Subset.trans (h.kept i) (k.kept i)
  still i hi hne := by
    have hcurrent : u.current = o.current := congrArg List.head? h.locals
    rw [k.still i (Nat.lt_of_lt_of_le hi h.size) (hcurrent ▸ hne), h.still i hi hne]
  layered := k.layered ∘ h.layered
  nextId := Nat.le_trans h.nextId k.nextId
  fresh i x hx := by
    obtain hx | hx := k.fresh i x hx
    · exact h.fresh i x hx
    · exact .inr (Nat.le_trans h.nextId hx)

end Grows

lemma mem_chain_numbered (ho : o.Orderly) (hx : x ∈ o.chain.flatten) : x.id < o.nextId := by
  obtain ⟨scope, hscope, hx⟩ := List.mem_flatten.1 hx
  obtain ⟨i, -, rfl⟩ := List.mem_map.1 hscope
  exact ho.numbered i x hx

lemma mem_declare (o : Outline) (x y : Heading) (i : Option ScopeId) :
    y ∈ (o.declare x).headings i ↔ y ∈ o.headings i ∨ i = o.current ∧ y = x := by
  by_cases hi : i = o.current
  · subst hi
    simp [declare]
  · simp [declare, hi]

lemma Orderly.declare (ho : o.Orderly) (hid : x.id = o.nextId)
    (hfree : ∀ y ∈ o.headings o.current, y.name ≠ x.name) : (o.declare x).Orderly where
  nested := ho.nested
  unentered i hi := by
    have hne : some i ≠ o.current := fun h =>
      Nat.lt_irrefl i (Nat.lt_of_lt_of_le (ho.local_lt (List.mem_of_head? h.symm)) hi)
    exact (Function.update_of_ne hne _ _).trans (ho.unentered i hi)
  numbered i y hy := by
    rw [mem_declare] at hy
    obtain hy | ⟨-, rfl⟩ := hy
    · exact Nat.lt_succ_of_lt (ho.numbered i y hy)
    · exact hid ▸ Nat.lt_succ_self _
  unique i j y hy z hz hyz := by
    rw [mem_declare] at hy hz
    obtain hy | ⟨-, rfl⟩ := hy <;> obtain hz | ⟨-, rfl⟩ := hz
    · exact ho.unique i j y hy z hz hyz
    · exact absurd (hyz.trans hid) (Nat.ne_of_lt (ho.numbered i y hy))
    · exact absurd (hyz.symm.trans hid) (Nat.ne_of_lt (ho.numbered j z hz))
    · rfl
  named i y hy z hz hyz := by
    rw [mem_declare] at hy hz
    obtain hy | ⟨hi, rfl⟩ := hy <;> obtain hz | ⟨hj, rfl⟩ := hz
    · exact ho.named i y hy z hz hyz
    · exact absurd hyz (hfree y (hj ▸ hy))
    · exact absurd hyz.symm (hfree z (hi ▸ hz))
    · rfl

/-- Declaring a symbol lets the outline grow, if its superclass is in force. -/
lemma grows_declare (ho : o.Orderly) (hid : x.id = o.nextId)
    (hfree : ∀ y ∈ o.headings o.current, y.name ≠ x.name)
    (hx : x.kind = .cls → ∀ h, x.heritage? = some h → h.name = x.name ∧ ∀ p, h.parent = some p →
      ∃ y ∈ o.chain.flatten, y.kind = .cls ∧ y.heritage? = some p.heritage) :
    o.Grows (o.declare x) where
  orderly := ho.declare hid hfree
  locals := rfl
  size := Nat.le_refl _
  kept i y hy := (o.mem_declare x y i).2 (.inl hy)
  still i _ hne := Function.update_of_ne (Ne.symm hne) _ _
  layered hlayers := by
    obtain ⟨outer, hslots, hfresh⟩ := o.slots_eq
    have hchain : o.chain = o.headings o.current :: outer.map o.headings := by
      rw [chain, hslots, List.map_cons]
    have houter : outer.map (o.declare x).headings = outer.map o.headings := by
      refine List.map_congr_left fun i hi => Function.update_of_ne ?_ _ _
      rintro rfl
      exact hfresh ho hi
    have hdeclared : (o.declare x).chain =
        (o.headings o.current ++ [x]) :: outer.map o.headings := by
      have hslots' : (o.declare x).slots = o.current :: outer := hslots
      rw [chain, hslots', List.map_cons, houter]
      exact congrArg (· :: _) (Function.update_self _ _ _)
    rw [hdeclared]
    rw [hchain] at hlayers hx
    refine hlayers.declare (fun y hy => ?_) hx
    exact hid ▸ mem_chain_numbered ho (hchain ▸ hy)
  nextId := Nat.le_succ _
  fresh i y hy := by
    obtain hy | ⟨-, rfl⟩ := (o.mem_declare x y i).1 hy
    · exact .inl hy
    · exact .inr (Nat.le_of_eq hid.symm)

lemma chain_enter (ho : o.Orderly) : o.enter.chain = [] :: o.chain :=
  congrArg (· :: o.chain) (ho.unentered o.size (Nat.le_refl _))

/-- A scope that is entered and left again. -/
lemma grows_of_enter (ho : o.Orderly) (h : o.enter.Grows u) : o.Grows (u.within o.locals) where
  orderly := by
    have hnested := h.orderly.nested
    rw [h.locals] at hnested
    obtain ⟨hsize, hrest⟩ := List.pairwise_cons.1 hnested
    exact ⟨List.pairwise_cons.2
      ⟨fun i hi => hsize i (List.mem_cons_of_mem _ hi), (List.pairwise_cons.1 hrest).2⟩,
      h.orderly.unentered, h.orderly.numbered, h.orderly.unique, h.orderly.named⟩
  locals := rfl
  size := Nat.le_of_succ_le h.size
  kept := h.kept
  still i hi _ := by
    have hne : o.enter.current ≠ some i := fun he => Nat.ne_of_gt hi (Option.some.inj he)
    exact h.still i (Nat.lt_succ_of_lt hi) hne
  layered hlayers := by
    have hentered : Layered o.enter.chain :=
      chain_enter ho ▸ ⟨fun _ hx => absurd hx List.not_mem_nil, hlayers⟩
    have hchain : u.chain = u.headings (some o.size) :: (u.within o.locals).chain := by
      have hslots : u.slots = some o.size :: (u.within o.locals).slots := by
        rw [slots, h.locals]
        rfl
      rw [chain, hslots]
      rfl
    have hafter := h.layered hentered
    rw [hchain] at hafter
    exact hafter.2
  nextId := h.nextId
  fresh := h.fresh

/-- Scopes that are set aside and taken up again. -/
lemma grows_of_detach (ho : o.Orderly) (h : (o.within []).Grows u) :
    o.Grows (u.within o.locals) where
  orderly := by
    obtain ⟨hsize, hrest⟩ := List.pairwise_cons.1 ho.nested
    exact ⟨List.pairwise_cons.2 ⟨fun i hi => Nat.lt_of_lt_of_le (hsize i hi) h.size, hrest⟩,
      h.orderly.unentered, h.orderly.numbered, h.orderly.unique, h.orderly.named⟩
  locals := rfl
  size := h.size
  kept := h.kept
  still i hi _ := h.still i hi nofun
  layered hlayers := by
    have hstill : (o.locals.map some).map u.headings = (o.locals.map some).map o.headings := by
      rw [List.map_map, List.map_map]
      exact List.map_congr_left fun i hi => h.still i (ho.local_lt hi) nofun
    have hbefore : o.chain = (o.locals.map some).map o.headings ++ [o.headings none] :=
      List.map_append
    have hafter : (u.within o.locals).chain =
        (o.locals.map some).map o.headings ++ [u.headings none] :=
      List.map_append.trans (congrArg (· ++ [u.headings none]) hstill)
    have hglobal : u.chain = [u.headings none] := by
      rw [chain, slots, h.locals]
      rfl
    rw [hbefore] at hlayers
    rw [hafter]
    exact hlayers.widen (hglobal ▸ h.layered hlayers.outermost) (h.kept none)
  nextId := h.nextId
  fresh := h.fresh

end Outline

end TypedScript
