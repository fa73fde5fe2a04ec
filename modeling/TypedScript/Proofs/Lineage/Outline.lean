import Mathlib.Data.List.Basic
import Mathlib.Logic.Function.Basic
import Mathlib.Tactic.Common
import TypedScript.Checking.Declare
import TypedScript.Proofs.Lineage.Walks

/-!
# The outline of scopes

What a symbol keeps for life: its number, its name, its kind, and the name and superclass
of the class it holds. The members of a class are filled in step by step, and the results
of functions are found out late, but none of this shows in the outline. Only declaring a
symbol and entering a scope do.
-/
namespace TypedScript

/-- What a class declaration fixes: the name of the class and its superclass. -/
structure Heritage where
  name : String
  parent : Option Class

def Class.heritage (c : Class) : Heritage := ⟨c.name, c.parent⟩

/-- The heritage of a class; other types have none. -/
def Ty.heritage? : Ty → Option Heritage
  | .cls c => some c.heritage
  | _ => none

/-- The part of a symbol that never changes. -/
structure Heading where
  id : SymbolId
  name : String
  kind : SymbolKind
  heritage? : Option Heritage

namespace Symbol

def heritage? (x : Symbol) : Option Heritage := x.type.bind Ty.heritage?

def heading (x : Symbol) : Heading := ⟨x.id, x.name, x.kind, x.heritage?⟩

end Symbol

lemma Ty.heritage?_eq_some {t : Ty} {h : Heritage} :
    t.heritage? = some h ↔ ∃ c, t = .cls c ∧ c.heritage = h := by
  cases t <;> simp [Ty.heritage?]

lemma Symbol.heritage?_eq_some {x : Symbol} {h : Heritage} :
    x.heritage? = some h ↔ ∃ c, x.type = some (.cls c) ∧ c.heritage = h := by
  simp only [Symbol.heritage?, Option.bind_eq_some_iff, Ty.heritage?_eq_some]
  constructor
  · rintro ⟨_, hx, c, rfl, hc⟩
    exact ⟨c, hx, hc⟩
  · rintro ⟨c, hx, hc⟩
    exact ⟨_, hx, c, rfl, hc⟩

lemma Scope.mem_of_named? {g : Scope} {x : Symbol} {name : String}
    (hx : g.named? name = some x) : x ∈ g ∧ x.name = name :=
  ⟨List.mem_of_find?_eq_some hx, by simpa using List.find?_some hx⟩

lemma Scope.named?_append {g : Scope} {x : Symbol} {n : String}
    (hfree : g.named? x.name = none) :
    (g ++ [x]).named? n = if n = x.name then some x else g.named? n := by
  unfold Scope.named? at hfree ⊢
  rw [List.find?_append]
  split
  · rename_i hn
    subst hn
    simp [hfree]
  · rename_i hn
    have hx : (x.name == n) = false := by simpa using fun e => hn e.symm
    simp [hx]

/-- The headings in every scope, and which scopes are in force. -/
structure Outline where
  /-- The headings in a local scope, or in the global one where no number is given. -/
  headings : Option ScopeId → List Heading
  /-- The number of local scopes that were ever entered. -/
  size : Nat
  locals : List ScopeId
  nextId : SymbolId

namespace Outline

variable {o : Outline}

/-- The scopes in force, innermost first. -/
def slots (o : Outline) : List (Option ScopeId) := o.locals.map some ++ [none]

/-- The innermost scope. -/
def current (o : Outline) : Option ScopeId := o.locals.head?

def chain (o : Outline) : List (List Heading) := o.slots.map o.headings

/-- Add a heading to the innermost scope. -/
def declare (o : Outline) (x : Heading) : Outline :=
  { o with
      headings := Function.update o.headings o.current (o.headings o.current ++ [x])
      nextId := o.nextId + 1 }

def enter (o : Outline) : Outline := { o with size := o.size + 1, locals := o.size :: o.locals }

/-- The outline with these local scopes in force. -/
def within (o : Outline) (locals : List ScopeId) : Outline := { o with locals }

/-- Scopes are entered one inside the other, no scope has two symbols of one name, and no
two symbols have the same number. -/
structure Orderly (o : Outline) : Prop where
  nested : (o.size :: o.locals).Pairwise (· > ·)
  unentered : ∀ i, o.size ≤ i → o.headings (some i) = []
  numbered : ∀ i, ∀ x ∈ o.headings i, x.id < o.nextId
  unique : ∀ i j, ∀ x ∈ o.headings i, ∀ y ∈ o.headings j, x.id = y.id → x = y
  named : ∀ i, ∀ x ∈ o.headings i, ∀ y ∈ o.headings i, x.name = y.name → x = y

namespace Orderly

lemma local_lt (ho : o.Orderly) {i : ScopeId} (hi : i ∈ o.locals) : i < o.size :=
  (List.pairwise_cons.1 ho.nested).1 i hi

/-- Scopes may be left. -/
lemma within (ho : o.Orderly) {locals : List ScopeId} (h : locals.Sublist o.locals) :
    (o.within locals).Orderly :=
  ⟨ho.nested.sublist (h.cons_cons o.size), ho.unentered, ho.numbered, ho.unique, ho.named⟩

lemma within_nil (ho : o.Orderly) : (o.within []).Orderly := ho.within (List.nil_sublist _)

lemma enter (ho : o.Orderly) : o.enter.Orderly := by
  refine ⟨List.pairwise_cons.2 ⟨fun i hi => ?_, ho.nested⟩, fun i hi => ?_, ho.numbered,
    ho.unique, ho.named⟩
  · obtain rfl | hi := List.mem_cons.1 hi
    · exact Nat.lt_succ_self _
    · exact Nat.lt_succ_of_lt (ho.local_lt hi)
  · exact ho.unentered i (Nat.le_of_succ_le hi)

end Orderly

lemma slots_eq (o : Outline) : ∃ outer, o.slots = o.current :: outer ∧
    (o.Orderly → o.current ∉ outer) := by
  unfold slots current
  cases hl : o.locals with
  | nil => exact ⟨[], rfl, fun _ => List.not_mem_nil⟩
  | cons i ls =>
    refine ⟨ls.map some ++ [none], rfl, fun ho hmem => ?_⟩
    have hnested := (List.pairwise_cons.1 ho.nested).2
    rw [hl] at hnested
    have hi : i ∈ ls := by simpa using hmem
    exact Nat.lt_irrefl i ((List.pairwise_cons.1 hnested).1 i hi)

end Outline

namespace Scopes

variable {s scopes : Scopes} {name : String} {t : Ty}

/-- A local scope, or the global one where no number is given. -/
def slot (s : Scopes) : Option ScopeId → Scope
  | none => s.global
  | some i => s.scope i

def outline (s : Scopes) : Outline where
  headings i := (s.slot i).map Symbol.heading
  size := s.entered.size
  locals := s.locals
  nextId := s.nextId

/-- The symbol stands in some scope, in force or not. -/
def Has (s : Scopes) (x : Symbol) : Prop := ∃ i, x ∈ s.slot i

/-- A class may be declared under its own name, and if its superclass is in force. -/
def Declarable (s : Scopes) (name : String) (kind : SymbolKind) (type : Option Ty) : Prop :=
  kind = .cls → ∀ c, type = some (.cls c) → c.name = name ∧ ∀ p, c.parent = some p →
    ∃ y ∈ s.chain.flatten, y.kind = .cls ∧ y.type = some (.cls p)

lemma Declarable.of_ne {kind : SymbolKind} {type : Option Ty} (h : kind ≠ .cls) :
    s.Declarable name kind type := fun h' => absurd h' h

lemma chain_outline (s : Scopes) : s.outline.chain = s.chain.map (List.map Symbol.heading) := by
  simp [Outline.chain, Outline.slots, chain, outline, slot, Function.comp_def]

lemma has_of_mem_chain {x : Symbol} (hx : x ∈ s.chain.flatten) : s.Has x := by
  obtain ⟨scope, hscope, hx⟩ := List.mem_flatten.1 hx
  obtain hscope | hscope := List.mem_append.1 hscope
  · obtain ⟨i, -, rfl⟩ := List.mem_map.1 hscope
    exact ⟨some i, hx⟩
  · obtain rfl := List.mem_singleton.1 hscope
    exact ⟨none, hx⟩

lemma has_of_lookup? {x : Symbol} (h : s.lookup? name = some x) : s.Has x :=
  has_of_mem_chain (lookup?_mem h).1

lemma has_of_symbol? {id : SymbolId} {x : Symbol} (h : s.symbol? id = some x) :
    s.Has x ∧ x.id = id := by
  obtain ⟨scope, hscope, hfind⟩ := List.exists_of_findSome?_eq_some h
  have hx := List.mem_of_find?_eq_some hfind
  refine ⟨?_, by simpa using List.find?_some hfind⟩
  obtain rfl | hscope := List.mem_cons.1 hscope
  · exact ⟨none, hx⟩
  · obtain ⟨i, hi, rfl⟩ := List.mem_iff_getElem.1 hscope
    have hi : i < s.entered.size := by simpa using hi
    refine ⟨some i, ?_⟩
    simpa [slot, Scopes.scope, Array.getD_eq_getD_getElem?, hi] using hx

lemma mem_headings {x : Symbol} {i : Option ScopeId} (h : x ∈ s.slot i) :
    x.heading ∈ s.outline.headings i :=
  List.mem_map_of_mem h

/-! ## Changing one scope -/

/-- Change a local scope, or the global one where no number is given. -/
def modifySlot (s : Scopes) (i : Option ScopeId) (f : Scope → Scope) : Scopes :=
  match i with
  | none => { s with global := f s.global }
  | some i => s.modifyScope i f

/-- The scope exists. -/
def HasSlot (s : Scopes) (i : Option ScopeId) : Prop := ∀ j, i = some j → j < s.entered.size

lemma slot_modifySlot {i : Option ScopeId} (hi : s.HasSlot i) (f : Scope → Scope) :
    (s.modifySlot i f).slot = Function.update s.slot i (f (s.slot i)) := by
  funext j
  cases i with
  | none => cases j <;> simp [modifySlot, slot, scope]
  | some i =>
    cases j with
    | none => simp [modifySlot, slot, modifyScope]
    | some j =>
      have hi : i < s.entered.size := hi i rfl
      by_cases hj : j = i
      · subst hj
        simp only [modifySlot, slot, scope, modifyScope, Array.getD_eq_getD_getElem?,
          Array.getElem?_modify, Function.update_self]
        simp [hi]
      · simp [modifySlot, slot, scope, modifyScope, Array.getD_eq_getD_getElem?,
          Array.getElem?_modify, hj, Ne.symm hj]

/-- Of a scope that does not exist nothing comes. -/
lemma mem_slot_modifySlot {i j : Option ScopeId} {f : Scope → Scope} {x : Symbol}
    (h : x ∈ (s.modifySlot i f).slot j) : x ∈ s.slot j ∨ x ∈ f (s.slot j) := by
  cases i with
  | none =>
    cases j with
    | none => exact .inr h
    | some j => exact .inl h
  | some i =>
    cases j with
    | none => exact .inl h
    | some j =>
      simp only [modifySlot, slot, scope, modifyScope, Array.getD_eq_getD_getElem?,
        Array.getElem?_modify] at h ⊢
      split at h
      · cases hj : s.entered[j]? with
        | none => simp [hj] at h
        | some scope =>
          rw [hj] at h
          exact .inr h
      · exact .inl h

lemma outline_modifySlot {i : Option ScopeId} (hi : s.HasSlot i) (f : Scope → Scope) :
    (s.modifySlot i f).outline = { s.outline with
      headings := Function.update s.outline.headings i ((f (s.slot i)).map Symbol.heading) } := by
  have hheadings : (s.modifySlot i f).outline.headings =
      Function.update s.outline.headings i ((f (s.slot i)).map Symbol.heading) := by
    funext j
    simp only [outline, slot_modifySlot hi, Function.update_apply]
    split <;> rfl
  cases i <;> simp_all [outline, modifySlot, modifyScope]

lemma hasSlot_current (hs : s.outline.Orderly) : s.HasSlot s.locals.head? :=
  fun _ hi => hs.local_lt (List.mem_of_head? hi)

/-! ## Steps that show in the outline -/

lemma slot_enter (s : Scopes) (i : Option ScopeId) : s.enter.slot i = s.slot i := by
  cases i with
  | none => rfl
  | some i => exact s.scope_enter i

lemma outline_enter (s : Scopes) : s.enter.outline = s.outline.enter := by
  simp only [outline, slot_enter, Outline.enter]
  simp [enter]

lemma current_eq_slot (s : Scopes) : s.current = s.slot s.locals.head? := by
  unfold current
  split <;> simp_all [slot]

/-- A declared symbol has a new number and a name that is free in the innermost scope, and
is put at the end of that scope. -/
lemma define_eq_ok {kind : SymbolKind} {type : Option Ty} {isConst : Bool} {origin : Origin}
    {x : Symbol} (h : s.define name kind type isConst origin = .ok (x, scopes)) :
    x = ⟨s.nextId, name, kind, type, isConst, origin⟩ ∧
      (∀ y ∈ s.slot s.locals.head?, y.name ≠ name) ∧
      scopes = { s.modifySlot s.locals.head? (· ++ [x]) with nextId := s.nextId + 1 } := by
  rw [define, current_eq_slot] at h
  split at h
  · simp at h
  · rename_i hfree
    simp only [Except.ok.injEq, Prod.mk.injEq] at h
    obtain ⟨rfl, rfl⟩ := h
    refine ⟨rfl, fun y hy => ?_, ?_⟩
    · have hfree := List.find?_eq_none.1 hfree y hy
      simpa using hfree
    · obtain ⟨global, entered, locals, nextId⟩ := s
      cases locals <;> rfl

lemma outline_define {kind : SymbolKind} {type : Option Ty} {isConst : Bool} {origin : Origin}
    {x : Symbol} (hs : s.outline.Orderly)
    (h : s.define name kind type isConst origin = .ok (x, scopes)) :
    scopes.outline = s.outline.declare x.heading := by
  obtain ⟨-, -, rfl⟩ := define_eq_ok h
  have houtline := outline_modifySlot (hasSlot_current hs) (· ++ [x])
  rw [List.map_append] at houtline
  exact congrArg (fun o => { o with nextId := s.nextId + 1 }) houtline

/-! ## Steps that do not -/

lemma heading_retype {scope : Scope}
    (h : ∀ y ∈ scope, y.name = name → y.heritage? = t.heritage?) :
    (scope.retype name t).map Symbol.heading = scope.map Symbol.heading := by
  rw [Scope.retype, List.map_map]
  refine List.map_congr_left fun y hy => ?_
  by_cases hname : y.name = name
  · have hheritage : t.heritage? = y.heritage? := (h y hy hname).symm
    simpa [Symbol.heading, hname, Symbol.heritage?] using hheritage
  · simp [hname]

/-- The first element that has a value gives the first value. -/
lemma findSome?_of_find? {α β : Type} {f : α → Option β} {l : List α} {a : α}
    (h : l.find? (fun b => (f b).isSome) = some a) : l.findSome? f = f a := by
  obtain ⟨ha, before, after, rfl, hbefore⟩ := List.find?_eq_some_iff_append.1 h
  have hnone : before.findSome? f = none :=
    List.findSome?_eq_none_iff.2 fun b hb => by simpa using hbefore b hb
  obtain ⟨b, hb⟩ := Option.isSome_iff_exists.1 ha
  simp [List.findSome?_append, hnone, hb]

/-- The type of what a name means is changed in the first scope that has the name. -/
lemma exists_slot_of_update (h : s.update name t = .ok scopes) :
    ∃ x i, s.lookup? name = some x ∧ (∀ j, i = some j → j ∈ s.locals) ∧ x ∈ s.slot i ∧
      scopes = s.modifySlot i fun scope => scope.retype name t := by
  simp only [lookup?, chain, List.findSome?_append, List.findSome?_map]
  unfold update at h
  split at h
  · rename_i i hi
    have hfirst := findSome?_of_find? (f := fun j => (s.scope j).named? name) hi
    obtain ⟨x, hx⟩ := Option.isSome_iff_exists.1 (by simpa using List.find?_some hi)
    refine ⟨x, some i, ?_, fun j hj => Option.some.inj hj ▸ List.mem_of_find?_eq_some hi,
      List.mem_of_find?_eq_some hx, (Except.ok.inj h).symm⟩
    simp only [Function.comp_def, hfirst, hx, Option.some_or]
  · rename_i hnone
    have hlocals : s.locals.findSome? (fun j => (s.scope j).named? name) = none :=
      List.findSome?_eq_none_iff.2 fun j hj => by simpa using List.find?_eq_none.1 hnone j hj
    split at h
    · rename_i x hx
      refine ⟨x, none, ?_, by simp, List.mem_of_find?_eq_some hx, (Except.ok.inj h).symm⟩
      simp [Function.comp_def, hlocals, hx]
    · simp at h

/-- The type of a symbol is changed where its name means the symbol. -/
lemma exists_slot_of_updateSymbol {id : SymbolId} (h : s.updateSymbol id name t = .ok scopes) :
    ∃ x i, s.lookup? name = some x ∧ x.id = id ∧ (∀ j, i = some j → j ∈ s.locals) ∧
      x ∈ s.slot i ∧ scopes = s.modifySlot i fun scope => scope.retype name t := by
  have hupdate : s.update name t = .ok scopes ∧ ∀ y, s.lookup? name = some y → y.id = id := by
    unfold updateSymbol at h
    split at h
    · split at h
      · exact ⟨h, by simp_all⟩
      · simp at h
    · exact ⟨h, by simp_all⟩
  obtain ⟨x, i, hx, hi, hmem, hscopes⟩ := exists_slot_of_update hupdate.1
  exact ⟨x, i, hx, hupdate.2 x hx, hi, hmem, hscopes⟩

/-- To change the type of a symbol to one of the same heritage leaves the outline alone. -/
lemma outline_updateSymbol {x : Symbol} (hs : s.outline.Orderly) (hx : s.Has x)
    (hheritage : x.heritage? = t.heritage?) (h : s.updateSymbol x.id name t = .ok scopes) :
    scopes.outline = s.outline := by
  obtain ⟨y, i, hy, hid, hi, hmem, rfl⟩ := exists_slot_of_updateSymbol h
  obtain ⟨j, hj⟩ := hx
  have hslot : s.HasSlot i := by
    rintro k rfl
    exact hs.local_lt (hi k rfl)
  have hsame : y.heading = x.heading :=
    hs.unique i j _ (mem_headings hmem) _ (mem_headings hj) hid
  have hheadings : ((s.slot i).retype name t).map Symbol.heading =
      (s.slot i).map Symbol.heading := by
    refine heading_retype fun z hz hname => ?_
    have hzy : z.heading = y.heading :=
      hs.named i _ (mem_headings hz) _ (mem_headings hmem) (hname.trans (lookup?_mem hy).2.symm)
    calc z.heritage? = x.heritage? := congrArg Heading.heritage? (hzy.trans hsame)
      _ = t.heritage? := hheritage
  rw [outline_modifySlot hslot, hheadings]
  exact congrArg (fun headings => { s.outline with headings }) (Function.update_eq_self _ _)

lemma slot_retypeSymbol (s : Scopes) (id : SymbolId) (t : Ty) (i : Option ScopeId) :
    (s.retypeSymbol id t).slot i =
      (s.slot i).map fun x => if x.id = id then { x with type := some t } else x := by
  cases i with
  | none => rfl
  | some i =>
    simp only [slot, scope, retypeSymbol, Array.getD_eq_getD_getElem?, Array.getElem?_map]
    cases s.entered[i]? <;> rfl

lemma outline_retypeSymbol {x : Symbol} (hs : s.outline.Orderly) (hx : s.Has x)
    (hheritage : x.heritage? = t.heritage?) : (s.retypeSymbol x.id t).outline = s.outline := by
  obtain ⟨j, hj⟩ := hx
  have hheadings : ∀ i, ((s.retypeSymbol x.id t).slot i).map Symbol.heading =
      (s.slot i).map Symbol.heading := by
    intro i
    rw [slot_retypeSymbol, List.map_map]
    refine List.map_congr_left fun y hy => ?_
    by_cases hid : y.id = x.id
    · have hyx : y.heading = x.heading :=
        hs.unique i j _ (mem_headings hy) _ (mem_headings hj) hid
      have hkept : t.heritage? = y.heritage? :=
        hheritage.symm.trans (congrArg Heading.heritage? hyx).symm
      simpa [Symbol.heading, hid, Symbol.heritage?] using hkept
    · simp [hid]
  simp only [outline, hheadings]
  simp [retypeSymbol]

end Scopes

end TypedScript
