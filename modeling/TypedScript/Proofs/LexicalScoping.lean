import TypedScript.Proofs.Lineage.Outline

/-!
# Scopes are lexical

Scopes are shared: those that were set aside are changed in place while others are in force,
and put back by their numbers. Beside them stands a plain account of scoping. There a scope is
a dictionary of symbols as they were declared, to set scopes aside is to keep a copy of them,
and types are changed by a list of updates that only grows, so that no update can be lost.

After every properly nested row of steps the two answer alike: a name means the same symbol
with the same type, and each step succeeds or fails in both.
-/
namespace TypedScript

namespace Scoping

/-- How to leave what was entered. -/
inductive Bracket (α : Type) where
  | scope
  | detached (saved : α)

/-- A step on scopes. To leave a scope and to put scopes back stands for the pending bracket. -/
inductive Step where
  | define (name : String) (kind : SymbolKind) (type : Option Ty) (isConst : Bool) (origin : Origin)
  | update (name : String) (t : Ty)
  | updateSymbol (id : SymbolId) (name : String) (t : Ty)
  | enter
  | exit
  | detach
  | restore

/-- A step gives a new state and the error of what could not be declared or changed. There is none
where the step does not fit the brackets. -/
abbrev Machine (σ : Type) := σ → Step → Option (Option SymbolError × σ)

/-- Take steps one after the other. -/
def Machine.run {σ : Type} (m : Machine σ) : σ → List Step → Option (List (Option SymbolError) × σ)
  | s, [] => some ([], s)
  | s, x :: xs => do
    let (e, s) ← m s x
    let (es, s) ← m.run s xs
    return (e :: es, s)

/-! ## The scopes in use -/

structure Table where
  scopes : Scopes := {}
  /-- Scopes that were set aside are kept with their depth. -/
  pending : List (Bracket (List ScopeId × Nat)) := []

namespace Table

/-- What failed changes nothing. -/
def settle (T : Table) : Except SymbolError Scopes → Option SymbolError × Table
  | .ok scopes => (none, { T with scopes })
  | .error e => (some e, T)

def step : Machine Table
  | T, .define name kind type isConst origin =>
    some (T.settle ((T.scopes.define name kind type isConst origin).map Prod.snd))
  | T, .update name t => some (T.settle (T.scopes.update name t))
  | T, .updateSymbol id name t => some (T.settle (T.scopes.updateSymbol id name t))
  | T, .enter => some (none, ⟨T.scopes.enter, .scope :: T.pending⟩)
  | T, .exit =>
    match T.pending, T.scopes.exit with
    | .scope :: pending, .ok scopes => some (none, ⟨scopes, pending⟩)
    | _, _ => none
  | T, .detach =>
    some (none, ⟨T.scopes.detach, .detached (T.scopes.locals, T.scopes.depth) :: T.pending⟩)
  | T, .restore =>
    match T.pending with
    | .detached (locals, depth) :: pending =>
      some (none, ⟨T.scopes.reattach locals depth, pending⟩)
    | _ => none

end Table

/-! ## The plain account -/

/-- The symbols of a scope as they were declared. -/
abbrev Bindings := String → Option Symbol

structure Lexical where
  global : Bindings := fun _ => none
  /-- The local scopes in force, innermost first. -/
  locals : List Bindings := []
  pending : List (Bracket (List Bindings)) := []
  /-- The types that symbols were given later, newest first. -/
  updates : List (SymbolId × Ty) := []
  nextId : SymbolId := 0

namespace Lexical

/-- The symbol that a name means, as it was declared. -/
def declared? (L : Lexical) (name : String) : Option Symbol :=
  (L.locals.findSome? fun f => f name).or (L.global name)

/-- A symbol has the type of its last update, or else the one it was declared with. -/
def typed (L : Lexical) (x : Symbol) : Symbol :=
  { x with type := (L.updates.lookup x.id).or x.type }

def lookup? (L : Lexical) (name : String) : Option Symbol := (L.declared? name).map L.typed

def depth (L : Lexical) : Nat := L.locals.length

def innermost (L : Lexical) : Bindings := L.locals.headD L.global

/-- Put a symbol into the innermost scope. -/
def declare (L : Lexical) (x : Symbol) : Lexical :=
  match L.locals with
  | [] => { L with global := Function.update L.global x.name (some x), nextId := L.nextId + 1 }
  | f :: fs =>
    { L with locals := Function.update f x.name (some x) :: fs, nextId := L.nextId + 1 }

def retype (L : Lexical) (id : SymbolId) (t : Ty) : Lexical :=
  { L with updates := (id, t) :: L.updates }

def step : Machine Lexical
  | L, .define name kind type isConst origin =>
    match L.innermost name with
    | some _ => some (some (.redeclared name), L)
    | none => some (none, L.declare ⟨L.nextId, name, kind, type, isConst, origin⟩)
  | L, .update name t =>
    match L.declared? name with
    | some x => some (none, L.retype x.id t)
    | none => some (some (.undeclared name), L)
  | L, .updateSymbol id name t =>
    match L.declared? name with
    | some x => if x.id = id then some (none, L.retype id t) else some (some (.shadowed name), L)
    | none => some (some (.undeclared name), L)
  | L, .enter =>
    some (none, { L with locals := (fun _ => none) :: L.locals, pending := .scope :: L.pending })
  | L, .exit =>
    match L.pending with
    | .scope :: pending => some (none, { L with locals := L.locals.tail, pending })
    | _ => none
  | L, .detach =>
    some (none, { L with locals := [], pending := .detached L.locals :: L.pending })
  | L, .restore =>
    match L.pending with
    | .detached locals :: pending => some (none, { L with locals, pending })
    | _ => none

end Lexical

end Scoping

/-! ## One symbol at a time -/

/-- A symbol with another type, if it has this number. -/
def Symbol.retyped (id : SymbolId) (t : Ty) (x : Symbol) : Symbol :=
  if x.id = id then { x with type := some t } else x

namespace Symbol

@[simp] lemma name_retyped (id : SymbolId) (t : Ty) (x : Symbol) :
    (x.retyped id t).name = x.name := by
  unfold retyped
  split <;> rfl

@[simp] lemma id_retyped (id : SymbolId) (t : Ty) (x : Symbol) : (x.retyped id t).id = x.id := by
  unfold retyped
  split <;> rfl

end Symbol

lemma Scope.named?_map {g : Scope} {f : Symbol → Symbol} (hf : ∀ x, (f x).name = x.name)
    (name : String) : named? (g.map f) name = (g.named? name).map f := by
  simp only [named?, List.find?_map, Function.comp_def, hf]

namespace Scopes

variable {s scopes : Scopes} {name : String} {t : Ty} {i : Option ScopeId} {x : Symbol}

/-- No two symbols have the same number, and no scope has two symbols of one name. -/
structure Distinct (s : Scopes) : Prop where
  numbered : ∀ i, ∀ x ∈ s.slot i, x.id < s.nextId
  unique : ∀ i j, ∀ x ∈ s.slot i, ∀ y ∈ s.slot j, x.id = y.id → i = j ∧ x = y
  named : ∀ i, ((s.slot i).map Symbol.name).Nodup

lemma slot_retyped (s : Scopes) (id : SymbolId) (t : Ty) (i : Option ScopeId) :
    (s.retypeSymbol id t).slot i = (s.slot i).map (Symbol.retyped id t) :=
  s.slot_retypeSymbol id t i

namespace Distinct

lemma empty : ({} : Scopes).Distinct := by
  have hnone : ∀ i, ({} : Scopes).slot i = [] := by
    intro i
    cases i <;> simp [slot, scope]
  constructor <;> simp [hnone]

/-- Which scopes are in force does not matter. -/
lemma of_slots (hs : s.Distinct) (hslot : scopes.slot = s.slot)
    (hnext : scopes.nextId = s.nextId) : scopes.Distinct := by
  constructor <;> rw [hslot]
  · rw [hnext]
    exact hs.numbered
  · exact hs.unique
  · exact hs.named

/-- A new symbol has a number that none had before. -/
lemma declare (hs : s.Distinct) (hx : x.id = s.nextId) (hfree : ∀ y ∈ s.slot i, y.name ≠ x.name)
    (hslot : scopes.slot = Function.update s.slot i (s.slot i ++ [x]))
    (hnext : scopes.nextId = s.nextId + 1) : scopes.Distinct := by
  have hmem : ∀ j, ∀ y ∈ scopes.slot j, y ∈ s.slot j ∨ j = i ∧ y = x := by
    intro j y hy
    rw [hslot] at hy
    by_cases hj : j = i
    · subst hj
      simpa using hy
    · rw [Function.update_of_ne hj] at hy
      exact .inl hy
  have hold : ∀ j, ∀ y ∈ s.slot j, y.id ≠ x.id := by
    intro j y hy
    rw [hx]
    exact Nat.ne_of_lt (hs.numbered j y hy)
  constructor
  · intro j y hy
    rw [hnext]
    obtain hy | ⟨-, rfl⟩ := hmem j y hy
    · exact Nat.lt_succ_of_lt (hs.numbered j y hy)
    · exact hx ▸ Nat.lt_succ_self _
  · intro j k y hy z hz hid
    obtain hy | ⟨rfl, rfl⟩ := hmem j y hy
    · obtain hz | ⟨rfl, rfl⟩ := hmem k z hz
      · exact hs.unique j k y hy z hz hid
      · exact absurd hid (hold j y hy)
    · obtain hz | ⟨rfl, rfl⟩ := hmem k z hz
      · exact absurd hid.symm (hold k z hz)
      · exact ⟨rfl, rfl⟩
  · intro j
    rw [hslot]
    by_cases hj : j = i
    · subst hj
      simpa [List.nodup_append] using ⟨hs.named j, hfree⟩
    · rw [Function.update_of_ne hj]
      exact hs.named j

/-- To change a type changes neither numbers nor names. -/
lemma retypeSymbol (hs : s.Distinct) (id : SymbolId) (t : Ty) : (s.retypeSymbol id t).Distinct := by
  constructor
  · intro i x hx
    rw [slot_retyped] at hx
    obtain ⟨y, hy, rfl⟩ := List.mem_map.1 hx
    rw [Symbol.id_retyped]
    exact hs.numbered i y hy
  · intro i j x hx y hy hid
    rw [slot_retyped] at hx hy
    obtain ⟨x₀, hx₀, rfl⟩ := List.mem_map.1 hx
    obtain ⟨y₀, hy₀, rfl⟩ := List.mem_map.1 hy
    have hsame := hs.unique i j x₀ hx₀ y₀ hy₀ (by simpa using hid)
    exact ⟨hsame.1, congrArg _ hsame.2⟩
  · intro i
    have hnames : Symbol.name ∘ Symbol.retyped id t = Symbol.name :=
      funext (Symbol.name_retyped id t)
    rw [slot_retyped, List.map_map, hnames]
    exact hs.named i

end Distinct

lemma eq_of_slot (hslot : s.slot = scopes.slot) (hsize : s.entered.size = scopes.entered.size)
    (hlocals : s.locals = scopes.locals) (hdepth : s.depth = scopes.depth)
    (hnext : s.nextId = scopes.nextId) : s = scopes := by
  obtain ⟨global, entered, locals, depth, nextId⟩ := s
  obtain ⟨global', entered', locals', depth', nextId'⟩ := scopes
  have hglobal : global = global' := congrFun hslot none
  have hentered : entered = entered' := by
    refine Array.ext hsize fun i hi hi' => ?_
    have hi : (entered.getD i [] : Scope) = entered'.getD i [] := congrFun hslot (some i)
    simpa [Array.getD, *] using hi
  simp_all

/-- What a name means can be changed; only where it means nothing is there nothing to change. -/
lemma update_eq_error {e : SymbolError} (h : s.update name t = .error e) :
    e = .undeclared name ∧ s.lookup? name = none := by
  unfold update at h
  split at h
  · simp at h
  · rename_i hlocals
    split at h
    · simp at h
    · rename_i hglobal
      refine ⟨(Except.error.inj h).symm, List.findSome?_eq_none_iff.2 fun scope hscope => ?_⟩
      obtain hscope | hscope := List.mem_append.1 hscope
      · obtain ⟨i, hi, rfl⟩ := List.mem_map.1 hscope
        simpa using List.find?_eq_none.1 hlocals i hi
      · rw [List.mem_singleton.1 hscope]
        exact hglobal

lemma update_of_lookup?_eq_none (h : s.lookup? name = none) :
    s.update name t = .error (.undeclared name) := by
  cases hupdate : s.update name t with
  | ok scopes =>
    obtain ⟨x, -, hx, -⟩ := exists_slot_of_update hupdate
    exact absurd (h.symm.trans hx) (by simp)
  | error e => rw [(update_eq_error hupdate).1]

/-- To change the type of what a name means is to change it for that symbol and no other. -/
lemma update_eq_retypeSymbol (hs : s.Distinct) (hlocals : ∀ i ∈ s.locals, i < s.entered.size)
    (hx : s.lookup? name = some x) : s.update name t = .ok (s.retypeSymbol x.id t) := by
  cases hupdate : s.update name t with
  | error e => exact absurd (hx.symm.trans (update_eq_error hupdate).2) (by simp)
  | ok scopes =>
    obtain ⟨y, i, hy, hi, hmem, rfl⟩ := exists_slot_of_update hupdate
    obtain rfl : x = y := Option.some.inj (hx.symm.trans hy)
    have hname : x.name = name := (lookup?_mem hx).2
    refine congrArg _ (eq_of_slot (funext fun j => ?_) ?_ ?_ ?_ ?_)
    · rw [slot_modifySlot fun k hk => hlocals k (hi k hk), slot_retyped]
      by_cases hj : j = i
      · subst hj
        rw [Function.update_self]
        refine List.map_congr_left fun y hy => ?_
        have hiff : y.name = name ↔ y.id = x.id := by
          constructor
          · intro hy'
            rw [List.inj_on_of_nodup_map (hs.named j) hy hmem (hy'.trans hname.symm)]
          · intro hid
            rw [(hs.unique j j y hy x hmem hid).2, hname]
        simp [Symbol.retyped, hiff]
      · rw [Function.update_of_ne hj]
        -- The other scopes have no symbol of this number, though they may have one of this name.
        have hkept : ∀ y ∈ s.slot j, y.retyped x.id t = y := by
          intro y hy
          have hid : y.id ≠ x.id := fun hid => hj (hs.unique j i y hy x hmem hid).1
          exact if_neg hid
        rw [List.map_congr_left hkept, List.map_id']
    all_goals cases i <;> simp [modifySlot, modifyScope, retypeSymbol]

lemma updateSymbol_eq_ok {id : SymbolId} (hs : s.Distinct)
    (hlocals : ∀ i ∈ s.locals, i < s.entered.size) (h : s.updateSymbol id name t = .ok scopes) :
    (∃ x, s.lookup? name = some x ∧ x.id = id) ∧ scopes = s.retypeSymbol id t := by
  rw [updateSymbol] at h
  split at h
  · rename_i x hx
    split at h
    · rename_i hid
      have hretyped := update_eq_retypeSymbol (t := t) hs hlocals hx
      exact ⟨⟨x, hx, hid⟩, Except.ok.inj (h.symm.trans (hid ▸ hretyped))⟩
    · simp at h
  · rename_i hx
    rw [update_of_lookup?_eq_none hx] at h
    simp at h

end Scopes

namespace Scoping

/-! ## Both side by side -/

/-- A scope has the symbols of a dictionary, with the types they have by now. -/
def Shows (typed : Symbol → Symbol) (scope : Scope) (f : Bindings) : Prop :=
  ∀ name, scope.named? name = (f name).map typed

/-- The scopes in force and those set aside, with the dictionaries they stand for. Scopes have
lower numbers than those entered above them, so a new symbol is put into one of them only. The
depth that was kept is the number of scopes that were set aside. -/
inductive Chain (R : ScopeId → Bindings → Prop) : Nat → List ScopeId →
    List (Bracket (List ScopeId × Nat)) → List Bindings → List (Bracket (List Bindings)) → Prop
  | start {n : Nat} : Chain R n [] [] [] []
  | entered {n i : Nat} {ids pending fs pending' f} (hi : i < n) (hf : R i f)
      (h : Chain R i ids pending fs pending') :
      Chain R n (i :: ids) (.scope :: pending) (f :: fs) (.scope :: pending')
  | detached {n : Nat} {ids pending fs pending'} (h : Chain R n ids pending fs pending') :
      Chain R n [] (.detached (ids, ids.length) :: pending) [] (.detached fs :: pending')

namespace Chain

variable {R R' : ScopeId → Bindings → Prop} {n m : Nat} {ids : List ScopeId}
  {pending : List (Bracket (List ScopeId × Nat))} {fs : List Bindings}
  {pending' : List (Bracket (List Bindings))}

lemma mono (h : Chain R n ids pending fs pending') (hn : n ≤ m) :
    Chain R m ids pending fs pending' := by
  induction h generalizing m with
  | start => exact .start
  | entered hi hf h _ => exact .entered (Nat.lt_of_lt_of_le hi hn) hf h
  | detached _ ih => exact .detached (ih hn)

lemma imp (h : Chain R n ids pending fs pending') (himp : ∀ i < n, ∀ f, R i f → R' i f) :
    Chain R' n ids pending fs pending' := by
  induction h with
  | start => exact .start
  | entered hi hf _ ih =>
    exact .entered hi (himp _ hi _ hf) (ih fun j hj => himp j (Nat.lt_trans hj hi))
  | detached _ ih => exact .detached (ih himp)

lemma lt (h : Chain R n ids pending fs pending') : ∀ i ∈ ids, i < n := by
  induction h with
  | start => simp
  | entered hi _ _ ih =>
    intro j hj
    obtain rfl | hj := List.mem_cons.1 hj
    · exact hi
    · exact Nat.lt_trans (ih j hj) hi
  | detached => simp

lemma forall₂ (h : Chain R n ids pending fs pending') : List.Forall₂ R ids fs := by
  induction h with
  | start => exact .nil
  | entered _ hf _ ih => exact .cons hf ih
  | detached => exact .nil

end Chain

/-- The scopes stand for the plain account. -/
structure Refines (T : Table) (L : Lexical) : Prop where
  distinct : T.scopes.Distinct
  nextId : T.scopes.nextId = L.nextId
  /-- The scopes in force are counted. -/
  depth : T.scopes.depth = T.scopes.locals.length
  /-- Only symbols that exist are updated. -/
  updated : ∀ u ∈ L.updates, u.1 < L.nextId
  global : Shows L.typed T.scopes.global L.global
  chain : Chain (fun i => Shows L.typed (T.scopes.scope i)) T.scopes.entered.size
    T.scopes.locals T.pending L.locals L.pending

/-- The result is the same in both, and so is where it leads. -/
def Alike {ε : Type} (a : ε × Table) (b : ε × Lexical) : Prop := a.1 = b.1 ∧ Refines a.2 b.2

namespace Shows

variable {typed typed' : Symbol → Symbol} {scope : Scope} {f : Bindings} {x : Symbol}

lemma empty : Shows typed [] fun _ => none := fun _ => rfl

lemma declare (h : Shows typed scope f) (hfree : f x.name = none) (hx : typed x = x) :
    Shows typed (scope ++ [x]) (Function.update f x.name (some x)) := by
  intro name
  have hnone : scope.named? x.name = none := by simp [h x.name, hfree]
  rw [Scope.named?_append hnone, Function.update_apply]
  split
  · rw [Option.map_some, hx]
  · exact h name

lemma retyped {id : SymbolId} {t : Ty} (h : Shows typed scope f)
    (htyped : ∀ x, typed' x = (typed x).retyped id t) :
    Shows typed' (scope.map (Symbol.retyped id t)) f := by
  intro name
  rw [Scope.named?_map (Symbol.name_retyped id t), h name, Option.map_map]
  exact congrArg (Option.map · (f name)) (funext fun x => (htyped x).symm)

end Shows

namespace Lexical

variable {L : Lexical} {x : Symbol}

lemma typed_retype (L : Lexical) (id : SymbolId) (t : Ty) (x : Symbol) :
    (L.retype id t).typed x = (L.typed x).retyped id t := by
  by_cases hx : x.id = id
  · simp [typed, retype, Symbol.retyped, hx]
  · have hne : (x.id == id) = false := by simpa using hx
    simp [typed, retype, Symbol.retyped, hx, List.lookup_cons, hne]

@[simp] lemma id_typed (L : Lexical) (x : Symbol) : (L.typed x).id = x.id := rfl

/-- A symbol that was never updated has the type it was declared with. -/
lemma typed_of_fresh (h : ∀ u ∈ L.updates, u.1 < L.nextId) (hx : x.id = L.nextId) :
    L.typed x = x := by
  have hnone : L.updates.lookup x.id = none := by
    rw [List.lookup_eq_none_iff]
    intro u hu
    have hlt : u.1 < x.id := hx ▸ h u hu
    simpa using Nat.ne_of_gt hlt
  simp [typed, hnone]

end Lexical

namespace Refines

variable {T : Table} {L : Lexical} {x : Symbol}

lemma empty : Refines {} {} where
  distinct := .empty
  nextId := rfl
  depth := rfl
  updated := by simp
  global := .empty
  chain := .start

/-- A name means the same in both. -/
lemma lookup?_eq (h : Refines T L) (name : String) : T.scopes.lookup? name = L.lookup? name := by
  have hlocals : T.scopes.locals.findSome? (fun i => (T.scopes.scope i).named? name) =
      (L.locals.findSome? fun f => f name).map L.typed := by
    have hall := h.chain.forall₂
    generalize T.scopes.locals = ids, L.locals = fs at hall
    induction hall with
    | nil => rfl
    | cons hi _ ih =>
      rename_i i f _ _ _
      rw [List.findSome?_cons, List.findSome?_cons, hi name]
      cases hf : f name with
      | none => simpa [hf] using ih
      | some x => simp
  rw [Scopes.lookup?, Scopes.chain, List.findSome?_append, List.findSome?_map,
    Lexical.lookup?, Lexical.declared?, Option.map_or, ← hlocals, ← h.global name]
  simp [Function.comp_def]

lemma depth_eq (h : Refines T L) : T.scopes.depth = L.depth :=
  h.depth.trans h.chain.forall₂.length_eq

lemma innermost (h : Refines T L) : Shows L.typed T.scopes.current L.innermost := by
  obtain ⟨⟨global, entered, locals, depth, nextId⟩, pending⟩ := T
  obtain ⟨global', locals', pending', updates, nextId'⟩ := L
  cases h.chain with
  | start => exact h.global
  | entered _ hf _ => exact hf
  | detached => exact h.global

/-- A new symbol is put into one scope, in both. -/
lemma declare {scopes : Scopes} (h : Refines T L) (hx : x.id = L.nextId)
    (hfree : L.innermost x.name = none)
    (hslot : scopes.slot = Function.update T.scopes.slot T.scopes.locals.head?
      (T.scopes.slot T.scopes.locals.head? ++ [x]))
    (hsize : scopes.entered.size = T.scopes.entered.size)
    (hlocals : scopes.locals = T.scopes.locals) (hdepth : scopes.depth = T.scopes.depth)
    (hnext : scopes.nextId = T.scopes.nextId + 1) :
    Refines ⟨scopes, T.pending⟩ (L.declare x) := by
  have htyped : L.typed x = x := Lexical.typed_of_fresh h.updated hx
  have hnot : ∀ y ∈ T.scopes.slot T.scopes.locals.head?, y.name ≠ x.name := by
    rw [← Scopes.current_eq_slot]
    have hnone : T.scopes.current.named? x.name = none := by simp [h.innermost x.name, hfree]
    simpa [Scope.named?] using hnone
  have hdistinct := h.distinct.declare (hx.trans h.nextId.symm) hnot hslot hnext
  have hkept : ∀ i, i ≠ T.scopes.locals.head? → scopes.slot i = T.scopes.slot i := by
    intro i hi
    rw [hslot, Function.update_of_ne hi]
  have hadded : scopes.slot T.scopes.locals.head? =
      T.scopes.slot T.scopes.locals.head? ++ [x] := by
    rw [hslot, Function.update_self]
  have hnumber : scopes.nextId = L.nextId + 1 := by rw [hnext, h.nextId]
  have hcounted : scopes.depth = scopes.locals.length := by rw [hdepth, h.depth, hlocals]
  have hupdated : ∀ u ∈ L.updates, u.1 < L.nextId + 1 :=
    fun u hu => Nat.lt_succ_of_lt (h.updated u hu)
  obtain ⟨⟨global, entered, locals, depth, nextId⟩, pending⟩ := T
  obtain ⟨global', locals', pending', updates, nextId'⟩ := L
  cases locals with
  | nil =>
    obtain rfl : locals' = [] := by cases h.chain <;> rfl
    refine ⟨hdistinct, hnumber, hcounted, hupdated, ?_, ?_⟩
    · have hglobal : scopes.global = global ++ [x] := hadded
      rw [hglobal]
      exact h.global.declare hfree htyped
    · rw [hsize, hlocals]
      refine h.chain.imp fun i _ f hf => ?_
      have hscope : scopes.scope i = Scopes.scope _ i := hkept (some i) (by simp)
      rwa [hscope]
  | cons i ids =>
    cases h.chain with
    | entered hi hf hrest =>
      refine ⟨hdistinct, hnumber, hcounted, hupdated, ?_, ?_⟩
      · have hglobal : scopes.global = global := hkept none (by simp)
        rw [hglobal]
        exact h.global
      · rw [hsize, hlocals]
        -- The scopes below, also those set aside, have lower numbers than the innermost one.
        refine .entered hi ?_ (hrest.imp fun j hj f hf => ?_)
        · have hscope : scopes.scope i = _ ++ [x] := hadded
          rw [hscope]
          exact hf.declare hfree htyped
        · have hscope : scopes.scope j = Scopes.scope _ j :=
            hkept (some j) (by simpa using Nat.ne_of_lt hj)
          rwa [hscope]

/-- A symbol is given another type, in both. -/
lemma retype (h : Refines T L) {id : SymbolId} (hid : id < L.nextId) (t : Ty) :
    Refines ⟨T.scopes.retypeSymbol id t, T.pending⟩ (L.retype id t) where
  distinct := h.distinct.retypeSymbol id t
  nextId := h.nextId
  depth := h.depth
  updated := by
    intro u hu
    obtain rfl | hu := List.mem_cons.1 hu
    · exact hid
    · exact h.updated u hu
  global := h.global.retyped (L.typed_retype id t)
  chain := by
    have hscope : ∀ i, (T.scopes.retypeSymbol id t).scope i =
        (T.scopes.scope i).map (Symbol.retyped id t) := fun i => T.scopes.slot_retyped id t (some i)
    have hsize : (T.scopes.retypeSymbol id t).entered.size = T.scopes.entered.size := by
      simp [Scopes.retypeSymbol]
    rw [hsize]
    refine h.chain.imp fun i _ f hf => ?_
    rw [hscope]
    exact hf.retyped (L.typed_retype id t)

lemma define (h : Refines T L) (name : String) (kind : SymbolKind) (type : Option Ty)
    (isConst : Bool) (origin : Origin) :
    Option.Rel Alike (T.step (.define name kind type isConst origin))
      (L.step (.define name kind type isConst origin)) := by
  have hname := h.innermost name
  cases hin : L.innermost name with
  | some x =>
    have hdefine : T.scopes.define name kind type isConst origin = .error (.redeclared name) := by
      simp [Scopes.define, hname, hin]
    simp only [Table.step, Lexical.step, hdefine, hin]
    exact .some ⟨rfl, h⟩
  | none =>
    have hdefine : ∃ x scopes, T.scopes.define name kind type isConst origin = .ok (x, scopes) := by
      simp [Scopes.define, hname, hin]
    obtain ⟨x, scopes, hdefine⟩ := hdefine
    obtain ⟨hx, -, rfl⟩ := Scopes.define_eq_ok hdefine
    rw [h.nextId] at hx
    subst hx
    simp only [Table.step, Lexical.step, hdefine, hin]
    refine .some ⟨rfl, h.declare rfl hin ?_ ?_ ?_ ?_ rfl⟩
    · exact Scopes.slot_modifySlot (fun i hi => h.chain.lt i (List.mem_of_head? hi)) _
    all_goals cases T.scopes.locals.head? <;> simp [Scopes.modifySlot, Scopes.modifyScope]

/-- The number of a symbol that a name means is taken. -/
lemma id_lt (h : Refines T L) {name : String} (hx : L.declared? name = some x) :
    x.id < L.nextId := by
  have hlookup : T.scopes.lookup? name = some (L.typed x) := by
    rw [h.lookup?_eq, Lexical.lookup?, hx, Option.map_some]
  obtain ⟨i, hi⟩ := Scopes.has_of_lookup? hlookup
  rw [← h.nextId]
  exact h.distinct.numbered i (L.typed x) hi

lemma update_eq (h : Refines T L) (name : String) (t : Ty) : T.scopes.update name t =
    (L.declared? name).elim (.error (.undeclared name)) fun x =>
      .ok (T.scopes.retypeSymbol x.id t) := by
  have hlookup := h.lookup?_eq name
  rw [Lexical.lookup?] at hlookup
  cases hd : L.declared? name with
  | none =>
    rw [hd] at hlookup
    exact Scopes.update_of_lookup?_eq_none hlookup
  | some x =>
    rw [hd] at hlookup
    exact Scopes.update_eq_retypeSymbol (x := L.typed x) h.distinct h.chain.lt hlookup

lemma update (h : Refines T L) (name : String) (t : Ty) :
    Option.Rel Alike (T.step (.update name t)) (L.step (.update name t)) := by
  simp only [Table.step, Lexical.step, h.update_eq]
  cases hd : L.declared? name with
  | none => exact .some ⟨rfl, h⟩
  | some x => exact .some ⟨rfl, h.retype (h.id_lt hd) t⟩

lemma updateSymbol (h : Refines T L) (id : SymbolId) (name : String) (t : Ty) :
    Option.Rel Alike (T.step (.updateSymbol id name t)) (L.step (.updateSymbol id name t)) := by
  have hlookup := h.lookup?_eq name
  rw [Lexical.lookup?] at hlookup
  simp only [Table.step, Lexical.step, Scopes.updateSymbol, h.update_eq, hlookup]
  cases hd : L.declared? name with
  | none => exact .some ⟨rfl, h⟩
  | some x =>
    by_cases hid : x.id = id
    · subst hid
      simpa using Option.Rel.some ⟨rfl, h.retype (h.id_lt hd) t⟩
    · simpa [hid] using Option.Rel.some ⟨rfl, h⟩

lemma enter (h : Refines T L) : Option.Rel Alike (T.step .enter) (L.step .enter) := by
  refine .some ⟨rfl, h.distinct.of_slots (funext T.scopes.slot_enter) rfl, h.nextId,
    congrArg (· + 1) h.depth, h.updated, h.global, ?_⟩
  have hnew : T.scopes.scope T.scopes.entered.size = [] := by
    simp [Scopes.scope, Array.getD_eq_getD_getElem?]
  simp only [Scopes.scope_enter]
  refine .entered ?_ ?_ h.chain
  · simp [Scopes.enter]
  · rw [hnew]
    exact .empty

lemma exit (h : Refines T L) : Option.Rel Alike (T.step .exit) (L.step .exit) := by
  obtain ⟨⟨global, entered, locals, depth, nextId⟩, pending⟩ := T
  obtain ⟨global', locals', pending', updates, nextId'⟩ := L
  cases h.chain with
  | start => exact .none
  | detached => exact .none
  | entered hi _ hrest =>
    exact .some ⟨rfl, h.distinct.of_slots rfl rfl, h.nextId, congrArg (· - 1) h.depth, h.updated,
      h.global, hrest.mono (Nat.le_of_lt hi)⟩

lemma detach (h : Refines T L) : Option.Rel Alike (T.step .detach) (L.step .detach) := by
  refine .some ⟨rfl, h.distinct.of_slots rfl rfl, h.nextId, rfl, h.updated, h.global, ?_⟩
  rw [h.depth]
  exact .detached h.chain

lemma restore (h : Refines T L) : Option.Rel Alike (T.step .restore) (L.step .restore) := by
  obtain ⟨⟨global, entered, locals, depth, nextId⟩, pending⟩ := T
  obtain ⟨global', locals', pending', updates, nextId'⟩ := L
  cases h.chain with
  | start => exact .none
  | entered => exact .none
  | detached hsaved =>
    exact .some ⟨rfl, h.distinct.of_slots rfl rfl, h.nextId, rfl, h.updated, h.global, hsaved⟩

lemma step (h : Refines T L) (x : Step) : Option.Rel Alike (T.step x) (L.step x) := by
  cases x with
  | define name kind type isConst origin => exact h.define name kind type isConst origin
  | update name t => exact h.update name t
  | updateSymbol id name t => exact h.updateSymbol id name t
  | enter => exact h.enter
  | exit => exact h.exit
  | detach => exact h.detach
  | restore => exact h.restore

/-- Both go the same way together, however many steps they take. -/
lemma run (h : Refines T L) (steps : List Step) :
    Option.Rel Alike (Table.step.run T steps) (Lexical.step.run L steps) := by
  induction steps generalizing T L with
  | nil => exact .some ⟨rfl, h⟩
  | cons x xs ih =>
    have hstep := h.step x
    rw [Machine.run, Machine.run]
    generalize T.step x = a, L.step x = b at hstep
    cases hstep with
    | none => exact .none
    | @some a b hab =>
      obtain ⟨e, T'⟩ := a
      obtain ⟨e', L'⟩ := b
      obtain ⟨rfl, hrefines⟩ := hab
      have hrest := ih hrefines
      simp only [Option.bind_eq_bind, Option.bind_some]
      generalize Table.step.run T' xs = c, Lexical.step.run L' xs = d at hrest
      cases hrest with
      | none => exact .none
      | some hcd => exact .some ⟨congrArg _ hcd.1, hcd.2⟩

end Refines

/-- What failed changes nothing. -/
lemma Table.eq_of_step_error {T T' : Table} {x : Step} {e : SymbolError}
    (h : T.step x = some (some e, T')) : T' = T := by
  have hsettle : ∀ r, T.settle r = (some e, T') → T' = T := by
    rintro (e' | scopes) h <;> simp_all [settle]
  cases x with
  | define | update | updateSymbol => exact hsettle _ (Option.some.inj h)
  | enter | detach => simp [step] at h
  | exit | restore =>
    rw [step] at h
    split at h <;> simp at h

lemma Refines.updateSymbol_eq_ok {T : Table} {L : Lexical} (h : Refines T L) {id : SymbolId}
    {name : String} {t : Ty} {scopes : Scopes}
    (hok : T.scopes.updateSymbol id name t = .ok scopes) :
    (∃ x, T.scopes.lookup? name = some x ∧ x.id = id) ∧ scopes = T.scopes.retypeSymbol id t :=
  Scopes.updateSymbol_eq_ok h.distinct h.chain.lt hok

/-- Whatever steps are taken, scopes answer as the plain account does: each step fits or not and
fails or not, a name means the symbol of the innermost scope that has it, with the type of its
last update, and the depth is that of the scopes in force. A step that fails changes nothing,
and to change the type of a symbol changes no other, since no other has its number. -/
theorem scopes_are_lexical (steps : List Step) :
    (Table.step.run {} steps).map (fun r => (r.1, r.2.scopes.lookup?, r.2.scopes.depth)) =
      (Lexical.step.run {} steps).map (fun r => (r.1, r.2.lookup?, r.2.depth)) ∧
    ∀ es T, Table.step.run {} steps = some (es, T) →
      T.scopes.Distinct ∧
      (∀ x e T', T.step x = some (some e, T') → T' = T) ∧
      ∀ id name t scopes, T.scopes.updateSymbol id name t = .ok scopes →
        (∃ x, T.scopes.lookup? name = some x ∧ x.id = id) ∧
          scopes = T.scopes.retypeSymbol id t := by
  have hrun := Refines.empty.run steps
  generalize Table.step.run {} steps = a, Lexical.step.run {} steps = b at hrun
  cases hrun with
  | none => simp
  | @some a b hab =>
    obtain ⟨hes, hrefines⟩ := hab
    constructor
    · simp [hes, funext hrefines.lookup?_eq, hrefines.depth_eq]
    · intro es T hT
      obtain rfl : a = (es, T) := Option.some.inj hT
      exact ⟨hrefines.distinct, fun _ _ _ => Table.eq_of_step_error,
        fun _ _ _ _ => hrefines.updateSymbol_eq_ok⟩

/-- A function is given its result while the scopes of its caller are set aside. Then the caller
hides its name, and what the name means there is not the function. -/
def foundWhileDetached : List Step :=
  [.define "f" .function none false .unknown, .enter,
    .define "x" .var (some .int) false .unknown, .detach, .updateSymbol 0 "f" .str,
    .updateSymbol 1 "x" .bool, .restore, .define "f" .var (some .bool) false .unknown,
    .updateSymbol 0 "f" .int, .exit]

theorem update_kept_while_detached : ∃ es T scopes,
    Table.step.run {} foundWhileDetached = some (es, T) ∧
      es = [none, none, none, none, none, some (.undeclared "x"), none, none,
        some (.shadowed "f"), none] ∧
      T.scopes.lookup? "f" = some ⟨0, "f", .function, some .str, false, .unknown⟩ ∧
      T.step (.define "f" .var none false .unknown) = some (some (.redeclared "f"), T) ∧
      T.scopes.updateSymbol 0 "f" .int = .ok scopes ∧ scopes = T.scopes.retypeSymbol 0 .int ∧
      T.scopes.Distinct := by
  have hlexical := scopes_are_lexical foundWhileDetached
  refine ⟨_, _, _, rfl, rfl, rfl, rfl, rfl, ?_⟩
  have hreached := hlexical.2 _ _ rfl
  exact ⟨(hreached.2.2 0 "f" .int _ rfl).2, hreached.1⟩

end Scoping

end TypedScript
