import Mathlib.Data.List.Pairwise
import TypedScript.Proofs.Accepted

/-!
# Null safety of accepted programs

Where a program has no errors, null is no value of what is taken apart: of a receiver, an
indexed object, a callee or what a loop goes over. Each way of taking a value apart refuses
every type with null in it, so a type that was noted for such an expression and let pass has
none, whatever way it was found.
-/
namespace TypedScript

def Fragment.exprId? : Fragment → Option NodeId
  | .expr _ e => some e.id
  | .bare e => some e.id
  | .callable _ => none

/-- The numbers of the expressions in a tree, one for each place. -/
def Node.exprIds (nodes : List Node) : List NodeId :=
  (Node.fragmentsIn true nodes).filterMap Fragment.exprId?

/-- The numbers of the expressions whose values are taken apart. -/
def Node.openedIds (nodes : List Node) : Set NodeId :=
  { i | ∃ e, .expr .opened e ∈ Node.fragmentsIn true nodes ∧ e.id = i }

lemma Node.eq_of_exprId? {nodes : List Node} (hids : (Node.exprIds nodes).Nodup) {g g' : Fragment}
    (hg : g ∈ Node.fragmentsIn true nodes) (hg' : g' ∈ Node.fragmentsIn true nodes) {i : NodeId}
    (hi : g.exprId? = some i) (hi' : g'.exprId? = some i) : g = g' := by
  have hsymm : Std.Symm fun g g' : Fragment =>
      ∀ i, g.exprId? = some i → ∀ j, g'.exprId? = some j → i ≠ j :=
    ⟨fun _ _ h i hi j hj hij => h j hj i hi hij.symm⟩
  by_contra hne
  exact (List.pairwise_filterMap.1 hids).forall hg hg' hne i hi i hi' rfl

/-- Where expressions have numbers of their own, all fragments fit. -/
lemma Accepted.fits_of_nodup {nodes : List Node} (hids : (Node.exprIds nodes).Nodup) :
    ∀ g ∈ Node.fragmentsIn true nodes, Fits (Node.openedIds nodes) (fun _ => ∅) g := by
  intro g hg
  rcases g with ⟨_ | _, e⟩ | e | f
  · rintro ⟨e', he', hid⟩
    cases Node.eq_of_exprId? hids hg he' rfl (congrArg some hid)
  · trivial
  · rintro ⟨e', he', hid⟩
    cases Node.eq_of_exprId? hids hg he' rfl (congrArg some hid)
  · exact Set.empty_subset _

/-- In a program without errors, checked with the usual builtins, the type noted for a
receiver, an indexed object, a callee or an iterable is neither null nor a nullable nor a
union with one of these among its members, once it is dereferenced in the scopes that it was
found in. -/
theorem opened_values_present {program : Program} {options : Options} {s : Session}
    (hids : (Node.exprIds program.nodes).Nodup) (hbuiltins : options.builtins = .standard)
    (hrun : Analysis.run (some program) options = .ok s) (haccepted : s.errorCount = 0)
    {e : Expr} (he : .expr .opened e ∈ Node.fragmentsIn true program.nodes) :
    ∀ f ∈ s.types, f.id = e.id → (f.scopes.deref f.type).mayBeNull = false := by
  have houtcome := Accepted.passes (Node.openedIds program.nodes) (fun _ => ∅)
    (Analysis.optionsFor (some program) options) (Accepted.fits_of_nodup hids)
  rw [Accepted.passes_of_run hrun haccepted] at houtcome
  have hstandard : s.options.builtins = .standard := by
    rw [houtcome.grown.options, ← hbuiltins]
    unfold Analysis.optionsFor
    dsimp only
    split <;> rfl
  intro f hf hid
  obtain hf | hpresent := (houtcome.clean haccepted trivial).types f hf
  · cases hf
  · exact hpresent ⟨e, he, hid.symm⟩ hstandard

/-- The program `let s: str? = null; if (s != null) { s.length; }`. -/
def guardedLength : Program :=
  ⟨"m.te", [.varDecl {} ⟨"s", {}⟩ (.nullable {} (.named {} "str" []))
      (some (.literal ⟨1, {}⟩ .null "null")) false,
    .ifStmt {} (.binary ⟨2, {}⟩ (.ident ⟨3, {}⟩ "s") .notEq (.literal ⟨4, {}⟩ .null "null"))
      ⟨[.exprStmt {} (.select ⟨5, {}⟩ (.ident ⟨6, {}⟩ "s") ⟨"length", {}⟩)], {}⟩ .empty]⟩

/-- The receiver was declared as a nullable, and a type without null was noted for it. -/
theorem guarded_receiver_present :
    ∃ s, Analysis.run (some guardedLength) {} = .ok s ∧ s.errorCount = 0 ∧
      (∃ f ∈ s.types, f.id = 6) ∧
      ∀ f ∈ s.types, f.id = 6 → (f.scopes.deref f.type).mayBeNull = false := by
  have hrun : (Analysis.run (some guardedLength) {}).map (fun s =>
      (s.errorCount, s.types.any fun f => f.id == 6)) = .ok (0, true) := by decide +kernel
  cases hs : Analysis.run (some guardedLength) {} with
  | error m =>
    rw [hs] at hrun
    cases hrun
  | ok s =>
    rw [hs] at hrun
    obtain ⟨hcount, hany⟩ := Prod.ext_iff.1 (Except.ok.inj hrun)
    obtain ⟨f, hf, hid⟩ := List.any_eq_true.1 hany
    refine ⟨s, rfl, hcount, ⟨f, hf, beq_iff_eq.1 hid⟩, ?_⟩
    exact opened_values_present (by decide) rfl hs hcount (e := .ident ⟨6, {}⟩ "s")
      (by simp [guardedLength, Node.fragmentsIn, Node.fragments, Expr.fragments, Expr.fragmentsIn?,
        Block.fragments])

end TypedScript
