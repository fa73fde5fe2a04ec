import TypedScript.Proofs.Relating.Fragments

/-!
# Callables among the fragments

The fragments of a tree have no more callables among them than are counted in the tree.
-/
namespace TypedScript

def Fragment.callable? : Fragment → Option Callable
  | .callable f => some f
  | _ => none

/-- The callables among fragments. -/
def Fragment.callables (fs : List Fragment) : List Callable := fs.filterMap Fragment.callable?

namespace Fragment

variable (fs gs : List Fragment)

@[simp] lemma callables_nil : callables [] = [] := rfl

@[simp] lemma callables_expr (role : Role) (e : Expr) :
    callables (.expr role e :: fs) = callables fs := rfl

@[simp] lemma callables_bare (e : Expr) : callables (.bare e :: fs) = callables fs := rfl

@[simp] lemma callables_callable (f : Callable) :
    callables (.callable f :: fs) = f :: callables fs := rfl

@[simp] lemma callables_append : callables (fs ++ gs) = callables fs ++ callables gs :=
  List.filterMap_append

@[simp] lemma callables_map_bare (es : List Expr) : callables (es.map .bare) = [] := by
  simp [callables, callable?]

variable {fs gs} in
lemma length_callables_append_le {m n : Nat} (hfs : (callables fs).length ≤ m)
    (hgs : (callables gs).length ≤ n) : (callables (fs ++ gs)).length ≤ m + n := by
  rw [callables_append, List.length_append]
  exact Nat.add_le_add hfs hgs

variable {fs} in
lemma mem_callables {f : Callable} : f ∈ callables fs ↔ .callable f ∈ fs := by
  constructor
  · intro h
    obtain ⟨g, hg, hf⟩ := List.mem_filterMap.1 h
    cases g with
    | callable f' => exact Option.some.inj hf ▸ hg
    | _ => cases hf
  · intro h
    exact List.mem_filterMap.2 ⟨_, h, rfl⟩

end Fragment

open Fragment (callables)

mutual

theorem Expr.length_callables_le (role : Role) :
    (e : Expr) → (callables (e.fragments true role)).length ≤ e.callables
  | .template _ ps => by
    have hps := Expr.length_callablesIn_le ps
    simp only [Expr.fragments, Expr.callables, Fragment.callables_expr]
    omega
  | .paren _ x => by
    have hx := Expr.length_callables_le .plain x
    simp only [Expr.fragments, Expr.callables, Fragment.callables_expr]
    omega
  | .binary _ x _ y => by
    have hx := Expr.length_callables_le .plain x
    have hy := Expr.length_callables_le .plain y
    exact Fragment.length_callables_append_le hx hy
  | .unary _ op x => by
    have hx := Expr.length_callables_le .plain x
    simp only [Expr.fragments, Expr.callables, Fragment.callables_expr]
    split
    · simp
    · exact hx
  | .stepBefore _ _ x => by
    have hx := Expr.length_targetCallables_le x
    simp only [Expr.fragments, Expr.callables, Fragment.callables_expr]
    omega
  | .stepAfter _ x _ => by
    have hx := Expr.length_targetCallables_le x
    simp only [Expr.fragments, Expr.callables, Fragment.callables_expr]
    omega
  | .assign _ x _ y => by
    have hx := Expr.length_targetCallables_le x
    have hy := Expr.length_callables_le .plain y
    exact Fragment.length_callables_append_le hx hy
  | .call _ f _ args => by
    have hf := Expr.length_callables_le .opened f
    have hnoted := Expr.length_argumentCallables_le true args
    have hargs := Expr.length_argumentCallables_le false args
    simp only [Expr.fragments, Expr.callables, Fragment.callables_expr]
    split
    · simp only [Fragment.callables_expr, Fragment.callables_append, Fragment.callables_map_bare,
        List.nil_append]
      omega
    · simp only [Fragment.callables_append, List.length_append]
      omega
  | .construct _ _ _ args => by
    have hargs := Expr.length_argumentCallables_le true args
    simp only [Expr.fragments, Expr.callables, Fragment.callables_expr]
    omega
  | .select _ x _ => by
    have hx := Expr.length_callables_le .opened x
    simp only [Expr.fragments, Expr.callables, Fragment.callables_expr]
    omega
  | .optionalSelect _ x _ => by
    have hx := Expr.length_callables_le .plain x
    simp only [Expr.fragments, Expr.callables, Fragment.callables_expr]
    omega
  | .methodCall _ x _ _ args => by
    have hx := Expr.length_callables_le .opened x
    have hargs := Expr.length_argumentCallables_le false args
    exact Fragment.length_callables_append_le hx hargs
  | .index _ x i => by
    have hx := Expr.length_callables_le .opened x
    have hi := Expr.length_callables_le .plain i
    exact Fragment.length_callables_append_le hx hi
  | .await _ x => by
    have hx := Expr.length_callables_le .plain x
    simp only [Expr.fragments, Expr.callables, Fragment.callables_expr]
    omega
  | .typeOf _ x => by
    have hx := Expr.length_callables_le .plain x
    simp only [Expr.fragments, Expr.callables, Fragment.callables_expr]
    omega
  | .instanceOf _ x _ => by
    have hx := Expr.length_callables_le .plain x
    simp only [Expr.fragments, Expr.callables, Fragment.callables_expr]
    omega
  | .range _ x y => by
    have hx := Expr.length_callables_le .plain x
    have hy := Expr.length_callables_le .plain y
    exact Fragment.length_callables_append_le hx hy
  | .conditional _ c x y => by
    have hc := Expr.length_callables_le .plain c
    have hx := Expr.length_callables_le .plain x
    have hy := Expr.length_callables_le .plain y
    simp only [Expr.fragments, Expr.callables, Fragment.callables_expr,
      Fragment.callables_append, List.length_append]
    omega
  | .coalesce _ x y => by
    have hx := Expr.length_callables_le .plain x
    have hy := Expr.length_callables_le .plain y
    exact Fragment.length_callables_append_le hx hy
  | .nonNull _ x => by
    have hx := Expr.length_callables_le .plain x
    simp only [Expr.fragments, Expr.callables, Fragment.callables_expr]
    omega
  | .matchExpr _ x as => by
    have hx := Expr.length_callables_le .plain x
    have has := MatchArm.length_callablesIn_le as
    exact Fragment.length_callables_append_le hx has
  | .classExpr _ c => c.length_callables_le
  | .list _ xs => by
    have hxs := Expr.length_argumentCallables_le true xs
    simp only [Expr.fragments, Expr.callables, Fragment.callables_expr]
    omega
  | .object _ es => by
    have hes := ObjectEntry.length_callablesIn_le es
    simp only [Expr.fragments, Expr.callables, Fragment.callables_expr]
    omega
  | .arrow _ _ _ b _ => b.length_callables_le
  | .literal .. | .ident .. | .this .. | .super .. | .namelessClass .. | .spread .. =>
    Nat.zero_le _
termination_by structural e => e

theorem Expr.length_targetCallables_le :
    (e : Expr) → (callables (e.targetFragments true)).length ≤ e.callables
  | .paren _ x => Expr.length_targetCallables_le x
  | .select _ x _ => Expr.length_callables_le .opened x
  | .index _ x i => by
    have hx := Expr.length_callables_le .opened x
    have hi := Expr.length_callables_le .plain i
    exact Fragment.length_callables_append_le hx hi
  | .ident .. | .literal .. | .template .. | .binary .. | .unary .. | .stepBefore ..
  | .stepAfter .. | .assign .. | .call .. | .construct .. | .optionalSelect ..
  | .methodCall .. | .await .. | .this .. | .super .. | .typeOf .. | .instanceOf .. | .range ..
  | .conditional .. | .coalesce .. | .nonNull .. | .matchExpr .. | .classExpr ..
  | .namelessClass .. | .list .. | .object .. | .arrow .. | .spread .. => Nat.zero_le _
termination_by structural e => e

theorem Expr.length_callablesIn_le :
    (xs : List Expr) → (callables (Expr.fragmentsIn true xs)).length ≤ Expr.callablesIn xs
  | [] => Nat.le_refl _
  | x :: xs => by
    have hx := Expr.length_callables_le .plain x
    have hxs := Expr.length_callablesIn_le xs
    exact Fragment.length_callables_append_le hx hxs
termination_by structural xs => xs

theorem Expr.length_callablesIn?_le :
    (x : Option Expr) → (callables (Expr.fragmentsIn? true x)).length ≤ Expr.callablesIn? x
  | none => Nat.le_refl _
  | some x => Expr.length_callables_le .plain x
termination_by structural x => x

theorem Expr.length_argumentCallables_le (noted : Bool) :
    (xs : List Expr) →
      (callables (Expr.argumentFragments true noted xs)).length ≤ Expr.callablesIn xs
  | [] => Nat.le_refl _
  | .spread _ x :: xs => by
    have hx := Expr.length_callables_le .plain x
    have hxs := Expr.length_argumentCallables_le noted xs
    simp only [Expr.argumentFragments, Expr.callablesIn, Expr.callables]
    cases noted with
    | true =>
      simp only [if_true, Fragment.callables_expr, Fragment.callables_append, List.length_append]
      omega
    | false =>
      simp only [Bool.false_eq_true, if_false, Fragment.callables_bare, Fragment.callables_append,
        List.length_append]
      omega
  | .literal .. :: xs | .template .. :: xs | .ident .. :: xs | .paren .. :: xs
  | .binary .. :: xs | .unary .. :: xs | .stepBefore .. :: xs | .stepAfter .. :: xs
  | .assign .. :: xs | .call .. :: xs | .construct .. :: xs | .select .. :: xs
  | .optionalSelect .. :: xs | .methodCall .. :: xs | .index .. :: xs | .await .. :: xs
  | .this .. :: xs | .super .. :: xs | .typeOf .. :: xs | .instanceOf .. :: xs
  | .range .. :: xs | .conditional .. :: xs | .coalesce .. :: xs | .nonNull .. :: xs
  | .matchExpr .. :: xs | .classExpr .. :: xs | .namelessClass .. :: xs | .list .. :: xs
  | .object .. :: xs | .arrow .. :: xs =>
    Fragment.length_callables_append_le (Expr.length_callables_le .plain _)
      (Expr.length_argumentCallables_le noted xs)
termination_by structural xs => xs

theorem MatchArm.length_callablesIn_le :
    (as : List MatchArm) →
      (callables (MatchArm.fragmentsIn true as)).length ≤ MatchArm.callablesIn as
  | [] => Nat.le_refl _
  | .case p x :: as => by
    have hp := Expr.length_callables_le .plain p
    have hx := Expr.length_callables_le .plain x
    have has := MatchArm.length_callablesIn_le as
    simp only [MatchArm.fragmentsIn, MatchArm.callablesIn, Fragment.callables_append,
      List.length_append]
    split
    · simp only [Fragment.callables_nil, List.length_nil]
      omega
    · omega
  | .otherwise x :: as => by
    have hx := Expr.length_callables_le .plain x
    have has := MatchArm.length_callablesIn_le as
    exact Fragment.length_callables_append_le hx has
termination_by structural as => as

theorem ObjectEntry.length_callablesIn_le :
    (es : List ObjectEntry) →
      (callables (ObjectEntry.fragmentsIn true es)).length ≤ ObjectEntry.callablesIn es
  | [] => Nat.le_refl _
  | .property _ x :: es | .spread x :: es => by
    have hx := Expr.length_callables_le .plain x
    have hes := ObjectEntry.length_callablesIn_le es
    exact Fragment.length_callables_append_le hx hes
termination_by structural es => es

theorem FunctionBody.length_callables_le :
    (b : FunctionBody) → (callables (b.fragments true)).length ≤ b.callables
  | .missing => Nat.le_refl _
  | .block b => b.length_callables_le
  | .expr x => Expr.length_callables_le .plain x
termination_by structural b => b

theorem Block.length_callables_le :
    (b : Block) → (callables (b.fragments true)).length ≤ b.callables
  | ⟨ns, _⟩ => Node.length_callablesIn_le ns
termination_by structural b => b

theorem Block.length_callablesIn?_le :
    (b : Option Block) → (callables (Block.fragmentsIn? true b)).length ≤ Block.callablesIn? b
  | none => Nat.le_refl _
  | some b => b.length_callables_le
termination_by structural b => b

theorem Callable.length_callables_le :
    (f : Callable) → (callables (f.fragments true)).length ≤ f.callables
  | ⟨_, _, _, _, _, b, _, _, _, _⟩ => Nat.succ_le_succ b.length_callables_le
termination_by structural f => f

theorem Callable.length_callablesIn_le :
    (fs : List Callable) →
      (callables (Callable.fragmentsIn true fs)).length ≤ Callable.callablesIn fs
  | [] => Nat.le_refl _
  | f :: fs => by
    have hf := f.length_callables_le
    have hfs := Callable.length_callablesIn_le fs
    exact Fragment.length_callables_append_le hf hfs
termination_by structural fs => fs

theorem Callable.length_callablesIn?_le :
    (f : Option Callable) →
      (callables (Callable.fragmentsIn? true f)).length ≤ Callable.callablesIn? f
  | none => Nat.le_refl _
  | some f => f.length_callables_le
termination_by structural f => f

theorem FieldDecl.length_callablesIn_le :
    (fs : List FieldDecl) →
      (callables (FieldDecl.fragmentsIn true fs)).length ≤ FieldDecl.callablesIn fs
  | [] => Nat.le_refl _
  | ⟨_, _, value, _, _, _, _⟩ :: fs => by
    have hvalue := Expr.length_callablesIn?_le value
    have hfs := FieldDecl.length_callablesIn_le fs
    exact Fragment.length_callables_append_le hvalue hfs
termination_by structural fs => fs

theorem ClassDecl.length_callables_le :
    (c : ClassDecl) → (callables (c.fragments true)).length ≤ c.callables
  | ⟨_, _, _, _, fields, methods, ctor, _, _⟩ => by
    have hfields := FieldDecl.length_callablesIn_le fields
    have hmethods := Callable.length_callablesIn_le methods
    have hctor := Callable.length_callablesIn?_le ctor
    simp only [ClassDecl.fragments, ClassDecl.callables, Fragment.callables_append,
      List.length_append]
    omega
termination_by structural c => c

theorem SwitchClause.length_callablesIn_le :
    (cs : List SwitchClause) →
      (callables (SwitchClause.fragmentsIn true cs)).length ≤ SwitchClause.callablesIn cs
  | [] => Nat.le_refl _
  | ⟨values, b⟩ :: cs => by
    have hvalues := Expr.length_callablesIn_le values
    have hb := b.length_callables_le
    have hcs := SwitchClause.length_callablesIn_le cs
    simp only [SwitchClause.fragmentsIn, SwitchClause.callablesIn, Fragment.callables_append,
      List.length_append]
    omega
termination_by structural cs => cs

theorem Node.length_callables_le :
    (n : Node) → (callables (n.fragments true)).length ≤ n.callables
  | .block b => b.length_callables_le
  | .varDecl _ _ _ value _ => Expr.length_callablesIn?_le value
  | .exprStmt _ x => Expr.length_callables_le .plain x
  | .ret _ value => Expr.length_callablesIn?_le value
  | .ifStmt _ c b other => by
    have hc := Expr.length_callables_le .plain c
    have hb := b.length_callables_le
    have hother := other.length_callables_le
    simp only [Node.fragments, Node.callables, Fragment.callables_append, List.length_append]
    omega
  | .whileLoop _ c b => by
    have hc := Expr.length_callables_le .plain c
    have hb := b.length_callables_le
    exact Fragment.length_callables_append_le hc hb
  | .forLoop _ init c post b => by
    have hinit := init.length_callables_le
    have hc := Expr.length_callablesIn?_le c
    have hpost := Expr.length_callablesIn?_le post
    have hb := b.length_callables_le
    simp only [Node.fragments, Node.callables, Fragment.callables_append, List.length_append]
    omega
  | .forOf _ _ x b => by
    have hx := Expr.length_callables_le .opened x
    have hb := b.length_callables_le
    exact Fragment.length_callables_append_le hx hb
  | .switch _ x cs => by
    have hx := Expr.length_callables_le .plain x
    have hcs := SwitchClause.length_callablesIn_le cs
    exact Fragment.length_callables_append_le hx hcs
  | .throwStmt _ x => Expr.length_callables_le .plain x
  | .tryStmt _ b _ handler final => by
    have hb := b.length_callables_le
    have hhandler := Block.length_callablesIn?_le handler
    have hfinal := Block.length_callablesIn?_le final
    simp only [Node.fragments, Node.callables, Fragment.callables_append, List.length_append]
    omega
  | .function f => f.length_callables_le
  | .classDecl c => c.length_callables_le
  | .empty | .breakStmt _ | .continueStmt _ | .interfaceDecl _ | .enumDecl _ | .aliasDecl _
  | .field _ | .method _ | .expr _ | .typeNode _ => Nat.le_refl _
termination_by structural n => n

theorem Node.length_callablesIn_le :
    (ns : List Node) → (callables (Node.fragmentsIn true ns)).length ≤ Node.callablesIn ns
  | [] => Nat.le_refl _
  | n :: ns => by
    have hn := n.length_callables_le
    have hns := Node.length_callablesIn_le ns
    exact Fragment.length_callables_append_le hn hns
termination_by structural ns => ns

end

end TypedScript
