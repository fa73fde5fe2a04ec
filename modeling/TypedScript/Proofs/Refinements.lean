import TypedScript.Narrowing.Stack
import TypedScript.Proofs.Stacks

/-!
# Refinements of one variable

Frames hold refinements of many names, and of several variables with the same name. Seen from
one variable the frames in force are a stack of what each of them knows of it: pushing adds
what the new frame knows, popping takes it away, and forgetting puts the declared type in the
place of all that is known. Nothing that is done about other variables shows.
-/
namespace TypedScript

/-! ## Frames -/

namespace Frame

/-- A reset shows in the refinement that it is for, if there is one. -/
lemma lookup?_reset (f : Frame) (name key : String) (meaning id : Option SymbolId) (t : Ty) :
    (f.reset name meaning t).lookup? key id =
      if key = name ∧ id = meaning then (f.lookup? key id).map fun _ => t
      else f.lookup? key id := by
  have hname : ((fun r : Refinement => r.name == key) ∘ fun r =>
      if r.name = name ∧ r.binding = meaning then { r with type := t } else r) =
      fun r => r.name == key := by
    funext r
    dsimp only [Function.comp_apply]
    split <;> rfl
  unfold lookup? reset
  rw [List.find?_map, hname]
  cases hr : List.find? (fun r => r.name == key) f with
  | none => simp
  | some r =>
    have hkey : r.name = key := by simpa using List.find?_some hr
    subst hkey
    by_cases hreset : r.name = name ∧ r.binding = meaning
    · simp only [Option.map_some, if_pos hreset]
      by_cases hid : r.binding = id
      · simp [hid, hreset.1, ← hreset.2]
      · simp [hid]
    · simp only [Option.map_some, if_neg hreset]
      by_cases hid : r.binding = id
      · have hother : ¬ (r.name = name ∧ id = meaning) := hid ▸ hreset
        simp [hid, hother]
      · simp [hid]

/-- A frame knows of a variable what its narrowings say of the name, if the name meant the
variable when the frame was made. -/
lemma lookup?_map (bind : Binder) (n : Narrowings) (name : String) (id : Option SymbolId) :
    lookup? (n.map fun e => ⟨e.1, e.2, bind e.1⟩) name id =
      if bind name = id then n.get? name else none := by
  simp only [lookup?, List.find?_map, Subst.get?, ByName.find?, Function.comp_def]
  cases he : List.find? (fun e => e.1 == name) n with
  | none => simp
  | some e =>
    obtain rfl : e.1 = name := by simpa using List.find?_some he
    simp

end Frame

namespace SharedStack

variable {α : Type} {s t : SharedStack α}

lemma toList_of_pop? (h : s.pop? = some t) : t.toList = s.toList.tail := by
  unfold pop? at h
  split at h
  · cases h
  · cases h
    have htake : s.height - 1 = min (min s.height (s.row s.top.row).items.length - 1) s.height := by
      have hle : s.height ≤ (s.row s.top.row).items.length := s.isIn.2
      omega
    simp only [toList, under, List.tail_reverse, List.dropLast_eq_take, List.length_take,
      List.take_take]
    exact congrArg (fun n => (List.take n (s.row s.top.row).items).reverse) htake

end SharedStack

namespace NarrowingStack

variable (s : NarrowingStack)

lemma frame_push_of_lt (bind : Binder) (n : Narrowings) {i : FrameId} (hi : i < s.pushed.size) :
    (s.push bind n).frame i = s.frame i := by
  simp [frame, push, Array.getD_eq_getD_getElem?, Array.getElem?_push, Nat.ne_of_lt hi]

lemma frame_push_size (bind : Binder) (n : Narrowings) :
    (s.push bind n).frame s.pushed.size = n.map fun e => ⟨e.1, e.2, bind e.1⟩ := by
  simp [frame, push, Array.getD_eq_getD_getElem?]

/-- A change that is the same when made twice, made to some of the frames. -/
lemma getD_foldl_modify {g : Frame → Frame} (htwice : ∀ f, g (g f) = g f) (hnil : g [] = [])
    (is : List FrameId) (frames : Array Frame) (i : FrameId) :
    (is.foldl (fun frames j => frames.modify j g) frames).getD i [] =
      if i ∈ is then g (frames.getD i []) else frames.getD i [] := by
  have hmodify (frames : Array Frame) (j : FrameId) : (frames.modify j g).getD i [] =
      if i = j then g (frames.getD i []) else frames.getD i [] := by
    simp only [Array.getD_eq_getD_getElem?, Array.getElem?_modify]
    by_cases hj : j = i
    · subst hj
      cases frames[j]? <;> simp [hnil]
    · simp [hj, Ne.symm hj]
  induction is generalizing frames with
  | nil => simp
  | cons j is ih =>
    rw [List.foldl_cons, ih, hmodify]
    by_cases hj : i = j
    · by_cases his : i ∈ is <;> simp [hj, htwice]
    · simp [hj]

/-- What is forgotten is forgotten in all frames in force. -/
lemma frame_forget (bind : Binder) (name : String) (t : Ty) (i : FrameId) :
    (s.forget bind name t).frame i =
      if i ∈ s.stack.toList then (s.frame i).reset name (bind name) t else s.frame i := by
  refine getD_foldl_modify (fun f => ?_) rfl _ _ _
  simp only [Frame.reset, List.map_map]
  refine List.map_congr_left fun r _ => ?_
  dsimp only [Function.comp_apply]
  by_cases hr : r.name = name ∧ r.binding = bind name
  · simp [hr]
  · simp [hr]

lemma size_forget (bind : Binder) (name : String) (t : Ty) :
    (s.forget bind name t).pushed.size = s.pushed.size := by
  unfold forget
  dsimp only
  generalize s.pushed = frames
  induction s.stack.toList generalizing frames with
  | nil => rfl
  | cons i is ih => rw [List.foldl_cons, ih, Array.size_modify]

/-- The frames in force are among those that were pushed. -/
def LivePushed : Prop := ∀ i ∈ s.stack.toList, i < s.pushed.size

/-- What each frame in force knows of a name with this meaning, innermost first. -/
def knows (name : String) (meaning : Option SymbolId) : List (Option Ty) :=
  s.live.map fun f => f.lookup? name meaning

lemma lookup?_eq (bind : Binder) (name : String) :
    s.lookup? bind name = (s.knows name (bind name)).findSome? id := by
  rw [lookup?, knows, List.findSome?_map]
  rfl

variable {s} {t : NarrowingStack} {name : String} {meaning : Option SymbolId}

/-! ## What is done to a stack -/

lemma toList_push (bind : Binder) (n : Narrowings) :
    (s.push bind n).stack.toList = s.pushed.size :: s.stack.toList :=
  SharedStack.toList_push _ _ _

lemma LivePushed.push (hs : s.LivePushed) (bind : Binder) (n : Narrowings) :
    (s.push bind n).LivePushed := by
  intro i hi
  rw [toList_push, List.mem_cons] at hi
  rw [NarrowingStack.push, Array.size_push]
  obtain rfl | hi := hi
  · exact Nat.lt_succ_self _
  · exact Nat.lt_succ_of_lt (hs i hi)

lemma knows_push (hs : s.LivePushed) (bind : Binder) (n : Narrowings) :
    (s.push bind n).knows name meaning =
      (if bind name = meaning then n.get? name else none) :: s.knows name meaning := by
  have hframes : s.stack.toList.map (s.push bind n).frame = s.live :=
    List.map_congr_left fun i hi => s.frame_push_of_lt bind n (hs i hi)
  rw [knows, live, toList_push, List.map_cons, List.map_cons, hframes, frame_push_size,
    Frame.lookup?_map, knows]

/-- Popping takes the innermost frame away. -/
lemma of_pop (h : s.pop = .ok t) : t.pushed = s.pushed ∧ t.stack.toList = s.stack.toList.tail := by
  unfold pop at h
  split at h
  · cases h
  · rename_i stack hstack
    cases h
    exact ⟨rfl, SharedStack.toList_of_pop? hstack⟩

lemma LivePushed.pop (hs : s.LivePushed) (h : s.pop = .ok t) : t.LivePushed := by
  obtain ⟨hpushed, hstack⟩ := of_pop h
  intro i hi
  rw [hstack] at hi
  rw [hpushed]
  exact hs i (List.mem_of_mem_tail hi)

lemma knows_pop (h : s.pop = .ok t) : t.knows name meaning = (s.knows name meaning).tail := by
  obtain ⟨hpushed, hstack⟩ := of_pop h
  have hframe : t.frame = s.frame := by
    funext i
    rw [frame, frame, hpushed]
  rw [knows, live, hstack, hframe, List.map_tail, List.map_tail, knows, live]

lemma LivePushed.forget (hs : s.LivePushed) (bind : Binder) (key : String) (declared : Ty) :
    (s.forget bind key declared).LivePushed := by
  intro i hi
  rw [size_forget]
  exact hs i hi

lemma knows_forget (bind : Binder) (key : String) (declared : Ty) :
    (s.forget bind key declared).knows name meaning =
      if name = key ∧ meaning = bind key then
        (s.knows name meaning).map (Option.map fun _ => declared)
      else s.knows name meaning := by
  have hframes : (s.forget bind key declared).live =
      s.live.map fun f => f.reset key (bind key) declared := by
    rw [live, live, List.map_map]
    refine List.map_congr_left fun i hi => ?_
    exact (s.frame_forget bind key declared i).trans (if_pos hi)
  rw [knows, hframes, List.map_map]
  simp only [Function.comp_def, Frame.lookup?_reset]
  split
  · rw [knows, List.map_map]
    rfl
  · rfl

/-- A frame is popped if there is one. -/
lemma pop_eq_ok (h : 0 < s.depth) : ∃ t, s.pop = .ok t ∧ t.depth + 1 = s.depth := by
  obtain ⟨stack, hstack, -, htop⟩ := SharedStack.pop?_of_height_pos h
  refine ⟨{ s with stack }, by rw [pop, hstack], ?_⟩
  change stack.top.height + 1 = s.stack.height
  rw [htop]
  exact Nat.succ_pred_eq_of_pos h

lemma depth_pos_of_pop (h : s.pop = .ok t) : 0 < s.depth := by
  refine Nat.pos_of_ne_zero fun hzero => ?_
  have hnone : s.stack.pop? = none := if_pos hzero
  rw [pop, hnone] at h
  cases h

/-- Whether a frame can be popped depends on how many there are. -/
lemma pop_of_depth (h : s.pop = .ok t) {u : NarrowingStack} (hu : u.depth = s.depth) :
    ∃ v, u.pop = .ok v ∧ v.depth = t.depth := by
  have hpos := depth_pos_of_pop h
  obtain ⟨t', ht', ht⟩ := pop_eq_ok hpos
  obtain rfl : t' = t := Except.ok.inj (ht'.symm.trans h)
  obtain ⟨v, hv, hdepth⟩ := pop_eq_ok (hu ▸ hpos)
  exact ⟨v, hv, by omega⟩

/-! ## Sequences of operations -/

/-- Something that is done to a stack, with what names mean at that time. -/
inductive Operation where
  | push (bind : Binder) (n : Narrowings)
  | pop
  | forget (bind : Binder) (name : String) (declared : Ty)

namespace Operation

def run : Operation → NarrowingStack → Except Misuse NarrowingStack
  | push bind n, s => .ok (s.push bind n)
  | pop, s => s.pop
  | forget bind name declared, s => .ok (s.forget bind name declared)

/-- What becomes of the refinements of one variable, innermost first, each of them the type
that a frame in force gives to the variable, if it does. -/
def refine (name : String) (meaning : Option SymbolId) (known : List (Option Ty)) :
    Operation → List (Option Ty)
  | push bind n => (if bind name = meaning then n.get? name else none) :: known
  | pop => known.tail
  | forget bind key declared =>
    if name = key ∧ meaning = bind key then known.map (Option.map fun _ => declared) else known

/-- The operation resets what is known of the variable. -/
def Resets (name : String) (meaning : Option SymbolId) : Operation → Prop
  | forget bind key _ => name = key ∧ meaning = bind key
  | _ => False

/-- Do one operation after the other. -/
def runAll (ops : List Operation) (s : NarrowingStack) : Except Misuse NarrowingStack :=
  ops.foldlM (fun s op => op.run s) s

/-- The refinements of a variable in the frames that the operations push and do not pop. -/
def refined (ops : List Operation) (name : String) (meaning : Option SymbolId) :
    List (Option Ty) :=
  ops.foldl (refine name meaning) []

variable {op : Operation} {ops : List Operation}

lemma livePushed_run (hs : s.LivePushed) (h : op.run s = .ok t) : t.LivePushed := by
  cases op with
  | push bind n =>
    cases h
    exact hs.push bind n
  | pop => exact hs.pop h
  | forget bind key declared =>
    cases h
    exact hs.forget bind key declared

/-- One operation does to what the frames know of a variable what it does to its refinements. -/
lemma knows_run (hs : s.LivePushed) (h : op.run s = .ok t) (name : String)
    (meaning : Option SymbolId) :
    t.knows name meaning = op.refine name meaning (s.knows name meaning) := by
  cases op with
  | push bind n =>
    cases h
    exact knows_push hs bind n
  | pop => exact knows_pop h
  | forget bind key declared =>
    cases h
    exact knows_forget bind key declared

lemma run_of_depth (h : op.run s = .ok t) {u : NarrowingStack} (hu : u.depth = s.depth) :
    ∃ v, op.run u = .ok v ∧ v.depth = t.depth := by
  cases op with
  | push bind n =>
    cases h
    exact ⟨_, rfl, by simp [hu]⟩
  | pop => exact pop_of_depth h hu
  | forget bind key declared =>
    cases h
    exact ⟨_, rfl, hu⟩

lemma runAll_cons (h : runAll (op :: ops) s = .ok t) :
    ∃ u, op.run s = .ok u ∧ runAll ops u = .ok t := by
  rw [runAll, List.foldlM_cons] at h
  cases hrun : op.run s with
  | error e =>
    rw [hrun] at h
    cases h
  | ok u =>
    rw [hrun] at h
    exact ⟨u, rfl, h⟩

lemma knows_runAll (hs : s.LivePushed) (h : runAll ops s = .ok t) (name : String)
    (meaning : Option SymbolId) :
    t.knows name meaning = ops.foldl (refine name meaning) (s.knows name meaning) := by
  induction ops generalizing s with
  | nil =>
    cases h
    rfl
  | cons op ops ih =>
    obtain ⟨u, hu, hrest⟩ := runAll_cons h
    rw [List.foldl_cons, ih (livePushed_run hs hu) hrest, knows_run hs hu]

lemma runAll_of_depth (h : runAll ops s = .ok t) {u : NarrowingStack} (hu : u.depth = s.depth) :
    ∃ v, runAll ops u = .ok v := by
  induction ops generalizing s u with
  | nil => exact ⟨u, rfl⟩
  | cons op ops ih =>
    obtain ⟨s', hs', hrest⟩ := runAll_cons h
    obtain ⟨u', hu', hdepth⟩ := run_of_depth hs' hu
    obtain ⟨v, hv⟩ := ih hrest hdepth
    refine ⟨v, ?_⟩
    rw [runAll, List.foldlM_cons, hu']
    exact hv

/-- Operations add refinements on top and take old ones away from the top. Unless they reset
the variable, they leave the rest of the old ones as they are. -/
lemma foldl_refine (hops : ∀ op ∈ ops, ¬ op.Resets name meaning) :
    ∃ k, ∀ known, ops.foldl (refine name meaning) known =
      refined ops name meaning ++ known.drop k := by
  induction ops with
  | nil => exact ⟨0, fun known => rfl⟩
  | cons op ops ih =>
    obtain ⟨k, hk⟩ := ih fun op hop => hops op (List.mem_cons_of_mem _ hop)
    have hop := hops op List.mem_cons_self
    simp only [refined, List.foldl_cons] at hk ⊢
    cases op with
    | push bind n =>
      refine ⟨k - 1, fun known => ?_⟩
      rw [hk, hk (Operation.refine name meaning [] _), List.append_assoc]
      -- The new refinement itself is taken away again unless nothing is.
      cases k <;> simp [Operation.refine]
    | pop => exact ⟨k + 1, fun known => by simp [Operation.refine, hk known.tail]⟩
    | forget bind key declared =>
      have hother : ¬ (name = key ∧ meaning = bind key) := hop
      exact ⟨k, fun known => by simp only [Operation.refine, if_neg hother, hk known]⟩

lemma findSome?_map_reset (declared : Ty) (known : List (Option Ty)) :
    (known.map (Option.map fun _ => declared)).findSome? id =
      (known.findSome? id).map fun _ => declared := by
  induction known with
  | nil => rfl
  | cons t known ih => cases t <;> simp_all

/-- After operations on a new stack the frames know the refinements that they made. -/
lemma knows_eq_refined (h : runAll ops {} = .ok t) (name : String) (meaning : Option SymbolId) :
    t.knows name meaning = refined ops name meaning :=
  knows_runAll (s := {}) (fun _ hi => by cases hi) h name meaning

lemma lookup?_eq_refined (h : runAll ops {} = .ok t) (bind : Binder) (name : String) :
    t.lookup? bind name = (refined ops name (bind name)).findSome? id := by
  rw [lookup?_eq, knows_eq_refined h]

/-- Forgetting something on the way does not keep later operations from being done. -/
lemma runAll_forget {later : List Operation} (h : runAll (ops ++ later) {} = .ok t) (bind : Binder)
    (name : String) (declared : Ty) :
    ∃ u, runAll (ops ++ forget bind name declared :: later) {} = .ok u := by
  unfold runAll at h ⊢
  rw [List.foldlM_append] at h ⊢
  cases hs : ops.foldlM (fun s op => op.run s) ({} : NarrowingStack) with
  | error e =>
    rw [hs] at h
    cases h
  | ok s =>
    rw [hs] at h
    exact runAll_of_depth (u := s.forget bind name declared) h rfl

end Operation

open Operation

/-- The narrowings are, for each variable, a stack of refinements. A lookup finds the innermost
of them. Suppose that a variable is forgotten on the way. If it is not forgotten again, a lookup
finds what frames say that were pushed since, and else the declared type in the place of
anything that it would have found, however many frames have been popped. For all other variables,
also for those of the same name, nothing changes. -/
theorem lookups_follow_bindings (ops later : List Operation) (bind : Binder) (name : String)
    (declared : Ty) (t : NarrowingStack) (ht : runAll (ops ++ later) {} = .ok t) :
    (∀ now key, t.lookup? now key = (refined (ops ++ later) key (now key)).findSome? id) ∧
    ∃ u, runAll (ops ++ .forget bind name declared :: later) {} = .ok u ∧
      (∀ now, now name = bind name → (∀ op ∈ later, ¬ op.Resets name (bind name)) →
        u.lookup? now name = ((refined later name (bind name)).findSome? id).or
          ((t.lookup? now name).map fun _ => declared)) ∧
      ∀ now key, ¬ (key = name ∧ now key = bind name) → u.lookup? now key = t.lookup? now key := by
  obtain ⟨u, hu⟩ := runAll_forget ht bind name declared
  refine ⟨lookup?_eq_refined ht, u, hu, fun now hnow hlater => ?_, fun now key hother => ?_⟩
  · obtain ⟨k, hk⟩ := foldl_refine hlater
    have hforgotten : refined (ops ++ .forget bind name declared :: later) name (bind name) =
        refined later name (bind name) ++
          ((refined ops name (bind name)).drop k).map (Option.map fun _ => declared) := by
      rw [refined, List.foldl_append, List.foldl_cons, hk, Operation.refine, if_pos ⟨rfl, rfl⟩,
        List.map_drop]
      rfl
    have hkept : refined (ops ++ later) name (bind name) =
        refined later name (bind name) ++ (refined ops name (bind name)).drop k := by
      rw [refined, List.foldl_append, hk]
      rfl
    rw [lookup?_eq_refined hu, lookup?_eq_refined ht, hnow, hforgotten, hkept,
      List.findSome?_append, List.findSome?_append, findSome?_map_reset]
    cases (refined later name (bind name)).findSome? id <;> rfl
  · rw [lookup?_eq_refined hu, lookup?_eq_refined ht, refined, refined, List.foldl_append,
      List.foldl_append, List.foldl_cons, Operation.refine, if_neg hother]

/-- The name `x` means the variable of this number. -/
def meansX (id : SymbolId) : Binder := fun name => if name = "x" then some id else none

/-- A variable is known to be an integer. It is forgotten in a frame that knows another variable
of its name, and has its declared type after that frame is popped. A new frame refines it, and
once that is popped too the declared type shows again. -/
theorem forgotten_after_pops :
    ∃ u, runAll ([.push (meansX 0) [("x", .int)], .push (meansX 1) [("x", .str)]] ++
        .forget (meansX 0) "x" (.nullable .int) ::
          [.pop, .push (meansX 0) [("x", .int)], .pop]) {} = .ok u ∧
      u.lookup? (meansX 0) "x" = some (.nullable .int) ∧ u.lookup? (meansX 1) "x" = none := by
  obtain ⟨-, u, hu, hforgotten, hother⟩ := lookups_follow_bindings
    [.push (meansX 0) [("x", .int)], .push (meansX 1) [("x", .str)]]
    [.pop, .push (meansX 0) [("x", .int)], .pop] (meansX 0) "x" (.nullable .int) _ rfl
  refine ⟨u, hu, (hforgotten (meansX 0) rfl ?_).trans rfl, (hother (meansX 1) "x" ?_).trans rfl⟩
  · simp [Resets]
  · decide

end NarrowingStack

end TypedScript
