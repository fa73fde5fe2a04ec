/-!
# Lists kept by name

A list of named things in increasing order of their names, each name once. Looking
a name up is a search; inserting replaces an earlier entry of the same name.
-/
namespace TypedScript.ByName

variable {α : Type}

/-- Put `a` at its place, in the stead of an entry with the same name. -/
def insert (name : α → String) (a : α) : List α → List α
  | [] => [a]
  | b :: rest =>
    if name a < name b then a :: b :: rest
    else if name a = name b then a :: rest
    else b :: insert name a rest

def find? (name : α → String) (n : String) (entries : List α) : Option α :=
  entries.find? fun a => name a == n

/-- The list that results from inserting all of `entries`, a later entry winning. -/
def ofList (name : α → String) (entries : List α) : List α :=
  entries.foldl (fun table a => insert name a table) []

@[simp] theorem find?_insert_self (name : α → String) (a : α) (entries : List α) :
    find? name (name a) (insert name a entries) = some a := by
  induction entries with
  | nil => simp [insert, find?]
  | cons b rest ih =>
    unfold insert
    split
    · simp [find?]
    · split
      · simp [find?]
      · rename_i h
        have hb : (name b == name a) = false := by simpa using fun e => h e.symm
        simpa [find?, hb] using ih

theorem find?_insert_of_ne (name : α → String) (a : α) (n : String) (entries : List α)
    (h : n ≠ name a) : find? name n (insert name a entries) = find? name n entries := by
  have ha : (name a == n) = false := by simpa using fun e => h e.symm
  induction entries with
  | nil => simp [insert, find?, ha]
  | cons b rest ih =>
    unfold insert
    split
    · simp [find?, ha]
    · split
      · rename_i hab
        have hb : (name b == n) = false := by rw [← hab]; exact ha
        simp [find?, ha, hb]
      · simp only [find?, List.find?_cons] at ih ⊢
        rw [ih]

theorem mem_insert {name : α → String} {a b : α} {entries : List α}
    (h : b ∈ insert name a entries) : b = a ∨ b ∈ entries := by
  induction entries with
  | nil => exact .inl (List.mem_singleton.1 h)
  | cons c rest ih =>
    unfold insert at h
    split at h
    · exact List.mem_cons.1 h
    · split at h
      · exact (List.mem_cons.1 h).imp_right (List.mem_cons_of_mem _)
      · rcases List.mem_cons.1 h with rfl | h
        · exact .inr List.mem_cons_self
        · exact (ih h).imp_right (List.mem_cons_of_mem _)

end TypedScript.ByName
