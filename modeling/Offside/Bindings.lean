/-!
# Bindings

A finite map from names, in the order in which the names were first bound.
Binding a name again replaces its value in place.

Everything else is proved from `get?_set`, the one law of lookup.
-/

namespace Offside

/-- Values bound to names. -/
structure Bindings (α : Type) where
  /-- The names with their values, in the order of first binding. -/
  entries : List (String × α)
deriving Repr, DecidableEq

namespace Bindings

variable {α : Type}

/-- No name is bound. -/
def empty : Bindings α := ⟨[]⟩

instance : Inhabited (Bindings α) := ⟨empty⟩

/-- Looks a name up among entries. -/
def find? (name : String) : List (String × α) → Option α
  | [] => none
  | (bound, value) :: rest => if bound = name then some value else find? name rest

/-- Replaces the value of a name among entries, or adds the name at the end. -/
def replace (name : String) (value : α) : List (String × α) → List (String × α)
  | [] => [(name, value)]
  | (bound, old) :: rest =>
    if bound = name then (bound, value) :: rest else (bound, old) :: replace name value rest

/-- The value of a name. -/
def get? (bindings : Bindings α) (name : String) : Option α :=
  find? name bindings.entries

/-- Binds a name. -/
def set (bindings : Bindings α) (name : String) (value : α) : Bindings α :=
  ⟨replace name value bindings.entries⟩

/-- Binds names one after another. -/
def setAll (bindings : Bindings α) (pairs : List (String × α)) : Bindings α :=
  pairs.foldl (fun bound pair => bound.set pair.1 pair.2) bindings

/-- The bindings of a list of names and values, where a later value wins. -/
def ofList (pairs : List (String × α)) : Bindings α :=
  empty.setAll pairs

/-- The bound names. -/
def names (bindings : Bindings α) : List String :=
  bindings.entries.map Prod.fst

/-- The names whose values are kept by a partial function, with what it gives. -/
def filterMap {β : Type} (bindings : Bindings α) (keep : α → Option β) : Bindings β :=
  ⟨bindings.entries.filterMap fun entry => (keep entry.2).map fun value => (entry.1, value)⟩

private theorem find?_replace (name other : String) (value : α) (entries : List (String × α)) :
    find? other (replace name value entries) =
      if name = other then some value else find? other entries := by
  induction entries with
  | nil => simp [replace, find?]
  | cons entry rest ih =>
    obtain ⟨bound, old⟩ := entry
    by_cases hbound : bound = name
    · subst hbound
      by_cases hother : bound = other <;> simp [replace, find?, hother]
    · by_cases hother : bound = other
      · subst hother
        simp [replace, find?, hbound, Ne.symm hbound]
      · simp [replace, find?, hbound, hother, ih]

@[simp] theorem setAll_nil (bindings : Bindings α) : bindings.setAll [] = bindings := rfl

@[simp] theorem setAll_cons (bindings : Bindings α) (pair : String × α)
    (pairs : List (String × α)) :
    bindings.setAll (pair :: pairs) = (bindings.set pair.1 pair.2).setAll pairs := rfl

@[simp] theorem get?_empty (name : String) : (empty : Bindings α).get? name = none := rfl

/-- Binding a name changes the lookup of that name only. -/
theorem get?_set (bindings : Bindings α) (name other : String) (value : α) :
    (bindings.set name value).get? other =
      if name = other then some value else bindings.get? other :=
  find?_replace name other value bindings.entries

@[simp] theorem get?_set_self (bindings : Bindings α) (name : String) (value : α) :
    (bindings.set name value).get? name = some value := by
  simp [get?_set]

/-- The bound names are those that have a value. -/
theorem mem_names {bindings : Bindings α} {name : String} :
    name ∈ bindings.names ↔ (bindings.get? name).isSome := by
  obtain ⟨entries⟩ := bindings
  simp only [names, get?]
  induction entries with
  | nil => simp [find?]
  | cons entry rest ih =>
    obtain ⟨bound, value⟩ := entry
    by_cases hbound : bound = name
    · simp [find?, hbound]
    · simp [find?, hbound, Ne.symm hbound, ih]

theorem mem_entries_of_get? {bindings : Bindings α} {name : String} {value : α}
    (h : bindings.get? name = some value) : ∃ entry ∈ bindings.entries, entry.2 = value := by
  obtain ⟨entries⟩ := bindings
  simp only [get?] at h
  induction entries with
  | nil => cases h
  | cons entry rest ih =>
    rw [find?] at h
    split at h
    · exact ⟨entry, List.mem_cons_self, Option.some.inj h⟩
    · obtain ⟨found, hmem, hvalue⟩ := ih h
      exact ⟨found, List.mem_cons_of_mem _ hmem, hvalue⟩

/-- Binding a name brings in no other value. -/
theorem mem_entries_set {bindings : Bindings α} {name : String} {value : α}
    {entry : String × α} (h : entry ∈ (bindings.set name value).entries) :
    entry ∈ bindings.entries ∨ entry.2 = value := by
  obtain ⟨entries⟩ := bindings
  simp only [set] at h ⊢
  induction entries with
  | nil =>
    rw [replace, List.mem_singleton] at h
    exact .inr (congrArg Prod.snd h)
  | cons first rest ih =>
    rw [replace] at h
    split at h <;> rcases List.mem_cons.mp h with rfl | hrest
    · exact .inr rfl
    · exact .inl (List.mem_cons_of_mem _ hrest)
    · exact .inl List.mem_cons_self
    · exact (ih hrest).imp_left (List.mem_cons_of_mem _)

theorem mem_entries_setAll {bindings : Bindings α} {pairs : List (String × α)}
    {entry : String × α} (h : entry ∈ (bindings.setAll pairs).entries) :
    entry ∈ bindings.entries ∨ ∃ pair ∈ pairs, entry.2 = pair.2 := by
  induction pairs generalizing bindings with
  | nil => exact .inl h
  | cons pair pairs ih =>
    rcases ih h with hset | ⟨later, hmem, hvalue⟩
    · rcases mem_entries_set hset with hold | hvalue
      · exact .inl hold
      · exact .inr ⟨pair, List.mem_cons_self, hvalue⟩
    · exact .inr ⟨later, List.mem_cons_of_mem _ hmem, hvalue⟩

@[simp] theorem get?_set_of_ne (bindings : Bindings α) {name other : String} (value : α)
    (h : name ≠ other) : (bindings.set name value).get? other = bindings.get? other := by
  simp [get?_set, h]

end Bindings

end Offside
