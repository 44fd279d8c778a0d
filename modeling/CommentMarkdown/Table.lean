import CommentMarkdown.Text.Basic

/-!
# Tables

A table gives values to names. It is a list of pairs in which every name stands
once: setting a name removes the entry that it had. So what is set is what is
found, and going through all entries meets no value that has been replaced.
-/

namespace CommentMarkdown

/-- Values by name. -/
abbrev Table (α : Type) := List (Text × α)

namespace Table

variable {α : Type}

/-- The table with the value of one name set. -/
def set (table : Table α) (name : Text) (value : α) : Table α :=
  (name, value) :: table.filter fun entry => entry.1 ≠ name

/-- Removing the entry of one name does not change what is found under another. -/
theorem lookup_filter_ne (table : Table α) {name wanted : Text} (differs : wanted ≠ name) :
    (table.filter fun entry => entry.1 ≠ name).lookup wanted = table.lookup wanted := by
  induction table with
  | nil => rfl
  | cons entry rest ih =>
    by_cases removed : entry.1 = name
    · have skipped : (wanted == entry.1) = false := by simpa [removed] using differs
      rw [List.filter_cons, if_neg (by simpa using removed), ih, List.lookup_cons, skipped]
    · rw [List.filter_cons, if_pos (by simpa using removed), List.lookup_cons, List.lookup_cons, ih]

/-- Setting a name changes what is found under that name and nothing else. -/
theorem lookup_set (table : Table α) (name : Text) (value : α) (wanted : Text) :
    (table.set name value).lookup wanted =
      if wanted = name then some value else table.lookup wanted := by
  by_cases same : wanted = name
  · simp [set, same]
  · have skipped : (wanted == name) = false := by simpa using same
    rw [if_neg same, set, List.lookup_cons, skipped]
    exact lookup_filter_ne table same

end Table

end CommentMarkdown
