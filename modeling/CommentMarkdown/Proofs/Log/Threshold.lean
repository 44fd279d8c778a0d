import CommentMarkdown.Log.Filter

/-!
# Thresholds of a filter

A filter that was described by tokens names each module once, so the entry of a named
module is its threshold, and every other module has the general one. The least level
is the greatest one that lies above no threshold (`le_minLevel_iff`).
-/

namespace CommentMarkdown

namespace Table

variable {α : Type}

/-- Setting a name keeps every name in the table once: the entry that it had is removed. -/
theorem nodup_set (table : Table α) (name : Text) (value : α)
    (distinct : (table.map Prod.fst).Nodup) : ((table.set name value).map Prod.fst).Nodup := by
  rw [set, List.map_cons, List.nodup_cons]
  constructor
  · intro member
    obtain ⟨entry, kept, same⟩ := List.mem_map.mp member
    simp [same] at kept
  · exact distinct.sublist (List.filter_sublist.map Prod.fst)

/-- In a table that has each name once, every entry is what is found under its name. -/
theorem lookup_of_mem (table : Table α) (distinct : (table.map Prod.fst).Nodup) {name : Text}
    {value : α} (member : (name, value) ∈ table) : table.lookup name = some value := by
  induction table with
  | nil => cases member
  | cons entry rest ih =>
    obtain ⟨absent, distinctRest⟩ := List.nodup_cons.mp distinct
    rcases List.mem_cons.mp member with rfl | inside
    · simp
    · have differs : (name == entry.1) = false := by
        rw [beq_eq_false_iff_ne]
        rintro rfl
        exact absent (List.mem_map.mpr ⟨_, inside, rfl⟩)
      rw [List.lookup_cons, differs]
      exact ih distinctRest inside

/-- What is found under a name is an entry of the table. -/
theorem mem_of_lookup (table : Table α) {name : Text} {value : α}
    (found : table.lookup name = some value) : (name, value) ∈ table := by
  obtain ⟨before, after, rfl, _⟩ := List.lookup_eq_some_iff.mp found
  simp

end Table

namespace Log

namespace Level

theorem le_refl (level : Level) : level ≤ level :=
  Nat.le_refl level.rank

theorem le_trans {low middle high : Level} (first : low ≤ middle) (second : middle ≤ high) :
    low ≤ high :=
  Nat.le_trans first second

/-- A level is at most the less severe of two exactly if it is at most both. -/
theorem le_min_iff (level first second : Level) :
    level ≤ min first second ↔ level ≤ first ∧ level ≤ second := by
  simp only [le_iff_rank_le, rank_min]
  exact Nat.le_min

end Level

namespace Filter

/-- Each module is named once. -/
def Distinct (filter : Filter) : Prop :=
  (filter.modules.map Prod.fst).Nodup

/-- A token keeps the names of the modules distinct, whatever it sets. -/
theorem distinct_addToken (filter : Filter) (token : Text) (distinct : filter.Distinct) :
    (filter.addToken token).Distinct := by
  unfold addToken
  dsimp only
  split
  · split
    · exact distinct
    · exact Table.nodup_set _ _ _ distinct
  · split
    · exact distinct
    · exact Table.nodup_set _ _ _ distinct

/-- A described filter names each module once, whatever it was described over. -/
theorem distinct_parse (filter : Filter) (description : Text) : (filter.parse description).Distinct := by
  have kept (tokens : List Text) (start : Filter) (distinct : start.Distinct) :
      (tokens.foldl addToken start).Distinct := by
    induction tokens generalizing start with
    | nil => exact distinct
    | cons token rest ih => exact ih _ (distinct_addToken start token distinct)
  exact kept _ _ List.nodup_nil

/-- The least level lies above a level exactly if the general threshold and all entries do. -/
theorem le_minLevel_iff (filter : Filter) (level : Level) :
    level ≤ filter.minLevel ↔ level ≤ filter.standard ∧ ∀ entry ∈ filter.modules, level ≤ entry.2 := by
  have folded (entries : Table Level) (least : Level) :
      level ≤ entries.foldl (fun least entry => Level.min least entry.2) least ↔
        level ≤ least ∧ ∀ entry ∈ entries, level ≤ entry.2 := by
    induction entries generalizing least with
    | nil => simp
    | cons entry rest ih =>
      rw [List.foldl_cons, ih, Level.le_min_iff, and_assoc, List.forall_mem_cons]
  exact folded filter.modules filter.standard

/-- A module has the threshold of its entry, or the general one. -/
theorem threshold_eq_or (filter : Filter) (module : Text) :
    (module, filter.threshold module) ∈ filter.modules ∨ filter.threshold module = filter.standard := by
  unfold threshold
  cases found : filter.modules.lookup module with
  | none => exact .inr rfl
  | some level => exact .inl (Table.mem_of_lookup _ found)

/-- The threshold of a named module is that of its entry. -/
theorem threshold_of_mem {filter : Filter} (distinct : filter.Distinct) {entry : Text × Level}
    (member : entry ∈ filter.modules) : filter.threshold entry.1 = entry.2 := by
  rw [threshold, Table.lookup_of_mem filter.modules distinct member]
  rfl

/-- A level that lies above neither the general threshold nor an entry lies above no threshold. -/
theorem le_threshold {filter : Filter} {level : Level} (below : level ≤ filter.minLevel)
    (module : Text) : level ≤ filter.threshold module := by
  obtain ⟨general, entries⟩ := (le_minLevel_iff filter level).mp below
  rcases threshold_eq_or filter module with member | same
  · exact entries _ member
  · exact same ▸ general

end Filter

end Log

end CommentMarkdown
