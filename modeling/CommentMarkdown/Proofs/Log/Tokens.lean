import CommentMarkdown.Proofs.Log.Description
import Mathlib.Order.Bounds.Defs

/-!
# A filter is what its tokens say

What a token says stands in its form alone: it gives a level to one module (`Gives`), to all modules
that are not named (`GivesAll`), or, if it is empty, to none. A description is a list of tokens, and
of those that speak of the same thing the last one decides (`LastGives`). So a filter that has been
described can be read off the tokens, with nothing of what it was before but a general threshold
that no token sets.

The least level of a filter is one of its thresholds and lies above none of them, so a message that
passes the filter never lies below it.
-/

namespace CommentMarkdown.Log

namespace Filter

/-- A token gives a level to a module: its name alone lets everything through, and behind an equals
sign the level is spelled out. A star in front of the sign is no module. -/
inductive Gives : Text → Text → Level → Prop
  | bare {module : Text} (plain : '=' ∉ module) (filled : module ≠ []) :
    Gives module module .trace
  | setting {module : Text} (plain : '=' ∉ module) (noStar : module ≠ ['*']) (word : Text) :
    Gives (module ++ '=' :: word) module (Level.parse word)

/-- A token gives a level to all modules that are not named. -/
inductive GivesAll : Text → Level → Prop
  | star (word : Text) : GivesAll ('*' :: '=' :: word) (Level.parse word)

/-- The last token of a list that gives a level at all gives this one. -/
def LastGives (gives : Text → Level → Prop) (tokens : List Text) (level : Level) : Prop :=
  ∃ before token after, tokens = before ++ token :: after ∧ gives token level ∧
    ∀ later ∈ after, ∀ other, ¬ gives later other

/-- The tokens of a description: what stands between its commas, unless it is empty. -/
def tokens (description : Text) : List Text :=
  (description.splitOn ',').filter (· ≠ [])

/-- An empty token names no module. -/
theorem given?_nil (module : Text) : given? [] module = none := by
  rw [given?_bare List.not_mem_nil, if_neg fun named => named.2 rfl]

/-- What a token gives to a module is told by its form. -/
theorem given?_eq_some_iff (token module : Text) (level : Level) :
    given? token module = some level ↔ Gives token module level := by
  by_cases sign : '=' ∈ token
  · obtain ⟨name, word, rfl, plain⟩ := List.eq_append_cons_of_mem sign
    rw [given?_setting plain, Option.ite_none_right_eq_some, Option.some.injEq]
    constructor
    · rintro ⟨⟨rfl, noStar⟩, rfl⟩
      exact .setting plain noStar word
    · intro gives
      -- What stands in front of the first equals sign is the same, however the token was made.
      generalize whole : name ++ '=' :: word = token at gives
      cases gives with
      | bare plainModule _ => exact absurd (whole ▸ sign) plainModule
      | setting plainModule noStar other =>
        obtain ⟨rfl, rfl⟩ := (Text.append_cons_inj plain plainModule).mp whole
        exact ⟨⟨rfl, noStar⟩, rfl⟩
  · rw [given?_bare sign, Option.ite_none_right_eq_some, Option.some.injEq]
    constructor
    · rintro ⟨⟨rfl, filled⟩, rfl⟩
      exact .bare sign filled
    · intro gives
      cases gives with
      | bare _ filled => exact ⟨⟨rfl, filled⟩, rfl⟩
      | setting _ _ word => exact absurd (List.mem_append_right module List.mem_cons_self) sign

/-- What a token gives to all modules that are not named is told by its form. -/
theorem general?_eq_some_iff (token : Text) (level : Level) :
    general? token = some level ↔ GivesAll token level := by
  rw [general?, Option.map_eq_some_iff]
  constructor
  · rintro ⟨word, found, rfl⟩
    rw [Text.behind?_eq_some_iff] at found
    exact found ▸ .star word
  · rintro ⟨word⟩
    exact ⟨word, Text.behind?_eq_some_iff.mpr rfl, rfl⟩

section Values

variable {gives : Text → Level → Prop} {value? : Text → Option Level}
variable (told : ∀ token level, value? token = some level ↔ gives token level)

include told

/-- A token for which no value is found gives none. -/
theorem eq_none_iff_of_told (token : Text) :
    value? token = none ↔ ∀ level, ¬ gives token level := by
  simp only [← told, Option.eq_none_iff_forall_ne_some, ne_eq]

/-- The last value that is found for tokens is what the last one gives that gives any. -/
theorem getLast?_filterMap_eq_some_iff (items : List Text) (level : Level) :
    (items.filterMap value?).getLast? = some level ↔ LastGives gives items level := by
  rw [List.getLast?_filterMap, List.findSome?_eq_some_iff]
  constructor
  · rintro ⟨after, token, before, reversed, given, silent⟩
    refine ⟨before.reverse, token, after.reverse, ?_, (told token level).mp given, ?_⟩
    · rw [← List.reverse_reverse items, reversed]
      simp
    · intro later member
      exact (eq_none_iff_of_told told later).mp (silent later (List.mem_reverse.mp member))
  · rintro ⟨before, token, after, rfl, given, silent⟩
    refine ⟨after.reverse, token, before.reverse, by simp, (told token level).mpr given, ?_⟩
    intro later member
    exact (eq_none_iff_of_told told later).mpr (silent later (List.mem_reverse.mp member))

/-- No value is found for tokens of which none gives any. -/
theorem getLast?_filterMap_eq_none_iff (items : List Text) :
    (items.filterMap value?).getLast? = none ↔ ∀ token ∈ items, ∀ level, ¬ gives token level := by
  simp only [List.getLast?_eq_none_iff, List.filterMap_eq_nil_iff, eq_none_iff_of_told told]

end Values

/-- Tokens with nothing in them give nothing, so they may as well be left out. -/
theorem filterMap_tokens {value? : Text → Option Level} (empty : value? [] = none)
    (description : Text) :
    (tokens description).filterMap value? = (description.splitOn ',').filterMap value? := by
  rw [tokens, List.filterMap_filter]
  congr 1
  funext token
  by_cases nothing : token = []
  · simp [nothing, empty]
  · simp [nothing]

/-- What is found under a module after a description is what the last token gives it that names
it. -/
theorem lookup_parse_eq_some_iff (filter : Filter) (description module : Text) (level : Level) :
    (filter.parse description).modules.lookup module = some level ↔
      LastGives (Gives · module ·) (tokens description) level := by
  rw [lookup_parse, ← filterMap_tokens (given?_nil module)]
  exact getLast?_filterMap_eq_some_iff (given?_eq_some_iff · module ·) _ _

/-- Nothing is found under a module after a description exactly if no token names it. -/
theorem lookup_parse_eq_none_iff (filter : Filter) (description module : Text) :
    (filter.parse description).modules.lookup module = none ↔
      ∀ token ∈ tokens description, ∀ level, ¬ Gives token module level := by
  rw [lookup_parse, ← filterMap_tokens (given?_nil module)]
  exact getLast?_filterMap_eq_none_iff (given?_eq_some_iff · module ·) _

/-- The general threshold after a description is what the last token gives that gives one. -/
theorem standard_parse_of_lastGives (filter : Filter) {description : Text} {level : Level}
    (last : LastGives GivesAll (tokens description) level) :
    (filter.parse description).standard = level := by
  rw [standard_parse, described?, ← filterMap_tokens rfl,
    (getLast?_filterMap_eq_some_iff general?_eq_some_iff _ _).mpr last]
  rfl

/-- The general threshold is what it was if no token gives one. -/
theorem standard_parse_of_silent (filter : Filter) {description : Text}
    (silent : ∀ token ∈ tokens description, ∀ level, ¬ GivesAll token level) :
    (filter.parse description).standard = filter.standard := by
  rw [standard_parse, described?, ← filterMap_tokens rfl,
    (getLast?_filterMap_eq_none_iff general?_eq_some_iff _).mpr silent]
  rfl

/-- The least level of a filter is one of its thresholds. -/
theorem minLevel_eq_or (filter : Filter) :
    filter.minLevel = filter.standard ∨ ∃ entry ∈ filter.modules, filter.minLevel = entry.2 := by
  have folded (entries : Table Level) (least : Level) :
      let found := entries.foldl (fun least entry => Level.min least entry.2) least
      found = least ∨ ∃ entry ∈ entries, found = entry.2 := by
    induction entries generalizing least with
    | nil => exact .inl rfl
    | cons entry rest ih =>
      rcases ih (Level.min least entry.2) with same | ⟨other, member, same⟩
      · rw [List.foldl_cons, same, Level.min]
        split
        · exact .inl rfl
        · exact .inr ⟨entry, List.mem_cons_self, rfl⟩
      · exact .inr ⟨other, List.mem_cons_of_mem entry member, same⟩
  exact folded filter.modules filter.standard

/-- The least level of a filter that names each module once is the least of its thresholds. -/
theorem isLeast_minLevel {filter : Filter} (distinct : filter.Distinct) :
    IsLeast {level | level = filter.standard ∨ ∃ module, filter.modules.lookup module = some level}
      filter.minLevel := by
  obtain ⟨general, entries⟩ := (le_minLevel_iff filter filter.minLevel).mp (Level.le_refl _)
  constructor
  · rcases minLevel_eq_or filter with same | ⟨entry, member, same⟩
    · exact .inl same
    · exact .inr ⟨entry.1, same ▸ Table.lookup_of_mem filter.modules distinct member⟩
  · rintro level (rfl | ⟨module, found⟩)
    · exact general
    · exact entries _ (Table.mem_of_lookup filter.modules found)

/-- A filter that has been described is what the tokens say, whatever it was before. It has an entry
for the modules that are named by a token, and for no other one, with the level that the last
such token gives. Its general threshold is what the last token with a star gives, or else what
it was. A message passes if it does not lie below the entry of its module, or below the general
threshold if there is none. The least level is the least of all these thresholds, and no message
below it passes. -/
theorem parse_means_tokens (filter : Filter) (description : Text) :
    let parsed := filter.parse description
    let given := tokens description
    (∀ module, (∃ level, parsed.modules.lookup module = some level) ↔
        ∃ token ∈ given, ∃ level, Gives token module level) ∧
      (∀ module level, parsed.modules.lookup module = some level ↔
        LastGives (Gives · module ·) given level) ∧
      (∀ level, LastGives GivesAll given level → parsed.standard = level) ∧
      ((∀ token ∈ given, ∀ level, ¬ GivesAll token level) → parsed.standard = filter.standard) ∧
      (∀ level module, parsed.shouldLog level module = true ↔
        match parsed.modules.lookup module with
        | some threshold => threshold ≤ level
        | none => parsed.standard ≤ level) ∧
      IsLeast
        {level | level = parsed.standard ∨ ∃ module, parsed.modules.lookup module = some level}
        parsed.minLevel ∧
      ∀ level module, parsed.shouldLog level module = true → parsed.minLevel ≤ level := by
  intro parsed given
  refine ⟨?_, lookup_parse_eq_some_iff filter description,
    fun _ => standard_parse_of_lastGives filter, standard_parse_of_silent filter, ?_,
    isLeast_minLevel (distinct_parse filter description), ?_⟩
  · intro module
    have unnamed := not_congr (lookup_parse_eq_none_iff filter description module)
    simpa [← Option.ne_none_iff_exists'] using unnamed
  · intro level module
    rw [shouldLog, threshold, decide_eq_true_iff]
    cases parsed.modules.lookup module <;> rfl
  · intro level module passes
    exact Level.le_trans (le_threshold (Level.le_refl _) module) (of_decide_eq_true passes)

/-- Of two tokens for one module the later one decides, also if it is only the name; a level behind
two equals signs is none, and is read as usual. -/
example :
    let parsed := parse { standard := .fatal, modules := [("old".toList, .off)] }
      ",a=error,,a,b==warn,*,=debug,".toList
    (parsed.standard, parsed.modules.lookup "a".toList, parsed.modules.lookup "b".toList) =
        (.fatal, some .trace, some .info) ∧
      parsed.modules.lookup "*".toList = some .trace ∧ parsed.modules.lookup [] = some .debug ∧
      parsed.modules.lookup "old".toList = none := by
  decide

end Filter

end CommentMarkdown.Log
