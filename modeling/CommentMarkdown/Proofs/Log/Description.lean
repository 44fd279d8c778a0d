import CommentMarkdown.Proofs.Log.FastPath
import CommentMarkdown.Proofs.Text.Runs
import Mathlib.Data.List.TakeWhile

/-!
# What the description of a filter says

A description is read token by token, and what counts of several tokens is the last one that
speaks of the same thing. A token speaks of one module at most, or of all modules that are not
named. So the entry of a module is what the last token gives it that names it
(`lookup_parse`), and the general threshold is what the last token with a star gives
(`standard_parse`).

When a logger is set up, the configured level stands in for a general threshold that is not
described. One that is described is only taken over if it does not lie above the configured
level, and otherwise gives way to it. So the described threshold is the one that decides about
unnamed modules exactly if it is not the more severe of the two (`general_level_exact`).
-/

namespace CommentMarkdown.Log

namespace Filter

/-- The level that a token gives to all modules that are not named. -/
def general? (token : Text) : Option Level :=
  (Text.behind? "*=".toList token).map Level.parse

/-- A token names a module if it is the module's name, or the name with an equals sign and more
behind it. No name contains an equals sign, and a star in front of one is no name either. -/
def Names (token module : Text) : Prop :=
  '=' ∉ module ∧
    ((token = module ∧ module ≠ []) ∨ (module ≠ ['*'] ∧ module ++ ['='] <+: token))

instance (token module : Text) : Decidable (Names token module) :=
  inferInstanceAs (Decidable (_ ∧ _))

/-- The level that a token gives to a module that it names: every one if the token is the name,
and otherwise the one behind the equals sign. -/
def given? (token module : Text) : Option Level :=
  if Names token module then
    some (((Text.behind? (module ++ ['=']) token).map Level.parse).getD .trace)
  else none

/-- The level that the last token with a star gives to all modules that are not named. -/
def described? (description : Text) : Option Level :=
  ((description.splitOn ',').filterMap general?).getLast?

/-- No character of a text without an equals sign ends the search for one. -/
theorem passes_of_plain {name : Text} (plain : '=' ∉ name) :
    ∀ c ∈ name, decide (c ≠ '=') = true := by
  intro c member
  exact decide_eq_true fun sign => plain (sign ▸ member)

/-- A token without an equals sign is the name of a module, unless it is empty. -/
theorem addToken_bare (filter : Filter) {token : Text} (bare : '=' ∉ token) :
    filter.addToken token = if token = [] then filter else filter.setModule token .trace := by
  have nothing : token.dropWhile (· ≠ '=') = [] :=
    List.dropWhile_eq_nil_iff.mpr (passes_of_plain bare)
  have whole : token.takeWhile (· ≠ '=') = token :=
    List.takeWhile_eq_self_iff.mpr (passes_of_plain bare)
  rw [addToken, nothing, whole]

/-- A token with an equals sign sets the threshold of what stands in front of the first one. -/
theorem addToken_setting (filter : Filter) {name : Text} (plain : '=' ∉ name) (word : Text) :
    filter.addToken (name ++ '=' :: word) =
      if name = ['*'] then { filter with standard := Level.parse word }
      else filter.setModule name (Level.parse word) := by
  have ends : ∀ c ∈ ('=' :: word).head?, decide (c ≠ '=') = false := by simp
  obtain ⟨front, behind⟩ := Text.takeWhile_run (passes_of_plain plain) ends
  rw [addToken, behind, front]

/-- A token without an equals sign gives a level to the module that it is the name of. -/
theorem given?_bare {token : Text} (bare : '=' ∉ token) (module : Text) :
    given? token module = if module = token ∧ token ≠ [] then some .trace else none := by
  have noPrefix : ¬ module ++ ['='] <+: token := fun begins =>
    bare (begins.subset (List.mem_append_right module List.mem_cons_self))
  have noSetting : Text.behind? (module ++ ['=']) token = none := by
    rw [Text.behind?, if_neg (by simpa using noPrefix)]
  have names : Names token module ↔ module = token ∧ token ≠ [] := by
    constructor
    · rintro ⟨_, ⟨rfl, filled⟩ | ⟨_, begins⟩⟩
      · exact ⟨rfl, filled⟩
      · exact absurd begins noPrefix
    · rintro ⟨rfl, filled⟩
      exact ⟨bare, .inl ⟨rfl, filled⟩⟩
  simp only [given?, names, noSetting, Option.map_none, Option.getD_none]

/-- A token with an equals sign gives a level to the module in front of it, which is no star. -/
theorem given?_setting {name : Text} (plain : '=' ∉ name) (word module : Text) :
    given? (name ++ '=' :: word) module =
      if module = name ∧ name ≠ ['*'] then some (Level.parse word) else none := by
  have names : Names (name ++ '=' :: word) module ↔ module = name ∧ name ≠ ['*'] := by
    constructor
    · rintro ⟨plainModule, ⟨rfl, _⟩ | ⟨noStar, rest, whole⟩⟩
      · exact absurd (List.mem_append_right name List.mem_cons_self) plainModule
      · rw [List.append_assoc, List.singleton_append, Text.append_cons_inj plainModule plain] at whole
        exact ⟨whole.1, whole.1 ▸ noStar⟩
    · rintro ⟨rfl, noStar⟩
      exact ⟨plain, .inr ⟨noStar, word, by simp⟩⟩
  by_cases named : module = name ∧ name ≠ ['*']
  · have behind : Text.behind? (module ++ ['=']) (name ++ '=' :: word) = some word := by
      rw [Text.behind?_eq_some_iff, named.1, List.append_assoc]
      rfl
    rw [given?, if_pos (names.mpr named), if_pos named, behind]
    rfl
  · rw [given?, if_neg (mt names.mp named), if_neg named]

/-- A token changes what is found under the module that it names, and nothing else. -/
theorem lookup_addToken (filter : Filter) (token module : Text) :
    (filter.addToken token).modules.lookup module =
      (given? token module).or (filter.modules.lookup module) := by
  have set (name : Text) (level : Level) :
      (filter.setModule name level).modules.lookup module =
        (if module = name then some level else none).or (filter.modules.lookup module) := by
    rw [setModule, Table.lookup_set]
    split <;> rfl
  by_cases sign : '=' ∈ token
  · obtain ⟨name, word, rfl, plain⟩ := List.eq_append_cons_of_mem sign
    rw [addToken_setting filter plain, given?_setting plain]
    by_cases star : name = ['*']
    · simp [star]
    · rw [if_neg star, set]
      simp [star]
  · rw [addToken_bare filter sign, given?_bare sign]
    by_cases empty : token = []
    · simp [empty]
    · rw [if_neg empty, set]
      simp [empty]

/-- A token changes the general threshold if it begins with a star and an equals sign. -/
theorem standard_addToken (filter : Filter) (token : Text) :
    (filter.addToken token).standard = (general? token).getD filter.standard := by
  have star : "*=".toList = ['*'] ++ ['='] := by decide
  by_cases sign : '=' ∈ token
  · obtain ⟨name, word, rfl, plain⟩ := List.eq_append_cons_of_mem sign
    rw [addToken_setting filter plain]
    by_cases same : name = ['*']
    · have behind : Text.behind? "*=".toList (name ++ '=' :: word) = some word := by
        rw [Text.behind?_eq_some_iff, same]
        rfl
      rw [if_pos same, general?, behind]
      rfl
    · have noStar : Text.behind? "*=".toList (name ++ '=' :: word) = none := by
        rw [Option.eq_none_iff_forall_ne_some]
        intro rest found
        rw [Text.behind?_eq_some_iff, star, List.append_assoc, List.singleton_append (l := rest),
          Text.append_cons_inj plain (by decide)] at found
        exact same found.1
      rw [if_neg same, general?, noStar]
      rfl
  · have noStar : Text.behind? "*=".toList token = none := by
      rw [Option.eq_none_iff_forall_ne_some]
      intro rest found
      rw [Text.behind?_eq_some_iff] at found
      exact sign (found ▸ by simp)
    rw [addToken_bare filter sign, general?, noStar]
    split <;> rfl

/-- What is found under a module after a description: what the last token gives it that names
it. Nothing is left of an earlier description. -/
theorem lookup_parse (filter : Filter) (description module : Text) :
    (filter.parse description).modules.lookup module =
      ((description.splitOn ',').filterMap (given? · module)).getLast? := by
  have folded (tokens : List Text) (start : Filter) :
      (tokens.foldl addToken start).modules.lookup module =
        (tokens.filterMap (given? · module)).getLast?.or (start.modules.lookup module) := by
    induction tokens generalizing start with
    | nil => rfl
    | cons token rest ih =>
      rw [List.foldl_cons, ih, lookup_addToken, List.filterMap_cons]
      cases given? token module with
      | none => rfl
      | some level =>
        rw [List.getLast?_cons, Option.some_or]
        cases (rest.filterMap (given? · module)).getLast? <;> rfl
  rw [parse, folded]
  exact Option.or_none

/-- The general threshold after a description: what the last token with a star gives, or what it
was before. -/
theorem standard_parse (filter : Filter) (description : Text) :
    (filter.parse description).standard = (described? description).getD filter.standard := by
  have folded (tokens : List Text) (start : Filter) :
      (tokens.foldl addToken start).standard =
        (tokens.filterMap general?).getLast?.getD start.standard := by
    induction tokens generalizing start with
    | nil => rfl
    | cons token rest ih =>
      rw [List.foldl_cons, ih, standard_addToken, List.filterMap_cons]
      cases general? token with
      | none => rfl
      | some level =>
        rw [List.getLast?_cons]
        cases (rest.filterMap general?).getLast? <;> rfl
  exact folded _ _

/-- Nothing is found under a module that no token names. -/
theorem lookup_parse_of_unnamed (filter : Filter) {description module : Text}
    (unnamed : ∀ token ∈ description.splitOn ',', ¬ Names token module) :
    (filter.parse description).modules.lookup module = none := by
  rw [lookup_parse, List.getLast?_eq_none_iff, List.filterMap_eq_nil_iff]
  intro token member
  rw [given?, if_neg (unnamed token member)]

end Filter

/-- The less severe of two levels is the second one exactly if that does not lie above the first. -/
theorem Level.min_eq_right_iff (first second : Level) :
    min first second = second ↔ second ≤ first := by
  constructor
  · intro same
    have below := (le_min_iff (min first second) first second).mp (le_refl _)
    exact same ▸ below.1
  · intro below
    apply rank_injective
    rw [rank_min]
    exact Nat.min_eq_right below

/-- A level is known from the levels that do not lie below it. -/
theorem Level.eq_of_le_iff {first second : Level}
    (same : ∀ level, first ≤ level ↔ second ≤ level) : first = second := by
  apply rank_injective
  apply Nat.le_antisymm
  · exact (same second).mpr (le_refl second)
  · exact (same first).mp (le_refl first)

/-- The threshold that a configuration gives to a module that no token of its description names. -/
theorem Config.threshold_of_unnamed (config : Config) {module : Text}
    (unnamed : ∀ token ∈ config.filterSpec.splitOn ',', ¬ Filter.Names token module) :
    config.filter.threshold module =
      Level.min config.level ((Filter.described? config.filterSpec).getD config.level) := by
  rw [Filter.threshold, filter]
  dsimp only
  rw [Filter.lookup_parse_of_unnamed _ unnamed, Filter.standard_parse]
  rfl

namespace Logger

/-- Whether a step leaves the level and the filter of a logger alone. -/
def Step.keepsGate : Step → Bool
  | .init _ | .setLevel _ | .setFilter _ => false
  | _ => true

/-- A run of steps that leave level and filter alone leaves them alone. -/
theorem sameGate_performAll (state : Logger × Outside) (steps : List Step)
    (keeps : ∀ step ∈ steps, step.keepsGate = true) :
    SameGate (performAll state steps).1 state.1 := by
  induction steps generalizing state with
  | nil => exact ⟨rfl, rfl⟩
  | cons step rest ih =>
    obtain ⟨keepsHere, keepsRest⟩ := List.forall_mem_cons.mp keeps
    have here : SameGate (perform state step).1 state.1 := by
      cases step with
      | init config => cases keepsHere
      | setLevel level => cases keepsHere
      | setFilter description => cases keepsHere
      | addSink sink => exact ⟨rfl, rfl⟩
      | addFile path append format => exact ⟨rfl, rfl⟩
      | log level module message => exact ⟨rfl, rfl⟩
      | logWanted level module message => exact sameGate_logWanted _ _ _ _ _
      | listen remarks => exact sameGate_listen _ _ _
      | flush => exact ⟨rfl, rfl⟩
    have others := ih (perform state step) keepsRest
    exact ⟨others.1.trans here.1, others.2.trans here.2⟩

/-- A logger that has been set up and has sinks decides about a module by the threshold that it has
in the filter of the configuration. The level that is compared first lies above none. -/
theorem shouldLog_of_sameGate {logger : Logger} {config : Config}
    (same : SameGate logger (ofConfig config)) (installed : logger.sinks ≠ []) (level : Level)
    (module : Text) :
    logger.shouldLog level module = true ↔ config.filter.threshold module ≤ level := by
  have low : ∀ name, logger.level ≤ logger.filter.threshold name := by
    intro name
    rw [same.1, same.2]
    exact Filter.le_threshold (Level.le_refl _) name
  have listens : logger.sinks.isEmpty = false := by simpa using installed
  rw [(shouldLog_eq_iff logger).mpr (.inr low), listens, same.2]
  exact decide_eq_true_iff

/-- After a logger has been set up, and as long as its level and filter are left alone, a message
from a module that no token names is wanted exactly if it lies below neither the configured
level nor the described general threshold, whichever is less severe. So a described
threshold is the one that decides exactly if it does not lie above the configured level.
Without one the configured level decides. -/
theorem general_level_exact (config : Config) (before : Logger) (outside : Outside)
    (steps : List Step) (module : Text) (keeps : ∀ step ∈ steps, step.keepsGate = true)
    (installed : (performAll (before.init config outside) steps).1.sinks ≠ [])
    (unnamed : ∀ token ∈ config.filterSpec.splitOn ',', ¬ Filter.Names token module) :
    let logger := (performAll (before.init config outside) steps).1
    let described := Filter.described? config.filterSpec
    (∀ level, logger.shouldLog level module = true ↔
        Level.min config.level (described.getD config.level) ≤ level) ∧
      (∀ wanted, described = some wanted →
        ((∀ level, logger.shouldLog level module = true ↔ wanted ≤ level) ↔
          wanted ≤ config.level)) ∧
      (described = none → ∀ level, logger.shouldLog level module = true ↔ config.level ≤ level) := by
  intro logger described
  have same : SameGate logger (ofConfig config) := by
    have kept := sameGate_performAll (before.init config outside) steps keeps
    have opened := sameGate_addLogFile (ofConfig config) config (before.flush outside).2
    exact ⟨kept.1.trans opened.1, kept.2.trans opened.2⟩
  have exact : ∀ level, logger.shouldLog level module = true ↔
      Level.min config.level (described.getD config.level) ≤ level := by
    intro level
    rw [shouldLog_of_sameGate same installed, config.threshold_of_unnamed unnamed]
  refine ⟨exact, ?_, ?_⟩
  · intro wanted given
    rw [given, Option.getD_some] at exact
    rw [← Level.min_eq_right_iff]
    constructor
    · intro honoured
      apply Level.eq_of_le_iff
      intro level
      rw [← exact level, honoured level]
    · intro less level
      rw [exact level, less]
  · intro missing level
    rw [missing, Option.getD_none, (Level.min_eq_right_iff _ _).mpr (Level.le_refl _)] at exact
    exact exact level

/-- A description whose last token with a star is less severe than the configured level. -/
def describedLower : Config where
  level := .warn
  filterSpec := "*=off,markup=trace,*=debug".toList
  console := false

/-- A run that installs a sink and uses it. -/
def listeningSteps : List Step :=
  [.addSink (.capture "c".toList), .log .fatal "cli".toList "heard".toList, .flush]

/-- What the last token with a star gives decides about a module that is not named. -/
theorem describedLower_decides :
    let logger := (performAll (({} : Logger).init describedLower emptyOutside) listeningSteps).1
    (∀ step ∈ listeningSteps, step.keepsGate = true) ∧ logger.sinks ≠ [] ∧
      (∀ token ∈ describedLower.filterSpec.splitOn ',', ¬ Filter.Names token "render".toList) ∧
      Filter.described? describedLower.filterSpec = some .debug ∧
      ∀ level, logger.shouldLog level "render".toList = true ↔ Level.debug ≤ level := by
  intro logger
  have keeps : ∀ step ∈ listeningSteps, step.keepsGate = true := by
    intro step member
    simp only [listeningSteps, List.mem_cons, List.not_mem_nil, or_false] at member
    rcases member with rfl | rfl | rfl <;> rfl
  have installed : logger.sinks ≠ [] := List.cons_ne_nil _ _
  have unnamed : ∀ token ∈ describedLower.filterSpec.splitOn ',',
      ¬ Filter.Names token "render".toList := by
    decide
  have given : Filter.described? describedLower.filterSpec = some .debug := by decide
  obtain ⟨_, honoured, _⟩ := general_level_exact describedLower {} emptyOutside listeningSteps
    "render".toList keeps installed unnamed
  exact ⟨keeps, installed, unnamed, given, (honoured .debug given).mpr (by decide)⟩

/-- A described general threshold that is more severe than the configured level is not the one that
decides: messages below it are wanted all the same. -/
theorem describedHigher_gives_way :
    let config : Config := { level := .debug, filterSpec := "*=error".toList }
    let logger := (({} : Logger).init config emptyOutside).1
    logger.sinks ≠ [] ∧ Filter.described? config.filterSpec = some .error ∧
      (∀ token ∈ config.filterSpec.splitOn ',', ¬ Filter.Names token "directive".toList) ∧
      logger.shouldLog .debug "directive".toList = true ∧ ¬ Level.error ≤ .debug := by
  refine ⟨List.cons_ne_nil _ _, ?_⟩
  decide

end Logger

end CommentMarkdown.Log
