import CommentMarkdown.Log.Logger
import CommentMarkdown.Proofs.Log.Threshold

/-!
# The level that is compared first

A logger compares its own level before it looks at its filter. That is sound as long as
the level lies above no threshold. Setting a logger up and describing its filter anew
both see to it, and nothing but setting the level undoes it: the level is then set
without regard to the modules that the filter names. So the first comparison agrees
with the filter exactly if the level that was set since lies above none of their
thresholds (`shouldLog_exact`). Where it lies above one, messages are lost that the
filter lets through (`setLevel_hides_module`).
-/

namespace CommentMarkdown.Log.Logger

/-- The level that has been set since the filter was last described, if one has. -/
def Step.since (found : Option Level) : Step → Option Level
  | .setLevel level => some level
  | .init _ | .setFilter _ => none
  | _ => found

/-- The level that a run has set and neither set up nor described the filter after. -/
def levelSince (steps : List Step) : Option Level :=
  steps.foldl Step.since none

/-- What all runs preserve. Either the level lies above no threshold, or it has been set since
and is also the filter's general threshold. -/
structure Settled (since : Option Level) (logger : Logger) : Prop where
  distinct : logger.filter.Distinct
  fresh : since = none → logger.level ≤ logger.filter.minLevel
  raised : ∀ level ∈ since, logger.level = level ∧ logger.filter.standard = level

/-- Two loggers decide about messages by the same level and filter. -/
def SameGate (first second : Logger) : Prop :=
  first.level = second.level ∧ first.filter = second.filter

/-- What is preserved is said of level and filter alone. -/
theorem Settled.of_sameGate {since : Option Level} {logger other : Logger}
    (settled : Settled since logger) (same : SameGate other logger) : Settled since other := by
  obtain ⟨sameLevel, sameFilter⟩ := same
  refine ⟨?_, ?_, ?_⟩
  · exact sameFilter ▸ settled.distinct
  · rw [sameLevel, sameFilter]
    exact settled.fresh
  · rw [sameLevel, sameFilter]
    exact settled.raised

/-- Opening the log file changes sinks only. -/
theorem sameGate_addLogFile (logger : Logger) (config : Config) (outside : Outside) :
    SameGate (logger.addLogFile config outside).1 logger := by
  unfold addLogFile
  split
  · exact ⟨rfl, rfl⟩
  · dsimp only
    split <;> exact ⟨rfl, rfl⟩

/-- Gating a message changes sinks only. -/
theorem sameGate_logWanted (logger : Logger) (level : Level) (module message : Text)
    (outside : Outside) : SameGate (logger.logWanted level module message outside).1 logger := by
  unfold logWanted
  split <;> exact ⟨rfl, rfl⟩

/-- Listening to remarks changes sinks only. -/
theorem sameGate_listen (logger : Logger) (remarks : List Diagnostic) (outside : Outside) :
    SameGate (logger.listen remarks outside).1 logger := by
  induction remarks generalizing logger outside with
  | nil => exact ⟨rfl, rfl⟩
  | cons remark rest ih =>
    have first := sameGate_logWanted logger remark.level remark.module remark.message outside
    have others := ih (logger.logWanted remark.level remark.module remark.message outside).1
      (logger.logWanted remark.level remark.module remark.message outside).2
    exact ⟨others.1.trans first.1, others.2.trans first.2⟩

/-- A logger that has just been set up is settled: its level is the least one of its filter. -/
theorem settled_init (config : Config) (logger : Logger) (outside : Outside) :
    Settled none (logger.init config outside).1 := by
  have set : Settled none (ofConfig config) :=
    ⟨Filter.distinct_parse _ _, fun _ => Level.le_refl _, nofun⟩
  exact set.of_sameGate (sameGate_addLogFile _ _ _)

/-- Describing the filter settles a logger anew, whatever its level was. -/
theorem settled_setFilter (logger : Logger) (description : Text) :
    Settled none (logger.setFilter description) where
  distinct := Filter.distinct_parse _ _
  fresh _ := ((Level.le_min_iff _ _ _).mp (Level.le_refl _)).2
  raised := nofun

/-- Setting the level sets the general threshold with it and leaves the named modules alone. -/
theorem settled_setLevel {logger : Logger} (distinct : logger.filter.Distinct) (level : Level) :
    Settled (some level) (logger.setLevel level) where
  distinct := distinct
  fresh := nofun
  raised := by
    rintro _ ⟨⟩
    exact ⟨rfl, rfl⟩

/-- Every step keeps a logger settled. Only three kinds of steps touch level or filter, and
each of them says anew since when. -/
theorem settled_perform {since : Option Level} {state : Logger × Outside}
    (settled : Settled since state.1) (step : Step) :
    Settled (step.since since) (perform state step).1 := by
  cases step with
  | init config => exact settled_init config state.1 state.2
  | setLevel level => exact settled_setLevel settled.distinct level
  | setFilter description => exact settled_setFilter state.1 description
  | addSink sink => exact settled.of_sameGate ⟨rfl, rfl⟩
  | addFile path append format => exact settled.of_sameGate ⟨rfl, rfl⟩
  | log level module message => exact settled.of_sameGate ⟨rfl, rfl⟩
  | logWanted level module message => exact settled.of_sameGate (sameGate_logWanted _ _ _ _ _)
  | listen remarks => exact settled.of_sameGate (sameGate_listen _ _ _)
  | flush => exact settled.of_sameGate ⟨rfl, rfl⟩

/-- Every run keeps a logger settled. -/
theorem settled_performAll {since : Option Level} {state : Logger × Outside}
    (settled : Settled since state.1) (steps : List Step) :
    Settled (steps.foldl Step.since since) (performAll state steps).1 := by
  induction steps generalizing since state with
  | nil => exact settled
  | cons step rest ih => exact ih (settled_perform settled step)

/-- The level of a settled logger lies above no threshold exactly if the level that has been set
since lies above none of the named modules' thresholds. -/
theorem Settled.le_threshold_iff {since : Option Level} {logger : Logger}
    (settled : Settled since logger) :
    (∀ module, logger.level ≤ logger.filter.threshold module) ↔
      ∀ level ∈ since, ∀ entry ∈ logger.filter.modules, level ≤ entry.2 := by
  constructor
  · intro below level found entry member
    have least := below entry.1
    rwa [(settled.raised level found).1, Filter.threshold_of_mem settled.distinct member] at least
  · intro low
    refine Filter.le_threshold ?_
    cases since with
    | none => exact settled.fresh rfl
    | some level =>
      obtain ⟨same, general⟩ := settled.raised level rfl
      rw [Filter.le_minLevel_iff, same, general]
      exact ⟨Level.le_refl level, low level rfl⟩

/-- The first comparison changes no decision exactly if there is nothing to decide or the level
lies above no threshold. A message at a module's own threshold tells them apart. -/
theorem shouldLog_eq_iff (logger : Logger) :
    (∀ level module, logger.shouldLog level module =
        (!logger.sinks.isEmpty && logger.filter.shouldLog level module)) ↔
      logger.sinks = [] ∨ ∀ module, logger.level ≤ logger.filter.threshold module := by
  constructor
  · intro agrees
    by_cases silent : logger.sinks = []
    · exact .inl silent
    · refine .inr fun module => ?_
      have wanted := agrees (logger.filter.threshold module) module
      have passes : logger.filter.shouldLog (logger.filter.threshold module) module = true :=
        decide_eq_true (Level.le_refl _)
      have listens : logger.sinks.isEmpty = false := by simpa using silent
      simpa [shouldLog, passes, listens] using wanted
  · rintro (silent | below) level module
    · simp [shouldLog, silent]
    · by_cases passes : logger.filter.shouldLog level module = true
      · have reached : logger.level ≤ level :=
          Level.le_trans (below module) (of_decide_eq_true passes)
        simp [shouldLog, reached]
      · simp [shouldLog, passes]

/-- After any run that begins with setting a logger up, the first comparison agrees with the
filter exactly if the logger has no sinks or the level that was set since the filter was
last described lies above no threshold of a named module; and this last condition is also
exactly when the logger's level lies above no threshold at all. -/
theorem shouldLog_exact (config : Config) (before : Logger) (outside : Outside) (steps : List Step) :
    let logger := (performAll (before.init config outside) steps).1
    let covered := ∀ level ∈ levelSince steps, ∀ entry ∈ logger.filter.modules, level ≤ entry.2
    ((∀ level module, logger.shouldLog level module =
        (!logger.sinks.isEmpty && logger.filter.shouldLog level module)) ↔
      logger.sinks = [] ∨ covered) ∧
    ((∀ module, logger.level ≤ logger.filter.threshold module) ↔ covered) := by
  intro logger covered
  have settled : Settled (levelSince steps) logger :=
    settled_performAll (settled_init config before outside) steps
  have above : (∀ module, logger.level ≤ logger.filter.threshold module) ↔ covered :=
    settled.le_threshold_iff
  exact ⟨(shouldLog_eq_iff logger).trans (or_congr_right above), above⟩

/-- Nothing outside but a clock. -/
def emptyOutside : Outside where
  now := ⟨[], 0⟩
  files := .flat []

/-- A run that lets a module through in full and sets the level after that. -/
def raisingRun : List Step :=
  [.addSink (.capture "c".toList), .setFilter "markup=trace".toList, .setLevel .error]

/-- Setting the level hides a module that the filter lets through: the filter accepts its
messages, a sink is there, and yet they are not wanted. -/
theorem setLevel_hides_module :
    let logger := (performAll (({} : Logger).init { console := false } emptyOutside) raisingRun).1
    logger.sinks.isEmpty = false ∧ logger.filter.shouldLog .debug "markup".toList = true ∧
      logger.shouldLog .debug "markup".toList = false ∧
      ¬ logger.level ≤ logger.filter.threshold "markup".toList := by
  decide

end CommentMarkdown.Log.Logger
