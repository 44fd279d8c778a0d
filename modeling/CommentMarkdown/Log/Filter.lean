import CommentMarkdown.Log.Level
import CommentMarkdown.Table

/-!
# Filters

A filter has a threshold for each module that it names and one for all others.
It is described by tokens between commas. A token with an equals sign sets the
threshold of the module in front of it, or the general one if that is a star; a
token without one lets everything from that module through.
-/

namespace CommentMarkdown.Log

/-- Thresholds by module. -/
structure Filter where
  /-- The threshold of a module that is not named. -/
  standard : Level := .info
  /-- The thresholds of the named modules. -/
  modules : Table Level := []
  deriving DecidableEq, Repr

namespace Filter

/-- The threshold of a module. -/
def threshold (filter : Filter) (module : Text) : Level :=
  (filter.modules.lookup module).getD filter.standard

/-- Whether a message of a level passes that a module wants to write. -/
def shouldLog (filter : Filter) (level : Level) (module : Text) : Bool :=
  filter.threshold module ≤ level

/-- The least of all thresholds. -/
def minLevel (filter : Filter) : Level :=
  filter.modules.foldl (fun least entry => Level.min least entry.2) filter.standard

/-- The filter with one module's threshold set. -/
def setModule (filter : Filter) (module : Text) (level : Level) : Filter :=
  { filter with modules := filter.modules.set module level }

/-- Setting a module's threshold changes the threshold of that module only. -/
theorem threshold_setModule (filter : Filter) (module : Text) (level : Level) (asked : Text) :
    (filter.setModule module level).threshold asked =
      if asked = module then level else filter.threshold asked := by
  unfold threshold setModule
  rw [Table.lookup_set]
  split <;> rfl

/-- The filter with one more token of its description taken into account. -/
def addToken (filter : Filter) (token : Text) : Filter :=
  let module := token.takeWhile (· ≠ '=')
  match token.dropWhile (· ≠ '=') with
  | [] => if module = [] then filter else filter.setModule module .trace
  | _ :: level =>
    if module = ['*'] then { filter with standard := Level.parse level }
    else filter.setModule module (Level.parse level)

/-- The filter that a description makes of one: its modules are forgotten, its general
threshold stays unless the description sets it. -/
def parse (filter : Filter) (description : Text) : Filter :=
  (description.splitOn ',').foldl addToken { filter with modules := [] }

end Filter

end CommentMarkdown.Log
