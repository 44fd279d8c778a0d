import CommentMarkdown.Log.Logger

/-!
# Attended computations

An attended computation has a logger at hand. Where a remark arises the logger is asked at
once whether it wants it, and takes it if it does, so that whatever is done later finds the
logger, and what lies outside, as the remark has left them.
-/

namespace CommentMarkdown

open Log (Logger Outside)

/-- A computation with a logger at hand. -/
abbrev Attended (α : Type) :=
  StateM (Logger × Outside) α

namespace Attended

/-- Puts a remark to the logger. -/
def remark (diagnostic : Diagnostic) : Attended Unit := fun (logger, outside) =>
  ((), logger.logWanted diagnostic.level diagnostic.module diagnostic.message outside)

/-- Carries a computation out under a logger: its value, and what it leaves. -/
def under {α : Type} (computation : Attended α) (logger : Logger) (outside : Outside) :
    α × Logger × Outside :=
  computation (logger, outside)

end Attended

end CommentMarkdown
