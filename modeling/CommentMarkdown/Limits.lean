/-!
# Limits

Comment text comes from anywhere, so nesting is bounded. The two bounds are given
with each call and have one default for the whole library.
-/

namespace CommentMarkdown

/-- How deep a call follows nested input. -/
structure Limits where
  /-- The deepest nesting of brace groups that is still resolved. -/
  directiveDepth : Nat := 64
  /-- The deepest nesting of elements, link labels and references that is followed. -/
  markupDepth : Nat := 256
  deriving DecidableEq, Repr

end CommentMarkdown
