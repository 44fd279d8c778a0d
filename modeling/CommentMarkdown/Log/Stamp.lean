import CommentMarkdown.Text.Basic

/-!
# Time stamps

A record shows when it was made in one of two forms: the time of day in lines of
text, a number of milliseconds in JSON. A stamp holds both, so that writing a
record needs no clock.
-/

namespace CommentMarkdown.Log

/-- The time at which records are made. -/
structure Stamp where
  /-- The time of day as text lines show it. -/
  clock : Text
  /-- Milliseconds since the start of 1970. -/
  millis : Int
  deriving DecidableEq, Repr

namespace Stamp

/-- A number filled up with zeros on the left. -/
def padded (width number : Nat) : Text :=
  (Text.decimal number).leftpad width '0'

/-- The stamp of a moment, with its time of day in universal time. -/
def ofMillis (millis : Int) : Stamp where
  clock :=
    let ofDay := (millis % 86400000).toNat
    padded 2 (ofDay / 3600000) ++ ':' :: padded 2 (ofDay / 60000 % 60) ++
      ':' :: padded 2 (ofDay / 1000 % 60) ++ '.' :: padded 3 (ofDay % 1000)
  millis := millis

end Stamp

end CommentMarkdown.Log
