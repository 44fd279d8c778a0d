import CommentMarkdown.Text.Basic

/-!
# Severity levels

The levels are ordered by severity. `off` lies above every level that a record
is meant to have, so a threshold of `off` silences them all.
-/

namespace CommentMarkdown.Log

/-- How severe a record is, in ascending order. -/
inductive Level
  | trace
  | debug
  | info
  | warn
  | error
  | fatal
  | off
  deriving DecidableEq, Repr

namespace Level

/-- The place of a level in the order. -/
def rank : Level → Nat
  | trace => 0
  | debug => 1
  | info => 2
  | warn => 3
  | error => 4
  | fatal => 5
  | off => 6

instance : LE Level := ⟨fun lower upper => lower.rank ≤ upper.rank⟩

instance : DecidableLE Level := fun lower upper => Nat.decLe lower.rank upper.rank

/-- The less severe of two levels; the first one if they are the same. -/
def min (first second : Level) : Level :=
  if first ≤ second then first else second

theorem le_iff_rank_le {lower upper : Level} : lower ≤ upper ↔ lower.rank ≤ upper.rank := Iff.rfl

/-- The rank tells levels apart. -/
theorem rank_injective {first second : Level} (same : first.rank = second.rank) :
    first = second := by
  cases first <;> cases second <;> simp_all [rank]

/-- The less severe of two levels has the smaller rank. -/
@[simp]
theorem rank_min (first second : Level) :
    (min first second).rank = Nat.min first.rank second.rank := by
  unfold min
  split
  next below => exact (Nat.min_eq_left below).symm
  next above => exact (Nat.min_eq_right (Nat.le_of_not_le above)).symm

/-- The name that records carry. -/
def name : Level → Text
  | trace => "TRACE".toList
  | debug => "DEBUG".toList
  | info => "INFO".toList
  | warn => "WARN".toList
  | error => "ERROR".toList
  | fatal => "FATAL".toList
  | off => "OFF".toList

/-- Every level with the names that it is read from; a name is compared in small letters. -/
def spellings : List (Text × Level) :=
  [("trace".toList, trace), ("debug".toList, debug), ("info".toList, info), ("warn".toList, warn),
    ("warning".toList, warn), ("error".toList, error), ("fatal".toList, fatal), ("off".toList, off)]

/-- Reads a level, whatever the case of its letters. A word that names none is `info`. -/
def parse (word : Text) : Level :=
  (spellings.lookup (Text.lower word)).getD info

end Level

end CommentMarkdown.Log
