import CommentMarkdown.Text.Basic

/-!
# Tag pairs

Whether a text is worth reading as HTML is decided by a look for one pair of
tags: an angle bracket with a name right behind it, the bracket that ends this
tag, and after it the same name in an end tag. Between a name and the end of its
tag anything may stand, another tag's start included.

The look is a single pass over the text. An end tag may be far away, and many
tags may share a name, so the offset of a name's last end tag is looked up in the
whole text once and then remembered.
-/

namespace CommentMarkdown.TagPair

/-- The end tag of a name. -/
def endTag (name : Text) : Text :=
  '<' :: '/' :: name ++ ['>']

/-- The offset, counted from `start`, of the last place where a pattern that is not empty
occurs in a text. -/
def lastOccurrence? (pattern : Text) (start : Nat) : Text → Option Nat
  | [] => none
  | c :: rest =>
    (lastOccurrence? pattern (start + 1) rest).or
      (if pattern.isPrefixOf (c :: rest) then some start else none)

/-- Names whose last end tag has been looked up, and where it was found. -/
abbrev Memory := List (Text × Option Nat)

/-- The offset of a name's last end tag, and the memory with that name in it. -/
def lastEndTag (whole : Text) (memory : Memory) (name : Text) : Option Nat × Memory :=
  match memory.lookup name with
  | some offset => (offset, memory)
  | none =>
    let offset := lastOccurrence? (endTag name) 0 whole
    (offset, (name, offset) :: memory)

/-- Where the pass is. -/
inductive Place
  /-- Outside of tags. -/
  | outside
  /-- Behind an angle bracket and the letters of a name, latest first. -/
  | naming (letters : Text)
  /-- Behind the name of a tag that has not ended yet. -/
  | inside (name : Text)
  deriving DecidableEq, Repr

namespace Place

/-- The place behind a character that has no part in a tag yet. -/
def restart (c : Char) : Place :=
  if c = '<' then naming [] else outside

/-- The place behind a character that follows a tag's name, and the name if the tag ends. -/
def proceed (name : Text) (c : Char) : Place × Option Text :=
  if c = '>' then (outside, some name) else (inside name, none)

/-- The place behind one more character, and the name of the tag that it ends, if any. -/
def step (c : Char) : Place → Place × Option Text
  | outside => (restart c, none)
  | naming letters =>
    if Text.isWord c then (naming (c :: letters), none)
    else if letters.isEmpty then (restart c, none)
    else proceed letters.reverse c
  | inside name => proceed name c

end Place

/-- Whether a pair is completed in the rest of a text, which begins at an offset and a place. -/
def occursFrom (whole : Text) : Nat → Memory → Place → Text → Bool
  | _, _, _, [] => false
  | offset, memory, place, c :: rest =>
    match place.step c with
    | (next, none) => occursFrom whole (offset + 1) memory next rest
    | (next, some name) =>
      let (last, memory) := lastEndTag whole memory name
      if last.any (offset < ·) then true
      else occursFrom whole (offset + 1) memory next rest

/-- Whether a text holds a tag pair. -/
def occurs (text : Text) : Bool :=
  occursFrom text 0 [] .outside text

end CommentMarkdown.TagPair
