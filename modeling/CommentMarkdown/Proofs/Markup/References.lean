import CommentMarkdown.Entity
import CommentMarkdown.Markup.Basic
import CommentMarkdown.Proofs.Directive.Concatenation
import CommentMarkdown.Proofs.Directive.Segments
import CommentMarkdown.Proofs.Text.Runs

/-!
# References read back

What escaping writes is a sequence of pieces, one for each character: the character itself, or a
reference whose name stands for it (`WrittenAs`). An ampersand is never a piece of its own, so
every ampersand in the sequence begins a reference, also where the text that was written holds
references already. Replacing the references from left to right therefore gives the text back,
for running text as for the value of an attribute (`escapers_agree`).

A directive that is handed to markup as a literal is escaped as running text is. Braces are left
out there, since they would make groups of their own.
-/

namespace CommentMarkdown

namespace Entity

/-- A character of a reference's name: any but the two marks around it. -/
def inName (c : Char) : Bool :=
  c != '&' && c != ';'

/-- The text with each reference replaced by what its name stands for, from left to right. An
ampersand that begins no reference stays. -/
def decodeReferences : Text → Text
  | [] => []
  | c :: rest =>
    if c = '&' ∧ (rest.dropWhile inName).head? = some ';' then
      decode (rest.takeWhile inName) ++ decodeReferences (rest.dropWhile inName).tail
    else c :: decodeReferences rest
termination_by text => text.length
decreasing_by
  · have shorter := (List.dropWhile_sublist inName (l := rest)).length_le
    rw [List.length_tail, List.length_cons]
    omega
  · rw [List.length_cons]
    omega

/-- How a character may be written: as it is, or as a reference to it. -/
inductive WrittenAs (c : Char) : Text → Prop
  | itself (plain : c ≠ '&') : WrittenAs c [c]
  | reference {name : Text} (named : ∀ d ∈ name, inName d = true) (means : decode name = [c]) :
    WrittenAs c ('&' :: name ++ [';'])

/-- What is no ampersand begins no reference. -/
theorem decodeReferences_cons {c : Char} (plain : c ≠ '&') (rest : Text) :
    decodeReferences (c :: rest) = c :: decodeReferences rest := by
  rw [decodeReferences, if_neg fun begins => plain begins.1]

/-- A reference is replaced by what its name stands for. -/
theorem decodeReferences_reference {name : Text} (named : ∀ d ∈ name, inName d = true)
    (rest : Text) :
    decodeReferences ('&' :: (name ++ ';' :: rest)) = decode name ++ decodeReferences rest := by
  have ends : ∀ d ∈ (';' :: rest).head?, inName d = false := by
    intro d first
    obtain rfl : ';' = d := Option.some.inj first
    decide
  obtain ⟨front, behind⟩ := Text.takeWhile_run named ends
  rw [decodeReferences, front, behind, if_pos ⟨rfl, rfl⟩, List.tail_cons]

/-- A character is read back from how it is written, whatever follows. -/
theorem WrittenAs.decodeReferences_append {c : Char} {piece : Text} (written : WrittenAs c piece)
    (rest : Text) : decodeReferences (piece ++ rest) = c :: decodeReferences rest := by
  cases written with
  | itself plain => exact decodeReferences_cons plain rest
  | reference named means =>
    rw [List.append_assoc, List.cons_append, List.singleton_append,
      decodeReferences_reference named, means, List.singleton_append]

/-- A text that is written character by character is read back. -/
theorem decodeReferences_flatMap {write : Char → Text} (written : ∀ c, WrittenAs c (write c))
    (text : Text) : decodeReferences (text.flatMap write) = text := by
  induction text with
  | nil => rw [List.flatMap_nil, decodeReferences]
  | cons c rest ih => rw [List.flatMap_cons, (written c).decodeReferences_append, ih]

/-- Escaping writes a character as it is or as a reference to it. -/
theorem writtenAs_escapeChar (c : Char) : WrittenAs c (Text.escapeChar c) := by
  have ampersand : WrittenAs '&' ('&' :: "amp".toList ++ [';']) :=
    .reference (List.all_eq_true.mp rfl) rfl
  have opening : WrittenAs '<' ('&' :: "lt".toList ++ [';']) :=
    .reference (List.all_eq_true.mp rfl) rfl
  have closing : WrittenAs '>' ('&' :: "gt".toList ++ [';']) :=
    .reference (List.all_eq_true.mp rfl) rfl
  unfold Text.escapeChar
  split
  next same => exact same ▸ ampersand
  next plain =>
    split
    next same => exact same ▸ opening
    next =>
      split
      next same => exact same ▸ closing
      next => exact .itself plain

/-- Escaping a quoted value has a reference to the quote besides. -/
theorem writtenAs_escapeQuotedChar (c : Char) : WrittenAs c (Text.escapeQuotedChar c) := by
  have quote : WrittenAs '"' ('&' :: "quot".toList ++ [';']) :=
    .reference (List.all_eq_true.mp rfl) rfl
  unfold Text.escapeQuotedChar
  split
  next same => exact same ▸ quote
  next => exact writtenAs_escapeChar c

end Entity

namespace Directive

/-- The content of a group may be any text without braces. -/
theorem allInner_map_char {text : Text} (flat : ∀ c ∈ text, c ≠ '{' ∧ c ≠ '}') :
    AllInner (text.map .char) := by
  induction text with
  | nil => trivial
  | cons c rest ih =>
    obtain ⟨flatHere, flatRest⟩ := List.forall_mem_cons.mp flat
    exact ⟨flatHere, ih flatRest⟩

/-- A literal around a text without braces is a tree of one group. -/
theorem reads_literal {limit : Nat} (deep : 1 ≤ limit) {text : Text}
    (flat : ∀ c ∈ text, c ≠ '{' ∧ c ≠ '}') :
    Reads limit ("\x7b@literal ".toList ++ text ++ ['}'])
      [.group (.named "literal".toList true) (text.map .char)] := by
  have content : Reads 0 text (text.map .char) :=
    reads_of_flat 0 fun opens => (flat '{' opens).1 rfl
  have letters : ∀ c ∈ "literal".toList, Text.isLetter c = true := List.all_eq_true.mp rfl
  have inner : Item.Inner (.group (.named "literal".toList true) (text.map .char)) :=
    ⟨⟨letters, nofun⟩, allInner_map_char flat⟩
  constructor
  · exact List.forall_mem_singleton.mpr (.inl inner)
  · rw [depthOf, Item.depth, depthOf, Nat.le_zero.mp content.shallow]
    exact deep
  · rw [sourceOf, Item.source, content.source, sourceOf, List.append_nil]
    rfl

/-- A literal around a text without braces is handed to markup in a shield. -/
theorem value_replace_literal {limits : Limits} (deep : 1 ≤ limits.directiveDepth) {text : Text}
    (flat : ∀ c ∈ text, c ≠ '{' ∧ c ≠ '}') :
    (replace limits .markup ("\x7b@literal ".toList ++ text ++ ['}'])).value = shield text := by
  have literal : (Head.named "literal".toList true).style = .literal := by decide
  have styled : Style.literal ≠ .bare := by decide
  rw [value_replace_of_reads (reads_literal deep flat), Target.render, markupOf, Item.markup,
    literal, if_neg styled, Style.enclose, textOf_map_char, markupOf, List.append_nil]

end Directive

namespace Markup

/-- A quoted value holds no quote, so it goes as far as the first one. -/
theorem quote_not_mem_escapeQuoted (value : Text) : '"' ∉ Text.escapeQuoted value := by
  have noQuote (c : Char) : '"' ∉ Text.escapeQuotedChar c := by
    unfold Text.escapeQuotedChar Text.escapeChar
    split
    next => decide
    next other =>
      split
      next => decide
      split
      next => decide
      split
      next => decide
      next => exact fun member => other (List.mem_singleton.mp member).symm
  intro member
  obtain ⟨c, _, inside⟩ := List.mem_flatMap.mp member
  exact noQuote c inside

/-- Escaping and the meaning of references agree. A literal around a text without braces is handed
to markup as the written form of the text between the tags of a shield, and any text is read
back from its written form by replacing references, as running text and as the value of an
attribute. -/
theorem escapers_agree (text : Text) :
    (∀ limits : Limits, 1 ≤ limits.directiveDepth → '{' ∉ text → '}' ∉ text →
      (Directive.replace limits .markup ("\x7b@literal ".toList ++ text ++ ['}'])).value =
        "<docmd-md>".toList ++ serialize (.text text) ++ "</docmd-md>".toList) ∧
      Entity.decodeReferences (serialize (.text text)) = text ∧
      ∀ name, ∃ quoted,
        writeAttribute (name, text) = ' ' :: name ++ '=' :: '"' :: quoted ++ ['"'] ∧
          '"' ∉ quoted ∧ Entity.decodeReferences quoted = text := by
  refine ⟨?_, ?_, ?_⟩
  · intro limits deep noOpening noClosing
    have flat : ∀ c ∈ text, c ≠ '{' ∧ c ≠ '}' := fun c member =>
      ⟨fun opens => noOpening (opens ▸ member), fun closes => noClosing (closes ▸ member)⟩
    rw [Directive.value_replace_literal deep flat, ← Directive.marked_shielded]
    rfl
  · exact Entity.decodeReferences_flatMap Entity.writtenAs_escapeChar text
  · intro name
    exact ⟨Text.escapeQuoted text, rfl, quote_not_mem_escapeQuoted text,
      Entity.decodeReferences_flatMap Entity.writtenAs_escapeQuotedChar text⟩

/-- A text with every character that has a reference, and with what looks like references. -/
def referringText : Text :=
  "a<b> && \"&amp;lt;\" &x".toList

/-- Where one group may be open, a literal around it is handed on with all of them escaped. -/
theorem referringText_agrees :
    1 ≤ ({ directiveDepth := 1 } : Limits).directiveDepth ∧
      '{' ∉ referringText ∧ '}' ∉ referringText ∧
      serialize (.text referringText) =
        "a&lt;b&gt; &amp;&amp; \"&amp;amp;lt;\" &amp;x".toList ∧
      (Directive.replace { directiveDepth := 1 } .markup
        ("\x7b@literal ".toList ++ referringText ++ ['}'])).value =
          "<docmd-md>".toList ++ serialize (.text referringText) ++ "</docmd-md>".toList := by
  have deep : 1 ≤ ({ directiveDepth := 1 } : Limits).directiveDepth := Nat.le_refl 1
  have noOpening : '{' ∉ referringText := by decide
  have noClosing : '}' ∉ referringText := by decide
  exact ⟨deep, noOpening, noClosing, by decide,
    (escapers_agree referringText).1 _ deep noOpening noClosing⟩

end Markup

end CommentMarkdown
