import CommentMarkdown.Markup.Basic
import CommentMarkdown.Entity
import CommentMarkdown.Proofs.Markup.Outline

/-!
# Reading markup back

The written form of markup is read by one pass over its characters. What has been read is
a state: the elements that are open, what stands in the innermost one so far, and where
between the tags or inside of one the pass has come to. References are given back to
`Entity.decode`, so a character that escaping has replaced is found again.

The written form of a plain tree is read back as that tree (`written_form_read_back`). Plain is a
tree without pieces of Markdown, in which no text is empty and no two texts stand side by side;
these leave no trace in the written form that would tell them from others. Names need to have
characters, and none that ends a name. Texts and values of attributes are arbitrary.
-/

namespace CommentMarkdown

namespace Decoder

/-- Escaped text of which a beginning has been read. Behind an ampersand, there is the beginning
of a reference's name too. -/
structure Escaped where
  text : Text
  reference : Option Text

/-- One more character of an escaped text. -/
def Escaped.step (escaped : Escaped) (c : Char) : Escaped :=
  match escaped.reference with
  | none =>
    if c = '&' then { escaped with reference := some [] }
    else { escaped with text := escaped.text ++ [c] }
  | some name =>
    if c = ';' then ⟨escaped.text ++ Entity.decode name, none⟩
    else { escaped with reference := some (name ++ [c]) }

/-- The beginning of an element as far as it has been read. -/
structure Tag where
  name : Text
  attributes : List (Text × Text)

/-- An open element, with what stands before it. -/
structure Frame where
  tag : Tag
  before : List Markup

/-- Where a pass has come to. -/
inductive Mode
  /-- Between two tags. -/
  | content (escaped : Escaped)
  /-- Behind the bracket that begins a tag. -/
  | bracket
  /-- In the name of a start tag, or behind an attribute. -/
  | start (tag : Tag)
  /-- In the name of an attribute. -/
  | attribute (tag : Tag) (name : Text)
  /-- In front of the quote that begins a value. -/
  | equals (tag : Tag) (name : Text)
  /-- In the value of an attribute. -/
  | value (tag : Tag) (name : Text) (escaped : Escaped)
  /-- Behind the slash of an element without content. -/
  | slash (tag : Tag)
  /-- In the name of an end tag. -/
  | finish (name : Text)

/-- What has been read: the open elements, innermost first, and what stands in the innermost one. -/
structure State where
  frames : List Frame
  nodes : List Markup
  mode : Mode

/-- A character of a name: any but the four that may stand behind one. -/
def isNameCharacter (c : Char) : Bool :=
  c != ' ' && c != '=' && c != '/' && c != '>'

/-- Nodes and the text behind them, if there is any. -/
def closeText (nodes : List Markup) (text : Text) : List Markup :=
  if text = [] then nodes else nodes ++ [.text text]

/-- Between two tags. -/
def between (frames : List Frame) (nodes : List Markup) (text : Text) : State :=
  ⟨frames, nodes, .content ⟨text, none⟩⟩

/-- One more character of a start tag, behind its name or an attribute. A name may go on as long
as it has no attribute. -/
def stepStart (frames : List Frame) (nodes : List Markup) (tag : Tag) (c : Char) : Option State :=
  if isNameCharacter c then
    if tag.attributes = [] then some ⟨frames, nodes, .start ⟨tag.name ++ [c], []⟩⟩ else none
  else if c = ' ' then some ⟨frames, nodes, .attribute tag []⟩
  else if c = '/' then some ⟨frames, nodes, .slash tag⟩
  else if c = '>' then some (between (⟨tag, nodes⟩ :: frames) [] [])
  else none

/-- The end of an element. Its name has to be that of the innermost open one. -/
def stepFinish (frames : List Frame) (nodes : List Markup) (name : Text) : Option State :=
  match frames with
  | ⟨tag, before⟩ :: outer =>
    if tag.name = name then
      some (between outer (before ++ [.element tag.name tag.attributes nodes]) [])
    else none
  | [] => none

/-- One more character. -/
def step (state : State) (c : Char) : Option State :=
  let ⟨frames, nodes, mode⟩ := state
  match mode with
  | .content escaped =>
    if c = '<' then
      if escaped.reference = none then some ⟨frames, closeText nodes escaped.text, .bracket⟩
      else none
    else some ⟨frames, nodes, .content (escaped.step c)⟩
  | .bracket =>
    if isNameCharacter c then some ⟨frames, nodes, .start ⟨[c], []⟩⟩
    else if c = '/' then some ⟨frames, nodes, .finish []⟩
    else none
  | .start tag => stepStart frames nodes tag c
  | .attribute tag name =>
    if isNameCharacter c then some ⟨frames, nodes, .attribute tag (name ++ [c])⟩
    else if c = '=' then some ⟨frames, nodes, .equals tag name⟩
    else none
  | .equals tag name =>
    if c = '"' then some ⟨frames, nodes, .value tag name ⟨[], none⟩⟩ else none
  | .value tag name escaped =>
    if c = '"' then
      if escaped.reference = none then
        some ⟨frames, nodes, .start { tag with
          attributes := tag.attributes ++ [(name, escaped.text)] }⟩
      else none
    else some ⟨frames, nodes, .value tag name (escaped.step c)⟩
  | .slash tag =>
    if c = '>' then some (between frames (nodes ++ [.element tag.name tag.attributes []]) [])
    else none
  | .finish name =>
    if isNameCharacter c then some ⟨frames, nodes, .finish (name ++ [c])⟩
    else if c = '>' then stepFinish frames nodes name
    else none

/-- A pass over a text, as far as it can be read. -/
def run (state : State) (text : Text) : Option State :=
  text.foldlM step state

/-- What a pass has read in the end: no element is open, and no tag or reference has begun. -/
def State.result? : State → Option (List Markup)
  | ⟨[], nodes, .content ⟨text, none⟩⟩ => some (closeText nodes text)
  | _ => none

/-- The markup that a text is the written form of. -/
def decodeAll (text : Text) : Option (List Markup) :=
  (run (between [] [] []) text).bind State.result?

/-- The one node that a text is the written form of. -/
def decode (text : Text) : Option Markup :=
  match decodeAll text with
  | some [node] => some node
  | _ => none

/-- A name has characters, and none that may stand behind one. -/
def IsName (name : Text) : Prop :=
  name ≠ [] ∧ ∀ c ∈ name, isNameCharacter c

/-- Words of letters, digits, hyphens and underscores are names. -/
theorem isName_of_word {name : Text} (nonempty : name ≠ [])
    (word : name.all fun c => c.isAlphanum || c == '-' || c == '_') : IsName name := by
  refine ⟨nonempty, ?_⟩
  intro c member
  have other (d : Char) (ends : (d.isAlphanum || d == '-' || d == '_') = false) : c ≠ d := by
    rintro rfl
    exact Bool.false_ne_true (ends.symm.trans (List.all_eq_true.mp word c member))
  simp [isNameCharacter, other ' ' rfl, other '=' rfl, other '/' rfl, other '>' rfl]

/-- Lists of nodes that can be told by their written form. There is no piece of Markdown in them;
a text has characters, and no text stands behind it; elements and attributes have names. -/
inductive Plain : List Markup → Prop
  | nil : Plain []
  | text {content : Text} {rest : List Markup} (nonempty : content ≠ [])
    (apart : ∀ next ∈ rest.head?, next.isText = false) (behind : Plain rest) :
    Plain (.text content :: rest)
  | element {name : Text} {attributes : List (Text × Text)} {children rest : List Markup}
    (named : IsName name) (attributesNamed : ∀ entry ∈ attributes, IsName entry.1)
    (inside : Plain children) (behind : Plain rest) :
    Plain (.element name attributes children :: rest)

/-- A pass over two texts is one over the second behind one over the first. -/
theorem run_append {state next : State} {first : Text} (reached : run state first = some next)
    (second : Text) : run state (first ++ second) = run next second := by
  rw [run, List.foldlM_append, ← run, reached]
  rfl

/-- A pass over a text is one over the rest behind a step. -/
theorem run_cons {state next : State} {c : Char} (reached : step state c = some next)
    (rest : Text) : run state (c :: rest) = run next rest := by
  rw [run, List.foldlM_cons, reached]
  rfl

/-- A pass in which each piece adds its item to what the mode has, adds all of them. -/
theorem run_flatMap {α : Type} (frames : List Frame) (nodes : List Markup) (mode : List α → Mode)
    (piece : α → Text) (items : List α)
    (adds : ∀ before, ∀ item ∈ items, run ⟨frames, nodes, mode before⟩ (piece item) =
      some ⟨frames, nodes, mode (before ++ [item])⟩) (before : List α) :
    run ⟨frames, nodes, mode before⟩ (items.flatMap piece) =
      some ⟨frames, nodes, mode (before ++ items)⟩ := by
  induction items generalizing before with
  | nil =>
    rw [List.append_nil]
    rfl
  | cons item rest ih =>
    rw [List.flatMap_cons, run_append (adds before item List.mem_cons_self),
      ih (fun before other member => adds before other (List.mem_cons_of_mem item member)),
      List.append_assoc, List.singleton_append]

/-- A pass in which each character of a name adds itself to what the mode has, adds the name. -/
theorem run_name (frames : List Frame) (nodes : List Markup) (mode : Text → Mode)
    (adds : ∀ before c, isNameCharacter c → step ⟨frames, nodes, mode before⟩ c =
      some ⟨frames, nodes, mode (before ++ [c])⟩)
    {name : Text} (named : ∀ c ∈ name, isNameCharacter c) (before : Text) :
    run ⟨frames, nodes, mode before⟩ name = some ⟨frames, nodes, mode (before ++ name)⟩ := by
  have whole := run_flatMap frames nodes mode (fun c => [c]) name
    (fun before c member => run_cons (adds before c (named c member)) []) before
  rwa [List.flatMap_singleton'] at whole

/-- A character that has been escaped is found again between two tags. -/
theorem run_escapeChar (frames : List Frame) (nodes : List Markup) (before : Text) (c : Char) :
    run (between frames nodes before) (Text.escapeChar c) =
      some (between frames nodes (before ++ [c])) := by
  by_cases special : c = '&' ∨ c = '<' ∨ c = '>'
  · obtain rfl | rfl | rfl := special <;> rfl
  · obtain ⟨noReference, noTag, noEnd⟩ : c ≠ '&' ∧ c ≠ '<' ∧ c ≠ '>' := by
      simpa only [not_or] using special
    have itself : Text.escapeChar c = [c] := by
      rw [Text.escapeChar, if_neg noReference, if_neg noTag, if_neg noEnd]
    have stays : step (between frames nodes before) c =
        some (between frames nodes (before ++ [c])) := by
      simp only [step, between, Escaped.step, if_neg noReference, if_neg noTag]
    rw [itself]
    exact run_cons stays []

/-- A character that has been escaped is found again in the value of an attribute. -/
theorem run_escapeQuotedChar (frames : List Frame) (nodes : List Markup) (tag : Tag) (name : Text)
    (before : Text) (c : Char) :
    run ⟨frames, nodes, .value tag name ⟨before, none⟩⟩ (Text.escapeQuotedChar c) =
      some ⟨frames, nodes, .value tag name ⟨before ++ [c], none⟩⟩ := by
  by_cases special : c = '"' ∨ c = '&' ∨ c = '<' ∨ c = '>'
  · obtain rfl | rfl | rfl | rfl := special <;> rfl
  · obtain ⟨noQuote, noReference, noTag, noEnd⟩ : c ≠ '"' ∧ c ≠ '&' ∧ c ≠ '<' ∧ c ≠ '>' := by
      simpa only [not_or] using special
    have itself : Text.escapeQuotedChar c = [c] := by
      rw [Text.escapeQuotedChar, if_neg noQuote, Text.escapeChar, if_neg noReference,
        if_neg noTag, if_neg noEnd]
    have stays : step ⟨frames, nodes, .value tag name ⟨before, none⟩⟩ c =
        some ⟨frames, nodes, .value tag name ⟨before ++ [c], none⟩⟩ := by
      simp only [step, Escaped.step, if_neg noReference, if_neg noQuote]
    rw [itself]
    exact run_cons stays []

/-- Text is found again. -/
theorem run_escape (frames : List Frame) (nodes : List Markup) (before content : Text) :
    run (between frames nodes before) (Text.escape content) =
      some (between frames nodes (before ++ content)) :=
  run_flatMap frames nodes (fun text => .content ⟨text, none⟩) Text.escapeChar content
    (fun before c _ => run_escapeChar frames nodes before c) before

/-- An attribute is found again, behind the name of a start tag or another attribute. -/
theorem run_writeAttribute (frames : List Frame) (nodes : List Markup) (tag : Tag)
    {entry : Text × Text} (named : IsName entry.1) :
    run ⟨frames, nodes, .start tag⟩ (Markup.writeAttribute entry) =
      some ⟨frames, nodes, .start { tag with attributes := tag.attributes ++ [entry] }⟩ := by
  obtain ⟨name, value⟩ := entry
  have begun : step ⟨frames, nodes, .start tag⟩ ' ' = some ⟨frames, nodes, .attribute tag []⟩ := rfl
  have word := run_name frames nodes (.attribute tag ·) (fun _ _ fits => if_pos fits) named.2 []
  have equals : step ⟨frames, nodes, .attribute tag name⟩ '=' =
      some ⟨frames, nodes, .equals tag name⟩ := rfl
  have opened : step ⟨frames, nodes, .equals tag name⟩ '"' =
      some ⟨frames, nodes, .value tag name ⟨[], none⟩⟩ := rfl
  have quoted := run_flatMap frames nodes (fun text => .value tag name ⟨text, none⟩)
    Text.escapeQuotedChar value
    (fun before c _ => run_escapeQuotedChar frames nodes tag name before c) []
  rw [Markup.writeAttribute, List.append_assoc, List.cons_append, run_cons begun, run_append word,
    List.nil_append, List.cons_append, run_cons equals, List.cons_append, run_cons opened,
    Text.escapeQuoted, run_append quoted]
  rfl

/-- A start tag is found again, as far as the character that ends it. -/
theorem run_tag (frames : List Frame) (nodes : List Markup) {name : Text}
    {attributes : List (Text × Text)} (named : IsName name)
    (attributesNamed : ∀ entry ∈ attributes, IsName entry.1) :
    run ⟨frames, nodes, .bracket⟩ (name ++ attributes.flatMap Markup.writeAttribute) =
      some ⟨frames, nodes, .start ⟨name, attributes⟩⟩ := by
  obtain ⟨nonempty, characters⟩ := named
  obtain ⟨first, rest, rfl⟩ := List.exists_cons_of_ne_nil nonempty
  obtain ⟨firstFits, restFits⟩ := List.forall_mem_cons.mp characters
  have begun : step ⟨frames, nodes, .bracket⟩ first =
      some ⟨frames, nodes, .start ⟨[first], []⟩⟩ := if_pos firstFits
  have word := run_name frames nodes (fun name => .start ⟨name, []⟩) (fun _ _ fits => if_pos fits)
    restFits [first]
  have attached := run_flatMap frames nodes (fun attributes => .start ⟨first :: rest, attributes⟩)
    Markup.writeAttribute attributes
    (fun before entry member =>
      run_writeAttribute frames nodes ⟨first :: rest, before⟩ (attributesNamed entry member)) []
  rw [List.cons_append, run_cons begun, run_append word]
  exact attached

/-- An element is found again if what it holds is. Its start tag ends the text in front of it, and
its end tag ends the text in it. -/
theorem run_element {name : Text} {attributes : List (Text × Text)} {children : List Markup}
    (named : IsName name) (attributesNamed : ∀ entry ∈ attributes, IsName entry.1)
    (inside : ∀ frames, ∃ nodes text,
      run (between frames [] []) (Markup.serializeAll children) =
        some (between frames nodes text) ∧ closeText nodes text = children)
    (frames : List Frame) (before : List Markup) (pending : Text) :
    run (between frames before pending) (Markup.serialize (.element name attributes children)) =
      some (between frames (closeText before pending ++ [.element name attributes children])
        []) := by
  have begun : step (between frames before pending) '<' =
      some ⟨frames, closeText before pending, .bracket⟩ := rfl
  have tag := run_tag frames (closeText before pending) named attributesNamed
  rw [Markup.serialize, Markup.writeElement, List.cons_append, List.cons_append, run_cons begun,
    run_append tag]
  cases children with
  | nil => rfl
  | cons first rest =>
    let outer : List Frame := ⟨⟨name, attributes⟩, closeText before pending⟩ :: frames
    obtain ⟨nodes, text, held, whole⟩ := inside outer
    have opened : step ⟨frames, closeText before pending, .start ⟨name, attributes⟩⟩ '>' =
        some (between outer [] []) := rfl
    have ended : step (between outer nodes text) '<' =
        some ⟨outer, closeText nodes text, .bracket⟩ := rfl
    have slash : step ⟨outer, closeText nodes text, .bracket⟩ '/' =
        some ⟨outer, closeText nodes text, .finish []⟩ := rfl
    have word := run_name outer (closeText nodes text) .finish (fun _ _ fits => if_pos fits)
      named.2 []
    have closed : step ⟨outer, closeText nodes text, .finish name⟩ '>' =
        some (between frames
          (closeText before pending ++ [.element name attributes (closeText nodes text)]) []) :=
      if_pos rfl
    rw [if_neg nofun, List.cons_append, List.cons_append, run_cons opened, List.append_assoc,
      run_append held, List.cons_append, run_cons ended, List.cons_append, run_cons slash,
      run_append word, List.nil_append, run_cons closed, whole]
    rfl

/-- A pass over the written form of plain nodes adds these nodes to what has been read. The last
of them may be text, which is not ended yet. If text has been read in front of them, the first
one must not be text. -/
theorem run_serializeAll {nodes : List Markup} (plain : Plain nodes) (frames : List Frame)
    (before : List Markup) (pending : Text)
    (apart : ∀ next ∈ nodes.head?, next.isText → pending = []) :
    ∃ after rest, run (between frames before pending) (Markup.serializeAll nodes) =
        some (between frames after rest) ∧
      closeText after rest = closeText before pending ++ nodes := by
  induction plain generalizing frames before pending with
  | nil => exact ⟨before, pending, rfl, (List.append_nil _).symm⟩
  | @text content rest nonempty follows _ behind =>
    obtain rfl := apart _ rfl rfl
    have noText : ∀ next ∈ rest.head?, next.isText → content = [] := by
      intro next first isText
      rw [follows next first] at isText
      cases isText
    obtain ⟨after, last, reached, added⟩ := behind frames before content noText
    refine ⟨after, last, ?_, ?_⟩
    · rw [Markup.serializeAll, Markup.serialize, run_append (run_escape frames before [] content)]
      exact reached
    · rw [added, closeText, if_neg nonempty, List.append_assoc]
      rfl
  | @element name attributes children rest named attributesNamed _ _ inside behind =>
    have element := run_element named attributesNamed
      (fun outer => inside outer [] [] fun _ _ _ => rfl) frames before pending
    obtain ⟨after, last, reached, added⟩ := behind frames
      (closeText before pending ++ [.element name attributes children]) [] fun _ _ _ => rfl
    refine ⟨after, last, ?_, ?_⟩
    · rw [Markup.serializeAll, run_append element]
      exact reached
    · rw [added, closeText, if_pos rfl, List.append_assoc]
      rfl

/-- Plain nodes are found again in their written form. -/
theorem decodeAll_serializeAll {nodes : List Markup} (plain : Plain nodes) :
    decodeAll (Markup.serializeAll nodes) = some nodes := by
  obtain ⟨after, rest, reached, added⟩ :=
    run_serializeAll plain [] [] [] fun _ _ _ => rfl
  rw [decodeAll, reached]
  exact congrArg some added

end Decoder

namespace Markup

open Decoder

/-- The written form of a plain tree is read back as that tree, and what it holds is read back from
the written form of what it holds. So plain trees with one written form are one tree, and if they
write what they hold in one way, they hold the same nodes. -/
theorem written_form_read_back (tree : Markup) (plain : Plain [tree]) :
    decode tree.serialize = some tree ∧
      decodeAll tree.serializeChildren = some tree.children ∧
      ∀ other, Plain [other] →
        (other.serialize = tree.serialize → other = tree) ∧
          (other.serializeChildren = tree.serializeChildren → other.children = tree.children) := by
  have single {node : Markup} (plain : Plain [node]) : decode node.serialize = some node := by
    have read := decodeAll_serializeAll plain
    rw [serializeAll, serializeAll, List.append_nil] at read
    rw [decode, read]
  have inner {node : Markup} (plain : Plain [node]) :
      decodeAll node.serializeChildren = some node.children := by
    cases plain with
    | text _ _ _ => exact decodeAll_serializeAll .nil
    | element _ _ inside _ => exact decodeAll_serializeAll inside
  refine ⟨single plain, inner plain, ?_⟩
  intro other plainOther
  constructor
  · intro same
    have read := single plainOther
    rw [same, single plain] at read
    exact (Option.some.inj read).symm
  · intro same
    have read := inner plainOther
    rw [same, inner plain] at read
    exact (Option.some.inj read).symm

/-- A tree with the characters that markup claims, in a value and in texts around an element
without content. -/
def quotedTree : Markup :=
  .element "ul".toList [("data-x_1".toList, "\"a\" & b".toList), ("id".toList, [])]
    [.text "1 < 2".toList, .element "br".toList [] [], .text "&lt;".toList]

/-- It is plain, so it is read back from its written form. -/
theorem quotedTree_read_back :
    Plain [quotedTree] ∧
      quotedTree.serialize =
        "<ul data-x_1=\"&quot;a&quot; &amp; b\" id=\"\">1 &lt; 2<br/>&amp;lt;</ul>".toList ∧
      decode quotedTree.serialize = some quotedTree := by
  have br : Plain [.element "br".toList [] [], .text "&lt;".toList] :=
    .element (isName_of_word (by decide) rfl) nofun .nil
      (.text (by decide) nofun .nil)
  have attributesNamed : ∀ entry ∈ [("data-x_1".toList, "\"a\" & b".toList), ("id".toList, [])],
      IsName entry.1 :=
    List.forall_mem_cons.mpr ⟨isName_of_word (by decide) rfl,
      List.forall_mem_singleton.mpr (isName_of_word (by decide) rfl)⟩
  have plain : Plain [quotedTree] :=
    .element (isName_of_word (by decide) rfl) attributesNamed
      (.text (by decide) (fun _ first => by cases first; rfl) br) .nil
  exact ⟨plain, by decide +kernel, (written_form_read_back quotedTree plain).1⟩

end Markup

end CommentMarkdown
