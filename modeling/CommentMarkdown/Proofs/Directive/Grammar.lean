import CommentMarkdown.Directive.Resolve

/-!
# The grammar of prose

A prose text is a sequence of characters, groups and closing braces that belong to
no group. Inside a group stand characters that are no braces, and further groups.
The head of a group takes as much as it can: a name goes on to its last letter, a
blank behind it is taken if there is one, and a group whose content begins with an
at sign is always a directive.

The trees of this grammar are lists of items, and `sourceOf` is the text that a tree
stands for. `Reads` says that a tree is one of a given text with bounded nesting.
`Shows` is what a tree yields, by the names of its directives alone. Neither mentions
tokens or pending groups.
-/

namespace CommentMarkdown.Directive

/-- Induction over lists of items. A group contributes its body and what stands behind it. -/
@[elab_as_elim]
theorem Item.listInduction {motive : List Item → Prop} (nil : motive [])
    (char : ∀ c rest, motive rest → motive (.char c :: rest))
    (group : ∀ head body rest, motive body → motive rest → motive (.group head body :: rest)) :
    ∀ items, motive items
  | [] => nil
  | .char c :: rest => char c rest (listInduction nil char group rest)
  | .group head body :: rest =>
    group head body rest (listInduction nil char group body) (listInduction nil char group rest)

/-- The head leaves nothing behind that it could have taken from the text that follows it. -/
def Head.Maximal : Head → Text → Prop
  | plain, following => following.head? ≠ some '@'
  | named name spaced, following =>
    (∀ c ∈ name, Text.isLetter c = true) ∧
      (spaced = false → ∀ c ∈ following.head?, Text.isLetter c = false ∧ c ≠ ' ')

mutual

/-- An item as it may stand inside a group. -/
def Item.Inner : Item → Prop
  | .char c => c ≠ '{' ∧ c ≠ '}'
  | .group head body => head.Maximal (sourceOf body) ∧ AllInner body

/-- The content of a group. -/
def AllInner : List Item → Prop
  | [] => True
  | item :: rest => item.Inner ∧ AllInner rest

end

/-- A whole text: outside of all groups a closing brace is an ordinary character. -/
def Prose (items : List Item) : Prop :=
  ∀ item ∈ items, item.Inner ∨ item = .char '}'

mutual

/-- The number of groups that lie in each other in an item. -/
def Item.depth : Item → Nat
  | .char _ => 0
  | .group _ body => depthOf body + 1

/-- The greatest number of groups that lie in each other. -/
def depthOf : List Item → Nat
  | [] => 0
  | item :: rest => max item.depth (depthOf rest)

end

/-- A tree of the grammar for a text, with groups at most `limit` deep. -/
structure Reads (limit : Nat) (text : Text) (items : List Item) : Prop where
  prose : Prose items
  shallow : depthOf items ≤ limit
  source : sourceOf items = text

/-- The names of the directives whose content is code. -/
def codeNames : List Text :=
  ["code".toList, "link".toList, "linkplain".toList]

/-- The name that a head gives to its group. -/
def Head.name? : Head → Option Text
  | plain => none
  | named name _ => some name

/-- What a tree yields. Characters stand for themselves, code is put between backticks, and
every other group yields what its content yields. -/
inductive Shows : List Item → Text → Prop
  | nil : Shows [] []
  | char (c : Char) {rest : List Item} {shown : Text} (behind : Shows rest shown) :
    Shows (.char c :: rest) (c :: shown)
  | code {head : Head} {body rest : List Item} {name inner shown : Text}
    (named : head.name? = some name) (known : name ∈ codeNames)
    (content : Shows body inner) (behind : Shows rest shown) :
    Shows (.group head body :: rest) ('\x60' :: inner ++ '\x60' :: shown)
  | bare {head : Head} {body rest : List Item} {inner shown : Text}
    (other : ∀ name ∈ head.name?, name ∉ codeNames)
    (content : Shows body inner) (behind : Shows rest shown) :
    Shows (.group head body :: rest) (inner ++ shown)

/-- A head calls for code exactly by its name. -/
theorem style_eq_code_iff (head : Head) :
    head.style = .code ↔ ∃ name, head.name? = some name ∧ name ∈ codeNames := by
  cases head with
  | plain => simp [Head.style, Head.name?]
  | named name spaced =>
    simp only [Head.style, Head.name?, codeNames, Option.some.injEq, exists_eq_left',
      List.mem_cons, List.not_mem_nil, or_false]
    split
    next known => simpa using known
    next other => split <;> simpa using other

/-- A group that is not code adds nothing to its content. -/
theorem enclose_of_ne_code {style : Style} (other : style ≠ .code) (content : Text) :
    style.enclose content = content := by
  cases style with
  | code => exact absurd rfl other
  | literal => rfl
  | bare => rfl

/-- A tree yields one text, the one that is computed for it. -/
theorem shows_iff (items : List Item) (shown : Text) : Shows items shown ↔ shown = textOf items := by
  constructor
  · intro yields
    induction yields with
    | nil => rfl
    | char c _ behind => simp [textOf, Item.text, behind]
    | @code head _ _ name _ _ named known _ _ content behind =>
      have code : head.style = .code := (style_eq_code_iff head).mpr ⟨name, named, known⟩
      simp [textOf, Item.text, code, Style.enclose, Markdown.codeSpan, content, behind]
    | @bare head _ _ _ _ other _ _ content behind =>
      have plain : head.style ≠ .code := by
        intro code
        obtain ⟨name, named, known⟩ := (style_eq_code_iff head).mp code
        exact other name named known
      simp [textOf, Item.text, enclose_of_ne_code plain, content, behind]
  · rintro rfl
    induction items using Item.listInduction with
    | nil => exact .nil
    | char c rest behind => exact .char c behind
    | group head body rest content behind =>
      by_cases code : head.style = .code
      · obtain ⟨name, named, known⟩ := (style_eq_code_iff head).mp code
        have yields := Shows.code named known content behind
        simpa [textOf, Item.text, code, Style.enclose, Markdown.codeSpan] using yields
      · have other : ∀ name ∈ head.name?, name ∉ codeNames := by
          intro name named known
          exact code ((style_eq_code_iff head).mpr ⟨name, named, known⟩)
        have yields := Shows.bare other content behind
        simpa [textOf, Item.text, enclose_of_ne_code code] using yields

end CommentMarkdown.Directive
