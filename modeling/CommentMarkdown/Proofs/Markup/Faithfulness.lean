import CommentMarkdown.Proofs.Markup.Refusal

/-!
# Copies are faithful

A document and its copy are trees of different kinds, so they are compared by their outlines: what
they have at each place, in document order, with the names of the elements around it. Running text
counts by character, since text that is apart in a document may be one text in its copy.

A copy has at each place what the document has there, and nothing else (`Html.Copied.outline_eq`).
Elements are named in small letters, and of several attributes of one name the first one lends its
value to all. A shield becomes one piece of Markdown; what stands below it has no place in
the copy, but its text is kept. Comments and instructions leave nothing.

The outline does not say where one text ends and the next one begins. That no two texts stand side
by side is known from `Html.Copied.sound`, as is that no shield is left.
-/

namespace CommentMarkdown

/-- What stands at a place of a tree, apart from what stands below it. Running text counts by
character, so it does not matter where one text ends and the next one begins. -/
inductive Entry
  | char (c : Char)
  | markdown (content : Text)
  | element (name : Text) (attributes : List (Text × Text))
  deriving DecidableEq, Repr

namespace Markup

/-- What a node has at its own place. -/
def entries : Markup → List Entry
  | text content => content.map .char
  | markdown content => [.markdown content]
  | element name attributes _ => [.element name attributes]

/-- What a list of nodes has at each of its places, in document order. -/
def outline (places : List (Placed Markup)) : List (Placed Entry) :=
  places.flatMap fun place => place.node.entries.map fun entry => ⟨place.around, entry⟩

end Markup

namespace Html

/-- The value of the first attribute of a name, and nothing for a missing value. -/
def firstValue (attributes : List (Text × Option Text)) (name : Text) : Text :=
  ((attributes.find? fun entry => entry.1 = name).bind Prod.snd).getD []

/-- What a node should have at its own place in a copy, if nothing shields it. -/
def entries : Html → List Entry
  | element name attributes children =>
    if Shields name then [.markdown (charactersIn children)]
    else
      [.element (Text.lower name) (attributes.map fun entry =>
        (entry.1, firstValue attributes entry.1))]
  | text content | cdata content => content.map .char
  | reference name => (Entity.decode name).map .char
  | comment _ | instruction _ => []

/-- What a copy should have at each of its places. Only what no shield stands around has a place in
the copy. -/
def outline (places : List (Placed Html)) : List (Placed Entry) :=
  (places.filter Bare).flatMap fun place =>
    place.node.entries.map fun entry => ⟨place.around.map Text.lower, entry⟩

/-- The text that a node adds to the text of a copy. A reference below a shield adds none. -/
def shownText (place : Placed Html) : Text :=
  match place.node with
  | text content | cdata content => content
  | reference name => if Bare place then Entity.decode name else []
  | element _ _ _ | comment _ | instruction _ => []

/-- Attributes are copied with the value of the first one of their name. -/
theorem markupAttributes_eq (attributes : List (Text × Option Text)) :
    markupAttributes attributes =
      attributes.map fun entry => (entry.1, firstValue attributes entry.1) := by
  have found (name : Text) : (attributes.lookup name).join =
      (attributes.find? fun entry => entry.1 = name).bind Prod.snd := by
    induction attributes with
    | nil => rfl
    | cons entry rest ih =>
      by_cases same : entry.1 = name
      · rw [List.find?_cons, decide_eq_true same, ← same, List.lookup_cons_self]
        rfl
      · have other : (name == entry.1) = false := by simpa using Ne.symm same
        rw [List.lookup_cons, other, List.find?_cons, decide_eq_false same]
        exact ih
  unfold markupAttributes firstValue
  simp only [found]

/-- Text in front of markup has its characters in front. -/
theorem outline_consText (around : List Text) (content : Text) (nodes : List Markup) :
    Markup.outline (Markup.placedIn around (consText content nodes)) =
      content.map (fun c => ⟨around, .char c⟩) ++
        Markup.outline (Markup.placedIn around nodes) := by
  unfold consText
  split
  next following rest =>
    simp [Markup.outline, Markup.placedIn, Markup.placed, Markup.entries]
  next => simp [Markup.outline, Markup.placedIn, Markup.placed, Markup.entries]

/-- The outlines of consecutive lists of places stand one behind the other. -/
theorem outline_append (first second : List (Placed Html)) :
    outline (first ++ second) = outline first ++ outline second := by
  rw [outline, List.filter_append, List.flatMap_append]
  rfl

/-- A place without a shield around it comes first in the outline. -/
theorem outline_cons {place : Placed Html} (bare : Bare place) (places : List (Placed Html)) :
    outline (place :: places) =
      (place.node.entries.map fun entry => ⟨place.around.map Text.lower, entry⟩) ++
        outline places := by
  have kept : (place :: places).filter (Bare ·) = place :: places.filter (Bare ·) :=
    List.filter_cons_of_pos (decide_eq_true bare)
  rw [outline, kept, List.flatMap_cons]
  rfl

/-- Below a shield no place is bare. -/
theorem not_bare_of_mem {name : Text} (shields : Shields name) {around : List Text}
    {nodes : List Html} {place : Placed Html} (member : place ∈ placedIn (name :: around) nodes) :
    ¬ Bare place := fun bare =>
  bare name ((around_suffix_of_mem nodes _ member).subset List.mem_cons_self) shields

/-- What a shield holds has no outline of its own. -/
theorem outline_of_shielded {name : Text} (shields : Shields name) (around : List Text)
    (nodes : List Html) : outline (placedIn (name :: around) nodes) = [] := by
  have nothing : (placedIn (name :: around) nodes).filter (Bare ·) = [] :=
    List.filter_eq_nil_iff.mpr fun place member bare =>
      not_bare_of_mem shields member (of_decide_eq_true bare)
  rw [outline, nothing]
  rfl

/-- A node that stands for text has its characters as entries. -/
theorem entries_of_ownText {node : Html} {content : Text} (stands : node.ownText? = some content) :
    node.name? = none ∧ node.entries = content.map .char := by
  cases node with
  | element _ _ _ | comment _ | instruction _ => cases stands
  | text _ | cdata _ | reference _ =>
    cases stands
    exact ⟨rfl, rfl⟩

/-- A node that stands for nothing has no entries. -/
theorem entries_of_silent {node : Html} (leaf : node.name? = none)
    (silent : node.ownText? = none) : node.entries = [] := by
  cases node with
  | element _ _ _ => cases leaf
  | text _ | cdata _ | reference _ => cases silent
  | comment _ | instruction _ => rfl

/-- A copy has the outline of what has been copied. -/
theorem Copied.outline_eq {limit depth : Nat} {nodes : List Html} {copy : List Markup}
    (copied : Copied limit depth nodes copy) (around : List Text)
    (bare : ∀ outer ∈ around, ¬ Shields outer) :
    Markup.outline (Markup.placedIn (around.map Text.lower) copy) =
      outline (placedIn around nodes) := by
  induction copied generalizing around with
  | nil => rfl
  | @shield _ name attributes children rest following _ shields _ behind =>
    have here : Bare ⟨around, .element name attributes children⟩ := bare
    rw [placedIn, placed, outline_append, outline_cons here, outline_of_shielded shields,
      ← behind around bare, entries, if_pos shields]
    rfl
  | @element _ name attributes children rest inner following _ unshielded _ _ inside behind =>
    have here : Bare ⟨around, .element name attributes children⟩ := bare
    rw [placedIn, placed, outline_append, outline_cons here, ← behind around bare,
      ← inside (name :: around) (List.forall_mem_cons.mpr ⟨unshielded, bare⟩), entries,
      if_neg unshielded, ← markupAttributes_eq, Markup.outline, Markup.placedIn, Markup.placed,
      List.flatMap_append, List.flatMap_cons]
    rfl
  | @text _ node content rest following stands _ behind =>
    have here : Bare ⟨around, node⟩ := bare
    obtain ⟨leaf, own⟩ := entries_of_ownText stands
    rw [outline_consText, behind around bare, placedIn, placed_of_leaf leaf, List.singleton_append,
      outline_cons here, own, List.map_map]
    rfl
  | @silent _ node rest following leaf silent _ behind =>
    have here : Bare ⟨around, node⟩ := bare
    rw [behind around bare, placedIn, placed_of_leaf leaf, List.singleton_append,
      outline_cons here, entries_of_silent leaf silent]
    rfl

/-- Below a shield text is shown without references. -/
theorem flatMap_shownText_of_shielded (nodes : List Html) {around : List Text} {outer : Text}
    (member : outer ∈ around) (shields : Shields outer) :
    (placedIn around nodes).flatMap shownText = charactersIn nodes := by
  induction nodes using listInduction generalizing around with
  | nil => rfl
  | element name attributes children rest inside behind =>
    rw [placedIn, placed, List.flatMap_append, List.flatMap_cons,
      inside (List.mem_cons_of_mem name member), behind member]
    rfl
  | leaf node rest leaf behind =>
    rw [placedIn, placed_of_leaf leaf, List.singleton_append, List.flatMap_cons, behind member,
      charactersIn]
    congr 1
    cases node with
    | element _ _ _ => cases leaf
    | reference name => exact if_neg fun bare => bare outer member shields
    | text _ | cdata _ | comment _ | instruction _ => rfl

/-- Text in front of markup comes first in its text. -/
theorem textContentAll_consText (content : Text) (nodes : List Markup) :
    Markup.textContentAll (consText content nodes) = content ++ Markup.textContentAll nodes := by
  unfold consText
  split
  next following rest => simp only [Markup.textContentAll, Markup.textContent, List.append_assoc]
  next => rfl

/-- The text of a copy is what the copied places show. -/
theorem Copied.textContent_eq {limit depth : Nat} {nodes : List Html} {copy : List Markup}
    (copied : Copied limit depth nodes copy) (around : List Text)
    (bare : ∀ outer ∈ around, ¬ Shields outer) :
    Markup.textContentAll copy = (placedIn around nodes).flatMap shownText := by
  induction copied generalizing around with
  | nil => rfl
  | @shield _ name attributes children rest following _ shields _ behind =>
    have inside : (placedIn (name :: around) children).flatMap shownText = charactersIn children :=
      flatMap_shownText_of_shielded children List.mem_cons_self shields
    rw [placedIn, placed, List.flatMap_append, List.flatMap_cons, inside, ← behind around bare]
    rfl
  | @element _ name attributes children rest inner following _ unshielded _ _ inside behind =>
    rw [placedIn, placed, List.flatMap_append, List.flatMap_cons, ← behind around bare,
      ← inside (name :: around) (List.forall_mem_cons.mpr ⟨unshielded, bare⟩)]
    rfl
  | @text _ node content rest following stands _ behind =>
    rw [textContentAll_consText, behind around bare, placedIn,
      placed_of_leaf (entries_of_ownText stands).1, List.singleton_append, List.flatMap_cons]
    congr 1
    cases node with
    | element _ _ _ | comment _ | instruction _ => cases stands
    | reference name =>
      cases stands
      exact (if_pos bare).symm
    | text _ | cdata _ =>
      cases stands
      rfl
  | @silent _ node rest following leaf silent _ behind =>
    rw [behind around bare, placedIn, placed_of_leaf leaf, List.singleton_append,
      List.flatMap_cons]
    cases node with
    | element _ _ _ => cases leaf
    | text _ | cdata _ | reference _ => cases silent
    | comment _ | instruction _ => rfl

end Html

namespace Markup

/-- A text is made into markup only if its size is admissible and the reader's document has a root
within the limit; the result is a wrapper around a copy of what that root holds. -/
theorem exists_root_of_parse {limits : Limits} {text : Text} {reader : Text → Option (List Html)}
    {tree : Markup} (parsed : (parse limits text).answeredBy reader = .ok tree) :
    ∃ document root copy, reader (Html.wrap text) = some document ∧
      (Html.placedIn [] document).find? (Html.isRoot limits.markupDepth) = some root ∧
      Html.Copied limits.markupDepth 1 root.node.children copy ∧
      tree = .element Html.rootName [] copy := by
  by_cases large : Html.greatestSize < Text.byteSize (Html.wrap text)
  · rw [parse, if_pos large] at parsed
    cases parsed
  · rw [answeredBy_parse limits (Nat.le_of_not_lt large)] at parsed
    cases read : reader (Html.wrap text) with
    | none =>
      rw [read] at parsed
      cases parsed
    | some document =>
      rw [read, Html.document_some] at parsed
      cases first : (Html.placedIn [] document).find? (Html.isRoot limits.markupDepth) with
      | none =>
        rw [first] at parsed
        cases parsed
      | some root =>
        rw [first] at parsed
        dsimp only at parsed
        cases held : Html.toMarkup limits.markupDepth 1 root.node.children with
        | error error =>
          rw [held] at parsed
          cases parsed
        | ok copy =>
          rw [held] at parsed
          cases parsed
          exact ⟨document, root, copy, rfl, first, Html.copied_of_toMarkup held, rfl⟩

/-- A wrapper holds what has been copied into it, no more and no less.

Its text is what the document shows below the root. Its outline is that of the document: one piece
of Markdown for each outermost shield and nothing below it, and every other element once, with the
elements around it that it had. What an element holds never has two texts side by side, and no
element is a shield. -/
structure Faithful (nodes : List Html) (copy : Markup) : Prop where
  text : copy.textContent = (Html.placedIn [Html.rootName] nodes).flatMap Html.shownText
  outline : Markup.outline (copy.placed []) =
    ⟨[], .element Html.rootName []⟩ :: Html.outline (Html.placedIn [Html.rootName] nodes)
  separate : ∀ place ∈ copy.placed [], Separate place.node.children
  unshielded : ∀ place ∈ copy.placed [], place.node.name? ≠ some Directive.shieldName

/-- A wrapper around a copy is faithful. -/
theorem faithful_of_copied {limit : Nat} {nodes : List Html} {copy : List Markup}
    (copied : Html.Copied limit 1 nodes copy) :
    Faithful nodes (.element Html.rootName [] copy) where
  text := copied.textContent_eq [Html.rootName] (by decide)
  outline := by
    rw [← copied.outline_eq [Html.rootName] (by decide)]
    rfl
  separate := List.forall_mem_cons.mpr ⟨copied.separate, fun place member =>
    (copied.sound [Html.rootName] rfl place member).separate⟩
  unshielded := by
    have other : Html.rootName ≠ Directive.shieldName := by decide
    refine List.forall_mem_cons.mpr ⟨fun shield => other (Option.some.inj shield), ?_⟩
    exact fun place member => (copied.sound [Html.rootName] rfl place member).unshielded

/-- Whenever a text is made into markup, the result is faithful to what the first root of the
reader's document holds. -/
theorem parse_faithful (limits : Limits) (text : Text) (reader : Text → Option (List Html))
    (tree : Markup) (parsed : (parse limits text).answeredBy reader = .ok tree) :
    ∃ document root, reader (Html.wrap text) = some document ∧
      (Html.placedIn [] document).find? (Html.isRoot limits.markupDepth) = some root ∧
      Faithful root.node.children tree := by
  obtain ⟨document, root, copy, read, first, copied, rfl⟩ := exists_root_of_parse parsed
  exact ⟨document, root, read, first, faithful_of_copied copied⟩

/-- What a root may hold: text around a comment, in three kinds of nodes, and an element with an
attribute given twice, which holds a shield with another shield in it. -/
def mixedContent : List Html :=
  [.text "a".toList, .comment "note".toList, .cdata "b".toList, .reference "lt".toList,
    .element "P".toList [("Id".toList, some "1".toList), ("Id".toList, some "2".toList),
        ("x".toList, none)]
      [.text "c".toList, .element "DOCMD-MD".toList []
        [.text "<T>".toList, .element "docmd-md".toList [] [.cdata "d".toList],
          .reference "gt".toList]],
    .instruction "end".toList]

/-- The wrapper around a copy of that content. -/
def mixedCopy : Markup :=
  .element Html.rootName []
    [.text "ab<".toList,
      .element "p".toList [("Id".toList, "1".toList), ("Id".toList, "1".toList), ("x".toList, [])]
        [.text "c".toList, .markdown "<T>d".toList]]

/-- The copy is made and is faithful. The last reference in it stands below a shield and is not
shown. -/
theorem mixedCopy_faithful :
    let reader (_ : Text) : Option (List Html) :=
      some [.comment "top".toList, .element "html".toList []
        [.element Html.rootName [] mixedContent]]
    (parse {} []).answeredBy reader = .ok mixedCopy ∧ Faithful mixedContent mixedCopy ∧
      mixedCopy.textContent = "ab<c<T>d".toList := by
  intro reader
  have parsed : (parse {} []).answeredBy reader = .ok mixedCopy := rfl
  obtain ⟨document, root, read, first, faithful⟩ := parse_faithful {} [] reader mixedCopy parsed
  cases read
  cases first
  exact ⟨parsed, faithful, by decide +kernel⟩

end Markup

end CommentMarkdown
