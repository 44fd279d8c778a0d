import CommentMarkdown.Markup.Convert
import CommentMarkdown.Proofs.Markup.Copying

/-!
# What cannot be made into markup

There are two limits in making a document into markup, and both are the same number. The search
for the root looks at no element below it, and the copy of what the root holds is refused if it
would have to go below it. The first one is counted from the top of the document and the second
one from the root.

Listing a document by place makes both plain. The search finds the first place in document order
that holds an element of the root's name within the limit (`rootContentIn?_eq_find?`), although
it looks neither into a root nor below the limit. The copy is refused exactly if some place one
level below the limit holds an element with no shield around it (`outcome_toMarkup`), although
it stops at shields and never looks deeper. So the reader's answer tells whether a text can
be made into markup, and what is said if it cannot (`parse_fails_exactly`).
-/

namespace CommentMarkdown

/-- The error that a wording is of, if it is one of an error. Each cause begins with a letter of
its own. -/
def MarkupError.ofMessage (wording : Text) : MarkupError :=
  if wording.head? = some 'i' then .tooLarge
  else if wording.head? = some 'H' then .noDocument
  else if wording.head? = some 's' then .noRoot
  else .tooDeep (Nat.ofDigitChars 10 (wording.drop "element nesting deeper than ".length) 0)

/-- The wording of an error tells its cause, and the limit if it names one. -/
theorem MarkupError.ofMessage_message (error : MarkupError) : ofMessage error.message = error := by
  cases error with
  | tooLarge | noDocument | noRoot => rfl
  | tooDeep limit =>
    change MarkupError.tooDeep (Nat.ofDigitChars 10 (Text.decimal limit) 0) = _
    rw [Text.decimal, Nat.ofDigitChars_ten_toDigits]

namespace Html

/-- Whether a place holds the root that is searched for: an element of its name, no deeper than
the limit. -/
def isRoot (limit : Nat) (place : Placed Html) : Bool :=
  place.node.name? = some rootName ∧ place.depth ≤ limit

/-- An element that a copy would have to reach one level below the limit, since there is no shield
around it. -/
structure Exceeds (limit : Nat) (place : Placed Html) : Prop where
  element : place.node.name?.isSome
  depth : place.depth = limit + 1
  bare : Bare place

instance (limit : Nat) : DecidablePred (Exceeds limit) := fun place =>
  decidable_of_iff (place.node.name?.isSome ∧ place.depth = limit + 1 ∧ Bare place)
    ⟨fun ⟨isElement, below, bare⟩ => ⟨isElement, below, bare⟩,
      fun ⟨isElement, below, bare⟩ => ⟨isElement, below, bare⟩⟩

/-- Below the limit there is no root that counts. -/
theorem find?_isRoot_of_deep {limit : Nat} {around : List Text} (deep : limit < around.length)
    (nodes : List Html) : (placedIn around nodes).find? (isRoot limit) = none := by
  rw [List.find?_eq_none]
  intro place member found
  have within : around.length ≤ place.depth := (around_suffix_of_mem nodes around member).length_le
  have shallow : place.depth ≤ limit := (of_decide_eq_true found).2
  omega

/-- The search finds what the first root in document order holds. A root that stands inside
of another one comes behind it, and nothing below the limit counts, so it makes no difference
that the search looks at neither. -/
theorem rootContentIn?_eq_find? (limit : Nat) (nodes : List Html) (around : List Text) :
    rootContentIn? limit around.length nodes =
      ((placedIn around nodes).find? (isRoot limit)).map fun place => place.node.children := by
  induction nodes using listInduction generalizing around with
  | nil => rfl
  | element name attributes children rest inside behind =>
    rw [rootContentIn?]
    split
    next deep => rw [find?_isRoot_of_deep deep]; rfl
    next shallow =>
      have reached : around.length ≤ limit := Nat.le_of_not_lt shallow
      rw [rootContent?, placedIn, placed, List.find?_append, List.find?_cons, behind]
      by_cases named : name = rootName
      · have here : isRoot limit ⟨around, .element name attributes children⟩ = true :=
          decide_eq_true ⟨congrArg some named, reached⟩
        rw [if_pos named, here]
        rfl
      · have other : isRoot limit ⟨around, .element name attributes children⟩ = false :=
          decide_eq_false fun root => named (Option.some.inj root.1)
        rw [if_neg named, other]
        have below := inside (name :: around)
        rw [List.length_cons] at below
        rw [below, Option.map_or]
  | leaf node rest leaf behind =>
    have other : isRoot limit ⟨around, node⟩ = false :=
      decide_eq_false fun root => by rw [leaf] at root; cases root.1
    have silent : rootContent? limit around.length node = none := by
      cases node with
      | element name attributes children => cases leaf
      | _ => rfl
    rw [rootContentIn?, silent, placedIn, placed_of_leaf leaf, List.singleton_append,
      List.find?_cons, other]
    split
    next deep => rw [find?_isRoot_of_deep deep]; rfl
    next => rw [behind]; rfl

/-- What copying nodes comes to, which are listed by place: it fails if one of them exceeds the
limit, and says so, and otherwise it succeeds. -/
inductive Outcome (limit : Nat) (places : List (Placed Html)) :
    Except MarkupError (List Markup) → Prop
  | refused {place : Placed Html} (member : place ∈ places) (exceeds : Exceeds limit place) :
    Outcome limit places (.error (.tooDeep limit))
  | copied {copy : List Markup} (fine : ∀ place ∈ places, ¬ Exceeds limit place) :
    Outcome limit places (.ok copy)

/-- A node that is no element is never refused. -/
theorem outcome_leaf (limit : Nat) (around : List Text) (following : List Markup) {node : Html}
    (leaf : node.name? = none) :
    Outcome limit (placed around node) (consMarkup limit around.length following node) := by
  rw [placed_of_leaf leaf, consMarkup_leaf limit around.length following leaf]
  apply Outcome.copied
  intro place member exceeds
  obtain rfl := List.mem_singleton.mp member
  have element := exceeds.element
  rw [leaf] at element
  cases element

/-- An element is refused if it lies below the limit itself, or if something in it is refused that
it does not shield. -/
theorem outcome_element {limit : Nat} {around : List Text} (following : List Markup) (name : Text)
    (attributes : List (Text × Option Text)) (children : List Html)
    (reached : around.length ≤ limit + 1) (bare : ∀ outer ∈ around, ¬ Shields outer)
    (inside : around.length ≤ limit → ¬ Shields name →
      Outcome limit (placedIn (name :: around) children)
        (toMarkup limit (around.length + 1) children)) :
    Outcome limit (placed around (.element name attributes children))
      (consMarkup limit around.length following (.element name attributes children)) := by
  rw [placed, consMarkup]
  split
  next deep =>
    exact .refused List.mem_cons_self ⟨rfl, Nat.le_antisymm reached deep, bare⟩
  next shallow =>
    have fineHere : ¬ Exceeds limit ⟨around, .element name attributes children⟩ :=
      fun exceeds => shallow (Nat.le_of_eq exceeds.depth.symm)
    split
    next shields =>
      apply Outcome.copied
      refine List.forall_mem_cons.mpr ⟨fineHere, ?_⟩
      intro place below exceeds
      have inShield : name ∈ place.around :=
        (around_suffix_of_mem children _ below).subset List.mem_cons_self
      exact exceeds.bare name inShield shields
    next unshielded =>
      have held := inside (Nat.le_of_not_lt shallow) unshielded
      generalize toMarkup limit (around.length + 1) children = result at held
      cases held with
      | refused below exceeds => exact .refused (List.mem_cons_of_mem _ below) exceeds
      | copied fine => exact .copied (List.forall_mem_cons.mpr ⟨fineHere, fine⟩)

/-- Nodes are refused if the first one is or the ones behind it are. -/
theorem outcome_cons {limit : Nat} {around : List Text} {node : Html} {rest : List Html}
    (first : ∀ following,
      Outcome limit (placed around node) (consMarkup limit around.length following node))
    (behind : Outcome limit (placedIn around rest) (toMarkup limit around.length rest)) :
    Outcome limit (placedIn around (node :: rest))
      (toMarkup limit around.length (node :: rest)) := by
  rw [placedIn]
  cases later : toMarkup limit around.length rest with
  | error error =>
    rw [later] at behind
    rw [toMarkup_cons_error later]
    cases behind with
    | refused member exceeds => exact .refused (List.mem_append_right _ member) exceeds
  | ok following =>
    rw [later] at behind
    rw [toMarkup_cons later]
    cases behind with
    | copied fine =>
      have here := first following
      generalize consMarkup limit around.length following node = result at here
      cases here with
      | refused member exceeds => exact .refused (List.mem_append_left _ member) exceeds
      | copied fineFirst => exact .copied (List.forall_mem_append.mpr ⟨fineFirst, fine⟩)

/-- Copying fails exactly if an element exceeds the limit, at whatever depth it begins, as long as
it has passed no shield and has not gone beyond the first level below the limit. -/
theorem outcome_toMarkup (limit : Nat) (nodes : List Html) (around : List Text)
    (reached : around.length ≤ limit + 1) (bare : ∀ outer ∈ around, ¬ Shields outer) :
    Outcome limit (placedIn around nodes) (toMarkup limit around.length nodes) := by
  induction nodes using listInduction generalizing around with
  | nil => exact .copied nofun
  | element name attributes children rest inside behind =>
    refine outcome_cons ?_ (behind around reached bare)
    intro following
    apply outcome_element following name attributes children reached bare
    intro within unshielded
    exact inside (name :: around) (Nat.succ_le_succ within)
      (List.forall_mem_cons.mpr ⟨unshielded, bare⟩)
  | leaf node rest leaf behind =>
    exact outcome_cons (fun following => outcome_leaf limit around following leaf)
      (behind around reached bare)

/-- What a root holds is refused exactly if an element in it exceeds the limit. -/
theorem outcome_of_root (limit : Nat) (nodes : List Html) :
    Outcome limit (placedIn [rootName] nodes) (toMarkup limit 1 nodes) := by
  have unshielded : ¬ Shields rootName := by decide
  exact outcome_toMarkup limit nodes [rootName] (Nat.succ_le_succ (Nat.zero_le limit))
    (List.forall_mem_singleton.mpr unshielded)

/-- A document is made into markup by copying what its first root holds. -/
theorem document_some (limits : Limits) (nodes : List Html) :
    document limits (some nodes) =
      match (placedIn [] nodes).find? (isRoot limits.markupDepth) with
      | none => .error .noRoot
      | some root =>
        (.element rootName [] ·) <$> toMarkup limits.markupDepth 1 root.node.children := by
  have searched : rootContentIn? limits.markupDepth 0 nodes =
      ((placedIn [] nodes).find? (isRoot limits.markupDepth)).map fun place =>
        place.node.children :=
    rootContentIn?_eq_find? limits.markupDepth nodes []
  rw [document, searched]
  cases (placedIn [] nodes).find? (isRoot limits.markupDepth) <;> rfl

/-- No root counts exactly if every element of its name lies below the limit. -/
theorem find?_isRoot_eq_none_iff (limit : Nat) (places : List (Placed Html)) :
    places.find? (isRoot limit) = none ↔
      ∀ place ∈ places, place.node.name? = some rootName → limit < place.depth := by
  simp only [List.find?_eq_none, isRoot, decide_eq_true_eq, not_and, Nat.not_le]

/-- Copying what a root holds fails for no other cause than its depth. -/
theorem wrapped_ne_error {limit : Nat} (error : MarkupError) (other : error ≠ .tooDeep limit)
    (nodes : List Html) :
    (.element rootName [] ·) <$> toMarkup limit 1 nodes ≠ (.error error : Except _ Markup) := by
  intro failed
  have outcome := outcome_of_root limit nodes
  generalize toMarkup limit 1 nodes = result at outcome failed
  cases outcome with
  | refused _ _ => exact other (Except.error.inj failed).symm
  | copied _ => cases failed

/-- There is no other cause for a missing document than the reader. -/
theorem document_eq_noDocument_iff (limits : Limits) (answer : Option (List Html)) :
    document limits answer = .error .noDocument ↔ answer = none := by
  cases answer with
  | none => exact iff_of_true rfl rfl
  | some nodes =>
    refine iff_of_false (fun failed => ?_) nofun
    rw [document_some] at failed
    split at failed
    next => cases failed
    next => exact wrapped_ne_error .noDocument nofun _ failed

/-- There is no other cause for a missing root than that every element of its name lies below the
limit. -/
theorem document_eq_noRoot_iff (limits : Limits) (nodes : List Html) :
    document limits (some nodes) = .error .noRoot ↔
      ∀ place ∈ placedIn [] nodes,
        place.node.name? = some rootName → limits.markupDepth < place.depth := by
  rw [← find?_isRoot_eq_none_iff, document_some]
  cases (placedIn [] nodes).find? (isRoot limits.markupDepth) with
  | none => exact iff_of_true rfl rfl
  | some root => exact iff_of_false (wrapped_ne_error .noRoot nofun _) nofun

/-- A wrapper lies within the limit with all that has been copied into it. -/
theorem depth_le_of_wrapped {limit : Nat} {nodes : List Html} {copy : List Markup}
    (copied : toMarkup limit 1 nodes = .ok copy) :
    ∀ place ∈ (Markup.element rootName [] copy).placed [],
      place.node.name?.isSome → place.depth ≤ limit := by
  refine List.forall_mem_cons.mpr ⟨fun _ => Nat.zero_le limit, ?_⟩
  intro place member
  exact ((copied_of_toMarkup copied).sound [rootName] rfl place member).shallow

end Html

namespace Markup

/-- An error of this wording. -/
def FailsWith {α : Type} (wording : Text) (result : Except MarkupError α) : Prop :=
  ∃ error, result = .error error ∧ error.message = wording

/-- The wording of an error tells which one it is. -/
theorem failsWith_message_iff {α : Type} (error : MarkupError) (result : Except MarkupError α) :
    FailsWith error.message result ↔ result = .error error := by
  constructor
  · rintro ⟨found, rfl, same⟩
    rw [← MarkupError.ofMessage_message found, same, MarkupError.ofMessage_message]
  · rintro rfl
    exact ⟨error, rfl, rfl⟩

/-- A text within a reader's reach is made into markup by its answer alone. -/
theorem answeredBy_parse (limits : Limits) {text : Text}
    (small : Text.byteSize (Html.wrap text) ≤ Html.greatestSize)
    (reader : Text → Option (List Html)) :
    (parse limits text).answeredBy reader = Html.document limits (reader (Html.wrap text)) := by
  rw [parse, if_neg (Nat.not_lt.mpr small)]
  rfl

/-- Whether a text of admissible size is made into markup, and the wording of the error if it is
not, can be told from the reader's answer. There may be no document. Or all elements of the root's
name may lie below the limit. Otherwise the first root in document order counts, and it is
refused exactly if an element in it exceeds the limit. In every other case there is a wrapper,
and no element in it lies below the limit. -/
theorem parse_fails_exactly (limits : Limits) (text : Text)
    (small : Text.byteSize (Html.wrap text) ≤ Html.greatestSize)
    (reader : Text → Option (List Html)) :
    let limit := limits.markupDepth
    let result := (parse limits text).answeredBy reader
    (FailsWith "HTML parser produced no document".toList result ↔
        reader (Html.wrap text) = none) ∧
      ∀ document, reader (Html.wrap text) = some document →
        let places := Html.placedIn [] document
        (FailsWith "synthetic root element missing from parsed document".toList result ↔
            ∀ place ∈ places, place.node.name? = some Html.rootName → limit < place.depth) ∧
          ∀ root, places.find? (Html.isRoot limit) = some root →
            let below := Html.placedIn [Html.rootName] root.node.children
            result = (.element Html.rootName [] ·) <$> Html.toMarkup limit 1 root.node.children ∧
              (FailsWith ("element nesting deeper than ".toList ++ Text.decimal limit) result ↔
                ∃ place ∈ below, Html.Exceeds limit place) ∧
              ((¬ ∃ place ∈ below, Html.Exceeds limit place) →
                ∃ copy, result = .ok (.element Html.rootName [] copy) ∧
                  ∀ place ∈ (element Html.rootName [] copy).placed [],
                    place.node.name?.isSome → place.depth ≤ limit) := by
  intro limit result
  have answered : result = Html.document limits (reader (Html.wrap text)) :=
    answeredBy_parse limits small reader
  constructor
  · change FailsWith MarkupError.noDocument.message result ↔ _
    rw [failsWith_message_iff, answered]
    exact Html.document_eq_noDocument_iff limits _
  intro document read
  constructor
  · change FailsWith MarkupError.noRoot.message result ↔ _
    rw [failsWith_message_iff, answered, read]
    exact Html.document_eq_noRoot_iff limits document
  intro root first
  have copied : result =
      (.element Html.rootName [] ·) <$> Html.toMarkup limit 1 root.node.children := by
    rw [answered, read, Html.document_some, first]
  have outcome := Html.outcome_of_root limit root.node.children
  refine ⟨copied, ?_, ?_⟩
  · change FailsWith (MarkupError.tooDeep limit).message result ↔ _
    rw [failsWith_message_iff, copied]
    generalize Html.toMarkup limit 1 root.node.children = inner at outcome
    cases outcome with
    | refused member exceeds => exact iff_of_true rfl ⟨_, member, exceeds⟩
    | copied fine =>
      exact iff_of_false nofun fun ⟨place, member, exceeds⟩ => fine place member exceeds
  · intro fine
    rw [copied]
    cases held : Html.toMarkup limit 1 root.node.children with
    | ok copy => exact ⟨copy, rfl, Html.depth_le_of_wrapped held⟩
    | error error =>
      rw [held] at outcome
      cases outcome with
      | refused member exceeds => exact absurd ⟨_, member, exceeds⟩ fine

/-- A document whose root lies at depth two and holds an element of the given name, which holds
another one. -/
def nestedDocument (name : Text) : List Html :=
  [.comment "top".toList,
    .element "html".toList [] [.element "body".toList [] [.element Html.rootName []
      [.text "x".toList, .element "b".toList [] [.element name []
        [.element "i".toList [] [.text "y".toList]]]]]]]

/-- What the root of that document holds, and where. -/
def nestedRoot (name : Text) : Placed Html where
  around := ["body".toList, "html".toList]
  node := .element Html.rootName []
    [.text "x".toList, .element "b".toList [] [.element name []
      [.element "i".toList [] [.text "y".toList]]]]

/-- At a limit of two the root is reached. What it holds is refused, unless the element that lies
at the limit is a shield. At a limit of one there is no root. -/
theorem nested_refused_or_shielded :
    let parseNested (limit : Nat) (name : Text) :=
      (parse { markupDepth := limit } []).answeredBy fun _ => some (nestedDocument name)
    Text.byteSize (Html.wrap []) ≤ Html.greatestSize ∧
      (∀ name, (Html.placedIn [] (nestedDocument name)).find? (Html.isRoot 2) =
        some (nestedRoot name)) ∧
      FailsWith "element nesting deeper than 2".toList (parseNested 2 "u".toList) ∧
      (∃ copy, parseNested 2 "Docmd-MD".toList = .ok (.element Html.rootName [] copy)) ∧
      FailsWith "synthetic root element missing from parsed document".toList
        (parseNested 1 "u".toList) := by
  have small : Text.byteSize (Html.wrap []) ≤ Html.greatestSize := by decide +kernel
  have first (name : Text) : (Html.placedIn [] (nestedDocument name)).find? (Html.isRoot 2) =
      some (nestedRoot name) := rfl
  have answers (limit : Nat) (name : Text) := (parse_fails_exactly { markupDepth := limit } [] small
    fun _ => some (nestedDocument name)).2 (nestedDocument name) rfl
  refine ⟨small, first, ?_, ?_, ?_⟩
  · exact ((answers 2 "u".toList).2 _ (first _)).2.1.mpr (by decide +kernel)
  · obtain ⟨copy, made, _⟩ := ((answers 2 "Docmd-MD".toList).2 _ (first _)).2.2 (by decide +kernel)
    exact ⟨copy, made⟩
  · exact (answers 1 "u".toList).1.mpr (by decide +kernel)

end Markup

end CommentMarkdown
