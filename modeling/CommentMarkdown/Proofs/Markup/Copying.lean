import CommentMarkdown.Proofs.Markup.Outline
import Mathlib.Data.List.Chain

/-!
# Copying a document

A document is copied from its end, and the copy may be refused on the way. What a copy that
succeeds can be is said once, by a rule for each kind of node in front (`Copied`). An element
whose name is that of a shield, in capitals or not, is copied as one piece of Markdown. Every
other element is copied with what it holds, one level deeper. Text is joined with text that
follows it, and what says nothing leaves no trace.

Whatever is to be known of copies follows by induction on these rules. Here it is what holds at
every place of a copy: no two texts stand side by side, no shield is left, and no element lies
below the limit (`Copied.sound`).
-/

namespace CommentMarkdown

namespace Markup

/-- Two nodes of which one at least is no text. -/
def Apart (first second : Markup) : Prop :=
  ¬ (first.isText ∧ second.isText)

/-- Nodes among which no two texts stand side by side. -/
def Separate (nodes : List Markup) : Prop :=
  nodes.IsChain Apart

/-- A node that is no text stands apart from whatever follows it. -/
theorem separate_cons {node : Markup} (solid : node.isText = false) {nodes : List Markup}
    (separate : Separate nodes) : Separate (node :: nodes) := by
  refine List.isChain_cons.mpr ⟨?_, separate⟩
  intro following _ both
  rw [solid] at both
  cases both.1

/-- A node that is no element holds nothing. -/
theorem children_of_leaf {node : Markup} (leaf : node.name? = none) : node.children = [] := by
  cases node with
  | text _ | markdown _ => rfl
  | element _ _ _ => cases leaf

end Markup

namespace Html

/-- What an element of this name holds is finished Markdown: the element is a shield. -/
def Shields (name : Text) : Prop :=
  Text.lower name = Directive.shieldName

instance : DecidablePred Shields :=
  fun name => inferInstanceAs (Decidable (Text.lower name = Directive.shieldName))

/-- No shield stands around a place. -/
def Bare (place : Placed Html) : Prop :=
  ∀ outer ∈ place.around, ¬ Shields outer

instance : DecidablePred Bare :=
  fun place => inferInstanceAs (Decidable (∀ outer ∈ place.around, ¬ Shields outer))

/-- The text that a node stands for by itself: what it says, or what it refers to. -/
def ownText? : Html → Option Text
  | text content => some content
  | cdata content => some content
  | reference name => some (Entity.decode name)
  | _ => none

/-- Nodes at a depth and their copy. There is one rule for each kind of node in front. -/
inductive Copied (limit : Nat) : Nat → List Html → List Markup → Prop
  | nil (depth : Nat) : Copied limit depth [] []
  | shield {depth : Nat} {name : Text} {attributes : List (Text × Option Text)}
    {children rest : List Html} {following : List Markup} (reached : depth ≤ limit)
    (shields : Shields name) (behind : Copied limit depth rest following) :
    Copied limit depth (.element name attributes children :: rest)
      (.markdown (charactersIn children) :: following)
  | element {depth : Nat} {name : Text} {attributes : List (Text × Option Text)}
    {children rest : List Html} {inner following : List Markup} (reached : depth ≤ limit)
    (unshielded : ¬ Shields name) (inside : Copied limit (depth + 1) children inner)
    (behind : Copied limit depth rest following) :
    Copied limit depth (.element name attributes children :: rest)
      (.element (Text.lower name) (markupAttributes attributes) inner :: following)
  | text {depth : Nat} {node : Html} {content : Text} {rest : List Html}
    {following : List Markup} (stands : node.ownText? = some content)
    (behind : Copied limit depth rest following) :
    Copied limit depth (node :: rest) (consText content following)
  | silent {depth : Nat} {node : Html} {rest : List Html} {following : List Markup}
    (leaf : node.name? = none) (silent : node.ownText? = none)
    (behind : Copied limit depth rest following) : Copied limit depth (node :: rest) following

/-- A node that is no element is copied at any depth: it is joined with what follows, or
left out. -/
theorem consMarkup_leaf (limit depth : Nat) (following : List Markup) {node : Html}
    (leaf : node.name? = none) :
    consMarkup limit depth following node =
      .ok (match node.ownText? with
        | some content => consText content following
        | none => following) := by
  cases node with
  | element name attributes children => cases leaf
  | _ => rfl

/-- Nodes behind the first one are copied first; if they can be, the first one decides. -/
theorem toMarkup_cons {limit depth : Nat} {rest : List Html} {following : List Markup}
    (copied : toMarkup limit depth rest = .ok following) (node : Html) :
    toMarkup limit depth (node :: rest) = consMarkup limit depth following node := by
  rw [toMarkup, copied]
  rfl

/-- If nodes behind the first one cannot be copied, it is not looked at. -/
theorem toMarkup_cons_error {limit depth : Nat} {rest : List Html} {error : MarkupError}
    (refused : toMarkup limit depth rest = .error error) (node : Html) :
    toMarkup limit depth (node :: rest) = .error error := by
  rw [toMarkup, refused]
  rfl

/-- What copying yields is a copy. -/
theorem copied_of_toMarkup {limit depth : Nat} {nodes : List Html} {copy : List Markup}
    (copied : toMarkup limit depth nodes = .ok copy) : Copied limit depth nodes copy := by
  induction nodes using listInduction generalizing depth copy with
  | nil =>
    cases copied
    exact .nil depth
  | element name attributes children rest inside behind =>
    cases later : toMarkup limit depth rest with
    | error error =>
      rw [toMarkup_cons_error later] at copied
      cases copied
    | ok following =>
      rw [toMarkup_cons later, consMarkup] at copied
      split at copied
      next => cases copied
      next notDeep =>
        have reached : depth ≤ limit := Nat.le_of_not_lt notDeep
        split at copied
        next shields =>
          cases copied
          exact .shield reached shields (behind later)
        next unshielded =>
          cases below : toMarkup limit (depth + 1) children with
          | error error =>
            rw [below] at copied
            cases copied
          | ok inner =>
            rw [below] at copied
            cases copied
            exact .element reached unshielded (inside below) (behind later)
  | leaf node rest leaf behind =>
    cases later : toMarkup limit depth rest with
    | error error =>
      rw [toMarkup_cons_error later] at copied
      cases copied
    | ok following =>
      rw [toMarkup_cons later, consMarkup_leaf limit depth following leaf] at copied
      cases copied
      cases stands : node.ownText? with
      | some content => exact .text stands (behind later)
      | none => exact .silent leaf stands (behind later)

/-- Text that is put in front of markup stands there alone or takes the place of the text that was
in front. -/
theorem placedIn_consText (around : List Text) (content : Text) (nodes : List Markup) :
    ∃ merged behind, Markup.placedIn around (consText content nodes) =
        ⟨around, .text merged⟩ :: Markup.placedIn around behind ∧
      ∀ place ∈ Markup.placedIn around behind, place ∈ Markup.placedIn around nodes := by
  unfold consText
  split
  next following rest =>
    exact ⟨content ++ following, rest, rfl, fun place member => List.mem_append_right _ member⟩
  next => exact ⟨content, nodes, rfl, fun place member => member⟩

/-- Text that is put in front of separate nodes is joined with text that stands there, so they
stay separate. -/
theorem separate_consText {nodes : List Markup} (separate : Markup.Separate nodes)
    (content : Text) : Markup.Separate (consText content nodes) := by
  unfold consText
  split
  next following rest =>
    obtain ⟨first, behind⟩ := List.isChain_cons.mp separate
    exact List.isChain_cons.mpr ⟨first, behind⟩
  next other =>
    refine List.isChain_cons.mpr ⟨?_, separate⟩
    intro first front both
    cases nodes with
    | nil => cases front
    | cons node rest =>
      obtain rfl := Option.some.inj front
      cases node with
      | text following => exact other following rest rfl
      | markdown _ | element _ _ _ => cases both.2

/-- A copy is separate. -/
theorem Copied.separate {limit depth : Nat} {nodes : List Html} {copy : List Markup}
    (copied : Copied limit depth nodes copy) : Markup.Separate copy := by
  induction copied with
  | nil => exact List.isChain_nil
  | shield _ _ _ behind => exact Markup.separate_cons rfl behind
  | element _ _ _ _ _ behind => exact Markup.separate_cons rfl behind
  | text _ _ behind => exact separate_consText behind _
  | silent _ _ _ behind => exact behind

/-- What holds at every place of a copy: an element there lies within the limit and is no shield,
and what it holds is separate. -/
structure Sound (limit : Nat) (place : Placed Markup) : Prop where
  shallow : place.node.name?.isSome → place.depth ≤ limit
  unshielded : place.node.name? ≠ some Directive.shieldName
  separate : Markup.Separate place.node.children

/-- All of it is said of elements, so it holds of any other node. -/
theorem Sound.of_leaf (limit : Nat) {place : Placed Markup} (leaf : place.node.name? = none) :
    Sound limit place where
  shallow element := by
    rw [leaf] at element
    cases element
  unshielded shield := by
    rw [leaf] at shield
    cases shield
  separate := by
    rw [Markup.children_of_leaf leaf]
    exact List.isChain_nil

/-- A copy is sound at every place. -/
theorem Copied.sound {limit depth : Nat} {nodes : List Html} {copy : List Markup}
    (copied : Copied limit depth nodes copy) (around : List Text) (here : around.length = depth) :
    ∀ place ∈ Markup.placedIn around copy, Sound limit place := by
  induction copied generalizing around with
  | nil => nofun
  | shield _ _ _ behind => exact List.forall_mem_cons.mpr ⟨.of_leaf limit rfl, behind around here⟩
  | @element _ name attributes _ _ inner _ reached unshielded inside _ soundInside behind =>
    have element :
        Sound limit ⟨around, .element (Text.lower name) (markupAttributes attributes) inner⟩ :=
      ⟨fun _ => (Nat.le_of_eq here).trans reached,
        fun shield => unshielded (Option.some.inj shield), inside.separate⟩
    refine List.forall_mem_append.mpr ⟨List.forall_mem_cons.mpr ⟨element, ?_⟩, behind around here⟩
    exact soundInside (Text.lower name :: around) (congrArg Nat.succ here)
  | text _ _ behind =>
    obtain ⟨merged, rest, listed, kept⟩ := placedIn_consText around _ _
    rw [listed]
    exact List.forall_mem_cons.mpr ⟨.of_leaf limit rfl,
      fun place member => behind around here place (kept place member)⟩
  | silent _ _ _ behind => exact behind around here

end Html

end CommentMarkdown
