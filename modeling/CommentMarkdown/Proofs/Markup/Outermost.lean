import CommentMarkdown.Proofs.Markup.Conversion
import CommentMarkdown.Proofs.Markup.Outline

/-!
# Marking takes outermost elements away

Where a node stands in a tree is said by a path: the places, among the children of one node after
the other, that lead from the root to it. Marking moves nothing, so every node that is left stands
at the path that it had, and the nodes that are left are as they were, but for the elements that
have a rule. Such an element is one piece of Markdown, and nothing stands below it any more. So an
element with a rule that lies in another one goes with it, and only the outermost ones are seen to
be replaced.

All this is one equation on paths (`at?_markNode`), by induction on the path: a step leads into a
marked child exactly if the node that it starts from has no rule. Neither does it matter whether
the root has a rule, nor which rule of several for one name is taken.
-/

namespace CommentMarkdown.Markup

/-- The node to which a path leads from another one. -/
def at? : Markup → List Nat → Option Markup
  | node, [] => some node
  | node, index :: path => node.children[index]?.bind fun child => child.at? path

/-- A node apart from what it holds. -/
def shell : Markup → Markup
  | element name attributes _ => element name attributes []
  | leaf => leaf

/-- A node is an element that a rule names. -/
def HasRule (rules : List MarkRule) (node : Markup) : Prop :=
  ∃ rule ∈ rules, node.name? = some rule.tag

instance (rules : List MarkRule) (node : Markup) : Decidable (HasRule rules node) :=
  inferInstanceAs (Decidable (∃ rule ∈ rules, _))

/-- On the way from a node to the end of a path, the end itself left out, no node has a rule. -/
def Clear (rules : List MarkRule) (node : Markup) (path : List Nat) : Prop :=
  ∀ front back, path = front ++ back → back ≠ [] → ∀ passed, node.at? front = some passed →
    ¬ HasRule rules passed

/-- Strictly between a root and the end of a path no node has a rule. -/
def Uncovered (rules : List MarkRule) (root : Markup) (path : List Nat) : Prop :=
  ∀ front back, path = front ++ back → front ≠ [] → back ≠ [] → ∀ passed,
    root.at? front = some passed → ¬ HasRule rules passed

/-- What stands in the place of a node behind marking: one piece of Markdown if the node has a rule,
and the node itself if it has none. -/
def replacement (rules : List MarkRule) (node : Markup) : Markup :=
  if HasRule rules node then markdown (markedText rules node) else node.shell

/-- A node has its name apart from what it holds. -/
theorem name?_shell (node : Markup) : node.shell.name? = node.name? := by
  cases node <;> rfl

/-- Running text and Markdown have no rule. -/
theorem not_hasRule_of_leaf {rules : List MarkRule} {node : Markup} (leaf : node.name? = none) :
    ¬ HasRule rules node := by
  rintro ⟨rule, _, named⟩
  rw [leaf] at named
  cases named

/-- An element has a rule exactly if one is found under its name. -/
theorem hasRule_element_iff {rules : List MarkRule} {name : Text}
    {attributes : List (Text × Text)} {children : List Markup} :
    HasRule rules (element name attributes children) ↔
      ∃ rule, MarkRule.find? rules name = some rule := by
  rw [← Option.isSome_iff_exists, MarkRule.find?, List.find?_isSome]
  simp [HasRule, name?, eq_comm]

/-- A node that has a rule is marked as a whole. -/
theorem markNode_of_hasRule {rules : List MarkRule} {node : Markup} (ruled : HasRule rules node) :
    markNode rules node = markdown (markedText rules node) := by
  cases node with
  | text content => exact absurd ruled (not_hasRule_of_leaf rfl)
  | markdown content => exact absurd ruled (not_hasRule_of_leaf rfl)
  | element name attributes children =>
    obtain ⟨rule, found⟩ := hasRule_element_iff.mp ruled
    rw [markNode, markedText, found]
    rw [MarkRule.find?] at found
    rw [found]
    simp only [MarkRule.enclose, textContentAll_markList]

/-- A node that has no rule is left as it is, with its children marked. -/
theorem markNode_of_not_hasRule {rules : List MarkRule} {node : Markup}
    (free : ¬ HasRule rules node) :
    (markNode rules node).shell = node.shell ∧
      (markNode rules node).children = node.children.map (markNode rules) := by
  cases node with
  | text content => exact ⟨rfl, rfl⟩
  | markdown content => exact ⟨rfl, rfl⟩
  | element name attributes children =>
    have none : MarkRule.find? rules name = none :=
      Option.eq_none_iff_forall_ne_some.mpr fun rule found =>
        free (hasRule_element_iff.mpr ⟨rule, found⟩)
    simp only [markNode, none]
    exact ⟨rfl, markList_eq_map rules children⟩

/-- A marked node has no rule any more. -/
theorem not_hasRule_markNode (rules : List MarkRule) (node : Markup) :
    ¬ HasRule rules (markNode rules node) := by
  by_cases ruled : HasRule rules node
  · rw [markNode_of_hasRule ruled]
    exact not_hasRule_of_leaf rfl
  · have same : (markNode rules node).name? = node.name? := by
      rw [← name?_shell, (markNode_of_not_hasRule ruled).1, name?_shell]
    rwa [HasRule, same]

/-- Apart from what it holds, a marked node is what stands in the place of the node. -/
theorem shell_markNode (rules : List MarkRule) (node : Markup) :
    (markNode rules node).shell = replacement rules node := by
  unfold replacement
  split
  next ruled => rw [markNode_of_hasRule ruled]; rfl
  next free => exact (markNode_of_not_hasRule free).1

/-- A path that takes a step first is clear if the node has no rule and the rest is clear from the
child on. -/
theorem clear_cons_iff {rules : List MarkRule} {node : Markup} {index : Nat} {path : List Nat} :
    Clear rules node (index :: path) ↔
      ¬ HasRule rules node ∧
        ∀ child, node.children[index]? = some child → Clear rules child path := by
  constructor
  · intro clear
    refine ⟨clear [] (index :: path) rfl (List.cons_ne_nil _ _) node rfl, ?_⟩
    rintro child step front back rfl more passed reached
    apply clear (index :: front) back rfl more passed
    rw [at?, step]
    exact reached
  · rintro ⟨free, clearBehind⟩ front back same more passed reached
    cases front with
    | nil =>
      obtain rfl : node = passed := Option.some.inj reached
      exact free
    | cons first front =>
      obtain ⟨rfl, rfl⟩ := List.cons.inj same
      obtain ⟨child, step, rest⟩ := Option.bind_eq_some_iff.mp reached
      exact clearBehind child step front back rfl more passed rest

/-- Behind the first step from the root, nothing on the way has a rule exactly if the rest of the
path is clear. -/
theorem uncovered_cons_iff {rules : List MarkRule} {root : Markup} {index : Nat} {path : List Nat} :
    Uncovered rules root (index :: path) ↔
      ∀ child, root.children[index]? = some child → Clear rules child path := by
  constructor
  · rintro free child step front back rfl more passed reached
    apply free (index :: front) back rfl (List.cons_ne_nil _ _) more passed
    rw [at?, step]
    exact reached
  · intro clearBehind front back same begun more passed reached
    cases front with
    | nil => exact absurd rfl begun
    | cons first front =>
      obtain ⟨rfl, rfl⟩ := List.cons.inj same
      obtain ⟨child, step, rest⟩ := Option.bind_eq_some_iff.mp reached
      exact clearBehind child step front back rfl more passed rest

/-- A path leads from a marked node to what it leads to from the node, marked, if it is clear, and
nowhere otherwise. -/
theorem at?_markNode (rules : List MarkRule) (node : Markup) (path : List Nat) (found : Markup) :
    (markNode rules node).at? path = some found ↔
      Clear rules node path ∧
        ∃ original, node.at? path = some original ∧ markNode rules original = found := by
  induction path generalizing node with
  | nil =>
    have clear : Clear rules node [] := fun front back same more =>
      absurd (List.append_eq_nil_iff.mp same.symm).2 more
    simp [at?, clear]
  | cons index path ih =>
    rw [clear_cons_iff]
    by_cases ruled : HasRule rules node
    -- Below Markdown there is nothing, and no path from an element with a rule on is clear.
    · rw [markNode_of_hasRule ruled]
      exact iff_of_false nofun fun reached => reached.1.1 ruled
    · rw [at?, (markNode_of_not_hasRule ruled).2, List.getElem?_map, at?]
      cases node.children[index]? with
      | none => exact iff_of_false nofun fun reached => nomatch reached.2
      | some child => simpa [ruled] using ih child

/-- Marking a marked list changes nothing: the elements that are left in it have no rule. -/
theorem markList_markList (rules : List MarkRule) (nodes : List Markup) :
    markList rules (markList rules nodes) = markList rules nodes := by
  induction nodes using listInduction with
  | nil => rfl
  | text content rest behind => rw [markList, markList, markNode, markNode, behind]
  | markdown content rest behind => rw [markList, markList, markNode, markNode, behind]
  | element name attributes children rest inside behind =>
    rw [markList, markList, behind, markNode]
    cases found : MarkRule.find? rules name with
    | some rule => rfl
    | none => simp only [markNode, found, inside]

/-- A path that leaves the root of a marked tree leads to what it leads to in the tree that was
given, marked, if nothing strictly between has a rule, and nowhere otherwise. -/
theorem at?_mark (rules : List MarkRule) (name : Text) (attributes : List (Text × Text))
    (nodes : List Markup) (index : Nat) (path : List Nat) (found : Markup) :
    let root := element name attributes nodes
    (root.mark rules).at? (index :: path) = some found ↔
      Uncovered rules root (index :: path) ∧
        ∃ original, root.at? (index :: path) = some original ∧
          markNode rules original = found := by
  intro root
  have children : root.children = nodes := rfl
  have marked : (root.mark rules).children = nodes.map (markNode rules) :=
    markList_eq_map rules nodes
  rw [uncovered_cons_iff, at?, at?, marked, children, List.getElem?_map]
  cases nodes[index]? with
  | none => exact iff_of_false nofun fun reached => nomatch reached.2
  | some child => simpa using at?_markNode rules child path found

/-- Marking keeps the root with its name and attributes and leaves no other element that has a
rule. Apart from what they hold, the nodes below the root are the original ones that stand below
no other element with a rule, each at its path, the ones with a rule replaced by Markdown. A path
counts the siblings in front of each node on it, so the nodes are also in their order. Marking
once more changes nothing. -/
theorem mark_replaces_outermost (rules : List MarkRule) (name : Text)
    (attributes : List (Text × Text)) (nodes : List Markup) :
    let root := element name attributes nodes
    let marked := root.mark rules
    marked.shell = root.shell ∧
      (∀ index path found, marked.at? (index :: path) = some found → ¬ HasRule rules found) ∧
      (∀ index path shown,
        (marked.at? (index :: path)).map shell = some shown ↔
          Uncovered rules root (index :: path) ∧
            ∃ original, root.at? (index :: path) = some original ∧
              shown = replacement rules original) ∧
      marked.mark rules = marked := by
  intro root marked
  have reached := at?_mark rules name attributes nodes
  refine ⟨rfl, ?_, ?_, ?_⟩
  · intro index path found stands
    obtain ⟨_, original, _, rfl⟩ := (reached index path found).mp stands
    exact not_hasRule_markNode rules original
  · intro index path shown
    rw [Option.map_eq_some_iff]
    constructor
    · rintro ⟨found, stands, rfl⟩
      obtain ⟨free, original, origin, rfl⟩ := (reached index path found).mp stands
      exact ⟨free, original, origin, shell_markNode rules original⟩
    · rintro ⟨free, original, origin, rfl⟩
      exact ⟨_, (reached index path _).mpr ⟨free, original, origin, rfl⟩,
        shell_markNode rules original⟩
  · exact congrArg (element name attributes) (markList_markList rules nodes)

/-- The root stays although it has a rule, and of two elements in each other that have one the outer
one is replaced, with the text of both. -/
example :
    let inner := element "i".toList [] [text " x ".toList]
    let root := element "b".toList [] [element "b".toList [] [inner], text "y".toList]
    root.mark MarkRule.standard =
      element "b".toList [] [markdown "***x***".toList, text "y".toList] :=
  rfl

end CommentMarkdown.Markup
