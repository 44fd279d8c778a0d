import CommentMarkdown.Proofs.Comment.Sections

/-!
# The depth limit as a cut

Link labels and references are lists of nodes in nodes. Rendering follows them down to a limit,
and a list below it is shown as nothing. That is the same as emptying all such lists first and
rendering what is left under any higher limit (`depth_limit_cuts`): an empty list is clean
already, so it is shown as nothing on every level.

So the limit has no effect on a sequence whose lists lie no deeper. It has one on a link whose
label lies just below it. The link then shows its reference, like a link that has no label.
-/

namespace CommentMarkdown.Node

open Markdown (cleaned)

/-- A node in which lists are kept on a number of levels, and emptied below them. -/
def cut : Nat → Node → Node
  | 0, link _ reference => link [] reference
  | 0, see _ => see []
  | levels + 1, link label reference => link (label.map (cut levels)) reference
  | levels + 1, see reference => see (reference.map (cut levels))
  | _, node => node

mutual

/-- The number of levels on which nodes lie inside a node. -/
def height : Node → Nat
  | link label _ => listHeight label
  | see reference => listHeight reference
  | _ => 0

/-- The number of levels on which nodes lie in a list, its own included. -/
def listHeight : List Node → Nat
  | [] => 0
  | node :: rest => max (node.height + 1) (listHeight rest)

end

/-- A list of nodes at a depth as it is shown there. -/
def shownAt (limits : Limits) (depth : Nat) (nodes : List Node) : Text :=
  (sectionAt limits depth (renderSequence limits depth [] nodes)).value

/-- A list is dropped below the limit, and otherwise cleaned up on its own. -/
theorem shownAt_eq (limits : Limits) (depth : Nat) (nodes : List Node) :
    shownAt limits depth nodes =
      if limits.markupDepth < depth then []
      else cleaned limits (renderSequence limits depth [] nodes).value := by
  rw [shownAt, sectionAt]
  split <;> rfl

/-- There is nothing to clean up in nothing. -/
theorem shownAt_nil (limits : Limits) (depth : Nat) : shownAt limits depth [] = [] := by
  rw [shownAt_eq]
  split <;> rfl

/-- A link shows its label as that is shown one level deeper, or else its reference. -/
theorem value_render_link (limits : Limits) (depth : Nat) (opened : List Text)
    (label : List Node) (reference : Text) :
    (render limits depth opened (link label reference)).value =
      linkText (shownAt limits (depth + 1) label) reference :=
  rfl

/-- A reference is shown as its list is one level deeper. -/
theorem value_render_see (limits : Limits) (depth : Nat) (opened : List Text)
    (reference : List Node) :
    (render limits depth opened (see reference)).value =
      shownAt limits (depth + 1) reference :=
  rfl

/-- A cut leaves the start and end marks of elements where they are. -/
theorem openBehind_cut (levels : Nat) (node : Node) (opened : List Text) :
    (node.cut levels).openBehind opened = node.openBehind opened := by
  cases levels <;> cases node <;> rfl

section

variable {limits deeper : Limits}

/-- Sequences whose nodes are rendered alike are rendered alike. -/
theorem value_renderSequence_map_cut {depth levels : Nat}
    (alike : ∀ opened node, (render deeper depth opened (node.cut levels)).value =
      (render limits depth opened node).value)
    (opened : List Text) (nodes : List Node) :
    (renderSequence deeper depth opened (nodes.map (cut levels))).value =
      (renderSequence limits depth opened nodes).value := by
  induction nodes generalizing opened with
  | nil => rfl
  | cons node rest ih =>
    rw [List.map_cons, value_renderSequence_cons, value_renderSequence_cons, alike,
      openBehind_cut, ih]

/-- A list above both limits is shown alike if its nodes are rendered alike. -/
theorem shownAt_map_cut (sameDirectives : deeper.directiveDepth = limits.directiveDepth)
    {depth levels : Nat} (above : depth ≤ limits.markupDepth)
    (higher : limits.markupDepth ≤ deeper.markupDepth)
    (alike : ∀ opened node, (render deeper depth opened (node.cut levels)).value =
      (render limits depth opened node).value) (nodes : List Node) :
    shownAt deeper depth (nodes.map (cut levels)) = shownAt limits depth nodes := by
  have sameCleaned (text : Text) : cleaned deeper text = cleaned limits text := by
    simp only [cleaned, Markdown.normalize, Directive.replace, Directive.resolve, sameDirectives]
  rw [shownAt_eq, shownAt_eq, if_neg (by omega), if_neg (by omega),
    value_renderSequence_map_cut alike, sameCleaned]

/-- A node that is cut where the limit ends is rendered under a higher limit as the whole node is
under the limit. The induction is on the levels that are left. -/
theorem value_render_cut (sameDirectives : deeper.directiveDepth = limits.directiveDepth)
    (higher : limits.markupDepth ≤ deeper.markupDepth) {depth levels : Nat}
    (left : depth + levels = limits.markupDepth) (opened : List Text) (node : Node) :
    (render deeper depth opened (node.cut levels)).value =
      (render limits depth opened node).value := by
  induction levels generalizing depth opened node with
  | zero =>
    have dropped (nodes : List Node) : shownAt limits (depth + 1) nodes = [] := by
      rw [shownAt_eq, if_pos (by omega)]
    cases node with
    | link label reference =>
      rw [cut, value_render_link, value_render_link, shownAt_nil, dropped]
    | see reference => rw [cut, value_render_see, value_render_see, shownAt_nil, dropped]
    | _ => rfl
  | succ levels ih =>
    have inner (nodes : List Node) :
        shownAt deeper (depth + 1) (nodes.map (cut levels)) = shownAt limits (depth + 1) nodes :=
      shownAt_map_cut sameDirectives (by omega) higher (ih (by omega)) nodes
    cases node with
    | link label reference => rw [cut, value_render_link, value_render_link, inner]
    | see reference => rw [cut, value_render_see, value_render_see, inner]
    | _ => rfl

end

/-- A list has no node below the levels that it has. -/
theorem height_le_of_listHeight_le {levels : Nat} {nodes : List Node}
    (low : listHeight nodes ≤ levels + 1) : ∀ node ∈ nodes, node.height ≤ levels := by
  induction nodes with
  | nil => exact fun _ => nofun
  | cons node rest ih =>
    rw [listHeight] at low
    exact List.forall_mem_cons.mpr ⟨by omega, ih (by omega)⟩

/-- Only the empty list has no levels. -/
theorem eq_nil_of_listHeight_le {nodes : List Node} (low : listHeight nodes ≤ 0) : nodes = [] := by
  cases nodes with
  | nil => rfl
  | cons node rest =>
    rw [listHeight] at low
    omega

/-- A list is left as it is if its nodes are. -/
theorem map_cut_of_kept {levels : Nat} {nodes : List Node}
    (kept : ∀ node ∈ nodes, node.cut levels = node) : nodes.map (cut levels) = nodes :=
  calc nodes.map (cut levels) = nodes.map id := List.map_congr_left kept
    _ = nodes := List.map_id nodes

/-- A node that has no more levels than are kept is left as it is. -/
theorem cut_of_height_le {levels : Nat} {node : Node} (low : node.height ≤ levels) :
    node.cut levels = node := by
  induction levels generalizing node with
  | zero =>
    cases node with
    | link label reference => rw [cut, eq_nil_of_listHeight_le low]
    | see reference => rw [cut, eq_nil_of_listHeight_le low]
    | _ => rfl
  | succ levels ih =>
    have kept {nodes : List Node} (lowNodes : listHeight nodes ≤ levels + 1) :
        nodes.map (cut levels) = nodes :=
      map_cut_of_kept fun node member => ih (height_le_of_listHeight_le lowNodes node member)
    cases node with
    | link label reference => rw [cut, kept low]
    | see reference => rw [cut, kept low]
    | _ => rfl

/-- Rendering under a limit is rendering under any limit that is not lower, after all lists below
the first one have been emptied. It does not depend on the limit if there are no such lists,
and a link whose label is one of them shows its reference. -/
theorem depth_limit_cuts (limits : Limits) (nodes : List Node) (markupDepth : Nat)
    (higher : limits.markupDepth ≤ markupDepth) :
    let deeper := { limits with markupDepth }
    (renderAll limits nodes).value =
        (renderAll deeper (nodes.map (cut limits.markupDepth))).value ∧
      ((∀ node ∈ nodes, node.height ≤ limits.markupDepth) →
        (renderAll limits nodes).value = (renderAll deeper nodes).value) ∧
      ∀ depth, limits.markupDepth ≤ depth → ∀ opened label reference,
        (render limits depth opened (link label reference)).value =
          if Text.isBlank reference then [] else Markdown.codeSpan reference := by
  intro deeper
  have sameDirectives : deeper.directiveDepth = limits.directiveDepth := rfl
  have truncated : shownAt deeper 0 (nodes.map (cut limits.markupDepth)) =
      shownAt limits 0 nodes := by
    apply shownAt_map_cut sameDirectives (Nat.zero_le limits.markupDepth) higher
    exact value_render_cut sameDirectives higher (Nat.zero_add limits.markupDepth)
  refine ⟨truncated.symm, ?_, ?_⟩
  · intro low
    have kept : nodes.map (cut limits.markupDepth) = nodes :=
      map_cut_of_kept fun node member => cut_of_height_le (low node member)
    rw [kept] at truncated
    exact truncated.symm
  · intro depth reached opened label reference
    rw [value_render_link, shownAt_eq, if_pos (by omega), linkText]
    cases Text.isBlank reference <;> rfl

/-- A link in the label of a link, with a reference in its own label. -/
def nestedLink : List Node :=
  [.link [.text "a ".toList, .link [.see [.text "x".toList]] "inner".toList] "outer".toList]

/-- On one level the inner link keeps nothing but its reference, as it does on two if its label is
emptied. With its label it shows something else there. -/
theorem nestedLink_cut :
    ({ markupDepth := 1 } : Limits).markupDepth ≤ 3 ∧
      (renderAll { markupDepth := 1 } nestedLink).value = "a \x60inner\x60".toList ∧
      (renderAll { markupDepth := 3 } (nestedLink.map (cut 1))).value =
        "a \x60inner\x60".toList ∧
      (renderAll { markupDepth := 3 } nestedLink).value = "a x".toList := by
  have higher : ({ markupDepth := 1 } : Limits).markupDepth ≤ 3 := by decide
  have shown : (renderAll { markupDepth := 1 } nestedLink).value = "a \x60inner\x60".toList := by
    decide +kernel
  have truncated := (depth_limit_cuts { markupDepth := 1 } nestedLink 3 higher).1
  exact ⟨higher, shown, truncated.symm.trans shown, by decide +kernel⟩

end CommentMarkdown.Node
