import CommentMarkdown.Comment.Node

/-!
# Open elements as counters

Rendering keeps the names of the open elements, most recent first, and an end mark takes the most
recent one of its name out, wherever it stands. Which one that was can never be seen. Prose asks
whether `code` or `pre` is among the names, an end mark asks whether its own name is, and a
name is among them exactly if it is there at least once. So it is enough to count
(`count_openBehind`): a start adds one to the counter of its name, and an end takes one away
unless there is none.

`countingSequence` renders with counters in the place of the names. It says and remarks the same
as rendering does, whatever order the marks come in (`openElements_counted`). What it shows
depends on two of its counters only. Labels and references are sequences of their own: they
begin with counters at zero and leave those around them alone.
-/

namespace CommentMarkdown.Node

open Markdown (startMark endMark)

/-- The counter of a name behind a node, from the counter in front of it. -/
def countBehind (name : Text) (count : Nat) : Node → Nat
  | start other => if Text.lower other = name then count + 1 else count
  | finish other => if Text.lower other = name then count - 1 else count
  | _ => count

/-- The counter of a name behind a sequence of nodes. -/
def tally (name : Text) (nodes : List Node) : Nat :=
  nodes.foldl (countBehind name) 0

/-- Counters in the place of the names of the open elements. -/
structure Counters where
  code : Nat
  pre : Nat
  /-- A counter for each name. Nothing but remarks depends on it. -/
  named : Text → Nat

namespace Counters

/-- No element is open. -/
def zero : Counters :=
  ⟨0, 0, fun _ => 0⟩

/-- The counters behind a node. -/
def behind (counters : Counters) (node : Node) : Counters where
  code := countBehind "code".toList counters.code node
  pre := countBehind "pre".toList counters.pre node
  named name := countBehind name (counters.named name) node

end Counters

mutual

/-- A node at a depth, behind elements that are only counted. -/
def renderCounting (limits : Limits) (depth : Nat) (counters : Counters) : Node → Diagnosed Text
  | text body => pure (if 0 < counters.code ∨ 0 < counters.pre then body else Text.collapse body)
  | link label reference => do
    let shown ← sectionAt limits (depth + 1) (countingSequence limits (depth + 1) .zero label)
    pure (linkText shown reference)
  | see reference =>
    sectionAt limits (depth + 1) (countingSequence limits (depth + 1) .zero reference)
  | start name => pure (startMark (Text.lower name))
  | finish name => do
    if counters.named (Text.lower name) = 0 then
      Diagnosed.report (.neverOpened (Text.lower name))
    pure (endMark (Text.lower name))
  -- A node of another kind is shown alike wherever it stands.
  | node => render limits depth [] node

/-- A sequence of nodes at a depth, rendered with counters. -/
def countingSequence (limits : Limits) (depth : Nat) (counters : Counters) :
    List Node → Diagnosed Text
  | [] => pure []
  | node :: rest => do
    let first ← renderCounting limits depth counters node
    let others ← countingSequence limits depth (counters.behind node) rest
    pure (first ++ others)

end

/-- Counters that count the names of the open elements. -/
structure Counts (counters : Counters) (opened : List Text) : Prop where
  code : counters.code = opened.count "code".toList
  pre : counters.pre = opened.count "pre".toList
  named : ∀ name, counters.named name = opened.count name

/-- Nothing is counted where nothing is open. -/
theorem counts_zero : Counts .zero [] :=
  ⟨rfl, rfl, fun _ => rfl⟩

/-- A node changes how often a name is among the open elements as it changes the counter of that
name. An end takes its name out once if it can, and no other name, so the place that it takes it
from does not matter. -/
theorem count_openBehind (name : Text) (opened : List Text) (node : Node) :
    (node.openBehind opened).count name = countBehind name (opened.count name) node := by
  cases node with
  | start other =>
    rw [openBehind, countBehind, List.count_cons]
    simp only [beq_iff_eq]
    split <;> rfl
  | finish other =>
    rw [openBehind, countBehind, List.count_erase]
    simp only [beq_iff_eq]
    split <;> rfl
  | _ => rfl

/-- Counters that count in front of a node do so behind it. -/
theorem Counts.behind {counters : Counters} {opened : List Text} (counts : Counts counters opened)
    (node : Node) : Counts (counters.behind node) (node.openBehind opened) where
  code := by rw [count_openBehind, ← counts.code]; rfl
  pre := by rw [count_openBehind, ← counts.pre]; rfl
  named name := by rw [count_openBehind, ← counts.named]; rfl

/-- The names behind a whole sequence are counted by its tallies. -/
theorem count_foldl_openBehind (name : Text) (nodes : List Node) (opened : List Text) :
    (nodes.foldl openBehind opened).count name =
      nodes.foldl (countBehind name) (opened.count name) := by
  induction nodes generalizing opened with
  | nil => rfl
  | cons node rest ih => rw [List.foldl_cons, List.foldl_cons, ih, count_openBehind]

/-- Prose stands in code exactly if one of the two counters is positive. -/
theorem insideCode_iff (opened : List Text) :
    insideCode opened = true ↔
      0 < opened.count "code".toList ∨ 0 < opened.count "pre".toList := by
  simp only [insideCode, List.any_eq_true, Bool.or_eq_true, beq_iff_eq, List.count_pos_iff]
  constructor
  · rintro ⟨name, member, rfl | rfl⟩
    · exact .inl member
    · exact .inr member
  · rintro (member | member)
    · exact ⟨_, member, .inl rfl⟩
    · exact ⟨_, member, .inr rfl⟩

/-- Prose keeps its white space between open elements one of which shows code. -/
theorem render_text (limits : Limits) (depth : Nat) (opened : List Text) (body : Text) :
    render limits depth opened (text body) =
      pure (if insideCode opened then body else Text.collapse body) :=
  rfl

/-- A link looks at no open element, and its label begins with none. -/
theorem render_link (limits : Limits) (depth : Nat) (opened : List Text) (label : List Node)
    (reference : Text) :
    render limits depth opened (link label reference) = (do
      let shown ← sectionAt limits (depth + 1) (renderSequence limits (depth + 1) [] label)
      pure (linkText shown reference)) :=
  rfl

/-- A reference looks at no open element, and its list begins with none. -/
theorem render_see (limits : Limits) (depth : Nat) (opened : List Text) (reference : List Node) :
    render limits depth opened (see reference) =
      sectionAt limits (depth + 1) (renderSequence limits (depth + 1) [] reference) :=
  rfl

/-- An end is remarked on if no element of its name is open. -/
theorem render_finish (limits : Limits) (depth : Nat) (opened : List Text) (name : Text) :
    render limits depth opened (finish name) = (do
      if Text.lower name ∉ opened then
        Diagnosed.report (.neverOpened (Text.lower name))
      pure (endMark (Text.lower name))) :=
  rfl

mutual

/-- A node is rendered with counters as it is rendered with the names that they count. -/
theorem render_eq_renderCounting (limits : Limits) (depth : Nat) {counters : Counters}
    {opened : List Text} (counts : Counts counters opened) :
    ∀ node, render limits depth opened node = renderCounting limits depth counters node
  | text body => by
    simp only [render_text, renderCounting, insideCode_iff, counts.code, counts.pre]
  | link label reference => by
    rw [render_link, renderCounting,
      renderSequence_eq_countingSequence limits (depth + 1) counts_zero label]
  | see reference => by
    rw [render_see, renderCounting,
      renderSequence_eq_countingSequence limits (depth + 1) counts_zero reference]
  | finish name => by
    simp only [render_finish, renderCounting, counts.named, List.count_eq_zero]
  | start _ | literal _ | entity _ | erroneous _ | unknownTag _ => rfl

/-- A sequence is rendered with counters as it is rendered with the names that they count. -/
theorem renderSequence_eq_countingSequence (limits : Limits) (depth : Nat) {counters : Counters}
    {opened : List Text} (counts : Counts counters opened) :
    ∀ nodes, renderSequence limits depth opened nodes = countingSequence limits depth counters nodes
  | [] => rfl
  | node :: rest => by
    rw [renderSequence, countingSequence, render_eq_renderCounting limits depth counts node,
      renderSequence_eq_countingSequence limits depth (counts.behind node) rest]

end

/-- What a node is shown as depends on the counters of `code` and `pre` only. -/
theorem value_renderCounting_congr (limits : Limits) (depth : Nat) {counters others : Counters}
    (code : counters.code = others.code) (pre : counters.pre = others.pre) (node : Node) :
    (renderCounting limits depth counters node).value =
      (renderCounting limits depth others node).value := by
  cases node with
  | text body => rw [renderCounting, renderCounting, code, pre]
  | finish name =>
    have marked (counted : Counters) :
        (renderCounting limits depth counted (finish name)).value = endMark (Text.lower name) := by
      rw [renderCounting]
      split <;> rfl
    rw [marked, marked]
  | _ => rfl

/-- What a sequence is shown as depends on the counters of `code` and `pre` only. -/
theorem value_countingSequence_congr (limits : Limits) (depth : Nat) {counters others : Counters}
    (code : counters.code = others.code) (pre : counters.pre = others.pre) (nodes : List Node) :
    (countingSequence limits depth counters nodes).value =
      (countingSequence limits depth others nodes).value := by
  induction nodes generalizing counters others with
  | nil => rfl
  | cons node rest ih =>
    have codeBehind : (counters.behind node).code = (others.behind node).code :=
      congrArg (countBehind "code".toList · node) code
    have preBehind : (counters.behind node).pre = (others.behind node).pre :=
      congrArg (countBehind "pre".toList · node) pre
    rw [countingSequence, countingSequence]
    simp only [Diagnosed.value_bind, Diagnosed.value_pure]
    rw [value_renderCounting_congr limits depth code pre node, ih codeBehind preBehind]

/-- The remarks on a sequence begin with those on any front part of it. -/
theorem log_renderSequence_append (limits : Limits) (depth : Nat) (opened : List Text)
    (front rest : List Node) :
    (renderSequence limits depth opened (front ++ rest)).log =
      (renderSequence limits depth opened front).log ++
        (renderSequence limits depth (front.foldl openBehind opened) rest).log := by
  induction front generalizing opened with
  | nil => rfl
  | cons node front ih =>
    simp only [List.cons_append, renderSequence, Diagnosed.log_bind, Diagnosed.log_pure,
      List.append_nil, ih, List.foldl_cons, List.append_assoc]

/-- An end mark is remarked on exactly if the tally of its own name in front of it is zero. -/
theorem log_render_finish (limits : Limits) (depth : Nat) (front : List Node) (name : Text) :
    (render limits depth (front.foldl openBehind []) (finish name)).log =
      if tally (Text.lower name) front = 0 then [.neverOpened (Text.lower name)] else [] := by
  have counted :
      Text.lower name ∉ front.foldl openBehind [] ↔ tally (Text.lower name) front = 0 := by
    rw [← List.count_eq_zero, count_foldl_openBehind]
    rfl
  rw [render_finish]
  by_cases unopened : tally (Text.lower name) front = 0
  · rw [if_pos unopened, if_pos (counted.mpr unopened)]
    rfl
  · rw [if_neg unopened, if_neg (mt counted.mp unopened)]
    rfl

/-- Rendering a sequence with counters that start at zero says and remarks the same as rendering it
with the names of the open elements. What it says depends on the counters of `code` and `pre`
only. A remark on an end mark is made in its place exactly if the counter of the mark's own
name is at zero there. Labels and references leave the counters around them as they are. -/
theorem openElements_counted (limits : Limits) (depth : Nat) :
    (∀ nodes, renderSequence limits depth [] nodes = countingSequence limits depth .zero nodes) ∧
    (∀ named nodes,
      (renderSequence limits depth [] nodes).value =
        (countingSequence limits depth ⟨0, 0, named⟩ nodes).value) ∧
    (∀ front name rest, ∃ remark : Diagnostic,
      remark.level = .trace ∧
      remark.message =
        "Closing </".toList ++ Text.lower name ++ "> that was never opened".toList ∧
      (renderSequence limits depth [] (front ++ finish name :: rest)).log =
        (renderSequence limits depth [] front).log ++
          (if tally (Text.lower name) front = 0 then [remark] else []) ++
          (renderSequence limits depth ((front ++ [finish name]).foldl openBehind []) rest).log) ∧
    (∀ (counters : Counters) (inner : List Node) (reference : Text),
      counters.behind (link inner reference) = counters ∧
        counters.behind (see inner) = counters) := by
  have alike (nodes : List Node) :
      renderSequence limits depth [] nodes = countingSequence limits depth .zero nodes :=
    renderSequence_eq_countingSequence limits depth counts_zero nodes
  refine ⟨alike, ?_, ?_, ?_⟩
  · intro named nodes
    rw [alike]
    apply value_countingSequence_congr
    · rfl
    · rfl
  · intro front name rest
    refine ⟨.neverOpened (Text.lower name), rfl, rfl, ?_⟩
    rw [log_renderSequence_append, renderSequence, Diagnosed.log_bind, Diagnosed.log_bind,
      Diagnosed.log_pure, List.append_nil, log_render_finish, List.foldl_append, List.append_assoc]
    rfl
  · intro counters inner reference
    exact ⟨rfl, rfl⟩

/-- Prose behind an end in other letters than its start is not in code any more, although an
element that was opened between them is still open. -/
example :
    renderAll {} [.start "CODE".toList, .start "b".toList, .finish "code".toList,
        .text "x  y".toList, .finish "code".toList] =
      ⟨"\x60**\x60x y\x60".toList, [.neverOpened "code".toList]⟩ := by
  rfl

end CommentMarkdown.Node
