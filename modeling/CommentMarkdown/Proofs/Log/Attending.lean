import CommentMarkdown.Attended
import CommentMarkdown.Proofs.Comment.OpenElements

/-!
# Attending as one goes or in the end

A computation hands its remarks to a logger as they arise, and gets nothing back. That is why
all of them may as well be gone through in the end: `observe` agrees with carrying out the
parts of a computation one after the other, each under the logger that the part before it
has left (`observe_bind`), down to the single remark (`observe_report`).

So what collects remarks and what puts each of them to a logger on the spot are one computation,
function by function along their recursions, from the nesting of groups (`attended_nest`) to any
comment text (`attended_ofText`).
-/

namespace CommentMarkdown

open Log (Logger Outside)

namespace Log.Logger

variable {α β : Type}

/-- Nothing is heard of a value. -/
theorem observe_pure (logger : Logger) (value : α) (outside : Outside) :
    logger.observe (pure value) outside = (value, logger, outside) := rfl

/-- A remark is heard at once: it is handed on if it is wanted. -/
theorem observe_report (logger : Logger) (remark : Diagnostic) (outside : Outside) :
    logger.observe (Diagnosed.report remark) outside =
      ((), logger.logWanted remark.level remark.module remark.message outside) := rfl

/-- A computation in two parts is heard part by part. The second part finds the logger and the
outside as the first one has left them. -/
theorem observe_bind (logger : Logger) (first : Diagnosed α) (next : α → Diagnosed β)
    (outside : Outside) :
    logger.observe (first >>= next) outside =
      let (value, left, leftOutside) := logger.observe first outside
      left.observe (next value) leftOutside := by
  simp only [observe, Diagnosed.value_bind, Diagnosed.log_bind, listen_append]

end Log.Logger

namespace Diagnosed

variable {α β : Type}

/-- A computation whose remarks a logger goes through in the end. -/
def attended (computation : Diagnosed α) : Attended α := fun (logger, outside) =>
  logger.observe computation outside

/-- A value needs no logger. -/
@[simp]
theorem attended_pure (value : α) : (pure value : Diagnosed α).attended = pure value :=
  funext fun (logger, outside) => logger.observe_pure value outside

/-- A collected remark is one that is put to the logger. -/
@[simp]
theorem attended_report (diagnostic : Diagnostic) :
    (report diagnostic).attended = Attended.remark diagnostic :=
  funext fun (logger, outside) => logger.observe_report diagnostic outside

/-- Two parts are attended one after the other. -/
@[simp]
theorem attended_bind (first : Diagnosed α) (next : α → Diagnosed β) :
    (first >>= next).attended = first.attended >>= fun value => (next value).attended :=
  funext fun (logger, outside) => logger.observe_bind first next outside

/-- What is made of a value makes no difference to the logger. -/
@[simp]
theorem attended_map (f : α → β) (computation : Diagnosed α) :
    (f <$> computation).attended = f <$> computation.attended := by
  rw [← bind_pure_comp, ← bind_pure_comp, attended_bind]
  simp only [attended_pure]

/-- A list is attended item by item. -/
theorem attended_mapM {collect : α → Diagnosed β} {attend : α → Attended β} (items : List α)
    (same : ∀ item, (collect item).attended = attend item) :
    (items.mapM collect).attended = items.mapM attend := by
  induction items with
  | nil => rfl
  | cons item rest ih =>
    rw [List.mapM_cons, List.mapM_cons, attended_bind, same]
    simp only [attended_bind, attended_pure, ih]

end Diagnosed

namespace Directive

/-- The remark on a head. -/
@[simp]
theorem Head.attended_remark (head : Head) (offset : Nat) :
    (head.remark offset).attended = Attended.remarkHead head offset := by
  unfold Head.remark Attended.remarkHead
  cases head.unknownName? with
  | some name => exact Diagnosed.attended_report _
  | none => exact Diagnosed.attended_pure _

/-- Groups are nested alike, with each remark in its place among the tokens. -/
theorem attended_nest (limit position : Nat) (pending : List Pending) (items : List Item)
    (tokens : List Token) :
    (nest limit position pending items tokens).attended =
      Attended.nest limit position pending items tokens := by
  fun_induction nest limit position pending items tokens with
  | case1 => rfl
  | case2 => rfl
  | case3 position pending items c rest ih => rw [ih, Attended.nest]
  | case4 position pending items head rest deep =>
    rw [Attended.nest, if_pos deep]
    exact Diagnosed.attended_pure _
  | case5 position pending items head rest shallow ih =>
    rw [Attended.nest, if_neg shallow, Diagnosed.attended_bind, Head.attended_remark]
    exact congrArg _ (funext fun _ => ih)
  | case6 position items rest ih => rw [ih, Attended.nest]
  | case7 position items rest group pending ih => rw [ih, Attended.nest]

/-- Prose is resolved alike. -/
@[simp]
theorem attended_resolve (limits : Limits) (target : Target) (text : Text) :
    (resolve limits target text).attended = Attended.resolve limits target text := by
  unfold resolve Attended.resolve
  split
  · rw [Diagnosed.attended_map, parse, attended_nest, ← bind_pure_comp]
  · exact Diagnosed.attended_pure _

/-- Prose is resolved alike if it need not nest. -/
@[simp]
theorem attended_replace (limits : Limits) (target : Target) (text : Text) :
    (replace limits target text).attended = Attended.replace limits target text := by
  unfold replace Attended.replace
  rw [Diagnosed.attended_bind, attended_resolve]
  refine congrArg _ (funext fun result => ?_)
  cases result with
  | ok resolved => exact Diagnosed.attended_pure _
  | error error => rw [Diagnosed.attended_bind, Diagnosed.attended_report, Diagnosed.attended_pure]

end Directive

/-- Sections are cleaned up alike. -/
@[simp]
theorem Markdown.attended_normalize (limits : Limits) (text : Text) :
    (normalize limits text).attended = Attended.normalize limits text :=
  Directive.attended_replace limits .text (Text.tidy text)

namespace Node

/-- A section is dropped or cleaned up alike if its content is attended alike. -/
theorem attended_sectionAt (limits : Limits) (depth : Nat) (content : Diagnosed Text) :
    (sectionAt limits depth content).attended =
      Attended.sectionAt limits depth content.attended := by
  unfold sectionAt Attended.sectionAt
  split
  · rw [Diagnosed.attended_bind, Diagnosed.attended_report, Diagnosed.attended_pure]
  · rw [Diagnosed.attended_bind]
    exact congrArg _ (funext fun text => Markdown.attended_normalize limits text)

mutual

/-- A node is rendered alike. -/
theorem attended_render (limits : Limits) (depth : Nat) (opened : List Text) (node : Node) :
    (render limits depth opened node).attended = Attended.renderNode limits depth opened node := by
  cases node with
  | text _ | literal _ | start _ | entity _ | erroneous _ | unknownTag _ => rfl
  | link label reference =>
    rw [render_link, Attended.renderNode_link, Diagnosed.attended_bind, attended_sectionAt,
      attended_renderSequence limits (depth + 1) [] label]
    rfl
  | see reference =>
    rw [render_see, Attended.renderNode_see, attended_sectionAt,
      attended_renderSequence limits (depth + 1) [] reference]
  | finish name =>
    rw [render_finish, Attended.renderNode_finish]
    split
    · rw [Diagnosed.attended_bind, Diagnosed.attended_report]
      rfl
    · rfl

/-- A sequence of nodes is rendered alike. -/
theorem attended_renderSequence (limits : Limits) (depth : Nat) (opened : List Text)
    (nodes : List Node) :
    (renderSequence limits depth opened nodes).attended =
      Attended.renderSequence limits depth opened nodes := by
  cases nodes with
  | nil => rfl
  | cons node rest =>
    rw [renderSequence, Attended.renderSequence, Diagnosed.attended_bind,
      attended_render limits depth opened node]
    refine congrArg _ (funext fun first => ?_)
    rw [Diagnosed.attended_bind, attended_renderSequence limits depth (node.openBehind opened) rest]
    rfl

end

/-- A whole sequence is rendered alike. -/
@[simp]
theorem attended_renderAll (limits : Limits) (nodes : List Node) :
    (renderAll limits nodes).attended = Attended.renderNodes limits nodes := by
  rw [renderAll, attended_sectionAt, attended_renderSequence, Attended.renderNodes]

end Node

namespace BlockTag

/-- A tag is rendered alike, behind the remark on it. -/
theorem attended_renderRemarked (limits : Limits) (tag : BlockTag) :
    (renderRemarked limits tag).attended = Attended.renderTag limits tag := by
  unfold renderRemarked Attended.renderTag
  rw [Diagnosed.attended_bind, Diagnosed.attended_report]
  refine congrArg _ (funext fun _ => ?_)
  cases tag with
  | unknown source => exact Diagnosed.attended_pure _
  | _ => simp only [render, Diagnosed.attended_map, Node.attended_renderAll]

/-- Tags are rendered alike. -/
@[simp]
theorem attended_renderAll (limits : Limits) (tags : List BlockTag) :
    (renderAll limits tags).attended = Attended.renderTags limits tags := by
  unfold renderAll Attended.renderTags
  rw [Diagnosed.attended_bind, Diagnosed.attended_mapM tags (attended_renderRemarked limits)]
  simp only [Markdown.attended_normalize]

end BlockTag

/-- A comment is rendered alike. -/
@[simp]
theorem Comment.attended_render (limits : Limits) (comment : Comment) :
    (comment.render limits).attended = Attended.renderComment limits comment := by
  unfold render Attended.renderComment
  simp only [Diagnosed.attended_bind, Diagnosed.attended_pure, Node.attended_renderAll,
    BlockTag.attended_renderAll]

namespace Markup

/-- A conversion makes something of the resolved text that depends on a reader, and remarks on
nothing but its directives. -/
theorem answeredBy_convert (limits : Limits) (reader : Text → Option (List Html)) (text : Text) :
    (convert limits text).answeredBy reader =
      (fun resolved => ((parse limits resolved).answeredBy reader).map fun root =>
        (root.mark MarkRule.standard).serializeChildren) <$> Directive.replace limits .markup text := by
  rw [convert, Enquiry.answeredBy_map]
  ext : 1
  · rw [Diagnosed.value_map]
  · rw [Diagnosed.log_map]

/-- Marked-up text is converted alike. -/
theorem attended_convert (limits : Limits) (reader : Text → Option (List Html)) (text : Text) :
    ((convert limits text).answeredBy reader).attended = Attended.convert limits reader text := by
  rw [answeredBy_convert, Diagnosed.attended_map, Directive.attended_replace, ← bind_pure_comp]
  rfl

/-- Any comment text is converted alike, whether or not the conversion falls back. -/
theorem attended_ofText (limits : Limits) (reader : Text → Option (List Html)) (text : Text) :
    ((ofText limits text).answeredBy reader).attended = Attended.ofText limits reader text := by
  unfold ofText Attended.ofText
  split
  · rw [Enquiry.answeredBy_map, Diagnosed.attended_bind, attended_convert]
    refine congrArg _ (funext fun result => ?_)
    cases result with
    | ok converted => exact Directive.attended_replace limits .text converted
    | error error =>
      rw [finish, Diagnosed.attended_bind, Diagnosed.attended_report]
      exact congrArg _ (funext fun _ => Directive.attended_replace limits .text text)
  · exact Directive.attended_replace limits .text text

end Markup

end CommentMarkdown
