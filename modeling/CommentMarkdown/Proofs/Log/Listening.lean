import CommentMarkdown.Proofs.Log.Attending

/-!
# Listening to the library

Each function of the library can be carried out with a logger at hand, which is asked at every
remark and may be changed by it (`Call.attended`). It can as well collect its remarks and leave
them to a logger in the end, and that is the same (`Call.attended_computation`).

What a logger does with remarks is plainest if it keeps its records in memory. Then it stays
as it is, and has kept, in order, the remarks that it wanted (`listen_of_capture`). So two
loggers of this kind hear the same call, each through its own filter, and the call results in
the same (`Call.heard_through_filter`).
-/

namespace CommentMarkdown

namespace Log

/-- What a record says, apart from when. -/
def Record.said (record : Record) : Level × Text × Text :=
  (record.level, record.module, record.message)

namespace Logger

/-- The record of a remark. -/
def recordOf (remark : Diagnostic) (millis : Int) : Record :=
  ⟨remark.level, remark.module, remark.message, millis⟩

/-- Whether a logger wants a remark. -/
def wants (logger : Logger) (remark : Diagnostic) : Bool :=
  logger.shouldLog remark.level remark.module

/-- A logger that only keeps records in memory keeps a message if it wants it, and is itself
the same afterwards. -/
theorem logWanted_of_capture {logger : Logger} {id : Text}
    (capturing : logger.sinks = [.capture id]) (level : Level) (module message : Text)
    (outside : Outside) :
    logger.logWanted level module message outside =
      (logger,
        if logger.shouldLog level module then
          outside.capture id ⟨level, module, message, outside.now.millis⟩
        else outside) := by
  unfold logWanted
  split
  next =>
    have same : { logger with sinks := [.capture id] } = logger := by rw [← capturing]
    simp only [log, capturing, Sink.takeAll, Sink.take, same]
  next => rfl

/-- Such a logger has kept exactly the remarks that it wants, in order. -/
theorem listen_of_capture {logger : Logger} {id : Text} (capturing : logger.sinks = [.capture id])
    (remarks : List Diagnostic) (outside : Outside) :
    logger.listen remarks outside =
      (logger,
        { outside with
          captured := outside.captured ++
            (remarks.filter logger.wants).map fun remark =>
              (id, recordOf remark outside.now.millis) }) := by
  induction remarks generalizing outside with
  | nil => simp [listen]
  | cons remark rest ih =>
    have first := logWanted_of_capture capturing remark.level remark.module remark.message outside
    rw [← List.singleton_append, listen_append]
    change (logger.logWanted _ _ _ outside).1.listen rest (logger.logWanted _ _ _ outside).2 = _
    rw [first, ih, List.singleton_append, List.filter_cons, wants]
    split
    next => simp [Outside.capture, recordOf]
    next => rfl

/-- A logger without sinks listens to nothing. -/
theorem listen_of_mute {logger : Logger} (mute : logger.sinks = []) (remarks : List Diagnostic)
    (outside : Outside) : logger.listen remarks outside = (logger, outside) := by
  induction remarks with
  | nil => rfl
  | cons remark rest ih =>
    have unwanted : logger.shouldLog remark.level remark.module = false := by
      simp [shouldLog, mute]
    rw [listen, List.foldl_cons, logWanted, unwanted]
    exact ih

/-- A logger that has been set up for the least level, without a description of a filter, and
keeps its records under a name. -/
def tracing (id : Text) : Logger :=
  (ofConfig { level := .trace, console := false }).addSink (.capture id)

/-- A logger at the least level without a filter wants every remark. -/
theorem wants_tracing (id : Text) (remark : Diagnostic) : (tracing id).wants remark = true := by
  unfold wants
  cases remark.level <;> rfl

end Logger

end Log

open Log (Logger Outside Record)

/-- One thing that the library can be asked for. -/
inductive Call
  /-- Prose with its directives resolved, or why they cannot be. -/
  | resolve (target : Directive.Target) (text : Text)
  /-- Prose with its directives resolved as far as they can be. -/
  | replace (target : Directive.Target) (text : Text)
  /-- A sequence of nodes as Markdown. -/
  | nodes (sequence : List Node)
  /-- Block tags as Markdown. -/
  | tags (statements : List BlockTag)
  /-- A comment as Markdown. -/
  | comment (whole : Comment)
  /-- Marked-up text as Markdown, or why it cannot be. -/
  | convert (text : Text)
  /-- Any comment text as Markdown. -/
  | ofText (text : Text)

namespace Call

/-- What a call results in. -/
inductive Result
  | text (text : Text)
  | resolved (result : Except DirectiveError Text)
  | converted (result : Except MarkupError Text)

/-- What a call carries out with a logger at hand, given the answers of a reader. -/
def attended (limits : Limits) (reader : Text → Option (List Html)) : Call → Attended Result
  | resolve target text => .resolved <$> Attended.resolve limits target text
  | replace target text => .text <$> Attended.replace limits target text
  | nodes sequence => .text <$> Attended.renderNodes limits sequence
  | tags statements => .text <$> Attended.renderTags limits statements
  | comment whole => .text <$> Attended.renderComment limits whole
  | convert text => .converted <$> Attended.convert limits reader text
  | ofText text => .text <$> Attended.ofText limits reader text

/-- What a call computes if it collects its remarks. -/
def computation (limits : Limits) (reader : Text → Option (List Html)) : Call → Diagnosed Result
  | resolve target text => .resolved <$> Directive.resolve limits target text
  | replace target text => .text <$> Directive.replace limits target text
  | nodes sequence => .text <$> Node.renderAll limits sequence
  | tags statements => .text <$> BlockTag.renderAll limits statements
  | comment whole => .text <$> whole.render limits
  | convert text => .converted <$> (Markup.convert limits text).answeredBy reader
  | ofText text => .text <$> (Markup.ofText limits text).answeredBy reader

/-- A logger that goes through the remarks of a call in the end is one that is at hand. -/
theorem attended_computation (limits : Limits) (reader : Text → Option (List Html)) (call : Call) :
    (call.computation limits reader).attended = call.attended limits reader := by
  cases call with
  | resolve target text =>
    rw [computation, Diagnosed.attended_map, Directive.attended_resolve, attended]
  | replace target text =>
    rw [computation, Diagnosed.attended_map, Directive.attended_replace, attended]
  | nodes sequence =>
    rw [computation, Diagnosed.attended_map, Node.attended_renderAll, attended]
  | tags statements =>
    rw [computation, Diagnosed.attended_map, BlockTag.attended_renderAll, attended]
  | comment whole =>
    rw [computation, Diagnosed.attended_map, Comment.attended_render, attended]
  | convert text =>
    rw [computation, Diagnosed.attended_map, Markup.attended_convert, attended]
  | ofText text =>
    rw [computation, Diagnosed.attended_map, Markup.attended_ofText, attended]

/-- What carrying a call out under a logger comes to: the value that it has without one, and what
listening to its remarks leaves. -/
theorem under_attended (limits : Limits) (reader : Text → Option (List Html)) (call : Call)
    (logger : Logger) (outside : Outside) :
    (call.attended limits reader).under logger outside =
      let computed := call.computation limits reader
      (computed.value, logger.listen computed.log outside) := by
  rw [← attended_computation]
  rfl

/-- Whichever logger is at hand when a call is carried out, its result is the one that it has when
nobody listens. A logger that keeps records in memory is left with its level and its filter,
and of all that a logger without a filter hears at the least level, wherever and whenever it
listens, it has heard exactly the part that it wants, in the same order and wording. -/
theorem heard_through_filter (limits : Limits) (reader : Text → Option (List Html)) (call : Call)
    (logger silent : Logger) (id other : Text) (outside elsewhere : Outside)
    (capturing : logger.sinks = [.capture id]) (mute : silent.sinks = []) :
    let carriedOut := call.attended limits reader
    let run := carriedOut.under logger outside
    let full := carriedOut.under (Logger.tracing other) elsewhere
    carriedOut.under silent elsewhere = (run.1, silent, elsewhere) ∧
      run.1 = (call.computation limits reader).value ∧
      run.2.1.level = logger.level ∧ run.2.1.filter = logger.filter ∧
      ∃ heard all : List Record,
        run.2.2.captured = outside.captured ++ heard.map (fun record => (id, record)) ∧
          full.2.2.captured = elsewhere.captured ++ all.map (fun record => (other, record)) ∧
          heard.map Record.said = (all.map Record.said).filter fun (level, module, _) =>
            logger.shouldLog level module := by
  dsimp only
  let remarks := (call.computation limits reader).log
  have heard := Logger.listen_of_capture capturing remarks outside
  have tracing : (Logger.tracing other).sinks = [.capture other] := rfl
  have full := Logger.listen_of_capture tracing remarks elsewhere
  have everything : remarks.filter (Logger.tracing other).wants = remarks :=
    List.filter_eq_self.mpr fun remark _ => Logger.wants_tracing other remark
  rw [everything] at full
  rw [under_attended, under_attended, under_attended]
  refine ⟨congrArg (Prod.mk _) (Logger.listen_of_mute mute _ _), rfl, ?_, ?_, ?_⟩
  · exact congrArg (fun state => state.1.level) heard
  · exact congrArg (fun state => state.1.filter) heard
  · refine ⟨(remarks.filter logger.wants).map (Logger.recordOf · outside.now.millis),
      remarks.map (Logger.recordOf · elsewhere.now.millis), ?_, ?_, ?_⟩
    · rw [List.map_map]
      exact congrArg (fun state => state.2.captured) heard
    · rw [List.map_map]
      exact congrArg (fun state => state.2.captured) full
    · rw [List.map_map, List.map_map, List.filter_map]
      rfl

/-- A tag with an unknown directive in it: there is a remark on the tag and one on the directive. -/
def unknownInTag : Call :=
  .tags [.author [.text "{@since} Ann".toList]]

/-- A logger that leaves out most of what is remarked on rendering. -/
def exceptRendering : Logger :=
  (Logger.ofConfig
    { level := .debug, filterSpec := "render=warn".toList, console := false }).addSink
      (.capture "kept".toList)

/-- What a logger has kept of a call, with nothing outside but a clock. -/
def saidUnder (logger : Logger) (call : Call) : List (Log.Level × Text × Text) :=
  let outside : Outside := { now := ⟨[], 0⟩, files := .flat [] }
  ((call.attended {} fun _ => none).under logger outside).2.2.captured.map
    fun entry => entry.2.said

/-- A logger hears of the directive in a tag what another one hears among other remarks. -/
theorem unknownInTag_heard :
    exceptRendering.sinks = [.capture "kept".toList] ∧ ({} : Logger).sinks = [] ∧
      saidUnder (Logger.tracing "all".toList) unknownInTag =
        [(.trace, "render".toList, "Formatting @author tag".toList),
          (.debug, "directive".toList, "Unknown directive \x60@since\x60 at offset 1".toList)] ∧
      saidUnder exceptRendering unknownInTag =
        [(.debug, "directive".toList, "Unknown directive \x60@since\x60 at offset 1".toList)] ∧
      saidUnder exceptRendering unknownInTag =
        (saidUnder (Logger.tracing "all".toList) unknownInTag).filter fun (level, module, _) =>
          exceptRendering.shouldLog level module := by
  have capturing : exceptRendering.sinks = [.capture "kept".toList] := rfl
  obtain ⟨_, _, _, _, heard, all, kept, keptAll, through⟩ :=
    heard_through_filter {} (fun _ => none) unknownInTag exceptRendering {} "kept".toList
      "all".toList { now := ⟨[], 0⟩, files := .flat [] } { now := ⟨[], 0⟩, files := .flat [] }
      capturing rfl
  refine ⟨capturing, rfl, by decide +kernel, by decide +kernel, ?_⟩
  simp only [saidUnder, kept, keptAll, List.nil_append, List.map_map]
  exact through

end Call

end CommentMarkdown
