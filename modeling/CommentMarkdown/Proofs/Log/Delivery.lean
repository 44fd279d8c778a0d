import CommentMarkdown.Proofs.Log.FastPath
import CommentMarkdown.Proofs.Log.Listening

/-!
# What capturing sinks receive

A capturing sink can stand among the sinks of a logger or inside a sink that hands records on
to several others, however deep. A logger does not look into its sinks, so all that counts is
which names they keep records under (`Sink.namesAll`). Handing a record on adds one entry for
each of these names, in order, and nothing else that is done with sinks adds any
(`kept_perform`).

So the whole memory after a run is known from the run: every record that was handed on, once for
each capturing sink that was installed at that moment. A sink that has its name to itself finds
there exactly the records that were handed on after it was added and before the logger was
next set up (`received_once`). Two sinks of one name cannot be told apart by their entries; of
them the first half of that theorem says that each record stands there twice.
-/

namespace CommentMarkdown.Log

namespace Sink

/-- Induction over lists of sinks. A sink that hands records on contributes the list of those
that it hands them to. -/
@[elab_as_elim]
theorem listInduction {motive : List Sink → Prop} (nil : motive [])
    (console : ∀ format rest, motive rest → motive (.console format :: rest))
    (file : ∀ sink rest, motive rest → motive (.file sink :: rest))
    (capture : ∀ id rest, motive rest → motive (.capture id :: rest))
    (null : ∀ rest, motive rest → motive (.null :: rest))
    (multi : ∀ sinks rest, motive sinks → motive rest → motive (.multi sinks :: rest)) :
    ∀ sinks, motive sinks
  | [] => nil
  | .console format :: rest =>
    console format rest (listInduction nil console file capture null multi rest)
  | .file sink :: rest => file sink rest (listInduction nil console file capture null multi rest)
  | .capture id :: rest => capture id rest (listInduction nil console file capture null multi rest)
  | .null :: rest => null rest (listInduction nil console file capture null multi rest)
  | .multi sinks :: rest =>
    multi sinks rest (listInduction nil console file capture null multi sinks)
      (listInduction nil console file capture null multi rest)

mutual

/-- The names of the capturing sinks in a sink, each as often as there are sinks of that name. -/
def names : Sink → List Text
  | capture id => [id]
  | multi sinks => namesAll sinks
  | _ => []

/-- The names of the capturing sinks in a list of sinks. -/
def namesAll : List Sink → List Text
  | [] => []
  | sink :: rest => sink.names ++ namesAll rest

end

/-- Sinks are named one behind the other. -/
theorem namesAll_append (first second : List Sink) :
    namesAll (first ++ second) = namesAll first ++ namesAll second := by
  induction first with
  | nil => rfl
  | cons sink rest ih => rw [List.cons_append, namesAll, namesAll, ih, List.append_assoc]

end Sink

/-- One entry for each name, in order, for each record in turn. -/
def entries (records : List Record) (names : List Text) : List (Text × Record) :=
  records.flatMap fun record => names.map fun id => (id, record)

/-- What is seen outside after records have been handed to the sinks of these names: the clock has
not moved, and there is one more entry in memory for each record and name. -/
structure Kept (records : List Record) (names : List Text) (before after : Outside) : Prop where
  now : after.now = before.now
  captured : after.captured = before.captured ++ entries records names

/-- Without a record nothing is kept, whatever the names. -/
theorem kept_nil {names : List Text} {before after : Outside} (now : after.now = before.now)
    (captured : after.captured = before.captured) : Kept [] names before after :=
  ⟨now, by rw [captured, entries, List.flatMap_nil, List.append_nil]⟩

/-- Records that are handed on in two goes are handed on in order. -/
theorem Kept.trans {first second : List Record} {names : List Text} {before between after : Outside}
    (earlier : Kept first names before between) (later : Kept second names between after) :
    Kept (first ++ second) names before after where
  now := later.now.trans earlier.now
  captured := by
    rw [later.captured, earlier.captured, entries, entries, entries, List.flatMap_append,
      List.append_assoc]

namespace FileSink

/-- Writing to a file keeps nothing in memory. -/
theorem kept_writeDue (sink : FileSink) (names : List Text) (outside : Outside) :
    Kept [] names outside (sink.writeDue outside).2 := by
  unfold writeDue
  dsimp only
  split
  · exact kept_nil rfl rfl
  · split <;> exact kept_nil rfl rfl

/-- A file sink that takes a record keeps nothing in memory. -/
theorem kept_take (sink : FileSink) (record : Record) (names : List Text) (outside : Outside) :
    Kept [] names outside (sink.take record outside).2 := by
  unfold take
  split
  · exact kept_writeDue _ names outside
  · exact kept_nil rfl rfl

/-- A file sink that is flushed keeps nothing in memory. -/
theorem kept_flush (sink : FileSink) (names : List Text) (outside : Outside) :
    Kept [] names outside (sink.flush outside).2 := by
  unfold flush
  split
  · exact kept_writeDue _ names outside
  · exact kept_nil rfl rfl

/-- Opening a file keeps nothing in memory. -/
theorem kept_openFile (path : Text) (append : Bool) (format : Format) (names : List Text)
    (outside : Outside) :
    Kept [] names outside (openFile path append format outside).2 := by
  unfold openFile
  dsimp only
  split <;> exact kept_nil rfl rfl

end FileSink

namespace Sink

/-- Sinks that take a record keep it once under each of their names, and keep their names. The
induction runs over the sinks in the order in which they take the record. -/
theorem kept_takeAll (record : Record) (sinks : List Sink) (outside : Outside) :
    Kept [record] (namesAll sinks) outside (takeAll record sinks outside).2 ∧
      namesAll (takeAll record sinks outside).1 = namesAll sinks := by
  induction sinks using listInduction generalizing outside with
  | nil => exact ⟨⟨rfl, by simp [takeAll, namesAll, entries]⟩, rfl⟩
  | console format rest behind =>
    obtain ⟨kept, same⟩ := behind (outside.print (record.line outside.now.clock format))
    exact ⟨⟨kept.now, kept.captured⟩, same⟩
  | file sink rest behind =>
    have written := sink.kept_take record (namesAll rest) outside
    obtain ⟨kept, same⟩ := behind (sink.take record outside).2
    exact ⟨written.trans kept, same⟩
  | capture id rest behind =>
    obtain ⟨kept, same⟩ := behind (outside.capture id record)
    refine ⟨⟨kept.now, ?_⟩, ?_⟩
    · simp only [takeAll, take, kept.captured]
      simp [Outside.capture, entries, namesAll, names]
    · rw [takeAll, take, namesAll, namesAll, same]
  | null rest behind =>
    obtain ⟨kept, same⟩ := behind outside
    exact ⟨⟨kept.now, kept.captured⟩, same⟩
  | multi sinks rest inside behind =>
    obtain ⟨keptInside, sameInside⟩ := inside outside
    obtain ⟨kept, same⟩ := behind (takeAll record sinks outside).2
    refine ⟨⟨kept.now.trans keptInside.now, ?_⟩, ?_⟩
    · simp only [takeAll, take, kept.captured, keptInside.captured]
      simp [entries, namesAll, names]
    · simp only [takeAll, take, namesAll, names, sameInside, same]

/-- Sinks that are flushed keep nothing in memory, and keep their names. -/
theorem kept_flushAll (sinks : List Sink) (heard : List Text) (outside : Outside) :
    Kept [] heard outside (flushAll sinks outside).2 ∧
      namesAll (flushAll sinks outside).1 = namesAll sinks := by
  induction sinks using listInduction generalizing outside with
  | nil => exact ⟨kept_nil rfl rfl, rfl⟩
  | console format rest behind => exact behind outside
  | file sink rest behind =>
    have written := sink.kept_flush heard outside
    obtain ⟨kept, same⟩ := behind (sink.flush outside).2
    exact ⟨written.trans kept, same⟩
  | capture id rest behind =>
    obtain ⟨kept, same⟩ := behind outside
    refine ⟨kept, ?_⟩
    simp only [flushAll, flush, namesAll, names, same]
  | null rest behind => exact behind outside
  | multi sinks rest inside behind =>
    obtain ⟨keptInside, sameInside⟩ := inside outside
    obtain ⟨kept, same⟩ := behind (flushAll sinks outside).2
    refine ⟨keptInside.trans kept, ?_⟩
    simp only [flushAll, flush, namesAll, names, sameInside, same]

/-- No sink gets lost when a record is taken. -/
theorem length_takeAll (record : Record) (sinks : List Sink) (outside : Outside) :
    (takeAll record sinks outside).1.length = sinks.length := by
  induction sinks generalizing outside with
  | nil => rfl
  | cons sink rest ih => rw [takeAll, List.length_cons, List.length_cons, ih]

end Sink

namespace Logger

open Sink (namesAll)

/-- Handing a record on leaves a logger wanting what it wanted. -/
theorem shouldLog_log (logger : Logger) (level : Level) (module message : Text)
    (outside : Outside) :
    (logger.log level module message outside).1.shouldLog = logger.shouldLog := by
  let record : Record := ⟨level, module, message, outside.now.millis⟩
  have length := Sink.length_takeAll record logger.sinks outside
  have empty :
      (logger.log level module message outside).1.sinks.isEmpty = logger.sinks.isEmpty := by
    rw [Bool.eq_iff_iff, List.isEmpty_iff_length_eq_zero, List.isEmpty_iff_length_eq_zero, ← length]
    rfl
  funext asked name
  rw [shouldLog, shouldLog, empty]
  rfl

/-- A logger hands a record to all its sinks. -/
theorem kept_log (logger : Logger) (level : Level) (module message : Text) (outside : Outside) :
    Kept [⟨level, module, message, outside.now.millis⟩] (namesAll logger.sinks) outside
        (logger.log level module message outside).2 ∧
      namesAll (logger.log level module message outside).1.sinks = namesAll logger.sinks :=
  Sink.kept_takeAll _ logger.sinks outside

/-- A logger hands a record to all its sinks if it wants it, and to none if it does not. -/
theorem kept_logWanted (logger : Logger) (level : Level) (module message : Text)
    (outside : Outside) :
    let wanted := logger.shouldLog level module
    let record : Record := ⟨level, module, message, outside.now.millis⟩
    Kept (if wanted then [record] else []) (namesAll logger.sinks) outside
        (logger.logWanted level module message outside).2 ∧
      namesAll (logger.logWanted level module message outside).1.sinks = namesAll logger.sinks ∧
      (logger.logWanted level module message outside).1.shouldLog = logger.shouldLog := by
  intro wanted record
  unfold logWanted
  by_cases passes : logger.shouldLog level module = true
  · rw [if_pos passes, if_pos passes]
    obtain ⟨kept, same⟩ := kept_log logger level module message outside
    exact ⟨kept, same, shouldLog_log logger level module message outside⟩
  · rw [if_neg passes, if_neg passes]
    exact ⟨kept_nil rfl rfl, rfl, rfl⟩

/-- A logger that listens hands on the remarks that it wants, in order. -/
theorem kept_listen (logger : Logger) (remarks : List Diagnostic) (outside : Outside) :
    Kept ((remarks.filter logger.wants).map (recordOf · outside.now.millis)) (namesAll logger.sinks)
        outside (logger.listen remarks outside).2 ∧
      namesAll (logger.listen remarks outside).1.sinks = namesAll logger.sinks := by
  induction remarks generalizing logger outside with
  | nil => exact ⟨kept_nil rfl rfl, rfl⟩
  | cons remark rest ih =>
    obtain ⟨kept, same, wanting⟩ :=
      kept_logWanted logger remark.level remark.module remark.message outside
    obtain ⟨keptRest, sameRest⟩ :=
      ih (logger.logWanted remark.level remark.module remark.message outside).1
        (logger.logWanted remark.level remark.module remark.message outside).2
    have wants : (logger.logWanted remark.level remark.module remark.message outside).1.wants =
        logger.wants := by
      funext other
      exact congrFun (congrFun wanting other.level) other.module
    rw [wants, same, kept.now] at keptRest
    refine ⟨?_, sameRest.trans same⟩
    have both := kept.trans keptRest
    rw [List.filter_cons]
    unfold Logger.wants at both ⊢
    split at both
    next passes =>
      rw [if_pos passes]
      exact both
    next passes =>
      rw [if_neg passes]
      exact both

/-- Adding a sink adds its names. -/
theorem namesAll_addSink (logger : Logger) (sink : Sink) :
    namesAll (logger.addSink sink).sinks = namesAll logger.sinks ++ sink.names := by
  rw [addSink, Sink.namesAll_append, Sink.namesAll, Sink.namesAll, List.append_nil]

/-- Setting up keeps nothing in memory, and the sinks that are then installed have no names. -/
theorem kept_init (config : Config) (logger : Logger) (heard : List Text) (outside : Outside) :
    Kept [] heard outside (logger.init config outside).2 ∧
      namesAll (logger.init config outside).1.sinks = [] := by
  have flushed := (Sink.kept_flushAll logger.sinks heard outside).1
  have fresh : namesAll (ofConfig config).sinks = [] := by
    unfold ofConfig
    dsimp only
    split <;> rfl
  unfold init flush addLogFile
  dsimp only
  split
  · exact ⟨flushed, fresh⟩
  · have opened := FileSink.kept_openFile config.logFile true config.format heard
      (Sink.flushAll logger.sinks outside).2
    split
    · refine ⟨flushed.trans opened, ?_⟩
      rw [namesAll_addSink, fresh]
      rfl
    · exact ⟨⟨(flushed.trans opened).now, (flushed.trans opened).captured⟩, fresh⟩

/-- Whether a step sets the logger up. -/
def Step.isInit : Step → Bool
  | .init _ => true
  | _ => false

/-- Only setting up is a set-up. -/
theorem Step.isInit_iff {step : Step} : step.isInit = true ↔ ∃ config, step = .init config := by
  constructor
  · intro setUp
    cases step with
    | init config => exact ⟨config, rfl⟩
    | _ => cases setUp
  · rintro ⟨config, rfl⟩
    rfl

/-- The records that a step hands to the sinks, in the state in which it is done: what is logged
without a question, and what is wanted at that moment. -/
def Step.records (state : Logger × Outside) : Step → List Record
  | .log level module message => [⟨level, module, message, state.2.now.millis⟩]
  | .logWanted level module message =>
    if state.1.shouldLog level module then [⟨level, module, message, state.2.now.millis⟩] else []
  | .listen remarks => (remarks.filter state.1.wants).map (recordOf · state.2.now.millis)
  | _ => []

/-- The names of the capturing sinks that are installed behind a step. -/
def Step.installed (names : List Text) : Step → List Text
  | .init _ => []
  | .addSink sink => names ++ sink.names
  | _ => names

/-- A step that adds no sink of a name leaves the number of sinks of that name as it is, or at none
if it sets the logger up. -/
theorem Step.count_installed {id : Text} (names : List Text) (step : Step)
    (never : ∀ sink, step = .addSink sink → id ∉ sink.names) :
    (step.installed names).count id = if step.isInit then 0 else names.count id := by
  cases step with
  | init config => rfl
  | addSink sink =>
    rw [installed, List.count_append, List.count_eq_zero.mpr (never sink rfl)]
    rfl
  | _ => rfl

/-- A step that adds no sink of a name that no sink has leaves it so. -/
theorem Step.not_mem_installed {id : Text} {names : List Text} (absent : id ∉ names) (step : Step)
    (never : ∀ sink, step = .addSink sink → id ∉ sink.names) : id ∉ step.installed names := by
  rw [← List.count_eq_zero, step.count_installed names never, List.count_eq_zero.mpr absent]
  split <;> rfl

/-- A step hands its records to the capturing sinks that it finds installed, and keeps nothing
else in memory. -/
theorem kept_perform (state : Logger × Outside) (step : Step) :
    Kept (step.records state) (namesAll state.1.sinks) state.2 (perform state step).2 ∧
      namesAll (perform state step).1.sinks = step.installed (namesAll state.1.sinks) := by
  cases step with
  | init config => exact kept_init config state.1 (namesAll state.1.sinks) state.2
  | addSink sink => exact ⟨kept_nil rfl rfl, namesAll_addSink state.1 sink⟩
  | addFile path append format =>
    refine ⟨FileSink.kept_openFile path append format _ state.2, ?_⟩
    rw [perform, addFile, namesAll_addSink]
    exact List.append_nil _
  | setLevel level => exact ⟨kept_nil rfl rfl, rfl⟩
  | setFilter description => exact ⟨kept_nil rfl rfl, rfl⟩
  | log level module message => exact kept_log state.1 level module message state.2
  | logWanted level module message =>
    obtain ⟨kept, same, _⟩ := kept_logWanted state.1 level module message state.2
    exact ⟨kept, same⟩
  | listen remarks => exact kept_listen state.1 remarks state.2
  | flush => exact Sink.kept_flushAll state.1.sinks (namesAll state.1.sinks) state.2

/-- The records that the steps of a run hand to the sinks, each step in the state that the steps
before it have left. -/
def handedOn (state : Logger × Outside) : List Step → List Record
  | [] => []
  | step :: rest => step.records state ++ handedOn (perform state step) rest

/-- The entries that a run adds to the memory, if capturing sinks of these names are installed at
its beginning. -/
def deliveries (state : Logger × Outside) (names : List Text) : List Step → List (Text × Record)
  | [] => []
  | step :: rest =>
    entries (step.records state) names ++
      deliveries (perform state step) (step.installed names) rest

/-- A run keeps what its steps hand on, each step under the names that are installed by then. -/
theorem captured_performAll (state : Logger × Outside) (steps : List Step) :
    (performAll state steps).2.captured =
      state.2.captured ++ deliveries state (namesAll state.1.sinks) steps := by
  induction steps generalizing state with
  | nil => exact (List.append_nil _).symm
  | cons step rest ih =>
    obtain ⟨kept, installed⟩ := kept_perform state step
    change (performAll (perform state step) rest).2.captured = _
    rw [ih, kept.captured, installed, deliveries, List.append_assoc]

/-- The records that stand under a name, in order. -/
def under (id : Text) (memory : List (Text × Record)) : List Record :=
  memory.filterMap fun entry => if entry.1 = id then some entry.2 else none

/-- What stands under a name in two parts of a memory stands there in order. -/
theorem under_append (id : Text) (first second : List (Text × Record)) :
    under id (first ++ second) = under id first ++ under id second :=
  List.filterMap_append

/-- Under a name that occurs once each record stands once, and under one that does not occur there
stands none. -/
theorem under_entries (id : Text) (records : List Record) (names : List Text) :
    under id (entries records names) =
      records.flatMap fun record => List.replicate (names.count id) record := by
  have single (record : Record) :
      under id (names.map fun name => (name, record)) = List.replicate (names.count id) record := by
    induction names with
    | nil => rfl
    | cons name rest ih =>
      rw [List.map_cons, under, List.filterMap_cons, List.count_cons]
      change _ = _ at ih
      by_cases same : name = id
      · simp only [same, if_true, beq_self_eq_true, List.replicate_succ]
        exact congrArg _ ih
      · simp only [same, if_false, beq_eq_false_iff_ne.mpr same, Bool.false_eq_true, Nat.add_zero]
        exact ih
  induction records with
  | nil => rfl
  | cons record rest ih =>
    rw [entries, List.flatMap_cons, under_append, single, List.flatMap_cons]
    exact congrArg _ ih

/-- Nothing is added under a name that no sink has. -/
theorem under_deliveries_of_absent {id : Text} {names : List Text} (absent : id ∉ names)
    (state : Logger × Outside) (steps : List Step)
    (never : ∀ sink, .addSink sink ∈ steps → id ∉ sink.names) :
    under id (deliveries state names steps) = [] := by
  induction steps generalizing state names with
  | nil => rfl
  | cons step rest ih =>
    have absentBehind : id ∉ step.installed names := Step.not_mem_installed absent step
      fun sink same => never sink (same ▸ List.mem_cons_self)
    rw [deliveries, under_append, under_entries, List.count_eq_zero.mpr absent,
      ih absentBehind _ fun sink member => never sink (List.mem_cons_of_mem step member)]
    simp

/-- Under a name that one sink has, there is added what is handed on until the logger is set up. -/
theorem under_deliveries_of_once {id : Text} {names : List Text} (once : names.count id = 1)
    (state : Logger × Outside) (steps : List Step)
    (never : ∀ sink, .addSink sink ∈ steps → id ∉ sink.names) :
    under id (deliveries state names steps) =
      handedOn state (steps.takeWhile fun step => !step.isInit) := by
  induction steps generalizing state names with
  | nil => rfl
  | cons step rest ih =>
    have neverRest : ∀ sink, .addSink sink ∈ rest → id ∉ sink.names := fun sink member =>
      never sink (List.mem_cons_of_mem step member)
    by_cases setUp : step.isInit = true
    · obtain ⟨config, rfl⟩ := Step.isInit_iff.mp setUp
      have behind := under_deliveries_of_absent List.not_mem_nil (perform state (.init config)) rest
        neverRest
      rw [deliveries, under_append, Step.installed, behind,
        List.takeWhile_cons_of_neg (by simp [setUp])]
      rfl
    · have onceBehind : (step.installed names).count id = 1 := by
        rw [Step.count_installed names step fun sink same => never sink (same ▸ List.mem_cons_self),
          if_neg setUp, once]
      rw [deliveries, under_append, under_entries, once, ih onceBehind _ neverRest,
        List.takeWhile_cons_of_pos (by simp [setUp]), handedOn]
      simp

/-- A name that no sink has had is had by none after a run that adds none of that name. -/
theorem not_mem_namesAll_performAll {id : Text} (state : Logger × Outside) (steps : List Step)
    (absent : id ∉ namesAll state.1.sinks)
    (never : ∀ sink, .addSink sink ∈ steps → id ∉ sink.names) :
    id ∉ namesAll (performAll state steps).1.sinks := by
  induction steps generalizing state with
  | nil => exact absent
  | cons step rest ih =>
    apply ih (perform state step)
    · rw [(kept_perform state step).2]
      apply Step.not_mem_installed absent
      intro sink same
      exact never sink (same ▸ List.mem_cons_self)
    · intro sink member
      exact never sink (List.mem_cons_of_mem step member)

/-- Sinks lose nothing and get nothing twice. What a run adds to the memory is each record that it
hands on, once for each capturing sink that is installed at that moment, wherever that sink
stands among the others. So a sink that has its name to itself, whether it is added alone or
inside others, has received in the end, in order, what was handed on after it was added and
before the logger was next set up, and no other record. -/
theorem received_once (state : Logger × Outside) :
    (∀ steps : List Step, (performAll state steps).2.captured =
        state.2.captured ++ deliveries state (namesAll state.1.sinks) steps) ∧
      ∀ (before after : List Step) (sink : Sink) (id : Text),
        sink.names.count id = 1 → id ∉ namesAll state.1.sinks →
        (∀ other, .addSink other ∈ before ++ after → id ∉ other.names) →
          under id (performAll state (before ++ .addSink sink :: after)).2.captured =
            under id state.2.captured ++
              handedOn (performAll state (before ++ [.addSink sink]))
                (after.takeWhile fun step => !step.isInit) := by
  refine ⟨captured_performAll state, ?_⟩
  intro before after sink id once absent never
  have neverBefore : ∀ other, .addSink other ∈ before → id ∉ other.names := fun other member =>
    never other (List.mem_append_left after member)
  have neverAfter : ∀ other, .addSink other ∈ after → id ∉ other.names := fun other member =>
    never other (List.mem_append_right before member)
  let found := performAll state before
  let added := performAll state (before ++ [.addSink sink])
  have whole : performAll state (before ++ .addSink sink :: after) = performAll added after := by
    simp only [added, performAll, List.foldl_append, List.foldl_cons, List.foldl_nil]
  have adding : added = (found.1.addSink sink, found.2) := by
    simp only [added, found, performAll, List.foldl_append, List.foldl_cons, List.foldl_nil]
    rfl
  have installed : (namesAll added.1.sinks).count id = 1 := by
    have missing : id ∉ namesAll found.1.sinks :=
      not_mem_namesAll_performAll state before absent neverBefore
    rw [adding, namesAll_addSink, List.count_append, List.count_eq_zero.mpr missing, once]
  have memory : added.2.captured =
      state.2.captured ++ deliveries state (namesAll state.1.sinks) before := by
    rw [adding]
    exact captured_performAll state before
  rw [whole, captured_performAll, memory, under_append, under_append,
    under_deliveries_of_absent absent state before neverBefore,
    under_deliveries_of_once installed added after neverAfter, List.append_nil]

/-- Two sinks in one, one of them inside yet another, beside one that keeps nothing. -/
def nestedSink : Sink :=
  .multi [.capture "beside".toList, .null, .multi [.capture "nested".toList]]

/-- A run up to the moment at which the nested sink is added. -/
def stepsBefore : List Step :=
  [.init { console := false }, .addSink (.capture "early".toList),
    .log .fatal "cli".toList "before".toList]

/-- The rest of the run. Of the four messages in front of the next set-up two are handed on: one
that a description of the filter lets through, and one that is logged without a question. -/
def stepsAfter : List Step :=
  [.setFilter "markup=trace".toList,
    .logWanted .debug "markup".toList "let through".toList,
    .logWanted .debug "render".toList "turned away".toList,
    .addSink (.capture "late".toList),
    .setLevel .off,
    .logWanted .fatal "markup".toList "turned away".toList,
    .log .trace "render".toList "unasked".toList,
    .init {},
    .log .fatal "cli".toList "afterwards".toList]

/-- The nested sink has received the two records, once each. -/
theorem nestedSink_received :
    let start : Logger × Outside := ({}, emptyOutside)
    nestedSink.names.count "nested".toList = 1 ∧ "nested".toList ∉ namesAll start.1.sinks ∧
      (∀ other, .addSink other ∈ stepsBefore ++ stepsAfter → "nested".toList ∉ other.names) ∧
      under "nested".toList
          (performAll start (stepsBefore ++ .addSink nestedSink :: stepsAfter)).2.captured =
        [⟨.debug, "markup".toList, "let through".toList, 0⟩,
          ⟨.trace, "render".toList, "unasked".toList, 0⟩] := by
  intro start
  have once : nestedSink.names.count "nested".toList = 1 := by decide
  have absent : "nested".toList ∉ namesAll start.1.sinks := by decide
  have never : ∀ other, .addSink other ∈ stepsBefore ++ stepsAfter →
      "nested".toList ∉ other.names := by
    intro other member
    simp only [stepsBefore, stepsAfter, List.cons_append, List.nil_append, List.mem_cons,
      List.not_mem_nil, Step.addSink.injEq, reduceCtorEq, or_false, false_or] at member
    rcases member with rfl | rfl <;> decide
  refine ⟨once, absent, never, ?_⟩
  rw [(received_once start).2 stepsBefore stepsAfter nestedSink "nested".toList once absent never]
  decide +kernel

end Logger

end CommentMarkdown.Log
