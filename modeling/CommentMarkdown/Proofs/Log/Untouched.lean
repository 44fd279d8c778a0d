import CommentMarkdown.Proofs.Log.Delivery

/-!
# What a log leaves alone

A logger writes to the files of its sinks and to no others. At a place that none of their paths
leads to is found what was there before, whether the logger listens (`Logger.spared_listen`),
is flushed (`Logger.spared_flush`), or is set up with a log file that is elsewhere
(`Logger.spared_init`). Under which names the place is known makes no difference, nor whether
there is a file yet: opening a log file creates it, so a path that leads to a place with
nothing in it counts.
-/

namespace CommentMarkdown

namespace Files

/-- A name leads to a place where a file can be. -/
def Leads (files : Files) (name : Text) (place : Place) : Prop :=
  place.isFile ∧ files.place name = place

instance (files : Files) (name : Text) (place : Place) : Decidable (files.Leads name place) :=
  inferInstanceAs (Decidable (_ ∧ _))

/-- Files of which those at one place are as they were. All names lead where they led. -/
structure Untouched (asked : Place) (before after : Files) : Prop where
  place : after.place = before.place
  output : after.output = before.output
  found : after.found? asked = before.found? asked

variable {asked : Place} {before between : Files}

/-- Writing under a name that leads elsewhere leaves a place alone. -/
theorem Untouched.write (untouched : Untouched asked before between) {name : Text}
    (apart : ¬ before.Leads name asked) (content : ByteArray) :
    Untouched asked before (between.write name content) := by
  cases led : between.place name with
  | file own =>
    have elsewhere : asked ≠ .file own := by
      rintro rfl
      exact apart ⟨rfl, by rw [← untouched.place, led]⟩
    refine ⟨?_, ?_, ?_⟩
    · simp only [Files.write, led, untouched.place]
    · simp only [Files.write, led, untouched.output]
    · rw [found?_write between led, if_neg elsewhere, untouched.found]
  | directory | nowhere =>
    simp only [Files.write, led]
    exact untouched

/-- What is read under a name is what was read, if its place has been left alone. -/
theorem Untouched.read {name : Text} {after : Files}
    (untouched : Untouched (before.place name) before after) :
    after.read? name = before.read? name := by
  rw [read?, read?, untouched.place, untouched.found]

end Files

namespace Log

open Files (Untouched)

variable {asked : Place} {before : Files}

namespace FileSink

/-- A file sink writes to its own file, and keeps its path. -/
theorem spared_writeDue (sink : FileSink) {outside : Outside}
    (untouched : Untouched asked before outside.files) (apart : ¬ before.Leads sink.path asked) :
    Untouched asked before (sink.writeDue outside).2.files ∧
      (sink.writeDue outside).1.path = sink.path := by
  unfold writeDue
  dsimp only
  split
  · exact ⟨untouched, rfl⟩
  · split
    · exact ⟨untouched.write apart _, rfl⟩
    · exact ⟨untouched.write apart _, rfl⟩

/-- Taking a record, a file sink writes to its own file at most. -/
theorem spared_take (sink : FileSink) (record : Record) {outside : Outside}
    (untouched : Untouched asked before outside.files) (apart : ¬ before.Leads sink.path asked) :
    Untouched asked before (sink.take record outside).2.files ∧
      (sink.take record outside).1.path = sink.path := by
  unfold take
  split
  · exact spared_writeDue _ untouched apart
  · exact ⟨untouched, rfl⟩

/-- Being flushed, a file sink writes to its own file at most. -/
theorem spared_flush (sink : FileSink) {outside : Outside}
    (untouched : Untouched asked before outside.files) (apart : ¬ before.Leads sink.path asked) :
    Untouched asked before (sink.flush outside).2.files ∧
      (sink.flush outside).1.path = sink.path := by
  unfold flush
  split
  · exact spared_writeDue _ untouched apart
  · exact ⟨untouched, rfl⟩

/-- Opening a file leaves all others alone. -/
theorem spared_openFile (path : Text) (append : Bool) (format : Format) {outside : Outside}
    (untouched : Untouched asked before outside.files) (apart : ¬ before.Leads path asked) :
    Untouched asked before (openFile path append format outside).2.files ∧
      (openFile path append format outside).1.path = path := by
  unfold openFile
  dsimp only
  split
  · exact ⟨untouched.write apart _, rfl⟩
  · exact ⟨untouched, rfl⟩

end FileSink

namespace Sink

mutual

/-- The paths of the file sinks in a sink. -/
def paths : Sink → List Text
  | file sink => [sink.path]
  | multi sinks => pathsAll sinks
  | _ => []

/-- The paths of the file sinks in a list of sinks. -/
def pathsAll : List Sink → List Text
  | [] => []
  | sink :: rest => sink.paths ++ pathsAll rest

end

/-- Sinks have their paths one behind the other. -/
theorem pathsAll_append (first second : List Sink) :
    pathsAll (first ++ second) = pathsAll first ++ pathsAll second := by
  induction first with
  | nil => rfl
  | cons sink rest ih => rw [List.cons_append, pathsAll, pathsAll, ih, List.append_assoc]

/-- Sinks that take a record write to their own files at most, and keep their paths. The induction
runs over the sinks in the order in which they take the record. -/
theorem spared_takeAll (record : Record) (sinks : List Sink) {outside : Outside}
    (untouched : Untouched asked before outside.files)
    (apart : ∀ path ∈ pathsAll sinks, ¬ before.Leads path asked) :
    Untouched asked before (takeAll record sinks outside).2.files ∧
      pathsAll (takeAll record sinks outside).1 = pathsAll sinks := by
  induction sinks using listInduction generalizing outside with
  | nil => exact ⟨untouched, rfl⟩
  | console format rest behind => exact behind untouched apart
  | file sink rest behind =>
    have own : ¬ before.Leads sink.path asked := apart _ List.mem_cons_self
    obtain ⟨written, path⟩ := sink.spared_take record untouched own
    obtain ⟨spared, same⟩ := behind written fun path member =>
      apart path (List.mem_cons_of_mem _ member)
    refine ⟨spared, ?_⟩
    simp only [takeAll, take, pathsAll, paths, path, same]
  | capture id rest behind => exact behind untouched apart
  | null rest behind => exact behind untouched apart
  | multi sinks rest inside behind =>
    obtain ⟨sparedInside, sameInside⟩ := inside untouched fun path member =>
      apart path (List.mem_append_left _ member)
    obtain ⟨spared, same⟩ := behind sparedInside fun path member =>
      apart path (List.mem_append_right _ member)
    refine ⟨spared, ?_⟩
    simp only [takeAll, take, pathsAll, paths, sameInside, same]

/-- Sinks that are flushed write to their own files at most, and keep their paths. -/
theorem spared_flushAll (sinks : List Sink) {outside : Outside}
    (untouched : Untouched asked before outside.files)
    (apart : ∀ path ∈ pathsAll sinks, ¬ before.Leads path asked) :
    Untouched asked before (flushAll sinks outside).2.files ∧
      pathsAll (flushAll sinks outside).1 = pathsAll sinks := by
  induction sinks using listInduction generalizing outside with
  | nil => exact ⟨untouched, rfl⟩
  | console format rest behind => exact behind untouched apart
  | file sink rest behind =>
    have own : ¬ before.Leads sink.path asked := apart _ List.mem_cons_self
    obtain ⟨written, path⟩ := sink.spared_flush untouched own
    obtain ⟨spared, same⟩ := behind written fun path member =>
      apart path (List.mem_cons_of_mem _ member)
    refine ⟨spared, ?_⟩
    simp only [flushAll, flush, pathsAll, paths, path, same]
  | capture id rest behind => exact behind untouched apart
  | null rest behind => exact behind untouched apart
  | multi sinks rest inside behind =>
    obtain ⟨sparedInside, sameInside⟩ := inside untouched fun path member =>
      apart path (List.mem_append_left _ member)
    obtain ⟨spared, same⟩ := behind sparedInside fun path member =>
      apart path (List.mem_append_right _ member)
    refine ⟨spared, ?_⟩
    simp only [flushAll, flush, pathsAll, paths, sameInside, same]

end Sink

namespace Logger

open Sink (pathsAll)

/-- A logger that has left a place alone and has no sink that could do otherwise. -/
structure Spared (asked : Place) (before : Files) (state : Logger × Outside) : Prop where
  untouched : Untouched asked before state.2.files
  apart : ∀ path ∈ pathsAll state.1.sinks, ¬ before.Leads path asked

/-- A message is written to the files of the sinks at most. -/
theorem spared_logWanted {state : Logger × Outside} (spared : Spared asked before state)
    (level : Level) (module message : Text) :
    Spared asked before (state.1.logWanted level module message state.2) := by
  unfold logWanted
  split
  · obtain ⟨untouched, same⟩ :=
      Sink.spared_takeAll ⟨level, module, message, state.2.now.millis⟩ state.1.sinks
        spared.untouched spared.apart
    exact ⟨untouched, fun path member => spared.apart path (same ▸ member)⟩
  · exact spared

/-- Remarks are written to the files of the sinks at most. -/
theorem spared_listen {state : Logger × Outside} (spared : Spared asked before state)
    (remarks : List Diagnostic) :
    Spared asked before (state.1.listen remarks state.2) := by
  induction remarks generalizing state with
  | nil => exact spared
  | cons remark rest ih =>
    exact ih (spared_logWanted spared remark.level remark.module remark.message)

/-- What is pending is written to the files of the sinks at most. -/
theorem spared_flush {state : Logger × Outside} (spared : Spared asked before state) :
    Spared asked before (state.1.flush state.2) := by
  obtain ⟨untouched, same⟩ :=
    Sink.spared_flushAll state.1.sinks spared.untouched spared.apart
  exact ⟨untouched, fun path member => spared.apart path (same ▸ member)⟩

/-- A logger that is set up leaves alone what its log file does not lead to. -/
theorem spared_init (config : Config) (outside : Outside)
    (apart : config.logFile = [] ∨ ¬ outside.files.Leads config.logFile asked) :
    Spared asked outside.files (({} : Logger).init config outside) := by
  have unchanged : Untouched asked outside.files outside.files := ⟨rfl, rfl, rfl⟩
  have pathless : pathsAll (ofConfig config).sinks = [] := by
    unfold ofConfig
    dsimp only
    split <;> rfl
  change Spared asked outside.files ((ofConfig config).addLogFile config outside)
  unfold addLogFile
  split
  next => exact ⟨unchanged, by simp [pathless]⟩
  next used =>
    have elsewhere := apart.resolve_left used
    obtain ⟨opened, path⟩ :=
      FileSink.spared_openFile config.logFile true config.format unchanged elsewhere
    dsimp only
    split
    · refine ⟨opened, fun other member => ?_⟩
      rw [addSink, Sink.pathsAll_append, pathless, List.nil_append, Sink.pathsAll, Sink.paths,
        path, Sink.pathsAll, List.append_nil, List.mem_singleton] at member
      exact member ▸ elsewhere
    · exact ⟨opened, by simp [pathless]⟩

end Logger

end Log

end CommentMarkdown
