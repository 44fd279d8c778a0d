import CommentMarkdown.Proofs.CommandLine.Separation
import Mathlib.Data.List.Basic
import Mathlib.Data.List.Induction

/-!
# What counts of several logging options

The logging options among the arguments are of a few kinds, and those of one kind do not care where
those of another kind stand. Of levels, filters, files and formats the last one counts, and of
requests for more output the greatest. Only then are the kinds weighed against each other: a
level by name wins over one by repetition, and the word of the environment counts as a level or as a
filter only if there is nothing of its own kind or a stronger one.

So the configuration can be given in closed form, kind by kind (`Config.asked`), and arguments may
change places as long as those of each kind stay in order (`ofArguments_eq_asked`).
-/

namespace CommentMarkdown.Log

/-- The level that an argument names: errors only, or the one behind the option. -/
def namedLevel? (argument : Text) : Option Level :=
  if argument = "-q".toList ∨ argument = "--quiet".toList then some .error
  else (Text.behind? "--log-level=".toList argument).map Level.parse

/-- How many times over an argument asks for more output: once by a word, or by the letters behind a
dash. -/
def times? (argument : Text) : Option Nat :=
  if argument = "--verbose".toList then some 1
  else if 2 ≤ argument.length ∧ argument = '-' :: List.replicate (argument.length - 1) 'v' then
    some (argument.length - 1)
  else none

/-- The last of the values that are found in arguments. -/
def last? {α : Type} (value? : Text → Option α) (arguments : List Text) : Option α :=
  (arguments.filterMap value?).getLast?

/-- The level that is asked for by repetition. -/
def repeatedLevel : Nat → Level
  | 1 => .info
  | 2 => .debug
  | _ => .trace

/-- A word of the environment that is read as a filter. -/
def DescribesFilter (word : Text) : Prop :=
  '=' ∈ word ∨ ',' ∈ word

instance : DecidablePred DescribesFilter :=
  fun _ => inferInstanceAs (Decidable (_ ∨ _))

/-- The configuration that arguments and the environment ask for, kind by kind. -/
def Config.asked (arguments : List Text) (environment : Text) : Config :=
  let level? := last? namedLevel? arguments
  let times? := (arguments.filterMap times?).max?
  let filter? := last? (Text.behind? "--log-filter=".toList) arguments
  { level := (level?.or (times?.map repeatedLevel)).getD
      (if filter? = none ∧ environment ≠ [] ∧ ¬ DescribesFilter environment then
        Level.parse environment
      else .warn)
    filterSpec := filter?.getD
      (if level? = none ∧ times? = none ∧ DescribesFilter environment then environment else [])
    logFile := (last? (Text.behind? "--log-file=".toList) arguments).getD []
    format :=
      ((last? (Text.behind? "--log-format=".toList) arguments).map Format.parse).getD .text }

/-- What arguments ask for, kind by kind. -/
def Request.asked (arguments : List Text) : Request where
  level := last? namedLevel? arguments
  filter := last? (Text.behind? "--log-filter=".toList) arguments
  file := (last? (Text.behind? "--log-file=".toList) arguments).getD []
  format := ((last? (Text.behind? "--log-format=".toList) arguments).map Format.parse).getD .text
  verbosity := (arguments.filterMap times?).max?.getD 0

/-- One more argument comes last. -/
theorem last?_concat {α : Type} (value? : Text → Option α) (arguments : List Text)
    (argument : Text) :
    last? value? (arguments ++ [argument]) = (value? argument).or (last? value? arguments) := by
  rw [last?, last?, List.filterMap_append, List.getLast?_append]
  cases found : value? argument <;> simp [found]

/-- One more number may be the greatest. -/
theorem max?_concat (numbers : List Nat) (number : Nat) :
    (numbers ++ [number]).max? = some (max (numbers.max?.getD 0) number) := by
  cases numbers with
  | nil => simp
  | cons first rest =>
    rw [List.cons_append, List.max?_cons', List.max?_cons', List.foldl_append]
    rfl

/-- The letters behind a dash are counted if there are no other ones. -/
theorem verbosity_eq_succ_iff (argument : Text) (times : Nat) :
    verbosity argument = times + 1 ↔ argument = '-' :: List.replicate (times + 1) 'v' := by
  unfold verbosity
  split
  next letters =>
    rw [List.cons.injEq, List.eq_replicate_iff]
    split
    next same => simpa using fun _ => same
    next other => simpa using fun _ => other
  next noDash => simpa using noDash _

/-- Letters behind a dash ask for more output as many times as there are letters. -/
theorem times?_run (times : Nat) :
    times? ('-' :: List.replicate (times + 1) 'v') = some (times + 1) := by
  simp [times?, List.replicate_succ]

/-- An argument without letters to count, which is not the word either, does not ask for more. -/
theorem times?_eq_none {argument : Text} (noWord : argument ≠ "--verbose".toList)
    (noLetters : verbosity argument = 0) : times? argument = none := by
  rw [times?, if_neg noWord, if_neg]
  rintro ⟨long, letters⟩
  have counted := (verbosity_eq_succ_iff argument (argument.length - 2)).mpr
    (by rw [show argument.length - 2 + 1 = argument.length - 1 by omega]; exact letters)
  omega

/-- The forms of arguments that can be read. -/
inductive Form : Text → Prop
  | level (word : Text) : Form ("--log-level=".toList ++ word)
  | filter (description : Text) : Form ("--log-filter=".toList ++ description)
  | file (path : Text) : Form ("--log-file=".toList ++ path)
  | format (word : Text) : Form ("--log-format=".toList ++ word)
  | quietLetter : Form "-q".toList
  | quiet : Form "--quiet".toList
  | verbose : Form "--verbose".toList
  | letters (times : Nat) : Form ('-' :: List.replicate (times + 1) 'v')

/-- An argument that can be read has one of the forms. -/
theorem form_of_read? {argument : Text} (read : LogOption.read? argument ≠ none) :
    Form argument := by
  rw [Ne, read?_eq_none_iff, not_and_or, not_and_or, not_not] at read
  rcases read with value | word | letters
  · push Not at value
    obtain ⟨start, member, begins⟩ := value
    obtain ⟨word, begins⟩ := Option.ne_none_iff_exists'.mp begins
    obtain rfl := Text.behind?_eq_some_iff.mp begins
    simp only [valueOptions, List.mem_cons, List.not_mem_nil, or_false] at member
    rcases member with rfl | rfl | rfl | rfl
    exacts [.level word, .filter word, .file word, .format word]
  · simp only [wordOptions, List.mem_cons, List.not_mem_nil, or_false] at word
    rcases word with rfl | rfl | rfl
    exacts [.quietLetter, .quiet, .verbose]
  · obtain ⟨times, counted⟩ := Nat.exists_eq_succ_of_ne_zero letters
    obtain rfl := (verbosity_eq_succ_iff argument times).mp counted
    exact .letters times

/-- An argument that concerns the logger has one of the forms. -/
theorem form_of_isLogOption {argument : Text} (concerns : isLogOption argument = true) :
    Form argument := by
  refine form_of_read? fun unread => ?_
  rw [(isLogOption_eq_false_iff argument).mpr unread] at concerns
  cases concerns

/-- An argument changes what it speaks of and nothing else. By its form it speaks of one thing at
most. -/
theorem Request.addArgument_eq (request : Request) (argument : Text) :
    request.addArgument argument =
      { level := (namedLevel? argument).or request.level
        filter := (Text.behind? "--log-filter=".toList argument).or request.filter
        file := (Text.behind? "--log-file=".toList argument).getD request.file
        format :=
          ((Text.behind? "--log-format=".toList argument).map Format.parse).getD request.format
        verbosity := (times? argument).elim request.verbosity (max request.verbosity) } := by
  by_cases unread : LogOption.read? argument = none
  · obtain ⟨noValue, noWord, noLetters⟩ := (read?_eq_none_iff argument).mp unread
    simp only [valueOptions, wordOptions, List.mem_cons, List.not_mem_nil, or_false,
      forall_eq_or_imp, forall_eq, not_or] at noValue noWord
    obtain ⟨noLevel, noFilter, noFile, noFormat⟩ := noValue
    obtain ⟨noShort, noLong, noVerbose⟩ := noWord
    have noName : namedLevel? argument = none := by
      rw [namedLevel?, if_neg (not_or.mpr ⟨noShort, noLong⟩), noLevel]
      rfl
    rw [addArgument, unread, noName, noFilter, noFile, noFormat, times?_eq_none noVerbose noLetters]
    rfl
  · cases form_of_read? unread with
    | level word | filter word | file word | format word => rfl
    | quietLetter | quiet | verbose => rfl
    | letters times =>
      have counted := (verbosity_eq_succ_iff _ times).mpr rfl
      have read : LogOption.read? ('-' :: List.replicate (times + 1) 'v') =
          if 0 < Log.verbosity ('-' :: List.replicate (times + 1) 'v') then
            some (.verbose (Log.verbosity ('-' :: List.replicate (times + 1) 'v')))
          else none := rfl
      rw [addArgument, read, counted, if_pos (Nat.succ_pos times), times?_run]
      rfl

/-- One argument more, kind by kind. -/
theorem Request.asked_concat (arguments : List Text) (argument : Text) :
    Request.asked (arguments ++ [argument]) = (Request.asked arguments).addArgument argument := by
  have greatest : ((arguments ++ [argument]).filterMap times?).max?.getD 0 =
      (times? argument).elim ((arguments.filterMap times?).max?.getD 0)
        (max ((arguments.filterMap times?).max?.getD 0)) := by
    rw [List.filterMap_append]
    cases found : times? argument with
    | none => simp [found]
    | some times => simp [found, max?_concat]
  rw [addArgument_eq, asked, asked, greatest]
  simp only [last?_concat, Option.getD_or, Option.map_or]

/-- Reading one argument after the other gives what is asked for kind by kind. The induction is on
the last argument, since that is the one that counts. -/
theorem Request.foldl_addArgument (arguments : List Text) :
    arguments.foldl Request.addArgument {} = Request.asked arguments := by
  induction arguments using List.reverseRecOn with
  | nil => rfl
  | append_singleton front argument ih =>
    rw [List.foldl_append, ih, asked_concat]
    rfl

/-- Whoever asks for more output does so at least once. -/
theorem times?_pos {argument : Text} {times : Nat} (asks : times? argument = some times) :
    0 < times := by
  unfold times? at asks
  split at asks
  next => cases asks; decide
  next =>
    split at asks
    next letters => cases asks; omega
    next => cases asks

/-- The level that is asked for is the last one by name, or else the one by repetition. -/
theorem Request.wantedLevel?_asked (arguments : List Text) :
    (Request.asked arguments).wantedLevel? =
      (last? namedLevel? arguments).or ((arguments.filterMap times?).max?.map repeatedLevel) := by
  rw [wantedLevel?]
  congr 1
  unfold asked
  cases greatest : (arguments.filterMap times?).max? with
  | none => rfl
  | some times =>
    obtain ⟨argument, _, asks⟩ := List.mem_filterMap.mp (List.max?_mem greatest)
    have positive := times?_pos asks
    match times with
    | 1 | 2 | _ + 3 => rfl

/-- The kinds are weighed against each other and against the word of the environment. -/
theorem Request.configWith_asked (arguments : List Text) (environment : Text) :
    (Request.asked arguments).configWith environment = Config.asked arguments environment := by
  have wanted := wantedLevel?_asked arguments
  have filter : (asked arguments).filter = last? (Text.behind? "--log-filter=".toList) arguments :=
    rfl
  unfold configWith Config.asked Request.config
  rw [wanted, filter]
  cases last? namedLevel? arguments with
  | some level => cases last? (Text.behind? "--log-filter=".toList) arguments <;> rfl
  | none =>
    cases (arguments.filterMap times?).max? with
    | some times => cases last? (Text.behind? "--log-filter=".toList) arguments <;> rfl
    | none =>
      cases last? (Text.behind? "--log-filter=".toList) arguments with
      | some description => rfl
      | none =>
        cases environment with
        | nil => rfl
        | cons first rest =>
          have silent : ¬ ((none.or (none.map repeatedLevel)).isSome ||
              (none : Option Text).isSome || (first :: rest).isEmpty) = true := nofun
          rw [if_neg silent]
          by_cases describes : DescribesFilter (first :: rest)
          · have spec : '=' ∈ first :: rest ∨ ',' ∈ first :: rest := describes
            simp only [if_pos spec, describes]
            rfl
          · have spec : ¬ ('=' ∈ first :: rest ∨ ',' ∈ first :: rest) := describes
            simp only [if_neg spec, describes]
            rfl

/-- Whether an argument names a level. -/
def namesLevel (argument : Text) : Bool :=
  argument = "-q".toList || argument = "--quiet".toList || "--log-level=".toList.isPrefixOf argument

/-- The same arguments in another order, in which those of each kind of option follow each other as
before. Where requests for more output stand, and all that is no option, is left open. -/
structure Reordered (arguments other : List Text) : Prop where
  perm : other.Perm arguments
  levels : other.filter namesLevel = arguments.filter namesLevel
  filters : other.filter "--log-filter=".toList.isPrefixOf =
    arguments.filter "--log-filter=".toList.isPrefixOf
  files : other.filter "--log-file=".toList.isPrefixOf =
    arguments.filter "--log-file=".toList.isPrefixOf
  formats : other.filter "--log-format=".toList.isPrefixOf =
    arguments.filter "--log-format=".toList.isPrefixOf

/-- The last value is the same in arguments that agree about those that have one. -/
theorem last?_congr {α : Type} {value? : Text → Option α} {kind : Text → Bool}
    (silent : ∀ argument, kind argument = false → value? argument = none)
    {arguments other : List Text} (same : other.filter kind = arguments.filter kind) :
    last? value? other = last? value? arguments := by
  have kept (arguments : List Text) :
      (arguments.filter kind).filterMap value? = arguments.filterMap value? := by
    rw [List.filterMap_filter]
    refine List.filterMap_congr fun argument _ => ?_
    split
    next => rfl
    next other => exact (silent argument ((Bool.not_eq_true _).mp other)).symm
  rw [last?, last?, ← kept other, same, kept]

/-- What has a value behind an option begins with it. -/
theorem behind?_eq_none {start argument : Text} (other : start.isPrefixOf argument = false) :
    Text.behind? start argument = none := by
  rw [← Text.isSome_behind?] at other
  exact Option.not_isSome_iff_eq_none.mp (by rw [other]; exact Bool.false_ne_true)

/-- What names a level has one of the forms that do. -/
theorem namedLevel?_eq_none {argument : Text} (other : namesLevel argument = false) :
    namedLevel? argument = none := by
  obtain ⟨noWord, noValue⟩ := Bool.or_eq_false_iff.mp other
  obtain ⟨noShort, noLong⟩ := Bool.or_eq_false_iff.mp noWord
  rw [namedLevel?, if_neg (not_or.mpr ⟨of_decide_eq_false noShort, of_decide_eq_false noLong⟩),
    behind?_eq_none noValue]
  rfl

/-- The greatest of some numbers does not depend on their order. -/
theorem max?_eq_of_perm {numbers other : List Nat} (perm : other.Perm numbers) :
    other.max? = numbers.max? := by
  ext greatest
  simp only [List.max?_eq_some_iff, perm.mem_iff]

/-- The configuration is what is asked for kind by kind, whatever the order in which the kinds come.
Arguments that are reordered with those of each kind kept in order ask for the same. -/
theorem ofArguments_eq_asked (arguments : List Text) (environment : Text) :
    Config.ofArguments arguments environment = Config.asked arguments environment ∧
      ∀ other, Reordered arguments other →
        Config.ofArguments other environment = Config.ofArguments arguments environment := by
  have closed (arguments : List Text) :
      Config.ofArguments arguments environment = Config.asked arguments environment := by
    rw [Config.ofArguments, Request.foldl_addArgument, Request.configWith_asked]
  refine ⟨closed arguments, fun other reordered => ?_⟩
  have levels := last?_congr (fun _ => namedLevel?_eq_none) reordered.levels
  have filters := last?_congr (fun _ => behind?_eq_none) reordered.filters
  have files := last?_congr (fun _ => behind?_eq_none) reordered.files
  have formats := last?_congr (fun _ => behind?_eq_none) reordered.formats
  have times := max?_eq_of_perm (reordered.perm.filterMap times?)
  rw [closed, closed, Config.asked, levels, filters, files, formats, times]
  rfl

/-- The last level by name counts, also against a later repetition. A filter keeps the word of the
environment out. -/
example :
    Config.ofArguments ["-q".toList, "--log-filter=a=info".toList, "--log-level=warn".toList,
        "-vvv".toList] "debug".toList =
      { level := .warn, filterSpec := "a=info".toList } := by
  decide +kernel

end CommentMarkdown.Log
