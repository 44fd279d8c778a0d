import CommentMarkdown.Proofs.CommandLine.Precedence
import CommentMarkdown.Proofs.Text.Decimal

/-!
# Which arguments are accepted

A command line is acceptable if each argument that does not concern the logger is known, and
nothing that stands for an input comes after the name of a file (`Acceptable`). Neither depends on
what has been read so far but for that name, so acceptance can be said of the whole list at once.
Reading agrees with it (`parse_exact`): what is acceptable is read and gives options that follow
from the arguments kind by kind, and otherwise the first argument at which acceptance ends is
reported.
-/

namespace CommentMarkdown.CommandLine

open Log (isLogOption last? last?_concat)

/-- An argument that names a file. -/
def NamesFile (argument : Text) : Prop :=
  argument.head? ≠ some '-'

instance : DecidablePred NamesFile :=
  fun _ => inferInstanceAs (Decidable (_ ≠ _))

/-- An argument that stands for an input: the name of a file, or a dash for the standard input. -/
def IsPositional (argument : Text) : Prop :=
  argument = ['-'] ∨ NamesFile argument

instance : DecidablePred IsPositional :=
  fun _ => inferInstanceAs (Decidable (_ ∨ _))

/-- A value that is the decimal of a depth, with any number of zeros in front. A depth is a number
other than zero that 64 bits hold. -/
structure IsDepth (value : Text) (depth : Nat) : Prop where
  digits : ∃ zeros, value = List.replicate zeros '0' ++ Text.decimal depth
  positive : 1 ≤ depth
  small : depth < UInt64.size

/-- An argument that is known, though it need not be welcome where it stands. -/
inductive Known : Text → Prop
  | help : Known "--help".toList
  | helpLetter : Known "-h".toList
  | version : Known "--version".toList
  | versionLetter : Known "-V".toList
  | signature (signature : Text) : Known ("--signature=".toList ++ signature)
  | language (language : Text) : Known ("--language=".toList ++ language)
  | maxDepth {value : Text} {depth : Nat} (depth : IsDepth value depth) :
      Known ("--max-depth=".toList ++ value)
  | positional {argument : Text} (positional : IsPositional argument) : Known argument

/-- Arguments that can be read. -/
structure Acceptable (arguments : List Text) : Prop where
  known : ∀ argument ∈ arguments, isLogOption argument = false → Known argument
  oneInput : arguments.Pairwise fun earlier later => NamesFile earlier → ¬ IsPositional later

/-- Options that are what arguments ask for, kind by kind. -/
structure Options.Follows (options : Options) (arguments : List Text) : Prop where
  showHelp : options.showHelp = true ↔
    "--help".toList ∈ arguments ∨ "-h".toList ∈ arguments
  showVersion : options.showVersion = true ↔
    "--version".toList ∈ arguments ∨ "-V".toList ∈ arguments
  signature : options.signature = last? (Text.behind? "--signature=".toList) arguments
  language : options.language =
    (last? (Text.behind? "--language=".toList) arguments).getD Hover.defaultLanguage
  limits :
    match last? (Text.behind? "--max-depth=".toList) arguments with
    | none => options.limits = {}
    | some value => ∃ depth, IsDepth value depth ∧ options.limits = ⟨depth, depth⟩
  inputFile : options.inputFile.toList = arguments.filter NamesFile

/-- Arguments are acceptable up to this one, and with this one no longer. -/
def StopsAt (arguments : List Text) (argument : Text) : Prop :=
  ∃ before after, arguments = before ++ argument :: after ∧ Acceptable before ∧
    ¬ Acceptable (before ++ [argument])

/-- What is said about an argument that is not accepted. -/
def complaint (argument : Text) : Text :=
  if let some value := Text.behind? "--max-depth=".toList argument then
    "invalid --max-depth value '".toList ++ value ++ "'".toList
  else if IsPositional argument then "unexpected argument '".toList ++ argument ++ "'".toList
  else "unknown option '".toList ++ argument ++ "'".toList

/-- A value is read as a depth exactly if it is the decimal of one with zeros in front. -/
theorem parseDepth?_eq_some_iff (value : Text) (depth : Nat) :
    parseDepth? value = some depth ↔ IsDepth value depth := by
  constructor
  · intro read
    unfold parseDepth? at read
    split at read
    next digits =>
      split at read
      next bounds =>
        cases read
        have written := (Text.digits_iff value bounds.1).mp ⟨List.all_eq_true.mp digits.2, rfl⟩
        exact ⟨written, bounds.1, Nat.lt_succ_of_le bounds.2⟩
      next => cases read
    next => cases read
  · rintro ⟨written, positive, small⟩
    obtain ⟨digits, number⟩ := (Text.digits_iff value positive).mpr written
    have filled : value ≠ [] := by
      rintro rfl
      exact Nat.ne_of_gt positive number.symm
    change digitsValue value = depth at number
    rw [parseDepth?, if_pos ⟨filled, List.all_eq_true.mpr digits⟩, number,
      if_pos ⟨positive, Nat.le_of_lt_succ small⟩]

/-- What names a file is no word that begins with a dash. -/
theorem NamesFile.ne {argument word : Text} (names : NamesFile argument)
    (dashed : word.head? = some '-') : argument ≠ word := by
  rintro rfl
  exact names dashed

/-- What names a file does not begin as an option. -/
theorem NamesFile.behind? {argument start : Text} (names : NamesFile argument)
    (dashed : start.head? = some '-') : Text.behind? start argument = none := by
  refine Option.eq_none_iff_forall_ne_some.mpr fun word begins => ?_
  obtain rfl := Text.behind?_eq_some_iff.mp begins
  exact names (by rw [List.head?_append, dashed]; rfl)

/-- What names a file does not concern the logger. -/
theorem NamesFile.isLogOption {argument : Text} (names : NamesFile argument) :
    isLogOption argument = false := by
  by_contra concerns
  cases Log.form_of_isLogOption ((Bool.not_eq_false _).mp concerns) with
  | level _ | filter _ | file _ | format _ => exact names rfl
  | quietLetter | quiet | verbose | letters _ => exact names rfl

/-- The options after an argument that is accepted. It changes what it speaks of and nothing
else. -/
def Options.after (options : Options) (argument : Text) : Options where
  inputFile := if NamesFile argument then some argument else options.inputFile
  signature := (Text.behind? "--signature=".toList argument).or options.signature
  language := (Text.behind? "--language=".toList argument).getD options.language
  limits := ((Text.behind? "--max-depth=".toList argument).bind parseDepth?).elim options.limits
    fun depth => ⟨depth, depth⟩
  showHelp := (argument = "--help".toList ∨ argument = "-h".toList) || options.showHelp
  showVersion := (argument = "--version".toList ∨ argument = "-V".toList) || options.showVersion

/-- An argument that concerns the logger speaks of nothing else. -/
theorem Options.after_of_logOption (options : Options) {argument : Text}
    (concerns : isLogOption argument = true) : options.after argument = options := by
  cases Log.form_of_isLogOption concerns with
  | level _ | filter _ | file _ | format _ => rfl
  | quietLetter | quiet | verbose | letters _ => rfl

/-- A file that is named changes nothing but the input. -/
theorem Options.after_of_namesFile (options : Options) {argument : Text}
    (names : NamesFile argument) :
    options.after argument = { options with inputFile := some argument } := by
  rw [after, if_pos names, names.behind? rfl, names.behind? rfl, names.behind? rfl,
    decide_eq_false (not_or.mpr ⟨names.ne rfl, names.ne rfl⟩),
    decide_eq_false (not_or.mpr ⟨names.ne rfl, names.ne rfl⟩)]
  rfl

/-- What stands for an input is accepted as long as no file has been named. -/
theorem Options.add_of_positional (options : Options) {argument : Text}
    (positional : IsPositional argument) :
    options.add argument =
      if options.inputFile.isSome then .error (.unexpectedArgument argument)
      else .ok (options.after argument) := by
  rcases positional with rfl | names
  · rfl
  · rw [add, if_neg (Bool.eq_false_iff.mp names.isLogOption), addArgument,
      if_neg (not_or.mpr ⟨names.ne rfl, names.ne rfl⟩),
      if_neg (not_or.mpr ⟨names.ne rfl, names.ne rfl⟩), names.behind? rfl, names.behind? rfl,
      names.behind? rfl, after_of_namesFile options names]
    dsimp only
    rw [if_neg (fun dash => names dash.1), if_neg (names.ne rfl)]

/-- What is said about an argument that stands for an input. -/
theorem complaint_of_positional {argument : Text} (positional : IsPositional argument) :
    complaint argument = "unexpected argument '".toList ++ argument ++ "'".toList := by
  have noDepth : Text.behind? "--max-depth=".toList argument = none := by
    rcases positional with rfl | names
    · rfl
    · exact names.behind? rfl
  rw [complaint, noDepth]
  exact if_pos positional

/-- What stands behind the option of a depth is read as one. -/
theorem Options.add_of_maxDepth (options : Options) (value : Text) :
    options.add ("--max-depth=".toList ++ value) =
      (parseDepth? value).elim (.error (.invalidDepth value))
        fun depth => .ok { options with limits := ⟨depth, depth⟩ } := by
  have noSignature : Text.behind? "--signature=".toList ("--max-depth=".toList ++ value) = none :=
    rfl
  have noLanguage : Text.behind? "--language=".toList ("--max-depth=".toList ++ value) = none :=
    rfl
  have begins : Text.behind? "--max-depth=".toList ("--max-depth=".toList ++ value) = some value :=
    rfl
  rw [add, if_neg (of_decide_eq_false rfl), addArgument, if_neg (of_decide_eq_false rfl),
    if_neg (of_decide_eq_false rfl), noSignature, noLanguage, begins]
  dsimp only
  cases parseDepth? value <;> rfl

/-- What is known is accepted where it is welcome. -/
theorem Options.add_of_known (options : Options) {argument : Text} (known : Known argument)
    (free : IsPositional argument → options.inputFile = none) :
    options.add argument = .ok (options.after argument) := by
  cases known with
  | help | helpLetter | version | versionLetter => rfl
  | signature signature | language language => rfl
  | @maxDepth value depth isDepth =>
    have result : options.after ("--max-depth=".toList ++ value) =
        { options with
          limits := (parseDepth? value).elim options.limits fun depth => ⟨depth, depth⟩ } := rfl
    rw [add_of_maxDepth, result, (parseDepth?_eq_some_iff value depth).mpr isDepth]
    rfl
  | positional positional =>
    rw [add_of_positional options positional, free positional]
    rfl

/-- What is not known is reported. -/
theorem Options.add_of_unknown (options : Options) {argument : Text}
    (other : isLogOption argument = false) (unknown : ¬ Known argument) :
    ∃ error, options.add argument = .error error ∧ error.message = complaint argument := by
  have noHelp : ¬ (argument = "--help".toList ∨ argument = "-h".toList) := by
    rintro (rfl | rfl)
    exacts [unknown .help, unknown .helpLetter]
  have noVersion : ¬ (argument = "--version".toList ∨ argument = "-V".toList) := by
    rintro (rfl | rfl)
    exacts [unknown .version, unknown .versionLetter]
  have noSignature : Text.behind? "--signature=".toList argument = none := by
    refine Option.eq_none_iff_forall_ne_some.mpr fun word begins => unknown ?_
    obtain rfl := Text.behind?_eq_some_iff.mp begins
    exact .signature word
  have noLanguage : Text.behind? "--language=".toList argument = none := by
    refine Option.eq_none_iff_forall_ne_some.mpr fun word begins => unknown ?_
    obtain rfl := Text.behind?_eq_some_iff.mp begins
    exact .language word
  cases begins : Text.behind? "--max-depth=".toList argument with
  | some value =>
    obtain rfl := Text.behind?_eq_some_iff.mp begins
    have unread : parseDepth? value = none :=
      Option.eq_none_iff_forall_ne_some.mpr fun depth read =>
        unknown (.maxDepth ((parseDepth?_eq_some_iff value depth).mp read))
    rw [add_of_maxDepth, unread, complaint, begins]
    exact ⟨_, rfl, rfl⟩
  | none =>
    have noInput : ¬ IsPositional argument := fun positional => unknown (.positional positional)
    obtain ⟨noDash, dashed⟩ := not_or.mp noInput
    rw [add, if_neg (Bool.eq_false_iff.mp other), addArgument, if_neg noHelp, if_neg noVersion,
      noSignature, noLanguage, begins, complaint, begins]
    dsimp only
    rw [if_neg noInput, if_pos ⟨not_not.mp dashed, noDash⟩]
    exact ⟨_, rfl, rfl⟩

/-- One argument more is acceptable if it is known, and welcome if it stands for an input. -/
theorem acceptable_concat_iff (front : List Text) (argument : Text) :
    Acceptable (front ++ [argument]) ↔
      Acceptable front ∧ (isLogOption argument = false → Known argument) ∧
        (IsPositional argument → front.filter NamesFile = []) := by
  constructor
  · rintro ⟨known, oneInput⟩
    obtain ⟨knownFront, knownLast⟩ := List.forall_mem_append.mp known
    obtain ⟨oneFront, -, apart⟩ := List.pairwise_append.mp oneInput
    refine ⟨⟨knownFront, oneFront⟩, knownLast argument List.mem_cons_self, fun positional => ?_⟩
    refine List.filter_eq_nil_iff.mpr fun earlier member names => ?_
    exact apart earlier member argument List.mem_cons_self (of_decide_eq_true names) positional
  · rintro ⟨⟨knownFront, oneFront⟩, known, free⟩
    refine ⟨List.forall_mem_append.mpr ⟨knownFront, List.forall_mem_singleton.mpr known⟩,
      List.pairwise_append.mpr ⟨oneFront, List.pairwise_singleton _ _, ?_⟩⟩
    intro earlier member later last names positional
    obtain rfl := List.mem_singleton.mp last
    exact List.filter_eq_nil_iff.mp (free positional) earlier member (decide_eq_true names)

/-- A depth that is accepted is one. -/
theorem Known.isDepth {argument value : Text} (known : Known argument)
    (begins : Text.behind? "--max-depth=".toList argument = some value) :
    ∃ depth, IsDepth value depth := by
  cases known with
  | help | helpLetter | version | versionLetter => cases begins
  | signature signature | language language => cases begins
  | @maxDepth written depth isDepth =>
    cases begins
    exact ⟨depth, isDepth⟩
  | positional positional =>
    rcases positional with rfl | names
    · cases begins
    · rw [names.behind? rfl] at begins
      cases begins

/-- Options that follow from some arguments follow from these and one more once it has been taken
into account. -/
theorem Options.Follows.concat {options : Options} {front : List Text} {argument : Text}
    (follows : options.Follows front) (known : isLogOption argument = false → Known argument)
    (free : IsPositional argument → front.filter NamesFile = []) :
    (options.after argument).Follows (front ++ [argument]) where
  showHelp := by
    simp only [after, Bool.or_eq_true, decide_eq_true_eq, follows.showHelp, List.mem_append,
      List.mem_singleton]
    grind
  showVersion := by
    simp only [after, Bool.or_eq_true, decide_eq_true_eq, follows.showVersion, List.mem_append,
      List.mem_singleton]
    grind
  signature := by
    rw [last?_concat, ← follows.signature]
    rfl
  language := by
    rw [last?_concat, Option.getD_or, ← follows.language]
    rfl
  limits := by
    rw [last?_concat, after]
    cases begins : Text.behind? "--max-depth=".toList argument with
    | none => exact follows.limits
    | some value =>
      have other : isLogOption argument = false := by
        obtain rfl := Text.behind?_eq_some_iff.mp begins
        rfl
      obtain ⟨depth, isDepth⟩ := (known other).isDepth begins
      refine ⟨depth, isDepth, ?_⟩
      rw [Option.bind_some, (parseDepth?_eq_some_iff value depth).mpr isDepth]
      rfl
  inputFile := by
    rw [List.filter_append, after]
    by_cases names : NamesFile argument
    · simp [names, free (.inr names)]
    · simp [names, follows.inputFile]

/-- Once some arguments have been read, reading goes on with the next one. -/
theorem Options.parse_append_cons {front : List Text} {options : Options}
    (parsed : Options.parse front = .ok options) (argument : Text) (rest : List Text) :
    Options.parse (front ++ argument :: rest) =
      options.add argument >>= fun next => rest.foldlM Options.add next := by
  rw [Options.parse, List.foldlM_append, ← Options.parse, parsed]
  rfl

/-- Arguments that are acceptable are read. The induction is on the last argument, since it is the
arguments in front of it that the options follow from. -/
theorem parse_of_acceptable {arguments : List Text} (acceptable : Acceptable arguments) :
    ∃ options, Options.parse arguments = .ok options ∧ options.Follows arguments := by
  induction arguments using List.reverseRecOn with
  | nil => exact ⟨{}, rfl, by simp, by simp, rfl, rfl, rfl, rfl⟩
  | append_singleton front argument ih =>
    obtain ⟨acceptableFront, known, free⟩ := (acceptable_concat_iff front argument).mp acceptable
    obtain ⟨options, parsed, follows⟩ := ih acceptableFront
    have added : options.add argument = .ok (options.after argument) := by
      cases concerns : isLogOption argument with
      | true => rw [Options.add, if_pos concerns, options.after_of_logOption concerns]
      | false =>
        refine options.add_of_known (known concerns) fun positional => ?_
        exact Option.toList_eq_nil_iff.mp (follows.inputFile.trans (free positional))
    refine ⟨options.after argument, ?_, follows.concat known free⟩
    rw [Options.parse_append_cons parsed, added]
    rfl

/-- The argument at which acceptance ends is reported. -/
theorem parse_of_stopsAt {arguments : List Text} {argument : Text}
    (stops : StopsAt arguments argument) :
    ∃ error, Options.parse arguments = .error error ∧ error.message = complaint argument := by
  obtain ⟨before, after, rfl, acceptable, refused⟩ := stops
  obtain ⟨options, parsed, follows⟩ := parse_of_acceptable acceptable
  have reported :
      ∃ error, options.add argument = .error error ∧ error.message = complaint argument := by
    by_cases known : isLogOption argument = false → Known argument
    · have second : IsPositional argument ∧ before.filter NamesFile ≠ [] := by
        by_contra free
        exact refused ((acceptable_concat_iff before argument).mpr
          ⟨acceptable, known, fun positional => not_not.mp (not_and.mp free positional)⟩)
      obtain ⟨positional, named⟩ := second
      have taken : options.inputFile.isSome = true := by
        rw [← follows.inputFile] at named
        exact Option.isSome_iff_ne_none.mpr fun empty => named (by rw [empty]; rfl)
      rw [options.add_of_positional positional, if_pos taken]
      exact ⟨_, rfl, (complaint_of_positional positional).symm⟩
    · obtain ⟨other, unknown⟩ := Classical.not_imp.mp known
      exact options.add_of_unknown other unknown
  obtain ⟨error, added, wording⟩ := reported
  refine ⟨error, ?_, wording⟩
  rw [Options.parse_append_cons parsed, added]
  rfl

/-- What is not acceptable as a whole is no longer acceptable at some argument. -/
theorem exists_stopsAt {arguments : List Text} (refused : ¬ Acceptable arguments) :
    ∃ argument, StopsAt arguments argument := by
  induction arguments using List.reverseRecOn with
  | nil => exact absurd ⟨nofun, .nil⟩ refused
  | append_singleton front argument ih =>
    by_cases acceptable : Acceptable front
    · exact ⟨argument, front, [], rfl, acceptable, refused⟩
    · obtain ⟨first, before, after, rfl, stops⟩ := ih acceptable
      exact ⟨first, before, after ++ [argument], by simp, stops⟩

/-- Arguments are read exactly if they are acceptable. Then the options are what they ask for kind
by kind. Otherwise what is said is said about the argument at which acceptance ends, and arguments
behind it make no difference. -/
theorem parse_exact (arguments : List Text) :
    ((∃ options, Options.parse arguments = .ok options) ↔ Acceptable arguments) ∧
      (∀ options, Options.parse arguments = .ok options → options.Follows arguments) ∧
      (∀ wording, (∃ error, Options.parse arguments = .error error ∧ error.message = wording) ↔
        ∃ argument, StopsAt arguments argument ∧ complaint argument = wording) ∧
      ∀ error more, Options.parse arguments = .error error →
        Options.parse (arguments ++ more) = .error error := by
  have accepted {options : Options} (parsed : Options.parse arguments = .ok options) :
      Acceptable arguments := by
    by_contra refused
    obtain ⟨argument, stops⟩ := exists_stopsAt refused
    obtain ⟨error, failed, -⟩ := parse_of_stopsAt stops
    rw [parsed] at failed
    cases failed
  refine ⟨⟨?_, ?_⟩, ?_, ?_, ?_⟩
  · rintro ⟨options, parsed⟩
    exact accepted parsed
  · intro acceptable
    obtain ⟨options, parsed, -⟩ := parse_of_acceptable acceptable
    exact ⟨options, parsed⟩
  · intro options parsed
    obtain ⟨same, parsedToo, follows⟩ := parse_of_acceptable (accepted parsed)
    cases parsed.symm.trans parsedToo
    exact follows
  · intro wording
    constructor
    · rintro ⟨error, failed, rfl⟩
      have refused : ¬ Acceptable arguments := fun acceptable => by
        obtain ⟨options, parsed, -⟩ := parse_of_acceptable acceptable
        cases parsed.symm.trans failed
      obtain ⟨argument, stops⟩ := exists_stopsAt refused
      obtain ⟨same, failedToo, said⟩ := parse_of_stopsAt stops
      cases failed.symm.trans failedToo
      exact ⟨argument, stops, said.symm⟩
    · rintro ⟨argument, stops, rfl⟩
      exact parse_of_stopsAt stops
  · intro error more failed
    rw [Options.parse, List.foldlM_append, ← Options.parse, failed]
    rfl

/-- The greatest depth is accepted, and one more is not, however many zeros stand in front. -/
example :
    Options.parse ["--max-depth=0018446744073709551615".toList] =
        .ok { limits := ⟨UInt64.size - 1, UInt64.size - 1⟩ } ∧
      Options.parse ["--max-depth=18446744073709551616".toList] =
        .error (.invalidDepth "18446744073709551616".toList) := by
  decide +kernel

end CommentMarkdown.CommandLine
