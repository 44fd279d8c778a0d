import CommentMarkdown.CommandLine.Options

/-!
# Two readers of one command line

A command line is read twice: once for the logger, and once for everything else. The
first reader takes the options that it can read. The second one passes over the
arguments that have the form of such an option. Form and reading agree on every
argument (`isLogOption_eq_false_iff`), so each argument is taken by one reader at most,
and no reader can tell whether the arguments of the other one are there
(`readers_separate`).
-/

namespace CommentMarkdown

/-- A text has something behind a beginning exactly if it begins so. -/
theorem Text.isSome_behind? (start text : Text) :
    (Text.behind? start text).isSome = start.isPrefixOf text := by
  unfold Text.behind?
  cases start.isPrefixOf text <;> rfl

namespace Log

/-- An argument that cannot be read has no option's form: it does not begin as an option with
a value, it is none of the options that are one word, and it is no repetition of one letter. -/
theorem read?_eq_none_iff (argument : Text) :
    LogOption.read? argument = none ↔
      (∀ start ∈ valueOptions, Text.behind? start argument = none) ∧
        argument ∉ wordOptions ∧ verbosity argument = 0 := by
  unfold LogOption.read?
  simp only [valueOptions, wordOptions, List.mem_cons, List.not_mem_nil, or_false, forall_eq_or_imp,
    forall_eq, not_or]
  cases level : Text.behind? "--log-level=".toList argument with
  | some word => simp
  | none =>
    cases filter : Text.behind? "--log-filter=".toList argument with
    | some description => simp
    | none =>
      cases file : Text.behind? "--log-file=".toList argument with
      | some path => simp
      | none =>
        cases format : Text.behind? "--log-format=".toList argument with
        | some word => simp
        | none =>
          dsimp only
          split
          next quiet =>
            refine iff_of_false nofun ?_
            rintro ⟨_, ⟨noShort, noLong, _⟩, _⟩
            exact quiet.elim noShort noLong
          next loud =>
            split
            next verbose => exact iff_of_false nofun fun other => other.2.1.2.2 verbose
            next terse =>
              split
              next repeated => exact iff_of_false nofun fun other => by omega
              next single =>
                obtain ⟨noShort, noLong⟩ := not_or.mp loud
                exact iff_of_true rfl ⟨⟨rfl, rfl, rfl, rfl⟩, ⟨noShort, noLong, terse⟩, by omega⟩

/-- An argument has the form of an option exactly if it can be read as one. -/
theorem isLogOption_eq_false_iff (argument : Text) :
    isLogOption argument = false ↔ LogOption.read? argument = none := by
  rw [read?_eq_none_iff]
  simp [isLogOption, ← Text.isSome_behind?, and_assoc]

/-- An argument that does not have the form of an option asks the logger for nothing. -/
theorem Request.addArgument_of_other (request : Request) (argument : Text) :
    request.addArgument argument =
      if isLogOption argument then request.addArgument argument else request := by
  split
  next => rfl
  next other =>
    have unread : LogOption.read? argument = none :=
      (isLogOption_eq_false_iff argument).mp ((Bool.not_eq_true _).mp other)
    rw [Request.addArgument, unread]

end Log

namespace CommandLine

open Log

/-- An argument that concerns the logger changes no other option and is never refused. -/
theorem Options.add_of_logOption (options : Options) (argument : Text) :
    options.add argument =
      if !isLogOption argument then options.add argument else pure options := by
  unfold Options.add
  cases isLogOption argument <;> rfl

/-- Either reader does as if the arguments of the other one had not been given: the options,
or the error, are those of the arguments without a logging option, and the configuration of
the logger is that of the logging options alone. -/
theorem readers_separate (arguments : List Text) (environment : Text) :
    Options.parse arguments =
        Options.parse (arguments.filter fun argument => !isLogOption argument) ∧
      Config.ofArguments arguments environment =
        Config.ofArguments (arguments.filter isLogOption) environment := by
  constructor
  · have passed : Options.add = fun options argument =>
        if !isLogOption argument then options.add argument else pure options :=
      funext fun options => funext fun argument => options.add_of_logOption argument
    rw [Options.parse, Options.parse, List.foldlM_filter, ← passed]
  · have ignored : Request.addArgument = fun request argument =>
        if isLogOption argument then request.addArgument argument else request :=
      funext fun request => funext fun argument => request.addArgument_of_other argument
    rw [Config.ofArguments, Config.ofArguments, List.foldl_filter, ← ignored]

end CommandLine

end CommentMarkdown
