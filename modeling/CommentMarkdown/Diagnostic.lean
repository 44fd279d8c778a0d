import CommentMarkdown.Error
import CommentMarkdown.Log.Level

/-!
# Diagnostics

What a call has to say besides its result. A diagnostic is a cause with the data
that its wording names; its level, the part of the program that it concerns and
the wording are functions of it.

A computation with diagnostics is a value together with the list of them, in the
order in which they arose. Nothing else can be done with the list but to extend
it, so a result cannot depend on who listens.
-/

namespace CommentMarkdown

/-- One remark about the input. -/
inductive Diagnostic
  /-- A directive whose name has no meaning; the offset is that of its at sign. -/
  | unknownDirective (name : Text) (offset : Nat)
  /-- A text is left alone because its groups do not nest. -/
  | keptUnchanged (error : DirectiveError)
  /-- A label or reference that lies deeper than the limit is left out. -/
  | droppedReference (limit : Nat)
  /-- An end mark without a start mark of its name. -/
  | neverOpened (name : Text)
  /-- A node of a kind that is copied without being understood. -/
  | copiedAsIs (kind : Text)
  /-- A block tag is about to be formatted. -/
  | formattingTag (name : Text)
  /-- Markup could not be converted and is treated as plain text. -/
  | notConverted (error : MarkupError)
  /-- An input of this many bytes is about to be rendered. -/
  | rendering (size : Nat)
  /-- The named input cannot be opened. -/
  | cannotOpen (file : Text)
  deriving DecidableEq, Repr

namespace Diagnostic

open Log (Level)

/-- How severe a remark is. -/
def level : Diagnostic → Level
  | neverOpened .. | copiedAsIs .. | formattingTag .. => .trace
  | cannotOpen .. => .error
  | unknownDirective .. | keptUnchanged .. | droppedReference .. | notConverted ..
  | rendering .. => .debug

/-- The part of the program that a remark concerns. -/
def module : Diagnostic → Text
  | unknownDirective .. | keptUnchanged .. => "directive".toList
  | droppedReference .. | neverOpened .. | copiedAsIs .. | formattingTag .. => "render".toList
  | notConverted .. => "markup".toList
  | rendering .. | cannotOpen .. => "cli".toList

/-- The wording of a remark. -/
def message : Diagnostic → Text
  | unknownDirective name offset =>
    "Unknown directive \x60@".toList ++ name ++ "\x60 at offset ".toList ++ Text.decimal offset
  | keptUnchanged error =>
    "Keeping text unchanged: ".toList ++ error.message ++ " at offset ".toList ++
      Text.decimal error.position
  | droppedReference limit =>
    "Dropping nested reference deeper than ".toList ++ Text.decimal limit
  | neverOpened name => "Closing </".toList ++ name ++ "> that was never opened".toList
  | copiedAsIs kind => "Copying ".toList ++ kind ++ " node as-is".toList
  | formattingTag name => "Formatting @".toList ++ name ++ " tag".toList
  | notConverted error =>
    "Failed to convert HTML, falling back to plain text: ".toList ++ error.message
  | rendering size => "Rendering ".toList ++ Text.decimal size ++ " bytes".toList
  | cannotOpen file => "cannot open '".toList ++ file ++ "'".toList

end Diagnostic

/-- A value with the diagnostics that arose on the way to it, earliest first. -/
@[ext]
structure Diagnosed (α : Type) where
  value : α
  log : List Diagnostic

namespace Diagnosed

instance : Monad Diagnosed where
  pure value := ⟨value, []⟩
  bind first next :=
    let second := next first.value
    ⟨second.value, first.log ++ second.log⟩

/-- The computation whose only trace is one remark. -/
def report (remark : Diagnostic) : Diagnosed Unit :=
  ⟨(), [remark]⟩

variable {α β : Type}

@[simp]
theorem value_pure (value : α) : (pure value : Diagnosed α).value = value := rfl

@[simp]
theorem log_pure (value : α) : (pure value : Diagnosed α).log = [] := rfl

@[simp]
theorem value_bind (first : Diagnosed α) (next : α → Diagnosed β) :
    (first >>= next).value = (next first.value).value := rfl

@[simp]
theorem log_bind (first : Diagnosed α) (next : α → Diagnosed β) :
    (first >>= next).log = first.log ++ (next first.value).log := rfl

@[simp]
theorem log_report (remark : Diagnostic) : (report remark).log = [remark] := rfl

instance : LawfulMonad Diagnosed := LawfulMonad.mk' Diagnosed
  (fun _ => by apply Diagnosed.ext <;> simp [Functor.map])
  (fun _ _ => by apply Diagnosed.ext <;> simp)
  (fun _ _ _ => by apply Diagnosed.ext <;> simp)

@[simp]
theorem value_map (f : α → β) (first : Diagnosed α) : (f <$> first).value = f first.value := rfl

@[simp]
theorem log_map (f : α → β) (first : Diagnosed α) : (f <$> first).log = first.log := by
  simp [← bind_pure_comp]

end Diagnosed

end CommentMarkdown
