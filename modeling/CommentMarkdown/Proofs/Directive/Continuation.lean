import CommentMarkdown.Proofs.Directive.Counting

/-!
# Texts that go on

A text whose groups nest leaves nothing behind for what follows it: no group is open, and a
closing brace outside of all groups has been an ordinary character. What follows is resolved as
if it stood alone, and if that fails, it fails at the same brace, or at the end, which lies
behind all bytes of both texts.

A text that goes too deep is refused at a brace of its own, so it does not matter how it goes on.
Only a text that leaves a group open may be saved by what follows it.

Counting shows all this (`verdict_append_of_closed`, `verdict_append_of_tooDeep`), since it fails
exactly where resolving does (`map_value_resolve`).
-/

namespace CommentMarkdown

/-- The error of a text in front of which so many bytes have been put. -/
def DirectiveError.behind (size : Nat) (error : DirectiveError) : DirectiveError :=
  { error with position := size + error.position }

namespace Directive

/-- Counting from a later position fails later by as much. -/
theorem verdict_add (limit size position count : Nat) (text : Text) :
    verdict limit (size + position) count text =
      (verdict limit position count text).mapError (.behind size) := by
  induction text generalizing position count with
  | nil =>
    rw [verdict, verdict]
    split <;> rfl
  | cons c rest ih =>
    rw [verdict, verdict]
    split
    · rfl
    · rw [Nat.add_assoc]
      exact ih (position + c.utf8Size) (countBrace count c)

/-- Behind a text that is counted through to its end, counting goes on from zero. -/
theorem verdict_append_of_closed {limit position count : Nat} {front : Text}
    (closed : verdict limit position count front = .ok ()) (rest : Text) :
    verdict limit position count (front ++ rest) =
      verdict limit (position + Text.byteSize front) 0 rest := by
  induction front generalizing position count with
  | nil =>
    rw [verdict] at closed
    split at closed
    next => cases closed
    next none =>
      obtain rfl : count = 0 := Nat.eq_zero_of_not_pos none
      rfl
  | cons c front ih =>
    rw [verdict] at closed
    split at closed
    next => cases closed
    next fits =>
      rw [List.cons_append, verdict, if_neg fits, ih closed, Text.byteSize_cons, Nat.add_assoc]

/-- A text that goes too deep does so however it goes on. -/
theorem verdict_append_of_tooDeep {limit position count bound reached : Nat} {front : Text}
    (deep : verdict limit position count front = .error ⟨.tooDeep bound, reached⟩) (rest : Text) :
    verdict limit position count (front ++ rest) = .error ⟨.tooDeep bound, reached⟩ := by
  induction front generalizing position count with
  | nil =>
    rw [verdict] at deep
    split at deep <;> cases deep
  | cons c front ih =>
    rw [verdict] at deep
    rw [List.cons_append, verdict]
    split
    next here => rwa [if_pos here] at deep
    next fits =>
      rw [if_neg fits] at deep
      exact ih deep

/-- Resolving ends as counting does, for either target. -/
theorem map_value_resolve (limits : Limits) (target : Target) (text : Text) :
    (resolve limits target text).value.map (fun _ => ()) =
      verdict limits.directiveDepth 0 0 text := by
  have matched : (parse limits.directiveDepth text).value.map (fun _ => ()) =
      verdict limits.directiveDepth 0 0 text := map_value_nest _ text 0 [] []
  rw [resolve_eq_map_parse, Diagnosed.value_map, ← matched]
  cases (parse limits.directiveDepth text).value <;> rfl

/-- Resolving fails with the error with which counting does. -/
theorem resolve_eq_error_iff_verdict (limits : Limits) (target : Target) (text : Text)
    (error : DirectiveError) :
    (resolve limits target text).value = .error error ↔
      verdict limits.directiveDepth 0 0 text = .error error := by
  rw [← map_value_resolve limits target]
  cases (resolve limits target text).value with
  | ok shown => exact iff_of_false nofun nofun
  | error found => rw [Except.map, Except.error.injEq, Except.error.injEq]

/-- A text that is resolved is counted through to its end. -/
theorem verdict_of_resolve {limits : Limits} {target : Target} {text shown : Text}
    (found : (resolve limits target text).value = .ok shown) :
    verdict limits.directiveDepth 0 0 text = .ok () := by
  rw [← map_value_resolve limits target, found]
  rfl

/-- Resolving goes part by part where the first part nests: the second adds what it yields by
itself, or fails as it does by itself, behind the bytes of the first. A first part that goes
too deep fails as it does by itself. -/
theorem resolve_append (limits : Limits) (target : Target) (first second : Text) :
    (∀ shown, (resolve limits target first).value = .ok shown →
      (∀ following, (resolve limits target second).value = .ok following →
        (resolve limits target (first ++ second)).value = .ok (shown ++ following)) ∧
      (∀ error, (resolve limits target second).value = .error error →
        (resolve limits target (first ++ second)).value =
          .error { error with position := Text.byteSize first + error.position })) ∧
    ∀ bound position, (resolve limits target first).value = .error ⟨.tooDeep bound, position⟩ →
      (resolve limits target (first ++ second)).value = .error ⟨.tooDeep bound, position⟩ := by
  refine ⟨?_, ?_⟩
  · intro shown found
    refine ⟨?_, ?_⟩
    · intro following foundSecond
      obtain ⟨items, reads, rfl⟩ := exists_reads_of_resolve found
      obtain ⟨others, readsOthers, rfl⟩ := exists_reads_of_resolve foundSecond
      rw [value_resolve_of_reads (reads.append readsOthers), Target.render_append]
    · intro error failed
      rw [resolve_eq_error_iff_verdict] at failed ⊢
      rw [verdict_append_of_closed (verdict_of_resolve found), Nat.zero_add]
      have later := verdict_add limits.directiveDepth (Text.byteSize first) 0 0 second
      rwa [failed] at later
  · intro bound position failed
    rw [resolve_eq_error_iff_verdict] at failed ⊢
    exact verdict_append_of_tooDeep failed second

/-- Offsets count the bytes of both texts: two of a letter, one of a brace outside of all groups,
and two more up to the end, where a group is still open. -/
example : (resolve {} .text ("é\x7d".toList ++ "\x7ba".toList)).value = .error ⟨.unclosed, 5⟩ :=
  rfl

end Directive

end CommentMarkdown
