import CommentMarkdown.Proofs.Directive.Concatenation

/-!
# Counting open groups

Whether the groups of a text nest, and where they fail to, can be told by counting alone. The
counter goes up at each opening brace and down at each closing one, but never below zero. A text
is refused at the first brace that would raise the counter above the limit, or else at its end,
if the counter has not come back to zero.

Reading a text keeps more than a counter: the groups that are open, with their heads and with
what has been read of their content. None of that has a part in a refusal. A head holds no
brace, so the counter passes over it (`verdict_append_of_flat`), and the number of open groups is
the counter (`map_value_nest`). So there are two ways to be refused and no other one, and a text
that is resolved under one limit is resolved alike under every higher one.
-/

namespace CommentMarkdown.Directive

open Token

/-- The counter behind one more character. A closing brace outside of all groups closes none. -/
def countBrace (count : Nat) (c : Char) : Nat :=
  if c = '{' then count + 1 else if c = '}' then count - 1 else count

/-- The number of groups that a text leaves open. -/
def openGroups (text : Text) : Nat :=
  text.foldl countBrace 0

/-- No opening brace of the text raises the counter above the limit. -/
def Shallow (limit : Nat) (text : Text) : Prop :=
  ∀ before, before ++ ['{'] <+: text → openGroups before + 1 ≤ limit

/-- What stands in front of the first opening brace that raises the counter above the limit. -/
structure FirstTooDeep (limit : Nat) (text before : Text) : Prop where
  begins : before ++ ['{'] <+: text
  first : Shallow limit before
  deep : limit < openGroups before + 1

/-- The errors with which counting refuses a text. -/
inductive Refused (limit : Nat) (text : Text) : DirectiveError → Prop
  | tooDeep {before : Text} (first : FirstTooDeep limit text before) :
    Refused limit text ⟨.tooDeep limit, Text.byteSize before⟩
  | unclosed (shallow : Shallow limit text) (stillOpen : 0 < openGroups text) :
    Refused limit text ⟨.unclosed, Text.byteSize text⟩

/-- The counter goes on behind a character from where it was. -/
theorem openGroups_concat (text : Text) (c : Char) :
    openGroups (text ++ [c]) = countBrace (openGroups text) c := by
  rw [openGroups, List.foldl_append]
  rfl

/-- A character that is no brace leaves the counter as it is. -/
theorem countBrace_of_flat {c : Char} (flat : c ≠ '{' ∧ c ≠ '}') (count : Nat) :
    countBrace count c = count := by
  rw [countBrace, if_neg flat.1, if_neg flat.2]

/-- The empty text has no brace. -/
theorem shallow_nil (limit : Nat) : Shallow limit [] := by
  intro before begins
  exact absurd (List.prefix_nil.mp begins) (List.append_ne_nil_of_right_ne_nil before (by decide))

/-- One more character can only go too deep if it is an opening brace at the limit. -/
theorem Shallow.concat {limit : Nat} {text : Text} {c : Char} (shallow : Shallow limit text)
    (fits : ¬ (c = '{' ∧ limit ≤ openGroups text)) : Shallow limit (text ++ [c]) := by
  intro before begins
  rcases List.prefix_concat_iff.mp begins with whole | inside
  · obtain ⟨rfl, brace⟩ := List.append_inj' whole rfl
    obtain rfl : '{' = c := (List.cons.inj brace).1
    have below : ¬ limit ≤ openGroups before := fun reached => fits ⟨rfl, reached⟩
    omega
  · exact shallow before inside

/-- The first brace that goes too deep is not one that a shallow text holds. -/
theorem FirstTooDeep.not_shallow {limit : Nat} {text before : Text}
    (first : FirstTooDeep limit text before) : ¬ Shallow limit text := by
  intro shallow
  have fits := shallow before first.begins
  have deep := first.deep
  omega

/-- There is one first brace: of two that go too deep, one stands in front of the other. -/
theorem FirstTooDeep.unique {limit : Nat} {text before other : Text}
    (first : FirstTooDeep limit text before) (firstOther : FirstTooDeep limit text other) :
    before = other := by
  have noneInFront {front behind : Text} (early : FirstTooDeep limit text front)
      (late : FirstTooDeep limit text behind) (order : front ++ ['{'] <+: behind ++ ['{']) :
      front = behind := by
    rcases List.prefix_concat_iff.mp order with same | inside
    · exact List.append_cancel_right same
    · have fits := late.first front inside
      have deep := early.deep
      omega
  rcases List.prefix_or_prefix_of_prefix first.begins firstOther.begins with order | order
  · exact noneInFront first firstOther order
  · exact (noneInFront firstOther first order).symm

/-- A text is refused with one error only. -/
theorem Refused.unique {limit : Nat} {text : Text} {error other : DirectiveError}
    (refused : Refused limit text error) (refusedOther : Refused limit text other) :
    error = other := by
  cases refused with
  | tooDeep first =>
    cases refusedOther with
    | tooDeep firstOther => rw [first.unique firstOther]
    | unclosed shallow _ => exact absurd shallow first.not_shallow
  | unclosed shallow stillOpen =>
    cases refusedOther with
    | tooDeep firstOther => exact absurd shallow firstOther.not_shallow
    | unclosed => rfl

/-- A text that is refused is not both shallow and without a group left open. -/
theorem Refused.not_closed {limit : Nat} {text : Text} {error : DirectiveError}
    (refused : Refused limit text error) : ¬ (Shallow limit text ∧ openGroups text = 0) := by
  rintro ⟨shallow, closed⟩
  cases refused with
  | tooDeep first => exact first.not_shallow shallow
  | unclosed _ stillOpen => omega

/-- The outcome of counting through the rest of a text, from a position and a counter. -/
def verdict (limit : Nat) : Nat → Nat → Text → Except DirectiveError Unit
  | position, count, [] => if 0 < count then .error ⟨.unclosed, position⟩ else .ok ()
  | position, count, c :: rest =>
    if c = '{' ∧ limit ≤ count then .error ⟨.tooDeep limit, position⟩
    else verdict limit (position + c.utf8Size) (countBrace count c) rest

/-- Characters that are no braces are counted for their size only. -/
theorem verdict_append_of_flat (limit : Nat) (front rest : Text) (position count : Nat)
    (flat : ∀ c ∈ front, c ≠ '{' ∧ c ≠ '}') :
    verdict limit position count (front ++ rest) =
      verdict limit (position + Text.byteSize front) count rest := by
  induction front generalizing position with
  | nil => rfl
  | cons c front ih =>
    obtain ⟨flatHere, flatFront⟩ := List.forall_mem_cons.mp flat
    have goesOn : ¬ (c = '{' ∧ limit ≤ count) := fun deep => flatHere.1 deep.1
    rw [List.cons_append, verdict, if_neg goesOn, countBrace_of_flat flatHere, ih _ flatFront,
      Text.byteSize_cons, Nat.add_assoc]

/-- The head of a group that leaves nothing behind holds no brace. -/
theorem Head.Maximal.flat {head : Head} {following : Text} (maximal : head.Maximal following) :
    ∀ c ∈ head.source, c ≠ '{' ∧ c ≠ '}' := by
  cases head with
  | plain => exact fun _ => nofun
  | named name spaced =>
    intro c inside
    rw [Head.source, List.mem_append, List.mem_cons] at inside
    rcases inside with (rfl | letter) | blank
    · decide
    · exact isLetter_ne_brace (maximal.1 c letter)
    · obtain rfl : c = ' ' := by
        cases spaced with
        | true => exact List.mem_singleton.mp blank
        | false => cases blank
      decide

/-- Matching braces ends as counting does from the number of the groups that are open. The text
is taken up by whole heads of groups, so the induction is on its length. -/
theorem map_value_nest (limit : Nat) (text : Text) (position : Nat) (pending : List Pending)
    (before : List Item) :
    (nest limit position pending before (scan text)).value.map (fun _ => ()) =
      verdict limit position pending.length text := by
  induction size : text.length using Nat.strongRecOn generalizing text position pending before with
  | ind size shorter =>
    cases text with
    | nil => cases pending <;> rfl
    | cons c text =>
      rw [List.length_cons] at size
      by_cases closes : c = '}'
      · subst closes
        rw [scan_closing, verdict, if_neg (fun deep => absurd deep.1 (by decide))]
        cases pending with
        | nil => exact shorter text.length (by omega) text _ [] _ rfl
        | cons group pending => exact shorter text.length (by omega) text _ pending _ rfl
      by_cases opens : c = '{'
      · subst opens
        obtain ⟨head, following, rfl, maximal⟩ := exists_maximal_head text
        rw [List.length_append] at size
        rw [← List.cons_append, scan_opening head following maximal, List.cons_append, nest,
          verdict]
        by_cases deep : limit ≤ pending.length
        · rw [if_pos deep, if_pos ⟨rfl, deep⟩]
          rfl
        · rw [if_neg deep, if_neg (fun refused => deep refused.2), Diagnosed.value_bind,
            shorter following.length (by omega) following _ _ _ rfl,
            verdict_append_of_flat limit head.source following _ _ maximal.flat]
          rfl
      · have goesOn : ¬ (c = '{' ∧ limit ≤ pending.length) := fun deep => opens deep.1
        rw [scan_char opens closes, nest, verdict, if_neg goesOn,
          countBrace_of_flat ⟨opens, closes⟩]
        exact shorter text.length (by omega) text _ _ _ rfl

/-- Counting through a text refuses it, or finds it shallow with all groups closed. The induction
moves one character at a time from the rest to what has been counted. -/
theorem verdict_behind (limit : Nat) (front rest : Text) (shallow : Shallow limit front) :
    match verdict limit (Text.byteSize front) (openGroups front) rest with
    | .ok _ => Shallow limit (front ++ rest) ∧ openGroups (front ++ rest) = 0
    | .error error => Refused limit (front ++ rest) error := by
  induction rest generalizing front with
  | nil =>
    rw [verdict, List.append_nil]
    by_cases stillOpen : 0 < openGroups front
    · rw [if_pos stillOpen]
      exact .unclosed shallow stillOpen
    · rw [if_neg stillOpen]
      exact ⟨shallow, Nat.eq_zero_of_not_pos stillOpen⟩
  | cons c rest ih =>
    rw [verdict]
    by_cases deep : c = '{' ∧ limit ≤ openGroups front
    · rw [if_pos deep]
      obtain ⟨rfl, reached⟩ := deep
      refine .tooDeep ⟨?_, shallow, Nat.lt_succ_of_le reached⟩
      exact (List.prefix_append_right_inj front).mpr ⟨rest, rfl⟩
    · rw [if_neg deep]
      have counted := ih (front ++ [c]) (shallow.concat deep)
      rw [openGroups_concat, Text.byteSize_append, List.append_assoc] at counted
      exact counted

/-- A text is read, or refused as counting says. -/
theorem parse_cases (limit : Nat) (text : Text) :
    (∃ items, (parse limit text).value = .ok items ∧ Shallow limit text ∧ openGroups text = 0) ∨
      ∃ error, (parse limit text).value = .error error ∧ Refused limit text error := by
  have counted := verdict_behind limit [] text (shallow_nil limit)
  have matched : (parse limit text).value.map (fun _ => ()) = verdict limit 0 0 text :=
    map_value_nest limit text 0 [] []
  change match verdict limit 0 0 text with | .ok _ => _ | .error error => _ at counted
  rw [← matched] at counted
  cases read : (parse limit text).value with
  | ok items =>
    rw [read] at counted
    exact .inl ⟨items, rfl, counted⟩
  | error error =>
    rw [read] at counted
    exact .inr ⟨error, rfl, counted⟩

/-- A text is refused exactly as counting says. -/
theorem parse_eq_error_iff (limit : Nat) (text : Text) (error : DirectiveError) :
    (parse limit text).value = .error error ↔ Refused limit text error := by
  rcases parse_cases limit text with ⟨items, read, counted⟩ | ⟨found, failed, refused⟩
  · rw [read]
    exact iff_of_false nofun fun refused => refused.not_closed counted
  · rw [failed, Except.error.injEq]
    constructor
    · rintro rfl
      exact refused
    · exact refused.unique

/-- Resolving fails as reading does, whatever the target is. -/
theorem resolve_eq_error_iff (limits : Limits) (target : Target) (text : Text)
    (error : DirectiveError) :
    (resolve limits target text).value = .error error ↔
      Refused limits.directiveDepth text error := by
  rw [← parse_eq_error_iff, resolve_eq_map_parse, Diagnosed.value_map]
  cases (parse limits.directiveDepth text).value with
  | ok items => exact iff_of_false nofun nofun
  | error found => rw [Except.map, Except.error.injEq, Except.error.injEq]

/-- The groups of a text nest exactly if it is shallow and leaves none of them open. -/
theorem nests_iff_counted (limit : Nat) (text : Text) :
    Nests limit text ↔ Shallow limit text ∧ openGroups text = 0 := by
  rw [nests_iff_isOk]
  rcases parse_cases limit text with ⟨items, read, counted⟩ | ⟨error, failed, refused⟩
  · rw [read]
    exact iff_of_true rfl counted
  · rw [failed]
    exact iff_of_false nofun refused.not_closed

/-- What a text yields does not depend on the limit, as long as its groups keep to it. -/
theorem Reads.mono {limit deeper : Nat} {text : Text} {items : List Item}
    (reads : Reads limit text items) (higher : limit ≤ deeper) : Reads deeper text items :=
  ⟨reads.prose, Nat.le_trans reads.shallow higher, reads.source⟩

/-- Resolving fails for the limit at the first brace that raises the counter above it, whatever
stands behind that brace. Without such a brace it fails at the end of a text that leaves a
group open, and in no other case. A text that is resolved is resolved alike under every
higher limit. -/
theorem resolve_fails_exactly (limits : Limits) (target : Target) (text : Text) :
    let limit := limits.directiveDepth
    (∀ message position,
      (∃ error, (resolve limits target text).value = .error error ∧
          error.message = message ∧ error.position = position) ↔
        (message = "brace nesting deeper than ".toList ++ Text.decimal limit ∧
            ∃ before, FirstTooDeep limit text before ∧ position = Text.byteSize before) ∨
          (message = "want \x60\x7d\x60 got end of input".toList ∧
            position = Text.byteSize text ∧ Shallow limit text ∧ 0 < openGroups text)) ∧
    ((∃ resolved, (resolve limits target text).value = .ok resolved) ↔
      Shallow limit text ∧ openGroups text = 0) ∧
    ∀ deeper : Limits, limit ≤ deeper.directiveDepth → ∀ resolved,
      (resolve limits target text).value = .ok resolved →
        (resolve deeper target text).value = .ok resolved := by
  intro limit
  refine ⟨?_, ?_, ?_⟩
  · intro message position
    constructor
    · rintro ⟨error, failed, rfl, rfl⟩
      cases (resolve_eq_error_iff limits target text error).mp failed with
      | tooDeep first => exact .inl ⟨rfl, _, first, rfl⟩
      | unclosed shallow stillOpen => exact .inr ⟨rfl, rfl, shallow, stillOpen⟩
    · rintro (⟨rfl, before, first, rfl⟩ | ⟨rfl, rfl, shallow, stillOpen⟩)
      · exact ⟨_, (resolve_eq_error_iff limits target text _).mpr (.tooDeep first), rfl, rfl⟩
      · exact ⟨_, (resolve_eq_error_iff limits target text _).mpr (.unclosed shallow stillOpen), rfl, rfl⟩
  · rw [← nests_iff_counted]
    constructor
    · rintro ⟨resolved, found⟩
      obtain ⟨items, reads, _⟩ := exists_reads_of_resolve found
      exact ⟨items, reads⟩
    · rintro ⟨items, reads⟩
      exact ⟨_, value_resolve_of_reads reads target⟩
  · intro deeper higher resolved found
    obtain ⟨items, reads, rfl⟩ := exists_reads_of_resolve found
    exact value_resolve_of_reads (reads.mono higher) target

/-- A closing brace outside of all groups leaves no room for a deeper group, and offsets count
bytes. -/
example : (resolve { directiveDepth := 1 } .text "\x7d\x7bé\x7b".toList).value =
    .error ⟨.tooDeep 1, 4⟩ :=
  rfl

end CommentMarkdown.Directive
