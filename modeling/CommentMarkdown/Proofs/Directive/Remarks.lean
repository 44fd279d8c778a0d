import CommentMarkdown.Proofs.Directive.Continuation
import CommentMarkdown.Proofs.Directive.Segments
import CommentMarkdown.Proofs.Log.Listening

/-!
# Remarks on prose

Replacing the directives of a text may give rise to remarks: one on each directive whose name has
no meaning, and one more if the text is left as it is. Which directives are remarked on can be told
without matching a brace. Wherever an opening brace with an at sign behind it stands in front of
the place at which reading stops, a directive begins, however deep it lies, and its name is made
up of the letters that follow (`mem_unknownFrom_iff`).

Reading goes on behind the whole head of a group. A head holds no brace, so no beginning of a group
is missed (`unknownFrom_opening`). At the brace at which reading stops nothing has been read of a
head, so nothing is said about it (`log_nest`).
-/

namespace CommentMarkdown.Directive

open Token
open Log (Logger Outside Record)

/-- The name of the directive that a text begins with, if it has no meaning. -/
def unknownAhead? (text : Text) : Option Text :=
  (Text.behind? ['{', '@'] text).bind fun rest =>
    (Head.named (rest.takeWhile Text.isLetter) false).unknownName?

/-- The names without a meaning that directives have in a text that begins at a byte position, each
with the position of its brace. -/
def unknownFrom : Nat → Text → List (Nat × Text)
  | _, [] => []
  | position, c :: rest =>
    ((unknownAhead? (c :: rest)).map (position, ·)).toList ++
      unknownFrom (position + c.utf8Size) rest

/-- At an offset an opening brace and an at sign stand in front of a name, taken up to its last
letter, that has no meaning. -/
def UnknownAt (text : Text) (offset : Nat) (name : Text) : Prop :=
  ∃ before following, text = before ++ '{' :: '@' :: name ++ following ∧
    offset = Text.byteSize before ∧ (∀ c ∈ name, Text.isLetter c = true) ∧
    (∀ c ∈ following.head?, Text.isLetter c = false) ∧ name ∉ recognizedNames

/-- The position up to which a text is read: that of the error, or the end. -/
def reached {α : Type} (finish : Nat) : Except DirectiveError α → Nat
  | .ok _ => finish
  | .error error => error.position

/-- How far a text is read has nothing to do with what becomes of it. -/
theorem reached_map {α β : Type} (finish : Nat) (f : α → β) (outcome : Except DirectiveError α) :
    reached finish (outcome.map f) = reached finish outcome := by
  cases outcome <;> rfl

/-- The name of a directive has no meaning exactly if it is not recognised. -/
theorem unknownName?_eq_some_iff (name : Text) (spaced : Bool) (found : Text) :
    (Head.named name spaced).unknownName? = some found ↔
      name ∉ recognizedNames ∧ name = found := by
  have known : (Head.named name spaced).style ≠ .bare ↔ name ∈ recognizedNames := by
    rw [← recognized_iff]
    exact decide_eq_true_iff
  rw [Head.unknownName?, Option.ite_none_right_eq_some, Option.some.injEq, ← known,
    Decidable.not_not]

/-- A text begins with a directive without a meaning exactly if it begins with a brace, an at sign
and such a name. -/
theorem unknownAhead?_eq_some_iff (text name : Text) :
    unknownAhead? text = some name ↔
      ∃ following, text = '{' :: '@' :: name ++ following ∧
        (∀ c ∈ name, Text.isLetter c = true) ∧
        (∀ c ∈ following.head?, Text.isLetter c = false) ∧ name ∉ recognizedNames := by
  simp only [unknownAhead?, Option.bind_eq_some_iff, Text.behind?_eq_some_iff,
    unknownName?_eq_some_iff]
  constructor
  · rintro ⟨rest, rfl, unknown, rfl⟩
    obtain ⟨run, behind, rfl, letters, ends⟩ := Text.exists_run Text.isLetter rest
    rw [(Text.takeWhile_run letters ends).1] at unknown ⊢
    exact ⟨behind, rfl, letters, ends, unknown⟩
  · rintro ⟨following, rfl, letters, ends, unknown⟩
    have run := (Text.takeWhile_run letters ends).1
    exact ⟨name ++ following, rfl, run.symm ▸ unknown, run⟩

/-- Only an opening brace begins a directive. -/
theorem unknownAhead?_of_ne {c : Char} (noOpening : c ≠ '{') (rest : Text) :
    unknownAhead? (c :: rest) = none := by
  rw [Option.eq_none_iff_forall_ne_some]
  intro name found
  obtain ⟨_, whole, _⟩ := (unknownAhead?_eq_some_iff _ _).mp found
  exact noOpening (List.cons.inj whole).1

/-- What a maximal head leaves behind its name begins with no letter. -/
theorem Head.Maximal.ends {name : Text} {spaced : Bool} {following : Text}
    (maximal : (Head.named name spaced).Maximal following) :
    ∀ c ∈ ((if spaced then [' '] else []) ++ following).head?, Text.isLetter c = false := by
  cases spaced with
  | true =>
    intro c first
    obtain rfl : ' ' = c := Option.some.inj first
    decide
  | false => exact fun c first => (maximal.2 rfl c first).1

/-- In front of a brace and a maximal head a directive without a meaning is seen exactly if the head
is that of one. -/
theorem unknownAhead?_head {head : Head} {following : Text} (maximal : head.Maximal following) :
    unknownAhead? ('{' :: head.source ++ following) = head.unknownName? := by
  cases head with
  | plain =>
    rw [Head.unknownName?, Option.eq_none_iff_forall_ne_some]
    intro name found
    obtain ⟨_, whole, _⟩ := (unknownAhead?_eq_some_iff _ _).mp found
    have first : following.head? = some '@' := congrArg List.head? (List.cons.inj whole).2
    exact absurd first maximal
  | named name spaced =>
    have begins : Text.behind? ['{', '@'] ('{' :: (Head.named name spaced).source ++ following) =
        some (name ++ ((if spaced then [' '] else []) ++ following)) := by
      rw [Text.behind?_eq_some_iff]
      simp [Head.source]
    rw [unknownAhead?, begins, Option.bind_some, (Text.takeWhile_run maximal.1 maximal.ends).1]
    rfl

/-- Characters that are no braces begin nothing. -/
theorem unknownFrom_append_of_flat (position : Nat) {front : Text}
    (flat : ∀ c ∈ front, c ≠ '{' ∧ c ≠ '}') (rest : Text) :
    unknownFrom position (front ++ rest) =
      unknownFrom (position + Text.byteSize front) rest := by
  induction front generalizing position with
  | nil => rfl
  | cons c front ih =>
    obtain ⟨flatHere, flatFront⟩ := List.forall_mem_cons.mp flat
    rw [List.cons_append, unknownFrom, unknownAhead?_of_ne flatHere.1, ih _ flatFront,
      Text.byteSize_cons, Nat.add_assoc]
    rfl

/-- Behind a brace and its maximal head the search goes on. -/
theorem unknownFrom_opening (position : Nat) {head : Head} {following : Text}
    (maximal : head.Maximal following) :
    unknownFrom position ('{' :: head.source ++ following) =
      (head.unknownName?.map (position, ·)).toList ++
        unknownFrom (position + 1 + Text.byteSize head.source) following := by
  rw [← unknownAhead?_head maximal, List.cons_append, unknownFrom,
    unknownFrom_append_of_flat _ maximal.flat]
  rfl

/-- What is found from a position on is found in the rest of the text behind the characters up to
there. -/
theorem mem_unknownFrom_iff (position : Nat) (text : Text) (offset : Nat) (name : Text) :
    (offset, name) ∈ unknownFrom position text ↔
      ∃ before rest, text = before ++ rest ∧ offset = position + Text.byteSize before ∧
        unknownAhead? rest = some name := by
  induction text generalizing position with
  | nil =>
    refine iff_of_false List.not_mem_nil ?_
    rintro ⟨before, rest, whole, _, found⟩
    rw [(List.append_eq_nil_iff.mp whole.symm).2] at found
    cases found
  | cons c text ih =>
    rw [unknownFrom, List.mem_append, ih]
    constructor
    · rintro (here | ⟨before, rest, rfl, rfl, found⟩)
      · obtain ⟨found, seen, same⟩ := Option.map_eq_some_iff.mp (Option.mem_toList.mp here)
        obtain ⟨rfl, rfl⟩ := Prod.mk.inj same
        exact ⟨[], c :: text, rfl, rfl, seen⟩
      · exact ⟨c :: before, rest, rfl, by rw [Text.byteSize_cons, Nat.add_assoc], found⟩
    · rintro ⟨before, rest, whole, rfl, found⟩
      cases before with
      | nil =>
        rw [List.nil_append] at whole
        rw [whole, found]
        exact .inl (List.mem_singleton.mpr rfl)
      | cons first before =>
        obtain ⟨rfl, rfl⟩ := List.cons.inj whole
        exact .inr ⟨before, rest, rfl, by rw [Text.byteSize_cons, Nat.add_assoc], found⟩

/-- Nothing is found in front of the position at which the text begins. -/
theorem le_of_mem_unknownFrom {position : Nat} {text : Text} {found : Nat × Text}
    (member : found ∈ unknownFrom position text) : position ≤ found.1 := by
  obtain ⟨before, rest, _, same, _⟩ := (mem_unknownFrom_iff position text found.1 found.2).mp member
  exact same ▸ Nat.le_add_right position _

/-- What is found stands in order of the positions, and at each position there is one name. -/
theorem pairwise_unknownFrom (position : Nat) (text : Text) :
    (unknownFrom position text).Pairwise fun first second => first.1 < second.1 := by
  induction text generalizing position with
  | nil => exact .nil
  | cons c text ih =>
    refine List.pairwise_append.mpr ⟨?_, ih _, ?_⟩
    · cases unknownAhead? (c :: text) with
      | none => exact .nil
      | some name => exact List.pairwise_singleton _ _
    · intro here member later memberLater
      obtain ⟨name, _, rfl⟩ := Option.map_eq_some_iff.mp (Option.mem_toList.mp member)
      have behind := le_of_mem_unknownFrom memberLater
      have wide := c.utf8Size_pos
      exact Nat.lt_of_lt_of_le (Nat.lt_add_of_pos_right wide) behind

/-- Counting never ends in front of the position from which it goes on. -/
theorem le_reached_verdict (limit : Nat) (text : Text) (position count finish : Nat)
    (inside : position + Text.byteSize text ≤ finish) :
    position ≤ reached finish (verdict limit position count text) := by
  induction text generalizing position count with
  | nil =>
    rw [verdict]
    split
    next => exact Nat.le_refl position
    next => exact inside
  | cons c rest ih =>
    rw [verdict]
    split
    next => exact Nat.le_refl position
    next =>
      rw [Text.byteSize_cons, ← Nat.add_assoc] at inside
      exact Nat.le_trans (Nat.le_add_right position _) (ih _ _ inside)

/-- What is found in a text that begins at a position, and stands in front of a stop. -/
def unknownBefore (stop position : Nat) (text : Text) : List (Nat × Text) :=
  (unknownFrom position text).filter fun found => found.1 < stop

/-- A text that begins at the stop has nothing in front of it. -/
theorem unknownBefore_self (position : Nat) (text : Text) :
    unknownBefore position position text = [] := by
  rw [unknownBefore, List.filter_eq_nil_iff]
  intro found member early
  exact Nat.not_lt_of_le (le_of_mem_unknownFrom member) (of_decide_eq_true early)

/-- A directive in front of the stop is found, and the search goes on behind its head. -/
theorem unknownBefore_opening {stop position : Nat} (early : position < stop) {head : Head}
    {following : Text} (maximal : head.Maximal following) :
    unknownBefore stop position ('{' :: head.source ++ following) =
      (head.unknownName?.map (position, ·)).toList ++
        unknownBefore stop (position + 1 + Text.byteSize head.source) following := by
  rw [unknownBefore, unknownFrom_opening position maximal, List.filter_append, unknownBefore,
    List.append_cancel_right_eq, List.filter_eq_self]
  intro found member
  obtain ⟨name, _, rfl⟩ := Option.map_eq_some_iff.mp (Option.mem_toList.mp member)
  exact decide_eq_true early

/-- A character that opens no group is passed over. -/
theorem unknownBefore_of_ne (stop position : Nat) {c : Char} (noOpening : c ≠ '{') (rest : Text) :
    unknownBefore stop position (c :: rest) =
      unknownBefore stop (position + c.utf8Size) rest := by
  rw [unknownBefore, unknownFrom, unknownAhead?_of_ne noOpening]
  rfl

/-- The remark on a directive that is found. -/
def remarkOn (found : Nat × Text) : Diagnostic :=
  .unknownDirective found.2 (found.1 + 1)

/-- A head is remarked on if it is that of a directive without a meaning. -/
theorem log_remark (head : Head) (position : Nat) :
    (head.remark (position + 1)).log =
      (head.unknownName?.map (position, ·)).toList.map remarkOn := by
  unfold Head.remark
  cases head.unknownName? <;> rfl

/-- Matching braces remarks on the directives without a meaning that are found in front of the place
where it stops, in order. The text is taken up by whole heads of groups, so the induction is on its
length; the place is the one where counting stops. -/
theorem log_nest (limit : Nat) (text : Text) (position finish : Nat) (pending : List Pending)
    (before : List Item) (ends : position + Text.byteSize text = finish) :
    (nest limit position pending before (scan text)).log =
      (unknownBefore (reached finish (verdict limit position pending.length text)) position
        text).map remarkOn := by
  induction size : text.length using Nat.strongRecOn generalizing text position pending before with
  | ind size shorter =>
    cases text with
    | nil => cases pending <;> rfl
    | cons c text =>
      rw [List.length_cons] at size
      rw [Text.byteSize_cons, ← Nat.add_assoc] at ends
      by_cases closes : c = '}'
      · subst closes
        rw [scan_closing, unknownBefore_of_ne _ _ (by decide), verdict,
          if_neg (fun deep => absurd deep.1 (by decide))]
        cases pending with
        | nil => exact shorter text.length (by omega) text _ [] _ ends rfl
        | cons group pending => exact shorter text.length (by omega) text _ pending _ ends rfl
      by_cases opens : c = '{'
      · subst opens
        obtain ⟨head, following, rfl, maximal⟩ := exists_maximal_head text
        rw [List.length_append] at size
        rw [Text.byteSize_append, ← Nat.add_assoc] at ends
        rw [← List.cons_append, scan_opening head following maximal, nest]
        by_cases deep : limit ≤ pending.length
        -- The brace is refused before its head is remarked on, and what is found stands behind it.
        · have stops : verdict limit position pending.length ('{' :: head.source ++ following) =
              .error ⟨.tooDeep limit, position⟩ := if_pos ⟨rfl, deep⟩
          rw [if_pos deep, stops, reached, unknownBefore_self]
          rfl
        · have goesOn : verdict limit position pending.length ('{' :: head.source ++ following) =
              verdict limit (position + 1 + Text.byteSize head.source) (pending.length + 1)
                following := by
            rw [List.cons_append, verdict, if_neg (fun refused => deep refused.2),
              verdict_append_of_flat limit head.source following _ _ maximal.flat]
            rfl
          have early : position + 1 + Text.byteSize head.source ≤
              reached finish (verdict limit (position + 1 + Text.byteSize head.source)
                (pending.length + 1) following) :=
            le_reached_verdict limit following _ _ finish (Nat.le_of_eq ends)
          rw [if_neg deep, goesOn, unknownBefore_opening (by omega) maximal, Diagnosed.log_bind,
            log_remark, List.map_append]
          congr 1
          exact shorter following.length (by omega) following _ (⟨head, before⟩ :: pending) [] ends
            rfl
      · have goesOn : ¬ (c = '{' ∧ limit ≤ pending.length) := fun deep => opens deep.1
        rw [scan_char opens closes, nest, verdict, if_neg goesOn,
          countBrace_of_flat ⟨opens, closes⟩, unknownBefore_of_ne _ _ opens]
        exact shorter text.length (by omega) text _ _ _ ends rfl

/-- Resolving remarks on the directives without a meaning in front of the place where it stops. -/
theorem log_resolve (limits : Limits) (target : Target) (text : Text) :
    (resolve limits target text).log =
      (unknownBefore (reached (Text.byteSize text) (resolve limits target text).value) 0
        text).map remarkOn := by
  have read := log_nest limits.directiveDepth text 0 (Text.byteSize text) [] [] (Nat.zero_add _)
  have stop : reached (Text.byteSize text) (resolve limits target text).value =
      reached (Text.byteSize text) (verdict limits.directiveDepth 0 0 text) := by
    rw [← map_value_resolve limits target text, reached_map]
  rw [stop, resolve_eq_map_parse, Diagnosed.log_map]
  exact read

/-- The remark on a text that is left as it is. -/
def failureRemark : Except DirectiveError Text → List Diagnostic
  | .ok _ => []
  | .error error => [.keptUnchanged error]

/-- That remark names the error. -/
theorem exists_of_mem_failureRemark {result : Except DirectiveError Text} {remark : Diagnostic}
    (member : remark ∈ failureRemark result) : ∃ error, remark = .keptUnchanged error := by
  cases result with
  | ok resolved => cases member
  | error error => exact ⟨error, List.mem_singleton.mp member⟩

/-- Replacing adds a remark of its own exactly if resolving fails. -/
theorem log_replace (limits : Limits) (target : Target) (text : Text) :
    (replace limits target text).log =
      (resolve limits target text).log ++ failureRemark (resolve limits target text).value := by
  rw [replace, Diagnosed.log_bind]
  cases (resolve limits target text).value <;> rfl

/-- What is found in front of a stop: the directives without a meaning whose braces stand there. -/
theorem mem_unknownBefore_iff (stop : Nat) (text : Text) (offset : Nat) (name : Text) :
    (offset, name) ∈ unknownBefore stop 0 text ↔ UnknownAt text offset name ∧ offset < stop := by
  rw [unknownBefore, List.mem_filter, mem_unknownFrom_iff, decide_eq_true_iff]
  refine and_congr_left fun _ => ?_
  constructor
  · rintro ⟨before, rest, rfl, rfl, found⟩
    obtain ⟨following, rfl, letters, ends, unknown⟩ := (unknownAhead?_eq_some_iff _ _).mp found
    exact ⟨before, following, by simp, Nat.zero_add _, letters, ends, unknown⟩
  · rintro ⟨before, following, rfl, rfl, letters, ends, unknown⟩
    refine ⟨before, '{' :: '@' :: name ++ following, by simp, (Nat.zero_add _).symm, ?_⟩
    exact (unknownAhead?_eq_some_iff _ _).mpr ⟨following, rfl, letters, ends, unknown⟩

/-- A logger that keeps its records in memory and wants remarks on directives keeps exactly these when
the directives of a text are replaced: one for each directive without a meaning that begins in
front of the place where reading stops, with its name and the offset of its at sign, in order;
then one with the error, if there is one. -/
theorem replace_heard_exactly (limits : Limits) (target : Target) (text : Text) (logger : Logger)
    (id : Text) (outside : Outside) (capturing : logger.sinks = [.capture id])
    (listening : logger.shouldLog .debug "directive".toList = true) :
    let result := (resolve limits target text).value
    let found := unknownBefore (reached (Text.byteSize text) result) 0 text
    let kept (message : Text) : Text × Record :=
      (id, ⟨.debug, "directive".toList, message, outside.now.millis⟩)
    found.Pairwise (fun first second => first.1 < second.1) ∧
      (∀ offset name, (offset, name) ∈ found ↔
        UnknownAt text offset name ∧ offset < reached (Text.byteSize text) result) ∧
      (logger.observe (replace limits target text) outside).2.2.captured =
        outside.captured ++
          (found.map fun (offset, name) => kept
            ("Unknown directive \x60@".toList ++ name ++ "\x60 at offset ".toList ++
              Text.decimal (offset + 1))) ++
          match result with
          | .ok _ => []
          | .error error => [kept
              ("Keeping text unchanged: ".toList ++ error.message ++ " at offset ".toList ++
                Text.decimal error.position)] := by
  intro result found kept
  refine ⟨?_, mem_unknownBefore_iff _ text, ?_⟩
  · exact (pairwise_unknownFrom 0 text).filter _
  · have log : (replace limits target text).log = found.map remarkOn ++ failureRemark result := by
      rw [log_replace, log_resolve]
    have wanted : ∀ remark ∈ (replace limits target text).log, logger.wants remark = true := by
      intro remark member
      rw [log, List.mem_append] at member
      rcases member with unknown | failed
      · obtain ⟨place, _, rfl⟩ := List.mem_map.mp unknown
        exact listening
      · obtain ⟨error, rfl⟩ := exists_of_mem_failureRemark failed
        exact listening
    rw [Logger.observe, Logger.listen_of_capture capturing, List.filter_eq_self.mpr wanted, log,
      List.map_append, List.append_assoc, List.map_map]
    cases result <;> rfl

/-- A text in which a group is refused behind directives with and without a meaning. -/
def refusedBehindUnknown : Text :=
  "é\x7b@since \x7b@code x\x7d\x7b@ y\x7d\x7d \x7b@a1\x7b\x7b@b".toList

/-- A logger for everything but the least level, that keeps its records. -/
def debugging : Logger :=
  (Logger.ofConfig { level := .debug, console := false }).addSink (.capture "kept".toList)

/-- What is heard of the text: the two directives without a meaning that lie in each other, the one
whose name ends at a digit, and the refusal, but nothing of the directive at which it
happens. -/
theorem refusedBehindUnknown_heard :
    let outside : Outside := { now := ⟨[], 0⟩, files := .flat [] }
    let limits : Limits := { directiveDepth := 2 }
    debugging.sinks = [.capture "kept".toList] ∧
      debugging.shouldLog .debug "directive".toList = true ∧
      (resolve limits .markup refusedBehindUnknown).value = .error ⟨.tooDeep 2, 31⟩ ∧
      (∀ offset name, UnknownAt refusedBehindUnknown offset name ∧ offset < 31 ↔
        (offset, name) ∈ [(2, "since".toList), (19, []), (26, "a".toList)]) ∧
      (debugging.observe (replace limits .markup refusedBehindUnknown) outside).2.2.captured.map
          (fun entry => entry.2.message) =
        ["Unknown directive \x60@since\x60 at offset 3".toList,
          "Unknown directive \x60@\x60 at offset 20".toList,
          "Unknown directive \x60@a\x60 at offset 27".toList,
          "Keeping text unchanged: brace nesting deeper than 2 at offset 31".toList] := by
  intro outside limits
  have capturing : debugging.sinks = [.capture "kept".toList] := rfl
  have listening : debugging.shouldLog .debug "directive".toList = true := rfl
  have refused : (resolve limits .markup refusedBehindUnknown).value =
      .error ⟨.tooDeep 2, 31⟩ := rfl
  have found : unknownBefore 31 0 refusedBehindUnknown =
      [(2, "since".toList), (19, []), (26, "a".toList)] := rfl
  obtain ⟨_, places, kept⟩ := replace_heard_exactly limits .markup refusedBehindUnknown debugging
    "kept".toList outside capturing listening
  rw [refused, reached, found] at places kept
  refine ⟨capturing, listening, refused, fun offset name => (places offset name).symm, ?_⟩
  rw [kept]
  decide +kernel

end CommentMarkdown.Directive
