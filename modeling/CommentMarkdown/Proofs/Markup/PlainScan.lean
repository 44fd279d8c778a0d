import CommentMarkdown.Markup.TagPair
import CommentMarkdown.Proofs.Text.Runs
import Mathlib.Data.List.Infix

/-!
# The plain scan for tag pairs

A scan for tag pairs needs neither a memory nor an early end. `plainScan` looks at one angle
bracket after the other. Where a name stands behind it, the tag ends at the next closing bracket,
and all of the text behind that is searched for the end tag of the name. Without a closing
bracket only the opening one is skipped.

The look for a tag pair gives the same answer. What it remembers of a name is the last end tag in
the whole text, and one stands behind a tag exactly if the last one does
(`any_lastOccurrence?_iff`). So the memory only has to be exact, whichever names are in it.
Behind a tag that does not end there is no closing bracket, so the plain scan goes on there in
vain (`plainScan_of_endless`).
-/

namespace CommentMarkdown.TagPair

/-- Whether the scan without a memory finds a pair. -/
def plainScan : Text → Bool
  | [] => false
  | c :: rest =>
    let name := rest.takeWhile Text.isWord
    let behindName := rest.dropWhile Text.isWord
    if c = '<' ∧ name ≠ [] ∧ '>' ∈ behindName then
      let behind := (behindName.dropWhile (· != '>')).tail
      decide (endTag name <:+: behind) || plainScan behind
    else plainScan rest
termination_by text => text.length
decreasing_by
  · have shorterName := (List.dropWhile_suffix (l := rest) Text.isWord).length_le
    have shorter := (List.dropWhile_suffix (l := rest.dropWhile Text.isWord) (· != '>')).length_le
    rw [List.length_tail, List.length_cons]
    omega
  · exact Nat.lt_succ_self _

/-- What stands between the two brackets of a tag: its name, as long as it can be, and anything
else. -/
structure InTag (name inside : Text) : Prop where
  named : name ≠ []
  letters : ∀ c ∈ name, Text.isWord c = true
  maximal : ∀ c ∈ inside.head?, Text.isWord c = false
  unended : '>' ∉ inside

/-- The bracket that ends a tag is no letter of a name, so the name ends in front of it. -/
theorem InTag.ends {name inside : Text} (tag : InTag name inside) (behind : Text) :
    ∀ c ∈ (inside ++ '>' :: behind).head?, Text.isWord c = false := by
  cases inside with
  | nil =>
    intro c first
    obtain rfl : '>' = c := Option.some.inj first
    decide
  | cons c rest => exact tag.maximal

/-- A text in which a tag ends somewhere begins with a tag, unless it begins with something else
than a bracket that has a letter behind it. -/
theorem tag_or_skip {c : Char} {rest : Text} (ended : '>' ∈ c :: rest) :
    (∃ name inside behind : Text,
        c = '<' ∧ rest = name ++ (inside ++ '>' :: behind) ∧ InTag name inside) ∨
      (c = '<' → ∀ d ∈ rest.head?, Text.isWord d = false) := by
  obtain ⟨name, following, rfl, letters, ends⟩ := Text.exists_run Text.isWord rest
  by_cases begins : c = '<' ∧ name ≠ []
  · obtain ⟨rfl, named⟩ := begins
    have endedBehind : '>' ∈ following := by
      rw [List.mem_cons, List.mem_append] at ended
      rcases ended with opening | letter | behind
      · exact absurd opening (by decide)
      · exact absurd (letters '>' letter) (by decide)
      · exact behind
    obtain ⟨inside, behind, rfl, unended⟩ := List.eq_append_cons_of_mem endedBehind
    refine .inl ⟨name, inside, behind, rfl, rfl, named, letters, ?_, unended⟩
    intro d first
    apply ends
    rw [List.head?_append, Option.mem_def.mp first]
    rfl
  · right
    intro opens
    obtain rfl : name = [] := Decidable.not_not.mp fun named => begins ⟨opens, named⟩
    exact ends

/-- The plain scan searches behind a tag for its end tag, and goes on there. -/
theorem plainScan_tag {name inside : Text} (tag : InTag name inside) (behind : Text) :
    plainScan ('<' :: (name ++ (inside ++ '>' :: behind))) =
      (decide (endTag name <:+: behind) || plainScan behind) := by
  obtain ⟨sameName, sameRest⟩ := Text.takeWhile_run tag.letters (tag.ends behind)
  have ended : '>' ∈ inside ++ '>' :: behind :=
    List.mem_append_right inside List.mem_cons_self
  have within : ∀ c ∈ inside, (c != '>') = true := by
    intro c member
    rw [bne_iff_ne]
    rintro rfl
    exact tag.unended member
  have found : (inside ++ '>' :: behind).dropWhile (· != '>') = '>' :: behind :=
    (Text.takeWhile_run within (by simp)).2
  rw [plainScan]
  simp only [sameName, sameRest, found, List.tail_cons]
  rw [if_pos ⟨trivial, tag.named, ended⟩]

/-- The plain scan skips a character that begins no tag. -/
theorem plainScan_skip {c : Char} {rest : Text}
    (noTag : c = '<' → ∀ d ∈ rest.head?, Text.isWord d = false) :
    plainScan (c :: rest) = plainScan rest := by
  rw [plainScan]
  refine if_neg fun tag => tag.2.1 ?_
  have letters : ∀ c ∈ ([] : Text), Text.isWord c = true := fun _ => nofun
  exact (Text.takeWhile_run letters (noTag tag.1)).1

/-- Without a bracket that ends a tag the plain scan finds nothing. -/
theorem plainScan_of_endless (text : Text) (endless : '>' ∉ text) : plainScan text = false := by
  induction text with
  | nil => rw [plainScan]
  | cons c rest ih =>
    have endlessRest : '>' ∉ rest := fun member => endless (List.mem_cons_of_mem c member)
    rw [plainScan, if_neg, ih endlessRest]
    exact fun tag => endlessRest ((List.dropWhile_sublist Text.isWord).mem tag.2.2)

/-- A last occurrence does not lie in front of where the text begins. -/
theorem le_of_lastOccurrence? {pattern text : Text} {start offset : Nat}
    (found : lastOccurrence? pattern start text = some offset) : start ≤ offset := by
  induction text generalizing start with
  | nil => cases found
  | cons c rest ih =>
    rw [lastOccurrence?, Option.or_eq_some_iff] at found
    rcases found with behind | ⟨_, here⟩
    · have later := ih behind
      omega
    · split at here
      next => exact Nat.le_of_eq (Option.some.inj here)
      next => cases here

/-- The last occurrence of a pattern lies behind an offset exactly if any occurrence does. -/
theorem any_lastOccurrence?_iff {pattern : Text} (nonempty : pattern ≠ []) (text : Text)
    (start offset : Nat) :
    (lastOccurrence? pattern start text).any (offset < ·) = true ↔
      ∃ before behind, text = before ++ (pattern ++ behind) ∧ offset < start + before.length := by
  induction text generalizing start with
  | nil =>
    refine iff_of_false nofun ?_
    rintro ⟨before, behind, split, _⟩
    exact nonempty (List.append_eq_nil_iff.mp (List.append_eq_nil_iff.mp split.symm).2).1
  | cons c rest ih =>
    have inRest : (∃ before behind, c :: rest = before ++ (pattern ++ behind) ∧
        offset < start + before.length) ↔
        (pattern <+: c :: rest ∧ offset < start) ∨
          ∃ before behind, rest = before ++ (pattern ++ behind) ∧
            offset < start + 1 + before.length := by
      constructor
      · rintro ⟨before, behind, split, later⟩
        cases before with
        | nil => exact .inl ⟨⟨behind, split.symm⟩, later⟩
        | cons first before =>
          refine .inr ⟨before, behind, (List.cons.inj split).2, ?_⟩
          rw [List.length_cons] at later
          omega
      · rintro (⟨⟨behind, split⟩, later⟩ | ⟨before, behind, rfl, later⟩)
        · exact ⟨[], behind, split.symm, later⟩
        · refine ⟨c :: before, behind, rfl, ?_⟩
          rw [List.length_cons]
          omega
    rw [inRest, ← ih (start + 1), lastOccurrence?]
    cases found : lastOccurrence? pattern (start + 1) rest with
    | none =>
      rw [Option.none_or]
      by_cases here : pattern <+: c :: rest
      · rw [if_pos (List.isPrefixOf_iff_prefix.mpr here)]
        simp [here]
      · rw [if_neg (mt List.isPrefixOf_iff_prefix.mp here)]
        simp [here]
    | some last =>
      -- Where the pattern occurs here, the one found behind lies later still.
      have bound := le_of_lastOccurrence? found
      simp only [Option.some_or, Option.any_some, decide_eq_true_eq]
      omega

/-- An end tag has characters. -/
theorem endTag_ne_nil (name : Text) : endTag name ≠ [] :=
  List.cons_ne_nil _ _

/-- The last occurrence in a text lies behind a character exactly if there is one in what follows
the character. -/
theorem any_lastOccurrence?_append {pattern : Text} (nonempty : pattern ≠ [])
    (front behind : Text) (c : Char) :
    (lastOccurrence? pattern 0 (front ++ c :: behind)).any (front.length < ·) =
      decide (pattern <:+: behind) := by
  rw [Bool.eq_iff_iff, decide_eq_true_eq, any_lastOccurrence?_iff nonempty]
  constructor
  · rintro ⟨before, after, split, later⟩
    rw [Nat.zero_add] at later
    rcases List.append_eq_append_iff.mp split with ⟨between, rfl, rest⟩ | ⟨between, rfl, _⟩
    · cases between with
      | nil => simp at later
      | cons first between =>
        rw [(List.cons.inj rest).2]
        exact ⟨between, after, List.append_assoc between pattern after⟩
    · rw [List.length_append] at later
      omega
  · rintro ⟨between, after, rfl⟩
    refine ⟨front ++ c :: between, after, by simp, ?_⟩
    rw [List.length_append, List.length_cons]
    omega

/-- What is remembered of a name is its last end tag in the whole text. -/
def Memory.Exact (whole : Text) (memory : Memory) : Prop :=
  ∀ name offset, memory.lookup name = some offset →
    offset = lastOccurrence? (endTag name) 0 whole

/-- Looking a name up gives its last end tag, whether it has been remembered or not, and leaves
the memory exact. -/
theorem lastEndTag_of_exact {whole : Text} {memory : Memory} (exact : memory.Exact whole)
    (name : Text) :
    (lastEndTag whole memory name).1 = lastOccurrence? (endTag name) 0 whole ∧
      (lastEndTag whole memory name).2.Exact whole := by
  unfold lastEndTag
  cases known : memory.lookup name with
  | some offset => exact ⟨exact name offset known, exact⟩
  | none =>
    refine ⟨rfl, ?_⟩
    intro other offset found
    rw [List.lookup_cons] at found
    by_cases same : other = name
    · subst same
      rw [beq_self_eq_true] at found
      exact (Option.some.inj found).symm
    · rw [beq_eq_false_iff_ne.mpr same] at found
      exact exact other offset found

section

variable (whole : Text) (memory : Memory)

/-- The letters of a name are read one by one. -/
theorem occursFrom_name {name : Text} (letters : ∀ c ∈ name, Text.isWord c = true)
    (offset : Nat) (read following : Text) :
    occursFrom whole offset memory (.naming read) (name ++ following) =
      occursFrom whole (offset + name.length) memory (.naming (name.reverse ++ read))
        following := by
  induction name generalizing offset read with
  | nil => rfl
  | cons c name ih =>
    obtain ⟨letter, lettersRest⟩ := List.forall_mem_cons.mp letters
    rw [List.cons_append, occursFrom, Place.step, if_pos letter]
    simp only [ih lettersRest, List.length_cons, List.reverse_cons, List.append_assoc,
      List.singleton_append]
    rw [Nat.add_right_comm, Nat.add_assoc]

/-- Behind a name the tag goes on. -/
theorem occursFrom_of_named {read following : Text} (named : read ≠ [])
    (ends : ∀ c ∈ following.head?, Text.isWord c = false) (offset : Nat) :
    occursFrom whole offset memory (.naming read) following =
      occursFrom whole offset memory (.inside read.reverse) following := by
  cases following with
  | nil => rfl
  | cons c rest =>
    have noLetter : ¬ Text.isWord c = true := Bool.not_eq_true _ ▸ ends c rfl
    have some : ¬ read.isEmpty = true := fun none => named (List.isEmpty_iff.mp none)
    rw [occursFrom, occursFrom, Place.step, Place.step, if_neg noLetter, if_neg some]

/-- A bracket without a name behind it begins no tag. -/
theorem occursFrom_of_nameless {following : Text}
    (ends : ∀ c ∈ following.head?, Text.isWord c = false) (offset : Nat) :
    occursFrom whole offset memory (.naming []) following =
      occursFrom whole offset memory .outside following := by
  cases following with
  | nil => rfl
  | cons c rest =>
    have noLetter : ¬ Text.isWord c = true := Bool.not_eq_true _ ▸ ends c rfl
    rw [occursFrom, occursFrom, Place.step, Place.step, if_neg noLetter]
    rfl

/-- Inside a tag everything is passed over up to its end. -/
theorem occursFrom_inside {inside : Text} (unended : '>' ∉ inside) (offset : Nat)
    (name rest : Text) :
    occursFrom whole offset memory (.inside name) (inside ++ rest) =
      occursFrom whole (offset + inside.length) memory (.inside name) rest := by
  induction inside generalizing offset with
  | nil => rfl
  | cons c inside ih =>
    rw [List.mem_cons, not_or] at unended
    rw [List.cons_append, occursFrom, Place.step, Place.proceed, if_neg (Ne.symm unended.1)]
    simp only [ih unended.2, List.length_cons]
    rw [Nat.add_right_comm, Nat.add_assoc]

/-- A character that begins no tag is passed over. -/
theorem occursFrom_skip {c : Char} {rest : Text}
    (noTag : c = '<' → ∀ d ∈ rest.head?, Text.isWord d = false) (offset : Nat) :
    occursFrom whole offset memory .outside (c :: rest) =
      occursFrom whole (offset + 1) memory .outside rest := by
  by_cases opens : c = '<'
  · rw [occursFrom, Place.step, Place.restart, if_pos opens]
    exact occursFrom_of_nameless whole memory (noTag opens) _
  · rw [occursFrom, Place.step, Place.restart, if_neg opens]

/-- A tag is passed over up to its end, where the last end tag of its name is looked up. -/
theorem occursFrom_tag {name inside : Text} (tag : InTag name inside) (offset : Nat)
    (behind : Text) :
    let ending := offset + ('<' :: (name ++ inside)).length
    let found := lastEndTag whole memory name
    occursFrom whole offset memory .outside ('<' :: (name ++ (inside ++ '>' :: behind))) =
      (found.1.any (ending < ·) || occursFrom whole (ending + 1) found.2 .outside behind) := by
  intro ending found
  have read : name.reverse ≠ [] := mt List.reverse_eq_nil_iff.mp tag.named
  have place : offset + 1 + name.length + inside.length = ending := by
    simp only [ending, List.length_cons, List.length_append]
    omega
  have passed : occursFrom whole offset memory .outside
      ('<' :: (name ++ (inside ++ '>' :: behind))) =
        occursFrom whole ending memory (.inside name) ('>' :: behind) := by
    have named := occursFrom_name whole memory tag.letters (offset + 1) [] (inside ++ '>' :: behind)
    rw [List.append_nil, occursFrom_of_named whole memory read (tag.ends behind),
      List.reverse_reverse, occursFrom_inside whole memory tag.unended, place] at named
    exact named
  rw [passed, occursFrom, Place.step, Place.proceed, if_pos rfl]
  change (if found.1.any (ending < ·) = true then true else _) = _
  cases found.1.any (ending < ·) <;> rfl

/-- Without a bracket that ends a tag no pair is found, wherever the look has come to. -/
theorem occursFrom_of_endless {text : Text} (endless : '>' ∉ text) (offset : Nat)
    (place : Place) : occursFrom whole offset memory place text = false := by
  induction text generalizing offset place with
  | nil => rw [occursFrom]
  | cons c rest ih =>
    rw [List.mem_cons, not_or] at endless
    have goesOn (name : Text) : Place.proceed name c = (.inside name, none) :=
      if_neg (Ne.symm endless.1)
    have unfinished : (place.step c).2 = none := by
      cases place with
      | outside => rfl
      | naming letters =>
        rw [Place.step]
        split
        · rfl
        · split
          · rfl
          · rw [goesOn]
      | inside name => rw [Place.step, goesOn]
    rw [occursFrom]
    cases stepped : place.step c with
    | mk next finished =>
      obtain rfl : finished = none := by rw [stepped] at unfinished; exact unfinished
      exact ih endless.2 (offset + 1) next

end

/-- The look for a pair goes on outside of tags as the plain scan does, from any point of the
text and with any memory that is exact. A tag is passed over as a whole, so the induction is
on the length of what is left. -/
theorem occursFrom_outside (whole : Text) (memory : Memory) (exact : memory.Exact whole)
    (front rest : Text) (split : whole = front ++ rest) :
    occursFrom whole front.length memory .outside rest = plainScan rest := by
  induction size : rest.length using Nat.strongRecOn generalizing memory front rest with
  | ind size shorter =>
    cases rest with
    | nil => rw [plainScan, occursFrom]
    | cons c rest =>
      rw [List.length_cons] at size
      by_cases endless : '>' ∉ c :: rest
      · rw [occursFrom_of_endless whole memory endless, plainScan_of_endless _ endless]
      rcases tag_or_skip (Decidable.not_not.mp endless) with
        ⟨name, inside, behind, rfl, rfl, tag⟩ | noTag
      · obtain ⟨recalled, exactNext⟩ := lastEndTag_of_exact exact name
        have splitHere : whole = (front ++ '<' :: (name ++ inside)) ++ '>' :: behind := by
          simpa using split
        have splitNext : whole = (front ++ '<' :: (name ++ inside) ++ ['>']) ++ behind := by
          simpa using split
        have place : front.length + ('<' :: (name ++ inside)).length =
            (front ++ '<' :: (name ++ inside)).length := List.length_append.symm
        have found : (lastOccurrence? (endTag name) 0 whole).any
            ((front ++ '<' :: (name ++ inside)).length < ·) =
              decide (endTag name <:+: behind) := by
          rw [splitHere]
          exact any_lastOccurrence?_append (endTag_ne_nil name) _ behind '>'
        simp only [List.length_append, List.length_cons] at size
        have next := shorter behind.length (by omega) _ exactNext _ behind splitNext rfl
        rw [List.length_append, List.length_singleton] at next
        rw [plainScan_tag tag, occursFrom_tag whole memory tag, recalled, place, found, next]
      · have splitNext : whole = (front ++ [c]) ++ rest := by
          rw [split, List.append_assoc]
          rfl
        have next := shorter rest.length (by omega) memory exact (front ++ [c]) rest splitNext rfl
        rw [List.length_append, List.length_singleton] at next
        rw [plainScan_skip noTag, occursFrom_skip whole memory noTag, next]

/-- A look for a pair remembers one end tag for each name and stops at the first tag that does not
end. Neither changes the answer: it is that of the plain scan. -/
theorem occurs_eq_plainScan (text : Text) : occurs text = plainScan text := by
  have exact : Memory.Exact text [] := fun _ _ => nofun
  exact occursFrom_outside text [] exact [] text rfl

end CommentMarkdown.TagPair
