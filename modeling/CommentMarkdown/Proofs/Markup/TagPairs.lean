import CommentMarkdown.Proofs.Markup.PlainScan

/-!
# Which tag pairs are found

A tag pair is a tag and, anywhere behind it, the end tag of its name. The look for one passes over
each tag as a whole, so a pair is missed if its tag begins inside another one that has not ended.
An angle bracket that is only a sign of comparison does the same if a letter follows it
(`comparison_hides_pair`).

That is the only reason to miss a pair. Tags end at closing brackets, so whether the look is
outside of tags at some place depends on what stands between the last closing bracket and that
place: no bracket with a letter behind it. A text is found to hold a pair exactly if it has one
whose tag begins at such a place (`occurs_iff_visiblePair`).
-/

namespace CommentMarkdown.TagPair

/-- A tag begins behind a part of the text, and the end tag of its name stands somewhere behind
it. -/
structure PairBehind (before text : Text) (name inside behind : Text) : Prop where
  source : text = before ++ '<' :: (name ++ (inside ++ '>' :: behind))
  tag : InTag name inside
  closed : endTag name <:+: behind

/-- A tag has begun in a text and has not ended in it. -/
def TagOpen (text : Text) : Prop :=
  ∃ front c rest, text = front ++ '<' :: c :: rest ∧ Text.isWord c = true ∧ '>' ∉ rest

/-- A pair that is not hidden: its tag begins where no other tag is open. -/
def VisiblePair (text : Text) : Prop :=
  ∃ before name inside behind, PairBehind before text name inside behind ∧ ¬ TagOpen before

/-- Nothing that stands in front of a tag closes it. -/
theorem TagOpen.append {text : Text} (opened : TagOpen text) (before : Text) :
    TagOpen (before ++ text) := by
  obtain ⟨front, c, rest, rfl, letter, unended⟩ := opened
  exact ⟨before ++ front, c, rest, (List.append_assoc ..).symm, letter, unended⟩

/-- In an empty text no tag is open. -/
theorem not_tagOpen_nil : ¬ TagOpen [] := by
  rintro ⟨front, c, rest, split, _⟩
  exact List.append_ne_nil_of_right_ne_nil front (List.cons_ne_nil _ _) split.symm

/-- A tag that is open behind a character has begun there or later. -/
theorem tagOpen_cons_iff (c : Char) (text : Text) :
    TagOpen (c :: text) ↔
      (c = '<' ∧ (∃ d ∈ text.head?, Text.isWord d = true) ∧ '>' ∉ text) ∨ TagOpen text := by
  constructor
  · rintro ⟨front, d, rest, split, letter, unended⟩
    cases front with
    | nil =>
      obtain ⟨rfl, rfl⟩ := List.cons.inj split
      refine .inl ⟨rfl, ⟨d, rfl, letter⟩, ?_⟩
      rw [List.mem_cons, not_or]
      refine ⟨?_, unended⟩
      rintro rfl
      exact absurd letter (by decide)
    | cons first front => exact .inr ⟨front, d, rest, (List.cons.inj split).2, letter, unended⟩
  · rintro (⟨rfl, ⟨d, first, letter⟩, unended⟩ | opened)
    · obtain ⟨rest, rfl⟩ := List.head?_eq_some_iff.mp first
      exact ⟨[], d, rest, rfl, letter, fun member => unended (List.mem_cons_of_mem d member)⟩
    · exact opened.append [c]

/-- A bracket that ends a tag leaves none open. -/
theorem tagOpen_append_iff (front rest : Text) :
    TagOpen (front ++ '>' :: rest) ↔ TagOpen rest := by
  induction front with
  | nil =>
    rw [List.nil_append, tagOpen_cons_iff]
    exact or_iff_right fun opening => absurd opening.1 (by decide)
  | cons c front ih =>
    rw [List.cons_append, tagOpen_cons_iff]
    refine Iff.trans (or_iff_right ?_) ih
    exact fun opening => opening.2.2 (List.mem_append_right front List.mem_cons_self)

/-- The name of a tag stands right behind the bracket that begins it. -/
theorem InTag.exists_letter {name inside : Text} (tag : InTag name inside) (behind : Text) :
    ∃ d ∈ (name ++ behind).head?, Text.isWord d = true := by
  obtain ⟨d, letters, rfl⟩ := List.exists_cons_of_ne_nil tag.named
  exact ⟨d, rfl, tag.letters d List.mem_cons_self⟩

/-- Where no tag begins, the pairs that are not hidden are those of the text that follows. -/
theorem visiblePair_skip_iff {c : Char} {rest : Text}
    (noTag : c = '<' → ∀ d ∈ rest.head?, Text.isWord d = false) :
    VisiblePair (c :: rest) ↔ VisiblePair rest := by
  constructor
  · rintro ⟨before, name, inside, behind, ⟨source, tag, closed⟩, plain⟩
    cases before with
    | nil =>
      obtain ⟨rfl, rfl⟩ := List.cons.inj source
      obtain ⟨d, first, letter⟩ := tag.exists_letter (inside ++ '>' :: behind)
      exact absurd letter (by rw [noTag rfl d first]; decide)
    | cons first before =>
      refine ⟨before, name, inside, behind, ⟨(List.cons.inj source).2, tag, closed⟩, ?_⟩
      exact fun opened => plain (opened.append [first])
  · rintro ⟨before, name, inside, behind, ⟨rfl, tag, closed⟩, plain⟩
    refine ⟨c :: before, name, inside, behind, ⟨rfl, tag, closed⟩, ?_⟩
    rw [tagOpen_cons_iff]
    rintro (⟨opens, ⟨d, first, letter⟩, _⟩ | opened)
    · have here : d ∈ (before ++ '<' :: (name ++ (inside ++ '>' :: behind))).head? := by
        rw [List.head?_append, Option.mem_def.mp first]
        rfl
      exact absurd letter (by rw [noTag opens d here]; decide)
    · exact plain opened

/-- A tag holds no bracket that ends a tag but its last character. -/
theorem InTag.free {name inside : Text} (tag : InTag name inside) :
    '>' ∉ '<' :: (name ++ inside) := by
  rw [List.mem_cons, List.mem_append]
  rintro (opening | letter | within)
  · exact absurd opening (by decide)
  · exact absurd (tag.letters '>' letter) (by decide)
  · exact tag.unended within

/-- A tag has one name. -/
theorem InTag.name_unique {name other inside content : Text} (tag : InTag name inside)
    (tagOther : InTag other content) (same : name ++ inside = other ++ content) :
    name = other := by
  have found := (Text.takeWhile_run tag.letters tag.maximal).1
  have foundOther := (Text.takeWhile_run tagOther.letters tagOther.maximal).1
  rw [same] at found
  exact found.symm.trans foundOther

/-- The pairs of a text that begins with a tag and are not hidden are the one of this tag and those
of the text behind it. -/
theorem visiblePair_tag_iff {name inside : Text} (tag : InTag name inside) (behind : Text) :
    VisiblePair ('<' :: (name ++ (inside ++ '>' :: behind))) ↔
      endTag name <:+: behind ∨ VisiblePair behind := by
  have whole : '<' :: (name ++ (inside ++ '>' :: behind)) =
      ('<' :: (name ++ inside)) ++ '>' :: behind := by
    simp
  constructor
  · rintro ⟨before, other, content, following, ⟨source, tagOther, closed⟩, plain⟩
    rw [whole] at source
    by_cases ended : '>' ∈ before
    · obtain ⟨front, later, rfl, unended⟩ := List.eq_append_cons_of_mem ended
      rw [List.append_assoc] at source
      obtain ⟨_, rfl⟩ := (Text.append_cons_inj tag.free unended).mp source
      rw [tagOpen_append_iff] at plain
      exact .inr ⟨later, other, content, following, ⟨rfl, tagOther, closed⟩, plain⟩
    · -- The tag of the pair ends where this one does, so it is this one or begins inside it.
      have free : '>' ∉ before ++ '<' :: (other ++ content) := by
        rw [List.mem_append, not_or]
        exact ⟨ended, tagOther.free⟩
      have split : before ++ '<' :: (other ++ (content ++ '>' :: following)) =
          (before ++ '<' :: (other ++ content)) ++ '>' :: following := by
        simp
      rw [split] at source
      obtain ⟨same, rfl⟩ := (Text.append_cons_inj tag.free free).mp source
      cases before with
      | nil =>
        obtain rfl := tag.name_unique tagOther (List.cons.inj same).2
        exact .inl closed
      | cons first before =>
        obtain ⟨rfl, inner⟩ := List.cons.inj same
        obtain ⟨d, begins, letter⟩ := tag.exists_letter inside
        rw [inner] at begins
        refine absurd ((tagOpen_cons_iff '<' before).mpr (.inl ⟨rfl, ?_, ?_⟩)) plain
        · cases before with
          | nil =>
            obtain rfl : '<' = d := Option.some.inj begins
            exact absurd letter (by decide)
          | cons first before => exact ⟨d, begins, letter⟩
        · exact fun member => ended (List.mem_cons_of_mem '<' member)
  · rintro (closed | ⟨before, other, content, following, ⟨rfl, tagOther, closed⟩, plain⟩)
    · exact ⟨[], name, inside, behind, ⟨rfl, tag, closed⟩, not_tagOpen_nil⟩
    · refine ⟨('<' :: (name ++ inside)) ++ '>' :: before, other, content, following,
        ⟨?_, tagOther, closed⟩, ?_⟩
      · simp
      · rwa [tagOpen_append_iff]

/-- A pair has a bracket that ends its tag. -/
theorem VisiblePair.ended {text : Text} (pair : VisiblePair text) : '>' ∈ text := by
  obtain ⟨before, name, inside, behind, ⟨rfl, _, _⟩, _⟩ := pair
  simp

/-- The plain scan finds exactly the texts with a pair that is not hidden. It passes over tags as
a whole, so the induction is on the length of the text. -/
theorem plainScan_iff (text : Text) : plainScan text = true ↔ VisiblePair text := by
  induction size : text.length using Nat.strongRecOn generalizing text with
  | ind size shorter =>
    by_cases endless : '>' ∉ text
    · rw [plainScan_of_endless text endless]
      exact iff_of_false nofun fun pair => endless pair.ended
    cases text with
    | nil => exact absurd List.not_mem_nil endless
    | cons c rest =>
      rw [List.length_cons] at size
      rcases tag_or_skip (Decidable.not_not.mp endless) with
        ⟨name, inside, behind, rfl, rfl, tag⟩ | noTag
      · simp only [List.length_append, List.length_cons] at size
        rw [plainScan_tag tag, visiblePair_tag_iff tag, Bool.or_eq_true, decide_eq_true_eq,
          shorter behind.length (by omega) behind rfl]
      · rw [plainScan_skip noTag, visiblePair_skip_iff noTag, shorter rest.length (by omega) rest rfl]

/-- A text is found to hold a tag pair exactly if it has one whose tag begins where no other tag is
open, wherever that is and whatever else is in the text. -/
theorem occurs_iff_visiblePair (text : Text) : occurs text = true ↔ VisiblePair text := by
  have exact : Memory.Exact text [] := fun _ _ => nofun
  have scanned : occurs text = plainScan text := occursFrom_outside text [] exact [] text rfl
  rw [scanned, plainScan_iff]

/-- Without a sign of comparison in front of it the pair of an element is found. With one that has
a letter behind it the pair is there all the same, and is missed. -/
theorem comparison_hides_pair :
    PairBehind "a<b or ".toList "a<b or <i>c</i>".toList "i".toList [] "c</i>".toList ∧
      occurs "a<b or <i>c</i>".toList = false := by
  have letters : ∀ c ∈ "i".toList, Text.isWord c = true := by
    intro c member
    obtain rfl : c = 'i' := List.mem_singleton.mp member
    decide
  have tag : InTag "i".toList [] := ⟨by decide, letters, nofun, List.not_mem_nil⟩
  have closed : endTag "i".toList <:+: "c</i>".toList := ⟨['c'], [], rfl⟩
  exact ⟨⟨rfl, tag, closed⟩, by decide +kernel⟩

end CommentMarkdown.TagPair
