import CommentMarkdown.Proofs.Directive.Scanning

/-!
# Reading a text is finding its tree

Matching braces goes over the tokens of a text once, with the groups that are still
open. If a tree of the grammar stands at the front of the text, the pass takes it up
item by item (`value_nest_prose`). If the pass succeeds, the text from any point on
begins with the content that the innermost open group still lacks, and the brace
that closes it (`exists_content_of_nest`).

So a text is read exactly if it has a tree whose groups lie no deeper than the limit
(`parse_eq_ok_iff`). A text has at most one tree (`prose_unique`), since reading
finds each of them. A text without an opening brace is its own tree, so that
nothing is gained or lost by not reading it.
-/

namespace CommentMarkdown.Directive

open Token

/-- The bytes of the characters of a group are those of its braces, its head and its content. -/
theorem byteSize_source_group (head : Head) (body : List Item) :
    Text.byteSize (Item.group head body).source =
      1 + Text.byteSize head.source + Text.byteSize (sourceOf body) + 1 := by
  have opening : '{'.utf8Size = 1 := rfl
  have closing : '}'.utf8Size = 1 := rfl
  simp [Item.source, opening, closing, Nat.add_assoc]

/-- The content of a group is taken up while the group is innermost, wherever the text goes on
behind it. The level on which a group opens is that of the content, so the limit is never
reached before its depth is. -/
theorem value_nest_inner (limit : Nat) (content : List Item) (position : Nat)
    (pending : List Pending) (before : List Item) (rest : Text) (inner : AllInner content)
    (shallow : pending.length + depthOf content ≤ limit) :
    (nest limit position pending before (scan (sourceOf content ++ rest))).value =
      (nest limit (position + Text.byteSize (sourceOf content)) pending
        (content.reverse ++ before) (scan rest)).value := by
  induction content using Item.listInduction generalizing position pending before rest with
  | nil => simp [sourceOf]
  | char c content behind =>
    obtain ⟨⟨opens, closes⟩, innerBehind⟩ := inner
    have shallowBehind : pending.length + depthOf content ≤ limit := by
      simp only [depthOf, Item.depth] at shallow
      omega
    simp only [sourceOf, Item.source, List.cons_append, List.nil_append,
      scan_char opens closes, nest]
    rw [behind _ _ _ _ innerBehind shallowBehind]
    simp [Nat.add_assoc]
  | group head body content inside behind =>
    obtain ⟨⟨maximal, innerInside⟩, innerBehind⟩ := inner
    simp only [depthOf, Item.depth] at shallow
    have opens : ¬ limit ≤ pending.length := by omega
    have shallowInside : (⟨head, before⟩ :: pending : List Pending).length + depthOf body ≤ limit := by
      simp only [List.length_cons]
      omega
    have shallowBehind : pending.length + depthOf content ≤ limit := by omega
    have scanned : scan (sourceOf (.group head body :: content) ++ rest) =
        .opening head :: scan (sourceOf body ++ '}' :: (sourceOf content ++ rest)) := by
      rw [← scan_opening head _ ((maximal_append_closing_iff head _ _).mpr maximal)]
      simp [sourceOf, Item.source]
    rw [scanned]
    simp only [nest, if_neg opens, Diagnosed.value_bind]
    rw [inside _ _ _ _ innerInside shallowInside, scan_closing]
    simp only [nest]
    rw [behind _ _ _ _ innerBehind shallowBehind]
    simp [sourceOf, byteSize_source_group, Nat.add_assoc]

/-- Outside of all groups a whole text is taken up, closing braces included. -/
theorem value_nest_prose (limit : Nat) (items : List Item) (position : Nat) (before : List Item)
    (rest : Text) (prose : Prose items) (shallow : depthOf items ≤ limit) :
    (nest limit position [] before (scan (sourceOf items ++ rest))).value =
      (nest limit (position + Text.byteSize (sourceOf items)) []
        (items.reverse ++ before) (scan rest)).value := by
  induction items generalizing position before with
  | nil => simp [sourceOf]
  | cons item items ih =>
    have proseBehind : Prose items := fun other member => prose other (by simp [member])
    simp only [depthOf] at shallow
    have shallowBehind : depthOf items ≤ limit := by omega
    rcases prose item (by simp) with inner | rfl
    · have taken := value_nest_inner limit [item] position [] before (sourceOf items ++ rest)
        ⟨inner, trivial⟩ (by simp only [List.length_nil, depthOf]; omega)
      simp only [sourceOf, List.append_nil, List.reverse_singleton, List.singleton_append] at taken
      rw [sourceOf, List.append_assoc, taken, ih _ _ proseBehind shallowBehind]
      simp [Nat.add_assoc]
    · simp only [sourceOf, Item.source, List.cons_append, List.nil_append, scan_closing, nest]
      rw [ih _ _ proseBehind shallowBehind]
      simp [Nat.add_assoc, show '}'.utf8Size = 1 from rfl]

/-- A pass that succeeds at an opening brace is not yet at the limit, and goes on behind the
maximal head inside the group. -/
theorem exists_head_of_nest (limit : Nat) (text : Text) (position : Nat) (pending : List Pending)
    (before items : List Item)
    (read : (nest limit position pending before (scan ('{' :: text))).value = .ok items) :
    ∃ (head : Head) (following : Text) (next : Nat),
      text = head.source ++ following ∧ head.Maximal following ∧ pending.length < limit ∧
      (nest limit next (⟨head, before⟩ :: pending) [] (scan following)).value = .ok items := by
  obtain ⟨head, following, rfl, maximal⟩ := exists_maximal_head text
  rw [← List.cons_append, scan_opening head following maximal, nest] at read
  split at read
  next deep => cases read
  next shallow =>
    rw [Diagnosed.value_bind] at read
    exact ⟨head, following, _, rfl, maximal, Nat.lt_of_not_le shallow, read⟩

/-- What a group on a level lacks of its content: items that keep to the limit, up to the brace
that closes the group. -/
structure Closes (limit level : Nat) (text : Text) (content : List Item) (rest : Text) : Prop where
  inner : AllInner content
  shallow : level + depthOf content ≤ limit
  source : text = sourceOf content ++ '}' :: rest

/-- Nothing is lacking in front of the brace that closes a group. -/
theorem Closes.nil {limit level : Nat} (shallow : level ≤ limit) (rest : Text) :
    Closes limit level ('}' :: rest) [] rest :=
  ⟨trivial, by simpa [depthOf] using shallow, rfl⟩

/-- What stands behind the closing brace is shorter than the text. -/
theorem Closes.length_lt {limit level : Nat} {text rest : Text} {content : List Item}
    (closes : Closes limit level text content rest) : rest.length < text.length := by
  rw [closes.source, List.length_append, List.length_cons]
  omega

/-- An item in front of the lacking content is lacking as well. -/
theorem Closes.cons {limit level : Nat} {text rest : Text} {content : List Item} {item : Item}
    (closes : Closes limit level text content rest) (inner : item.Inner)
    (shallow : level + item.depth ≤ limit) :
    Closes limit level (item.source ++ text) (item :: content) rest := by
  refine ⟨⟨inner, closes.inner⟩, ?_, ?_⟩
  · have shallowBehind := closes.shallow
    rw [depthOf]
    omega
  · rw [closes.source, sourceOf, List.append_assoc]

/-- An item in front of a text that has a tree belongs to a tree of the whole. -/
theorem Reads.cons {limit : Nat} {text : Text} {items : List Item} {item : Item}
    (reads : Reads limit text items) (fits : item.Inner ∨ item = .char '}')
    (shallow : item.depth ≤ limit) : Reads limit (item.source ++ text) (item :: items) := by
  refine ⟨?_, ?_, ?_⟩
  · exact List.forall_mem_cons.mpr ⟨fits, reads.prose⟩
  · have shallowBehind := reads.shallow
    rw [depthOf]
    omega
  · rw [sourceOf, reads.source]

/-- A group whose maximal head stands before its content and its closing brace. -/
theorem inner_group {limit level : Nat} {head : Head} {following rest : Text} {body : List Item}
    (maximal : head.Maximal following) (closes : Closes limit level following body rest) :
    (Item.group head body).Inner ∧
      (Item.group head body).source ++ rest = '{' :: head.source ++ following := by
  obtain ⟨inner, _, rfl⟩ := closes
  refine ⟨⟨(maximal_append_closing_iff head _ _).mp maximal, inner⟩, ?_⟩
  simp [Item.source]

/-- A pass that succeeds finds the rest of the innermost group's content, and behind its closing
brace it goes on with the finished group. The content is shorter than the text, so the groups
in it and what stands behind them can be found by induction on the length. -/
theorem exists_content_of_nest (limit : Nat) (text : Text) (position : Nat) (group : Pending)
    (outer : List Pending) (before items : List Item) (opened : outer.length + 1 ≤ limit)
    (read : (nest limit position (group :: outer) before (scan text)).value = .ok items) :
    ∃ (content : List Item) (rest : Text) (next : Nat),
      Closes limit (outer.length + 1) text content rest ∧
      (nest limit next outer (.group group.head (before.reverse ++ content) :: group.before)
        (scan rest)).value = .ok items := by
  induction size : text.length using Nat.strongRecOn generalizing text position group outer before with
  | ind size shorter =>
    cases text with
    | nil => simp [scan, nest] at read
    | cons c text =>
      by_cases closes : c = '}'
      · subst closes
        rw [scan_closing, nest] at read
        exact ⟨[], text, position + 1, .nil opened text, by simpa using read⟩
      by_cases opens : c = '{'
      · subst opens
        obtain ⟨head, following, within, rfl, maximal, deeper, readWithin⟩ :=
          exists_head_of_nest limit text _ _ _ items read
        simp only [List.length_cons, List.length_append] at size
        obtain ⟨body, behind, next, closesBody, readBehind⟩ :=
          shorter following.length (by omega) following within ⟨head, before⟩
            (group :: outer) [] deeper readWithin rfl
        have shorterBehind : behind.length < following.length := closesBody.length_lt
        obtain ⟨content, rest, last, closesContent, readRest⟩ :=
          shorter behind.length (by omega) behind _ group outer _ opened readBehind rfl
        obtain ⟨inner, source⟩ := inner_group maximal closesBody
        have shallow := closesBody.shallow
        simp only [List.length_cons] at shallow
        refine ⟨.group head body :: content, rest, last, ?_, by simpa using readRest⟩
        rw [← List.cons_append, ← source]
        exact closesContent.cons inner (by rw [Item.depth]; omega)
      · rw [scan_char opens closes, nest] at read
        simp only [List.length_cons] at size
        obtain ⟨content, rest, next, closesContent, readRest⟩ :=
          shorter text.length (by omega) text _ group outer _ opened read rfl
        have inner : (Item.char c).Inner := ⟨opens, closes⟩
        refine ⟨.char c :: content, rest, next, ?_, by simpa using readRest⟩
        exact closesContent.cons inner opened

/-- A pass that succeeds outside of all groups finds a tree of the whole text. -/
theorem exists_prose_of_nest (limit : Nat) (text : Text) (position : Nat) (before items : List Item)
    (read : (nest limit position [] before (scan text)).value = .ok items) :
    ∃ more : List Item, Reads limit text more ∧ items = before.reverse ++ more := by
  induction size : text.length using Nat.strongRecOn generalizing text position before with
  | ind size shorter =>
    cases text with
    | nil =>
      refine ⟨[], ⟨by simp [Prose], by simp [depthOf], rfl⟩, ?_⟩
      simpa [scan, nest] using read.symm
    | cons c text =>
      by_cases closes : c = '}'
      · subst closes
        rw [scan_closing, nest] at read
        simp only [List.length_cons] at size
        obtain ⟨more, reads, rfl⟩ := shorter text.length (by omega) text _ _ read rfl
        exact ⟨.char '}' :: more, reads.cons (.inr rfl) (Nat.zero_le limit), by simp⟩
      by_cases opens : c = '{'
      · subst opens
        obtain ⟨head, following, within, rfl, maximal, deeper, readWithin⟩ :=
          exists_head_of_nest limit text _ _ _ items read
        simp only [List.length_cons, List.length_append] at size
        obtain ⟨body, behind, next, closesBody, readBehind⟩ :=
          exists_content_of_nest limit following within ⟨head, before⟩ [] [] items deeper readWithin
        have shorterBehind : behind.length < following.length := closesBody.length_lt
        obtain ⟨more, reads, rfl⟩ := shorter behind.length (by omega) behind _ _ readBehind rfl
        obtain ⟨inner, source⟩ := inner_group maximal closesBody
        have shallow := closesBody.shallow
        simp only [List.length_nil] at shallow
        refine ⟨.group head body :: more, ?_, by simp⟩
        rw [← List.cons_append, ← source]
        exact reads.cons (.inl inner) (by rw [Item.depth]; omega)
      · rw [scan_char opens closes, nest] at read
        simp only [List.length_cons] at size
        obtain ⟨more, reads, rfl⟩ := shorter text.length (by omega) text _ _ read rfl
        have inner : (Item.char c).Inner := ⟨opens, closes⟩
        exact ⟨.char c :: more, reads.cons (.inl inner) (Nat.zero_le limit), by simp⟩

/-- A text is read exactly as a tree of the grammar whose groups lie no deeper than the limit. -/
theorem parse_eq_ok_iff (limit : Nat) (text : Text) (items : List Item) :
    (parse limit text).value = .ok items ↔ Reads limit text items := by
  constructor
  · intro read
    obtain ⟨more, reads, same⟩ := exists_prose_of_nest limit text 0 [] items read
    simpa [same] using reads
  · rintro ⟨prose, shallow, rfl⟩
    have taken := value_nest_prose limit items 0 [] [] prose shallow
    rw [List.append_nil] at taken
    rw [parse, taken]
    simp [scan, nest]

/-- A text has at most one tree, however deep its groups lie: under a limit that admits two of
them, reading would find both. -/
theorem prose_unique (items other : List Item) (prose : Prose items) (proseOther : Prose other)
    (same : sourceOf items = sourceOf other) : items = other := by
  let limit := max (depthOf items) (depthOf other)
  have reads : Reads limit (sourceOf other) items := ⟨prose, Nat.le_max_left _ _, same⟩
  have readsOther : Reads limit (sourceOf other) other := ⟨proseOther, Nat.le_max_right _ _, rfl⟩
  have found := (parse_eq_ok_iff limit _ _).mpr reads
  have foundOther := (parse_eq_ok_iff limit _ _).mpr readsOther
  exact Except.ok.inj (found.symm.trans foundOther)

end CommentMarkdown.Directive
