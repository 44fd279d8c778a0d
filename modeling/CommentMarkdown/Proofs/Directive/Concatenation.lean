import CommentMarkdown.Proofs.Directive.Replacement

/-!
# Texts one behind the other

Groups never reach out of a text in which they nest. So where two texts nest on their own, the
whole does, and it is resolved part by part (`value_replace_append`); the same holds of any
number of texts with something between them that opens no group
(`value_replace_intercalate`).

A group may also open in one text and close in the next, and one that is never closed keeps all
texts from being resolved. Counting opening braces shows that nothing is resolved part by part
then, unless there is nothing to resolve (`value_replace_intercalate_iff`): resolving takes all
of them out of a text that nests, and none out of one that does not (`count_replace`).
-/

namespace CommentMarkdown.Directive

/-- The groups of a text nest, at most as deep as the limit. -/
def Nests (limit : Nat) (text : Text) : Prop :=
  ∃ items, Reads limit text items

/-- Reading a text decides whether its groups nest. -/
theorem nests_iff_isOk (limit : Nat) (text : Text) :
    Nests limit text ↔ (parse limit text).value.isOk = true := by
  simp only [Nests, ← parse_eq_ok_iff]
  cases (parse limit text).value with
  | ok items => exact iff_of_true ⟨items, rfl⟩ rfl
  | error error => exact iff_of_false nofun nofun

instance (limit : Nat) (text : Text) : Decidable (Nests limit text) :=
  decidable_of_iff _ (nests_iff_isOk limit text).symm

/-- A text without an opening brace is a tree of characters. -/
theorem reads_of_flat (limit : Nat) {text : Text} (flat : '{' ∉ text) :
    Reads limit text (text.map .char) := by
  apply (parse_eq_ok_iff limit text _).mp
  rw [parse, nest_of_no_opening limit text 0 [] flat]
  rfl

/-- Groups of two trees lie as deep as in the one in which they lie deeper. -/
theorem depthOf_append (items others : List Item) :
    depthOf (items ++ others) = max (depthOf items) (depthOf others) := by
  induction items with
  | nil => exact (Nat.zero_max _).symm
  | cons item rest ih => rw [List.cons_append, depthOf, depthOf, ih, Nat.max_assoc]

/-- What two trees make up is a tree of their texts. -/
theorem Reads.append {limit : Nat} {first second : Text} {items others : List Item}
    (reads : Reads limit first items) (readsOthers : Reads limit second others) :
    Reads limit (first ++ second) (items ++ others) where
  prose := by
    intro item member
    rcases List.mem_append.mp member with inFirst | inSecond
    · exact reads.prose item inFirst
    · exact readsOthers.prose item inSecond
  shallow := by
    rw [depthOf_append]
    exact Nat.max_le.mpr ⟨reads.shallow, readsOthers.shallow⟩
  source := by rw [sourceOf_append, reads.source, readsOthers.source]

/-- A text without an opening brace nests, since it has no groups. -/
theorem Nests.of_flat (limit : Nat) {text : Text} (flat : '{' ∉ text) : Nests limit text :=
  ⟨_, reads_of_flat limit flat⟩

/-- Two texts that nest on their own nest one behind the other. -/
theorem Nests.append {limit : Nat} {first second : Text} (nests : Nests limit first)
    (nestsSecond : Nests limit second) : Nests limit (first ++ second) := by
  obtain ⟨items, reads⟩ := nests
  obtain ⟨others, readsOthers⟩ := nestsSecond
  exact ⟨items ++ others, reads.append readsOthers⟩

/-- A target makes of two trees what it makes of each. -/
theorem Target.render_append (target : Target) (items others : List Item) :
    target.render (items ++ others) = target.render items ++ target.render others := by
  cases target with
  | text => exact textOf_append items others
  | markup => exact markupOf_append items others

/-- A text is replaced by what its target makes of its tree. -/
theorem value_replace_of_reads {limits : Limits} {text : Text} {items : List Item}
    (reads : Reads limits.directiveDepth text items) (target : Target) :
    (replace limits target text).value = target.render items :=
  value_replace_of_ok (value_resolve_of_reads reads target)

/-- A text whose groups do not nest is left as it is. -/
theorem value_replace_of_not_nests {limits : Limits} {text : Text}
    (unread : ¬ Nests limits.directiveDepth text) (target : Target) :
    (replace limits target text).value = text := by
  cases resolved : (resolve limits target text).value with
  | error error => exact value_replace_of_error resolved
  | ok shown =>
    obtain ⟨items, reads, _⟩ := exists_reads_of_resolve resolved
    exact absurd ⟨items, reads⟩ unread

/-- Two texts that nest on their own are replaced one behind the other. -/
theorem value_replace_append {limits : Limits} {first second : Text}
    (nests : Nests limits.directiveDepth first) (nestsSecond : Nests limits.directiveDepth second)
    (target : Target) :
    (replace limits target (first ++ second)).value =
      (replace limits target first).value ++ (replace limits target second).value := by
  obtain ⟨items, reads⟩ := nests
  obtain ⟨others, readsOthers⟩ := nestsSecond
  rw [value_replace_of_reads (reads.append readsOthers), value_replace_of_reads reads,
    value_replace_of_reads readsOthers, Target.render_append]

/-- Texts that nest on their own nest with anything between them that opens no group, and are
replaced one by one. -/
theorem value_replace_intercalate {limits : Limits} {between : Text} (flat : '{' ∉ between)
    (target : Target) (texts : List Text)
    (nests : ∀ text ∈ texts, Nests limits.directiveDepth text) :
    Nests limits.directiveDepth (between.intercalate texts) ∧
      (replace limits target (between.intercalate texts)).value =
        between.intercalate (texts.map fun text => (replace limits target text).value) := by
  induction texts with
  | nil =>
    refine ⟨.of_flat _ List.not_mem_nil, ?_⟩
    change (replace limits target []).value = []
    rw [replace_of_no_opening limits target List.not_mem_nil]
    rfl
  | cons first rest ih =>
    obtain ⟨nestsFirst, nestsRest⟩ := List.forall_mem_cons.mp nests
    cases rest with
    | nil => simpa [List.intercalate] using nestsFirst
    | cons second rest =>
      obtain ⟨nestsBehind, behind⟩ := ih nestsRest
      have nestsBetween : Nests limits.directiveDepth between := .of_flat _ flat
      have nestsFront := nestsFirst.append nestsBetween
      rw [List.intercalate_cons_cons, List.map_cons, List.map_cons, List.intercalate_cons_cons]
      constructor
      · exact nestsFront.append nestsBehind
      · rw [value_replace_append nestsFront nestsBehind,
          value_replace_append nestsFirst nestsBetween,
          replace_of_no_opening limits target flat, behind]
        rfl

/-- Resolving takes all opening braces out of a text that nests, and none out of another. -/
theorem count_replace (limits : Limits) (text : Text) :
    (replace limits .text text).value.count '{' =
      if Nests limits.directiveDepth text then 0 else text.count '{' := by
  split
  next nests =>
    obtain ⟨items, reads⟩ := nests
    rw [value_replace_of_reads reads, List.count_eq_zero]
    exact opening_not_mem_textOf items reads.prose
  next unread => rw [value_replace_of_not_nests unread]

/-- A text is kept as it is exactly if it opens no group or its groups do not nest. -/
theorem value_replace_eq_self_iff (limits : Limits) (text : Text) :
    (replace limits .text text).value = text ↔
      (Nests limits.directiveDepth text → '{' ∉ text) := by
  constructor
  · intro kept nests
    rw [← List.count_eq_zero, ← kept, count_replace, if_pos nests]
  · intro flat
    by_cases nests : Nests limits.directiveDepth text
    · rw [replace_of_no_opening limits .text (flat nests)]
      rfl
    · exact value_replace_of_not_nests nests .text

/-- What stands in one of several joined texts stands in the whole. -/
theorem mem_intercalate {c : Char} {text : Text} {texts : List Text} (between : Text)
    (member : text ∈ texts) (inside : c ∈ text) : c ∈ between.intercalate texts := by
  induction texts with
  | nil => cases member
  | cons first rest ih =>
    cases rest with
    | nil =>
      obtain rfl := List.mem_singleton.mp member
      rwa [List.intercalate_singleton]
    | cons second rest =>
      rw [List.intercalate_cons_cons, List.append_assoc, List.mem_append, List.mem_append]
      rcases List.mem_cons.mp member with rfl | behind
      · exact .inl inside
      · exact .inr (.inr (ih behind))

/-- Texts that are resolved one by one hold no more opening braces than before, and as many only if
none of those that nest holds one. -/
theorem count_intercalate_replace (limits : Limits) (between : Text) (texts : List Text) :
    let resolved := texts.map fun text => (replace limits .text text).value
    (between.intercalate resolved).count '{' ≤ (between.intercalate texts).count '{' ∧
      ((between.intercalate resolved).count '{' = (between.intercalate texts).count '{' →
        ∀ text ∈ texts, Nests limits.directiveDepth text → '{' ∉ text) := by
  have single (text : Text) :
      (replace limits .text text).value.count '{' ≤ text.count '{' ∧
        ((replace limits .text text).value.count '{' = text.count '{' →
          Nests limits.directiveDepth text → '{' ∉ text) := by
    rw [count_replace, ← List.count_eq_zero]
    split
    next nests => exact ⟨Nat.zero_le _, fun same _ => same.symm⟩
    next unread => exact ⟨Nat.le_refl _, fun _ nests => absurd nests unread⟩
  induction texts with
  | nil => exact ⟨Nat.le_refl _, fun _ => nofun⟩
  | cons first rest ih =>
    obtain ⟨fewer, flat⟩ := single first
    cases rest with
    | nil =>
      simp only [List.map_cons, List.map_nil, List.intercalate_singleton, List.mem_singleton]
      exact ⟨fewer, fun same text member => member ▸ flat same⟩
    | cons second rest =>
      obtain ⟨fewerRest, flatRest⟩ := ih
      simp only [List.map_cons, List.intercalate_cons_cons, List.count_append]
        at fewerRest flatRest ⊢
      constructor
      · omega
      · intro same text member
        rcases List.mem_cons.mp member with rfl | behind
        · exact flat (by omega)
        · exact flatRest (by omega) text behind

/-- Joined texts are resolved as each of them is alone exactly if all of them nest, or if the whole
does not and none of them that nests opens a group. -/
theorem value_replace_intercalate_iff (limits : Limits) {between : Text} (flat : '{' ∉ between)
    (texts : List Text) :
    (replace limits .text (between.intercalate texts)).value =
        between.intercalate (texts.map fun text => (replace limits .text text).value) ↔
      (∀ text ∈ texts, Nests limits.directiveDepth text) ∨
        (¬ Nests limits.directiveDepth (between.intercalate texts) ∧
          ∀ text ∈ texts, Nests limits.directiveDepth text → '{' ∉ text) := by
  constructor
  · intro apart
    by_cases nests : Nests limits.directiveDepth (between.intercalate texts)
    · -- Nothing is left of the braces of the whole, so nothing is left of those of a part.
      left
      intro text member
      apply Decidable.byContradiction
      intro unread
      have none := count_replace limits (between.intercalate texts)
      rw [if_pos nests, apart, List.count_eq_zero] at none
      apply unread
      refine .of_flat _ fun opens => none ?_
      apply mem_intercalate between (List.mem_map_of_mem member)
      rwa [value_replace_of_not_nests unread]
    · right
      rw [value_replace_of_not_nests nests] at apart
      have same := congrArg (List.count '{') apart.symm
      exact ⟨nests, (count_intercalate_replace limits between texts).2 same⟩
  · rintro (nests | ⟨unread, noGroup⟩)
    · exact (value_replace_intercalate flat .text texts nests).2
    · have kept : texts.map (fun text => (replace limits .text text).value) = texts.map id := by
        apply List.map_congr_left
        intro text member
        exact (value_replace_eq_self_iff limits text).mpr (noGroup text member)
      rw [value_replace_of_not_nests unread, kept, List.map_id]

/-- A character that opens no group stands in front of the tree of what follows it. -/
theorem nests_cons_iff {c : Char} (opens : c ≠ '{') (limit : Nat) (text : Text) :
    Nests limit (c :: text) ↔ Nests limit text := by
  constructor
  · rintro ⟨items, prose, shallow, source⟩
    cases items with
    | nil => cases source
    | cons item rest =>
      cases item with
      | char other =>
        obtain ⟨_, proseRest⟩ := List.forall_mem_cons.mp prose
        rw [depthOf, Item.depth, Nat.zero_max] at shallow
        exact ⟨rest, proseRest, shallow, (List.cons.inj source).2⟩
      | group head body => exact absurd (List.cons.inj source).1.symm opens
  · intro nests
    have front : Nests limit [c] := .of_flat limit (by simpa using opens.symm)
    exact front.append nests

/-- A character that is no brace stands behind the tree of what comes before it. -/
theorem nests_concat_iff {c : Char} (opens : c ≠ '{') (closes : c ≠ '}') (limit : Nat)
    (text : Text) : Nests limit (text ++ [c]) ↔ Nests limit text := by
  constructor
  · rintro ⟨items, prose, shallow, source⟩
    rcases List.eq_nil_or_concat items with rfl | ⟨front, item, rfl⟩
    · exact absurd source.symm (List.append_ne_nil_of_right_ne_nil text (List.cons_ne_nil c []))
    · rw [List.concat_eq_append] at prose shallow source
      have proseFront : Prose front := fun other member =>
        prose other (List.mem_append_left [item] member)
      have shallowFront : depthOf front ≤ limit := by
        rw [depthOf_append] at shallow
        exact (Nat.max_le.mp shallow).1
      cases item with
      | char other =>
        rw [sourceOf_append] at source
        exact ⟨front, proseFront, shallowFront, (List.append_inj' source rfl).1⟩
      | group head body =>
        have ends : sourceOf (front ++ [.group head body]) =
            (sourceOf front ++ '{' :: head.source ++ sourceOf body) ++ ['}'] := by
          simp [sourceOf, Item.source]
        rw [ends] at source
        have last := (List.append_inj' source rfl).2
        exact absurd (List.cons.inj last).1.symm closes
  · intro nests
    have behind : Nests limit [c] := .of_flat limit (by simpa using opens.symm)
    exact nests.append behind

end CommentMarkdown.Directive
