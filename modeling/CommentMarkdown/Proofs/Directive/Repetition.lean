import CommentMarkdown.Proofs.Directive.Counting
import CommentMarkdown.Proofs.Directive.Segments

/-!
# Resolving again

What has been resolved may be resolved again, for the same target or for the other one, and does
not change any more. If the groups of a text nest, none of its opening braces is left, since
each of them has opened a group, and the closing braces that are left are those that closed
none (`count_closing_render`). Which these are can be told by counting: there the counter of
open groups is at zero. If the groups do not nest, the text is left as it is, and does not
nest for the other target either.
-/

namespace CommentMarkdown.Directive

/-- The number of closing braces at which the counter of open groups is at zero. -/
def strayFrom : Nat → Text → Nat
  | _, [] => 0
  | count, c :: rest =>
    (if c = '}' ∧ count = 0 then 1 else 0) + strayFrom (countBrace count c) rest

/-- The number of closing braces of a text that close no group. -/
def strayClosings (text : Text) : Nat :=
  strayFrom 0 text

/-- An opening brace raises the counter. -/
theorem strayFrom_opening (count : Nat) (rest : Text) :
    strayFrom count ('{' :: rest) = strayFrom (count + 1) rest := by
  rw [strayFrom, if_neg fun stray => absurd stray.1 (by decide), Nat.zero_add]
  rfl

/-- A closing brace that closes a group brings the counter back. -/
theorem strayFrom_closing (count : Nat) (rest : Text) :
    strayFrom (count + 1) ('}' :: rest) = strayFrom count rest := by
  rw [strayFrom, if_neg fun stray => absurd stray.2 (Nat.succ_ne_zero count), Nat.zero_add]
  rfl

/-- Characters that are no braces are passed over. -/
theorem strayFrom_append_of_flat (count : Nat) {front : Text}
    (flat : ∀ c ∈ front, c ≠ '{' ∧ c ≠ '}') (rest : Text) :
    strayFrom count (front ++ rest) = strayFrom count rest := by
  induction front with
  | nil => rfl
  | cons c front ih =>
    obtain ⟨flatHere, flatFront⟩ := List.forall_mem_cons.mp flat
    have closesNone : ¬ (c = '}' ∧ count = 0) := fun stray => flatHere.2 stray.1
    rw [List.cons_append, strayFrom, if_neg closesNone, countBrace_of_flat flatHere, ih flatFront,
      Nat.zero_add]

/-- The content of a group is passed over, and so are the groups in it: their opening braces raise
the counter, so that their closing braces find it above zero and bring it back. -/
theorem strayFrom_inner (count : Nat) (content : List Item) (inner : AllInner content)
    (rest : Text) : strayFrom count (sourceOf content ++ rest) = strayFrom count rest := by
  induction content using Item.listInduction generalizing count rest with
  | nil => rfl
  | char c content behind =>
    obtain ⟨noBrace, innerBehind⟩ := inner
    have flat : ∀ d ∈ [c], d ≠ '{' ∧ d ≠ '}' := List.forall_mem_singleton.mpr noBrace
    rw [sourceOf, Item.source, List.append_assoc, strayFrom_append_of_flat count flat,
      behind count innerBehind]
  | group head body content inside behind =>
    obtain ⟨⟨maximal, innerBody⟩, innerBehind⟩ := inner
    calc strayFrom count (sourceOf (.group head body :: content) ++ rest)
        = strayFrom count
            ('{' :: (head.source ++ (sourceOf body ++ '}' :: (sourceOf content ++ rest)))) := by
          simp [sourceOf, Item.source]
      _ = strayFrom (count + 1) (sourceOf body ++ '}' :: (sourceOf content ++ rest)) := by
          rw [strayFrom_opening, strayFrom_append_of_flat _ maximal.flat]
      _ = strayFrom (count + 1) ('}' :: (sourceOf content ++ rest)) := inside _ innerBody _
      _ = strayFrom count rest := by rw [strayFrom_closing, behind count innerBehind]

/-- The closing braces that a text shows are those that close no group. -/
theorem count_closing_textOf (items : List Item) (prose : Prose items) :
    (textOf items).count '}' = strayClosings (sourceOf items) := by
  induction items with
  | nil => rfl
  | cons item rest ih =>
    obtain ⟨fits, proseRest⟩ := List.forall_mem_cons.mp prose
    rw [textOf, List.count_append, ih proseRest, sourceOf]
    rcases fits with inner | rfl
    · have passed := strayFrom_inner 0 [item] ⟨inner, trivial⟩ (sourceOf rest)
      have flat := flat_textOf_inner [item] ⟨inner, trivial⟩
      rw [sourceOf, sourceOf, List.append_nil] at passed
      rw [textOf, textOf, List.append_nil] at flat
      have none : item.text.count '}' = 0 :=
        List.count_eq_zero.mpr fun closes => (flat '}' closes).2 rfl
      rw [none, Nat.zero_add, strayClosings, strayClosings, passed]
    · rfl

/-- The closing braces that a resolved text shows are those that close no group in it. -/
theorem count_closing_render {limit : Nat} {text : Text} {items : List Item}
    (reads : Reads limit text items) (target : Target) :
    (target.render items).count '}' = strayClosings text := by
  rw [count_render (.inr rfl), count_closing_textOf items reads.prose, reads.source]

/-- A resolved text shows no opening brace, whatever the target. -/
theorem opening_not_mem_render {limit : Nat} {text : Text} {items : List Item}
    (reads : Reads limit text items) (target : Target) : '{' ∉ target.render items := by
  rw [← List.count_eq_zero, count_render (.inl rfl), List.count_eq_zero]
  exact opening_not_mem_textOf items reads.prose

/-- Whether a text is resolved, and why not, does not depend on the target. -/
theorem resolve_eq_error_of_target {limits : Limits} {target : Target} {text : Text}
    {error : DirectiveError} (failed : (resolve limits target text).value = .error error)
    (other : Target) : (resolve limits other text).value = .error error := by
  rw [resolve_eq_error_iff] at failed ⊢
  exact failed

/-- Replacing directives a second time changes nothing, whatever the two targets are. What has been
resolved shows no opening brace, and as many closing ones as closed no group. What could not
be resolved is unchanged, and fails again with the same error. -/
theorem replace_replace (limits : Limits) (target other : Target) (text : Text) :
    let replaced := (replace limits target text).value
    (replace limits other replaced).value = replaced ∧
      (∀ resolved, (resolve limits target text).value = .ok resolved →
        '{' ∉ resolved ∧ resolved.count '}' = strayClosings text) ∧
      ∀ error, (resolve limits target text).value = .error error →
        replaced = text ∧ (resolve limits other replaced).value = .error error := by
  intro replaced
  have shown (resolved : Text) (found : (resolve limits target text).value = .ok resolved) :
      '{' ∉ resolved ∧ resolved.count '}' = strayClosings text := by
    obtain ⟨items, reads, rfl⟩ := exists_reads_of_resolve found
    exact ⟨opening_not_mem_render reads target, count_closing_render reads target⟩
  have kept (error : DirectiveError)
      (failed : (resolve limits target text).value = .error error) :
      replaced = text ∧ (resolve limits other replaced).value = .error error := by
    have same : replaced = text := value_replace_of_error failed
    rw [same]
    exact ⟨rfl, resolve_eq_error_of_target failed other⟩
  refine ⟨?_, shown, kept⟩
  cases result : (resolve limits target text).value with
  | ok resolved =>
    have same : replaced = resolved := value_replace_of_ok result
    rw [same, replace_of_no_opening limits other (shown resolved result).1]
    rfl
  | error error =>
    obtain ⟨_, failsAgain⟩ := kept error result
    exact value_replace_of_error failsAgain

end CommentMarkdown.Directive
