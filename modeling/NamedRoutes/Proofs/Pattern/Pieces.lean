import NamedRoutes.Path

/-!
The pieces of a text, cut before and after each slash. Together they are the text; each is a slash,
or a word without one.
-/

namespace NamedRoutes.Path

theorem hasDoubleSlash_cons {c : Char} (hc : c ≠ '/') (rest : List Char) :
    hasDoubleSlash (c :: rest) = hasDoubleSlash rest := by
  rw [hasDoubleSlash]
  rintro tail rfl
  exact absurd rfl hc

theorem hasDoubleSlash_append {word : List Char} (h : '/' ∉ word) (rest : List Char) :
    hasDoubleSlash (word ++ rest) = hasDoubleSlash rest := by
  induction word with
  | nil => rfl
  | cons c more ih =>
      have hc : c ≠ '/' := fun hc => h (hc ▸ List.mem_cons_self)
      rw [List.cons_append, hasDoubleSlash_cons hc, ih fun hmem => h (List.mem_cons_of_mem _ hmem)]

theorem hasDoubleSlash_slash {rest : List Char} (h : rest.head? ≠ some '/') :
    hasDoubleSlash ('/' :: rest) = hasDoubleSlash rest := by
  rw [hasDoubleSlash]
  rintro tail - rfl
  exact h rfl

/-- No part of a text has two slashes in a row if the whole has not. -/
theorem hasDoubleSlash_tail {c : Char} {rest : List Char} (h : hasDoubleSlash (c :: rest) = false) :
    hasDoubleSlash rest = false := by
  by_cases hc : c = '/'
  · subst hc
    by_cases hhead : rest.head? = some '/'
    · obtain ⟨more, rfl⟩ := List.head?_eq_some_iff.mp hhead
      cases h
    · rwa [hasDoubleSlash_slash hhead] at h
  · rwa [hasDoubleSlash_cons hc] at h

theorem hasDoubleSlash_right {text rest : List Char} (h : hasDoubleSlash (text ++ rest) = false) :
    hasDoubleSlash rest = false := by
  induction text with
  | nil => exact h
  | cons c more ih => exact ih (hasDoubleSlash_tail h)

theorem hasDoubleSlash_left {text rest : List Char} (h : hasDoubleSlash (text ++ rest) = false) :
    hasDoubleSlash text = false := by
  induction text with
  | nil => rfl
  | cons c more ih =>
      have hmore := ih (hasDoubleSlash_tail h)
      by_cases hc : c = '/'
      · subst hc
        by_cases hhead : more.head? = some '/'
        · obtain ⟨others, rfl⟩ := List.head?_eq_some_iff.mp hhead
          cases h
        · rwa [hasDoubleSlash_slash hhead]
      · rwa [hasDoubleSlash_cons hc]

/-- A slash between two texts is no second one if there is none beside it. -/
theorem hasDoubleSlash_between {text rest : List Char} (htext : hasDoubleSlash text = false)
    (hlast : text.getLast? ≠ some '/') (hhead : rest.head? ≠ some '/')
    (hrest : hasDoubleSlash rest = false) : hasDoubleSlash (text ++ '/' :: rest) = false := by
  induction text with
  | nil => rwa [List.nil_append, hasDoubleSlash_slash hhead]
  | cons c more ih =>
      have hmore : hasDoubleSlash (more ++ '/' :: rest) = false :=
        ih (hasDoubleSlash_tail htext) fun h => hlast (by rw [List.getLast?_cons, h]; rfl)
      rw [List.cons_append]
      by_cases hc : c = '/'
      · subst hc
        rw [hasDoubleSlash_slash, hmore]
        cases more with
        | nil => exact absurd rfl hlast
        | cons d others =>
            intro hd
            obtain rfl : d = '/' := Option.some.inj hd
            cases htext
      · rwa [hasDoubleSlash_cons hc]

variable {c : Char} {text piece : List Char} {more : List (List Char)}

theorem pieces_cons (hc : c ≠ '/') (rest : List Char) :
    pieces (c :: rest) = match pieces rest with
      | [] => [[c]]
      | ['/'] :: more => [c] :: ['/'] :: more
      | piece :: more => (c :: piece) :: more :=
  pieces.eq_3 c rest hc

/-- A character joins the word that follows. -/
theorem pieces_cons_word (hc : c ≠ '/') (hpiece : piece ≠ ['/']) (h : pieces text = piece :: more) :
    pieces (c :: text) = (c :: piece) :: more := by
  rw [pieces_cons hc, h]
  split
  · rename_i hnil
    cases hnil
  · rename_i hslash
    exact absurd (List.cons.inj hslash).1 hpiece
  · rename_i hword
    obtain ⟨rfl, rfl⟩ := List.cons.inj hword
    rfl

/-- A character before a slash, or the last one, is a word of its own. -/
theorem pieces_cons_slash (hc : c ≠ '/')
    (h : ∀ piece more, pieces text = piece :: more → piece = ['/']) :
    pieces (c :: text) = [c] :: pieces text := by
  rw [pieces_cons hc]
  cases hpieces : pieces text with
  | nil => rfl
  | cons piece more =>
      obtain rfl := h piece more hpieces
      rfl

/-- What stands before the pieces of a text, with a further character in front. -/
theorem pieces_cons_cases (hc : c ≠ '/') (text : List Char) :
    (∃ piece more, piece ≠ ['/'] ∧ pieces text = piece :: more ∧
      pieces (c :: text) = (c :: piece) :: more) ∨
    (∀ piece more, pieces text = piece :: more → piece = ['/']) ∧
      pieces (c :: text) = [c] :: pieces text := by
  by_cases hword : ∃ piece more, piece ≠ ['/'] ∧ pieces text = piece :: more
  · obtain ⟨piece, more, hpiece, hpieces⟩ := hword
    exact Or.inl ⟨piece, more, hpiece, hpieces, pieces_cons_word hc hpiece hpieces⟩
  · have hslash : ∀ piece more, pieces text = piece :: more → piece = ['/'] := fun piece more h =>
      Decidable.byContradiction fun hpiece => hword ⟨piece, more, hpiece, h⟩
    exact Or.inr ⟨hslash, pieces_cons_slash hc hslash⟩

theorem pieces_append_slash (text rest : List Char) :
    pieces (text ++ '/' :: rest) = pieces text ++ ['/'] :: pieces rest := by
  induction text with
  | nil => rfl
  | cons c text ih =>
      by_cases hc : c = '/'
      · subst hc
        exact congrArg (['/'] :: ·) ih
      rw [List.cons_append]
      rcases pieces_cons_cases hc text with ⟨piece, more, hpiece, hpieces, hcons⟩ | ⟨hslash, hcons⟩
      · rw [hcons]
        rw [hpieces] at ih
        exact pieces_cons_word hc hpiece ih
      · rw [hcons, List.cons_append, ← ih]
        refine pieces_cons_slash hc fun piece more heq => ?_
        rw [ih] at heq
        cases hpieces : pieces text with
        | nil =>
            rw [hpieces] at heq
            exact (List.cons.inj heq).1.symm
        | cons first others =>
            rw [hpieces] at heq
            rw [← (List.cons.inj heq).1]
            exact hslash first others hpieces

/-- A word before a slash or at the end of a text is a piece. -/
theorem pieces_word {word : List Char} (hne : word ≠ []) (h : '/' ∉ word) {rest : List Char}
    (hrest : rest = [] ∨ ∃ more, rest = '/' :: more) :
    pieces (word ++ rest) = word :: pieces rest := by
  induction word with
  | nil => exact absurd rfl hne
  | cons c more ih =>
      have hc : c ≠ '/' := fun hc => h (hc ▸ List.mem_cons_self)
      have hmore : '/' ∉ more := fun hmem => h (List.mem_cons_of_mem _ hmem)
      cases more with
      | nil => rcases hrest with rfl | ⟨tail, rfl⟩ <;> exact pieces_cons_slash hc (by simp [pieces])
      | cons d others =>
          have hword : d :: others ≠ ['/'] := fun heq => hmore (heq ▸ List.mem_singleton_self _)
          exact pieces_cons_word hc hword (ih (List.cons_ne_nil _ _) hmore)

/-- The pieces of a text make up the text. -/
theorem flatten_pieces (text : List Char) : (pieces text).flatten = text := by
  induction text with
  | nil => rfl
  | cons c rest ih =>
      by_cases hc : c = '/'
      · subst hc
        exact congrArg ('/' :: ·) ih
      rcases pieces_cons_cases hc rest with ⟨piece, more, _, hpieces, hcons⟩ | ⟨_, hcons⟩
      · rw [hpieces] at ih
        rw [hcons, ← ih]
        rfl
      · rw [hcons, List.flatten_cons, ih]
        rfl

/-- Each piece of a text is a slash or a word. -/
theorem slash_or_word_of_mem (h : piece ∈ pieces text) :
    piece = ['/'] ∨ piece ≠ [] ∧ '/' ∉ piece := by
  induction text generalizing piece with
  | nil => cases h
  | cons c rest ih =>
      by_cases hc : c = '/'
      · subst hc
        rcases List.mem_cons.mp h with rfl | h
        · exact Or.inl rfl
        · exact ih h
      rcases pieces_cons_cases hc rest with ⟨first, more, hfirst, hpieces, hcons⟩ | ⟨_, hcons⟩
      · rw [hcons] at h
        rcases List.mem_cons.mp h with rfl | h
        · have hword := (ih (hpieces ▸ List.mem_cons_self)).resolve_left hfirst
          refine Or.inr ⟨List.cons_ne_nil _ _, fun hmem => ?_⟩
          rcases List.mem_cons.mp hmem with heq | hmem
          · exact hc heq.symm
          · exact hword.2 hmem
        · exact ih (hpieces ▸ List.mem_cons_of_mem _ h)
      · rw [hcons] at h
        rcases List.mem_cons.mp h with rfl | h
        · exact Or.inr ⟨List.cons_ne_nil _ _, fun hmem => hc (List.mem_singleton.mp hmem).symm⟩
        · exact ih h

/-- The first piece of a text is a slash only if the text starts with one. -/
theorem head?_pieces (h : text.head? ≠ some '/') : (pieces text).head? ≠ some ['/'] := by
  intro hhead
  obtain ⟨more, hmore⟩ := List.head?_eq_some_iff.mp hhead
  have htext := flatten_pieces text
  rw [hmore] at htext
  exact h (by rw [← htext]; rfl)

end NamedRoutes.Path
