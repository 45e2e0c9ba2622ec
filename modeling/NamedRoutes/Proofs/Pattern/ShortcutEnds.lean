import NamedRoutes.Proofs.Pattern.Expansion
import NamedRoutes.Proofs.Pattern.WrittenPath

/-!
Which expressions are taken for shortcuts. Writing out a shortcut looks at nothing but a colon, a
letter and a closing brace. So it leaves every text of a path and every name, and of an expression
it sees the end only: a letter is also written out where it comes last in an expression, after a
colon of the expression itself.
-/

namespace NamedRoutes

namespace Shortcut

/-- The end of an expression that is taken for a shortcut. -/
def ending (s : Shortcut) : List Char := [':', s.letter]

/-- An expression in which one shortcut is written out if it stands last, right after a colon. -/
def rewrite (s : Shortcut) (e : List Char) : List Char :=
  if s.ending <:+ ':' :: e then e.dropLast ++ s.expression.toList else e

/-- An expression in which the shortcut that stands last, right after a colon, is written out. -/
def writeLast (e : List Char) : List Char :=
  match all.find? fun s => s.ending <:+ ':' :: e with
  | some s => e.dropLast ++ s.expression.toList
  | none => e

/-- An expression that is written out if the whole of it is a shortcut. -/
def writeWhole (e : List Char) : List Char :=
  match all.find? fun s => e = [s.letter] with
  | some s => s.expression.toList
  | none => e

variable {s : Shortcut} {c : Char} {text rest e : List Char}

/-- A character stays as it is where no mark begins. -/
theorem expandIn_cons_of_not_prefix (h : ¬ s.mark <+: c :: rest) :
    s.expandIn (c :: rest) = c :: s.expandIn rest := by
  rw [expandIn.eq_def]
  split
  · next c' more heq =>
      obtain ⟨rfl, rfl⟩ := List.cons.inj heq
      rw [if_neg]
      rintro rfl
      exact h ⟨more, rfl⟩
  · next heq =>
      obtain ⟨rfl, rfl⟩ := List.cons.inj heq
      rfl
  · next heq => cases heq

theorem letter_ne (s : Shortcut) : s.letter ≠ '{' ∧ s.letter ≠ '}' := by
  cases s <;> decide

/-- A mark that begins in a text without closing braces, and goes on behind it, is an ending of the
text. -/
theorem ending_of_begun_mark {brace : Char} (hbrace : brace = '{' ∨ brace = '}')
    (htext : '}' ∉ c :: text) (h : s.mark <+: c :: (text ++ brace :: rest)) :
    c :: text = s.ending ∧ brace = '}' := by
  obtain ⟨more, hmore⟩ := s.mark_prefix_iff.mp h
  obtain ⟨rfl, htail⟩ := List.cons.inj hmore
  cases text with
  | nil =>
      obtain ⟨hletter, _⟩ := List.cons.inj htail
      rcases hbrace with rfl | rfl
      · exact absurd hletter.symm s.letter_ne.1
      · exact absurd hletter.symm s.letter_ne.2
  | cons d others =>
      obtain ⟨rfl, hrest⟩ := List.cons.inj htail
      cases others with
      | nil => exact ⟨rfl, (List.cons.inj hrest).1⟩
      | cons d others =>
          obtain ⟨rfl, _⟩ := List.cons.inj hrest
          simp at htext

/-- What stands before an opening brace stays as it is. -/
theorem expandIn_append_open (s : Shortcut) (h : '}' ∉ text) (rest : List Char) :
    s.expandIn (text ++ '{' :: rest) = text ++ '{' :: s.expandIn rest := by
  induction text with
  | nil => exact s.expandIn_cons (by decide) rest
  | cons c more ih =>
      have hmore : '}' ∉ more := fun hmem => h (List.mem_cons_of_mem _ hmem)
      rw [List.cons_append, expandIn_cons_of_not_prefix, ih hmore, List.cons_append]
      intro hmark
      cases (ending_of_begun_mark (Or.inl rfl) h hmark).2

/-- What stands before a closing brace stays as it is, unless it ends like a shortcut. -/
theorem expandIn_append_close (h : '}' ∉ text) (hending : ¬ s.ending <:+ text) (rest : List Char) :
    s.expandIn (text ++ '}' :: rest) = text ++ '}' :: s.expandIn rest := by
  induction text with
  | nil => exact s.expandIn_cons (by decide) rest
  | cons c more ih =>
      have hmore : '}' ∉ more := fun hmem => h (List.mem_cons_of_mem _ hmem)
      rw [List.cons_append, expandIn_cons_of_not_prefix,
        ih hmore fun hsuffix => hending (List.suffix_cons_iff.mpr (Or.inr hsuffix)),
        List.cons_append]
      intro hmark
      rw [(ending_of_begun_mark (Or.inr rfl) h hmark).1] at hending
      exact hending List.suffix_rfl

/-- What ends like a shortcut is written out before a closing brace. -/
theorem expandIn_append_ending (s : Shortcut) (h : '}' ∉ text) (rest : List Char) :
    s.expandIn (text ++ s.ending ++ '}' :: rest) =
      text ++ ':' :: (s.expression.toList ++ '}' :: s.expandIn rest) := by
  induction text with
  | nil =>
      change s.expandIn (':' :: s.letter :: '}' :: rest) = _
      rw [expandIn, if_pos rfl]
      simp
  | cons c more ih =>
      have hmore : '}' ∉ more := fun hmem => h (List.mem_cons_of_mem _ hmem)
      have hclose : '}' ∉ c :: (more ++ s.ending) := fun hmem => by
        rcases List.mem_append.mp (List.cons_append ▸ hmem : '}' ∈ c :: more ++ s.ending)
            with hmem | hmem
        · exact h hmem
        · cases s <;> exact absurd hmem (by decide)
      rw [List.cons_append, List.cons_append, expandIn_cons_of_not_prefix, ih hmore,
        List.cons_append]
      intro hmark
      have hlength := congrArg List.length (ending_of_begun_mark (Or.inr rfl) hclose hmark).1
      simp [ending] at hlength

/-- An expression is seen at its end. -/
theorem expandIn_expression (s : Shortcut) (hne : e ≠ []) (h : '}' ∉ e) (rest : List Char) :
    s.expandIn (':' :: (e ++ '}' :: rest)) = ':' :: (s.rewrite e ++ '}' :: s.expandIn rest) := by
  have hclose : '}' ∉ ':' :: e := by simpa using h
  unfold rewrite
  split
  · next hending =>
      obtain ⟨init, hinit⟩ := hending
      have hdrop : init ++ [':'] = ':' :: e.dropLast := by
        have hlast := congrArg List.dropLast hinit
        rw [List.dropLast_cons_of_ne_nil hne] at hlast
        rw [← hlast]
        simp [ending]
      have hinitClose : '}' ∉ init := fun hmem => hclose (hinit ▸ List.mem_append_left _ hmem)
      have hwritten := s.expandIn_append_ending hinitClose rest
      rw [hinit, List.append_cons init, hdrop] at hwritten
      rw [List.append_assoc]
      exact hwritten
  · next hending =>
      exact expandIn_append_close hclose hending rest

theorem getLast?_of_ending (h : s.ending <:+ ':' :: e) : (':' :: e).getLast? = some s.letter := by
  obtain ⟨init, hinit⟩ := h
  rw [← hinit]
  simp [ending]

/-- Where a shortcut was written out, no shortcut stands last. -/
theorem not_ending_written (s written : Shortcut) (text : List Char) :
    ¬ s.ending <:+ ':' :: (text ++ written.expression.toList) := by
  intro h
  have hlast := getLast?_of_ending h
  have hplus : written.expression.toList.getLast? = some '+' := by cases written <;> decide
  rw [← List.cons_append, List.getLast?_append, hplus, Option.some_or] at hlast
  cases s <;> exact absurd (Option.some.inj hlast) (by decide)

theorem rewrite_of_not_ending (h : ¬ s.ending <:+ ':' :: e) : s.rewrite e = e := if_neg h

/-- At most one shortcut stands last. -/
theorem ending_iff_eq {t : Shortcut} (h : s.ending <:+ ':' :: e) :
    t.ending <:+ ':' :: e ↔ t = s := by
  refine ⟨fun ht => ?_, fun ht => ht ▸ h⟩
  have hletter := Option.some.inj ((getLast?_of_ending ht).symm.trans (getLast?_of_ending h))
  revert hletter
  cases s <;> cases t <;> decide

theorem writeLast_of_ending (h : s.ending <:+ ':' :: e) :
    writeLast e = e.dropLast ++ s.expression.toList := by
  have hsome : (all.find? fun t => t.ending <:+ ':' :: e) = some s := by
    simp only [ending_iff_eq h]
    cases s <;> rfl
  unfold writeLast
  rw [hsome]

theorem writeLast_of_not_ending (h : ∀ s : Shortcut, ¬ s.ending <:+ ':' :: e) :
    writeLast e = e := by
  have hnone : (all.find? fun s => s.ending <:+ ':' :: e) = none :=
    List.find?_eq_none.mpr fun s _ => by simpa using h s
  unfold writeLast
  rw [hnone]

/-- One shortcut is written out after the other, but no more than one. -/
theorem foldl_rewrite (e : List Char) : all.foldl (fun text s => s.rewrite text) e =
    writeLast e := by
  by_cases h : ∃ s : Shortcut, s.ending <:+ ':' :: e
  · obtain ⟨s, hs⟩ := h
    have hfirst : s.rewrite e = e.dropLast ++ s.expression.toList := if_pos hs
    have hother : ∀ t : Shortcut, t ≠ s → t.rewrite e = e := fun t ht =>
      rewrite_of_not_ending (mt (ending_iff_eq hs).mp ht)
    have hdone : ∀ t : Shortcut,
        t.rewrite (e.dropLast ++ s.expression.toList) = e.dropLast ++ s.expression.toList :=
      fun t => rewrite_of_not_ending (t.not_ending_written s _)
    rw [writeLast_of_ending hs]
    cases s <;> simp [all, hfirst, hother, hdone]
  · have hnone := not_exists.mp h
    rw [writeLast_of_not_ending hnone]
    simp [all, rewrite_of_not_ending (hnone _)]

/-- The two ways of writing out differ where a shortcut stands last after a colon of the expression
itself. -/
theorem writeLast_eq_writeWhole_iff (e : List Char) :
    writeLast e = writeWhole e ↔ ∀ s : Shortcut, ¬ s.ending <:+ e := by
  constructor
  · intro heq s hending
    have hlength := hending.length_le
    have hnone : (all.find? fun t => e = [t.letter]) = none := by
      refine List.find?_eq_none.mpr fun t _ ht => ?_
      rw [of_decide_eq_true ht] at hlength
      exact Nat.not_succ_le_self 1 hlength
    have hwhole : writeWhole e = e := by
      unfold writeWhole
      rw [hnone]
    have hlast : s.ending <:+ ':' :: e := hending.trans (List.suffix_cons ':' e)
    have hwritten := not_ending_written s s e.dropLast
    rw [← writeLast_of_ending hlast, heq, hwhole] at hwritten
    exact hwritten hlast
  · intro hnone
    have hsame : ∀ s : Shortcut, s.ending <:+ ':' :: e ↔ e = [s.letter] := fun s => by
      rw [List.suffix_cons_iff, or_iff_left (hnone s)]
      simp [ending, eq_comm]
    unfold writeLast writeWhole
    simp only [hsame]
    cases hfind : all.find? fun s => e = [s.letter] with
    | none => rfl
    | some s =>
        have he : e = [s.letter] := by simpa using List.find?_some hfind
        simp [he]

theorem rewrite_ne_nil (s : Shortcut) (hne : e ≠ []) : s.rewrite e ≠ [] := by
  unfold rewrite
  split
  · intro hnil
    cases s <;> exact absurd (List.append_eq_nil_iff.mp hnil).2 (by decide)
  · exact hne

theorem braceless_expression (s : Shortcut) : '{' ∉ s.expression.toList ∧
    '}' ∉ s.expression.toList := by
  cases s <;> decide

theorem braceless_rewrite (s : Shortcut) (h : '{' ∉ e ∧ '}' ∉ e) :
    '{' ∉ s.rewrite e ∧ '}' ∉ s.rewrite e := by
  obtain ⟨hopen, hclose⟩ := s.braceless_expression
  unfold rewrite
  split
  · simp only [List.mem_append, not_or]
    exact ⟨⟨mt ((List.dropLast_sublist e).mem ·) h.1, hopen⟩,
      mt ((List.dropLast_sublist e).mem ·) h.2, hclose⟩
  · exact h

end Shortcut

namespace WrittenPlaceholder

def mapExpression (f : List Char → List Char) (p : WrittenPlaceholder) : WrittenPlaceholder :=
  { p with expression := p.expression.map f }

variable {p : WrittenPlaceholder}

theorem HasForm.expandIn_content (h : p.HasForm) (s : Shortcut) (rest : List Char) :
    s.expandIn (p.content ++ '}' :: rest) =
      (p.mapExpression s.rewrite).content ++ '}' :: s.expandIn rest := by
  have hname : ':' ∉ p.name := fun hmem => (Path.nameChar_ne (h.name _ hmem)).1 rfl
  obtain ⟨name, expression, optional⟩ := p
  unfold content mapExpression
  rw [List.append_assoc, List.append_assoc, s.expandIn_append hname]
  cases expression with
  | none => exact congrArg (name ++ ·) (s.expandIn_cons (by decide) rest)
  | some e =>
      obtain ⟨hne, _, hclose⟩ := h.expression e rfl
      exact congrArg (name ++ ·) (s.expandIn_expression hne hclose rest)

end WrittenPlaceholder

namespace WrittenPath

def mapExpressions (f : List Char → List Char) (w : WrittenPath) : WrittenPath :=
  { w with slots := w.slots.map fun slot => (slot.1.mapExpression f, slot.2) }

/-- Whether a path is made of placeholders and of texts without braces. -/
structure IsPlain (w : WrittenPath) : Prop where
  placeholders : ∀ slot ∈ w.slots, slot.1.HasForm
  before : '{' ∉ w.before ∧ '}' ∉ w.before
  after : ∀ slot ∈ w.slots, '{' ∉ slot.2 ∧ '}' ∉ slot.2

variable {w : WrittenPath}

theorem IsPlain.mapExpressions_rewrite (h : w.IsPlain) (s : Shortcut) :
    (w.mapExpressions s.rewrite).IsPlain := by
  refine ⟨List.forall_mem_map.mpr fun slot hslot => ⟨(h.placeholders slot hslot).name, ?_⟩,
    h.before, List.forall_mem_map.mpr h.after⟩
  intro e he
  obtain ⟨own, hown, rfl⟩ := Option.map_eq_some_iff.mp he
  obtain ⟨hne, hbraces⟩ := (h.placeholders slot hslot).expression own hown
  exact ⟨s.rewrite_ne_nil hne, s.braceless_rewrite hbraces⟩

/-- Writing out a shortcut leaves a path as it is, apart from the ends of its expressions. -/
theorem IsPlain.expandIn_text (h : w.IsPlain) (s : Shortcut) :
    s.expandIn w.text = (w.mapExpressions s.rewrite).text := by
  obtain ⟨before, slots⟩ := w
  obtain ⟨hforms, hbraces, hafter⟩ := h
  have hbefore : '}' ∉ before := hbraces.2
  clear hbraces
  unfold text mapExpressions
  simp only at hforms hafter ⊢
  -- the text before the next placeholder grows by the question mark and the text behind the one
  -- before
  induction slots generalizing before with
  | nil =>
      simp only [List.flatMap_nil, List.map_nil, List.append_nil]
      refine Shortcut.expandIn_of_not_infix fun hmark => hbefore (hmark.subset ?_)
      simp [Shortcut.mark]
  | cons slot rest ih =>
      obtain ⟨p, after⟩ := slot
      obtain ⟨hform, hforms⟩ := List.forall_mem_cons.mp hforms
      obtain ⟨⟨_, hlast⟩, hafter⟩ := List.forall_mem_cons.mp hafter
      have hnext : '}' ∉ (if p.optional then ['?'] else []) ++ after := by
        rw [List.mem_append, not_or]
        exact ⟨by cases p.optional <;> decide, hlast⟩
      have hrest := ih ((if p.optional then ['?'] else []) ++ after) hforms hafter hnext
      simp only [List.flatMap_cons, List.map_cons, WrittenPlaceholder.text, List.cons_append,
        List.append_assoc]
        at hrest ⊢
      rw [s.expandIn_append_open hbefore, hform.expandIn_content, hrest]
      rfl

theorem mapExpressions_mapExpressions (f g : List Char → List Char) (w : WrittenPath) :
    (w.mapExpressions f).mapExpressions g = w.mapExpressions (g ∘ f) := by
  simp [mapExpressions, WrittenPlaceholder.mapExpression]

/-- The three shortcuts are written out one after the other. -/
theorem IsPlain.expand_text (h : w.IsPlain) :
    Shortcut.expand (.ofList w.text) = .ofList (w.mapExpressions Shortcut.writeLast).text := by
  have hlast : (Shortcut.slug.rewrite ∘ Shortcut.alphanumerics.rewrite) ∘ Shortcut.digits.rewrite =
      Shortcut.writeLast := funext fun e => Shortcut.foldl_rewrite e
  have hdigits := h.mapExpressions_rewrite .digits
  have halphanumerics := hdigits.mapExpressions_rewrite .alphanumerics
  unfold Shortcut.expand Shortcut.all
  rw [String.toList_ofList, List.foldl_cons, List.foldl_cons, List.foldl_cons, List.foldl_nil,
    h.expandIn_text, hdigits.expandIn_text, halphanumerics.expandIn_text,
    mapExpressions_mapExpressions, mapExpressions_mapExpressions, hlast]

/-- A text up to a closing brace can be read off. -/
theorem append_close_inj {text other rest others : List Char} (htext : '}' ∉ text)
    (hother : '}' ∉ other) :
    text ++ '}' :: rest = other ++ '}' :: others ↔ text = other ∧ rest = others := by
  have hfirst : ∀ start more : List Char, '}' ∉ start →
      (start ++ '}' :: more).takeWhile (· != '}') = start := fun start more hstart => by
    have hall : ∀ c ∈ start, (c != '}') = true :=
      fun c hc => bne_iff_ne.mpr fun heq => hstart (heq ▸ hc)
    rw [List.takeWhile_append_of_pos hall]
    simp
  constructor
  · intro h
    have hsame : text = other := by rw [← hfirst text rest htext, h, hfirst other others hother]
    rw [hsame] at h
    exact ⟨hsame, (List.cons.inj (List.append_cancel_left h)).2⟩
  · rintro ⟨rfl, rfl⟩
    rfl

/-- What is written for the expressions can be read off a path. -/
theorem text_mapExpressions_inj {f g : List Char → List Char}
    (hf : ∀ slot ∈ w.slots, ∀ e ∈ slot.1.expression, '}' ∉ f e)
    (hg : ∀ slot ∈ w.slots, ∀ e ∈ slot.1.expression, '}' ∉ g e) :
    (w.mapExpressions f).text = (w.mapExpressions g).text ↔
      ∀ slot ∈ w.slots, ∀ e ∈ slot.1.expression, f e = g e := by
  obtain ⟨before, slots⟩ := w
  unfold text mapExpressions
  simp only [List.append_cancel_left_eq] at hf hg ⊢
  induction slots with
  | nil => simp
  | cons slot rest ih =>
      obtain ⟨⟨name, expression, optional⟩, after⟩ := slot
      obtain ⟨hfirst, hf⟩ := List.forall_mem_cons.mp hf
      obtain ⟨hother, hg⟩ := List.forall_mem_cons.mp hg
      rw [List.forall_mem_cons, ← ih hf hg]
      cases expression with
      | none =>
          simp [WrittenPlaceholder.text, WrittenPlaceholder.content,
            WrittenPlaceholder.mapExpression]
      | some e =>
          simp [WrittenPlaceholder.text, WrittenPlaceholder.content,
            WrittenPlaceholder.mapExpression, append_close_inj (hfirst e rfl) (hother e rfl)]

end WrittenPath

namespace Shortcut

theorem braceless_writeLast (h : '{' ∉ e ∧ '}' ∉ e) : '}' ∉ writeLast e := by
  rw [← foldl_rewrite]
  exact (slug.braceless_rewrite (alphanumerics.braceless_rewrite (digits.braceless_rewrite h))).2

theorem braceless_writeWhole (h : '{' ∉ e ∧ '}' ∉ e) : '}' ∉ writeWhole e := by
  unfold writeWhole
  split
  · next s _ => exact s.braceless_expression.2
  · exact h.2

/-- Of a path made of placeholders and of texts without braces, nothing is written out but the ends
of expressions, where the letter of a shortcut stands last and right after a colon. Only whole
expressions are written out, as is said of shortcuts, exactly if no expression ends with such a
letter after a colon of its own. -/
theorem shortcuts_end_expressions (w : WrittenPath) (h : w.IsPlain) :
    expand (.ofList w.text) = .ofList (w.mapExpressions writeLast).text ∧
    (expand (.ofList w.text) = .ofList (w.mapExpressions writeWhole).text ↔
      ∀ slot ∈ w.slots, ∀ e ∈ slot.1.expression, ∀ s : Shortcut, ¬ s.ending <:+ e) := by
  have hexpand := h.expand_text
  refine ⟨hexpand, ?_⟩
  rw [hexpand, String.ofList_inj, WrittenPath.text_mapExpressions_inj]
  · simp only [writeLast_eq_writeWhole_iff]
  · exact fun slot hslot e he => braceless_writeLast ((h.placeholders slot hslot).expression e he).2
  · exact fun slot hslot e he =>
      braceless_writeWhole ((h.placeholders slot hslot).expression e he).2

/-- A path with a shortcut, an expression that ends with the letter of one, and such letters in its
texts. -/
def letteredPath : WrittenPath where
  before := "x:i/".toList
  slots := [(⟨"number".toList, some "i".toList, true⟩, "/".toList),
    (⟨"kind".toList, some "a|s".toList, false⟩, "/".toList),
    (⟨"i".toList, none, false⟩, ":a".toList)]

theorem shortcuts_end_expressions_for_lettered_path :
    letteredPath.IsPlain ∧ .ofList letteredPath.text = "x:i/{number:i}?/{kind:a|s}/{i}:a" ∧
    expand (.ofList letteredPath.text) = "x:i/{number:[0-9]+}?/{kind:a|s}/{i}:a" ∧
    (∀ slot ∈ letteredPath.slots, ∀ e ∈ slot.1.expression, ∀ s : Shortcut, ¬ s.ending <:+ e) ∧
    expand (.ofList letteredPath.text) = .ofList (letteredPath.mapExpressions writeWhole).text := by
  have hplain : letteredPath.IsPlain := ⟨by decide, by decide, by decide⟩
  have hown : ∀ s : Shortcut, ∀ slot ∈ letteredPath.slots, ∀ e ∈ slot.1.expression,
      ¬ s.ending <:+ e := by
    intro s
    cases s <;> decide
  have hnone : ∀ slot ∈ letteredPath.slots, ∀ e ∈ slot.1.expression, ∀ s : Shortcut,
      ¬ s.ending <:+ e :=
    fun slot hslot e he s => hown s slot hslot e he
  obtain ⟨_, hiff⟩ := shortcuts_end_expressions letteredPath hplain
  exact ⟨hplain, by decide +kernel, by decide +kernel, hnone, hiff.mpr hnone⟩

def partPath : WrittenPath where
  before := []
  slots := [(⟨"x".toList, some "a:i".toList, false⟩, [])]

theorem shortcut_can_be_part_of_expression : ¬ ∀ w : WrittenPath, w.IsPlain →
    expand (.ofList w.text) = .ofList (w.mapExpressions writeWhole).text := by
  intro h
  have hexpanded := h partPath ⟨by decide, by decide, by decide⟩
  revert hexpanded
  decide +kernel

end Shortcut

end NamedRoutes
