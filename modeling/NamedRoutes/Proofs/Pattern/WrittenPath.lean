import Mathlib.Data.List.Nodup
import NamedRoutes.Proofs.Pattern.Components
import NamedRoutes.Proofs.Pattern.Margins

/-!
The grammar of paths. A path is a text, and then placeholders with texts after them; a placeholder
is a name in braces, perhaps with an expression after a colon, and perhaps with a question mark
behind it. The checks of a path accept what the grammar allows and nothing else, and they find out
how the path was written.
-/

namespace NamedRoutes

structure WrittenPlaceholder where
  name : List Char
  /-- What stands after a colon, if there is one. -/
  expression : Option (List Char)
  /-- A question mark stands behind the braces. -/
  optional : Bool
  deriving DecidableEq, Repr

namespace WrittenPlaceholder

def content (p : WrittenPlaceholder) : List Char :=
  p.name ++ match p.expression with
    | none => []
    | some e => ':' :: e

def text (p : WrittenPlaceholder) : List Char :=
  '{' :: (p.content ++ '}' :: if p.optional then ['?'] else [])

/-- Whether the name has only characters of names, and the expression is not empty and has no
braces. -/
structure HasForm (p : WrittenPlaceholder) : Prop where
  name : ∀ c ∈ p.name, Path.isNameChar c = true
  expression : ∀ e ∈ p.expression, e ≠ [] ∧ '{' ∉ e ∧ '}' ∉ e

instance (p : WrittenPlaceholder) : Decidable p.HasForm :=
  have := List.decidableBAll (fun c => Path.isNameChar c = true) p.name
  decidable_of_iff ((∀ c ∈ p.name, Path.isNameChar c = true) ∧
    ∀ e ∈ p.expression, e ≠ [] ∧ '{' ∉ e ∧ '}' ∉ e) ⟨fun h => ⟨h.1, h.2⟩, fun h => ⟨h.1, h.2⟩⟩

def placeholder (p : WrittenPlaceholder) : Placeholder :=
  ⟨.ofList p.name, (p.expression.map String.ofList).getD Placeholder.defaultExpression, p.optional⟩

def ofContent (content : List Char) (optional : Bool) : WrittenPlaceholder where
  name := content.takeWhile Path.isNameChar
  expression := match content.dropWhile Path.isNameChar with
    | ':' :: e => some e
    | _ => none
  optional

variable {p : WrittenPlaceholder} {content : List Char} {optional : Bool}

theorem HasForm.braceless (h : p.HasForm) : ∀ c ∈ p.content, c ≠ '{' ∧ c ≠ '}' := by
  have hname : ∀ c ∈ p.name, c ≠ '{' ∧ c ≠ '}' := fun c hc =>
    have hne := Path.nameChar_ne (h.name c hc)
    ⟨hne.2.1, hne.2.2.1⟩
  refine List.forall_mem_append.mpr ⟨hname, ?_⟩
  cases hexpression : p.expression with
  | none => exact List.forall_mem_nil _
  | some e =>
      exact List.forall_mem_cons.mpr ⟨by decide, CutPath.braceless (h.expression e hexpression).2⟩

/-- The name ends where the characters of names end. -/
theorem HasForm.takeWhile (h : p.HasForm) : p.content.takeWhile Path.isNameChar = p.name ∧
    p.content.dropWhile Path.isNameChar = match p.expression with
      | none => []
      | some e => ':' :: e := by
  have hcolon : Path.isNameChar ':' = false := by decide
  unfold WrittenPlaceholder.content
  rw [List.takeWhile_append_of_pos h.name, List.dropWhile_append_of_pos h.name]
  cases p.expression with
  | none => simp
  | some e => simp [hcolon]

theorem HasForm.ofContent_content (h : p.HasForm) : ofContent p.content p.optional = p := by
  obtain ⟨hname, hrest⟩ := h.takeWhile
  unfold ofContent
  rw [hname, hrest]
  obtain ⟨name, _ | e, optional⟩ := p <;> rfl

theorem HasForm.read?_content (h : p.HasForm) (hname : p.name ≠ []) :
    Placeholder.read? p.content p.optional = some p.placeholder := by
  obtain ⟨htake, hrest⟩ := h.takeWhile
  have hnonempty : p.name.isEmpty = false := by simpa using hname
  unfold Placeholder.read? placeholder
  rw [htake, hrest]
  simp only [hnonempty, Bool.false_eq_true, if_false]
  cases hexpression : p.expression with
  | none => rfl
  | some e =>
      cases e with
      | nil => exact absurd rfl (h.expression [] hexpression).1
      | cons c rest => rfl

/-- Content that is read was written as a placeholder. -/
theorem ofContent_of_read? {q : Placeholder} (h : Placeholder.read? content optional = some q)
    (hbraces : ∀ c ∈ content, c ≠ '{' ∧ c ≠ '}') :
    (ofContent content optional).content = content ∧ (ofContent content optional).name ≠ [] ∧
      (ofContent content optional).HasForm := by
  have hname : ∀ c ∈ content.takeWhile Path.isNameChar, Path.isNameChar c = true :=
    List.all_eq_true.mp List.all_takeWhile
  have hwhole : content.takeWhile Path.isNameChar ++ content.dropWhile Path.isNameChar = content :=
    List.takeWhile_append_dropWhile
  have hnonempty : content.takeWhile Path.isNameChar ≠ [] := by
    intro hnil
    simp [Placeholder.read?, hnil] at h
  have hempty : (content.takeWhile Path.isNameChar).isEmpty = false := by simpa using hnonempty
  unfold Placeholder.read? at h
  simp only [hempty, Bool.false_eq_true, if_false] at h
  split at h
  · next hrest =>
      refine ⟨?_, hnonempty, hname, ?_⟩
      · simpa [WrittenPlaceholder.content, ofContent, hrest] using hwhole
      · simp [ofContent, hrest]
  · next c rest hrest =>
      refine ⟨?_, hnonempty, hname, ?_⟩
      · simpa [WrittenPlaceholder.content, ofContent, hrest] using hwhole
      · have hsome : (ofContent content optional).expression = some (c :: rest) := by
          simp [ofContent, hrest]
        rw [hsome]
        rintro e he
        obtain rfl := Option.some.inj he
        have hmem : ∀ d ∈ c :: rest, d ∈ content := fun d hd => by
          rw [← hwhole, hrest]
          exact List.mem_append_right _ (List.mem_cons_of_mem _ hd)
        exact ⟨List.cons_ne_nil _ _, fun hd => (hbraces _ (hmem _ hd)).1 rfl,
          fun hd => (hbraces _ (hmem _ hd)).2 rfl⟩
  · cases h

end WrittenPlaceholder

/-- A path as it is written: a text, and placeholders with the texts after them. -/
structure WrittenPath where
  before : List Char
  slots : List (WrittenPlaceholder × List Char)
  deriving DecidableEq, Repr

namespace CutPath

/-- No braces stand between a pair of braces. -/
theorem braceless_of_cut {text : List Char} {cut : CutPath} (h : ofText? text = some cut) :
    ∀ slot ∈ cut.slots, ∀ c ∈ slot.content, c ≠ '{' ∧ c ≠ '}' := by
  have hboth :=
    cut_induction (fun _ cut => ∀ slot ∈ cut.slots, ∀ c ∈ slot.content, c ≠ '{' ∧ c ≠ '}')
    (fun _ content cut => (∀ c ∈ content, c ≠ '{' ∧ c ≠ '}') ∧
      ∀ slot ∈ cut.slots, ∀ c ∈ slot.content, c ≠ '{' ∧ c ≠ '}') (List.forall_mem_nil _)
    (fun _ _ _ hinside => List.forall_mem_cons.mpr hinside) (fun _ _ _ _ houtside => houtside)
    (fun _ _ houtside => ⟨List.forall_mem_nil _, houtside⟩)
    (fun _ _ _ _ hc ⟨hcontent, hslots⟩ => ⟨List.forall_mem_cons.mpr ⟨hc, hcontent⟩, hslots⟩) text
  exact hboth.1 cut h

/-- What is written slot by slot is cut into these slots, if no text has a brace and no question
mark is taken for that of a slot. -/
theorem ofText?_source {cut : CutPath} (hbefore : ∀ c ∈ cut.before, c ≠ '{' ∧ c ≠ '}')
    (hslots : ∀ slot ∈ cut.slots, (∀ c ∈ slot.content, c ≠ '{' ∧ c ≠ '}') ∧
      (∀ c ∈ slot.after, c ≠ '{' ∧ c ≠ '}') ∧ slot.after.head? ≠ some '?') :
    ofText? cut.source = some cut := by
  obtain ⟨before, slots⟩ := cut
  unfold source
  simp only at hbefore hslots ⊢
  induction slots generalizing before with
  | nil => rw [ofText?_append hbefore]; simp [ofText?]
  | cons slot rest ih =>
      obtain ⟨⟨hcontent, hafter, hhead⟩, hrest⟩ := List.forall_mem_cons.mp hslots
      have hmark : ∀ c ∈ (if slot.optional then ['?'] else []) ++ slot.after, c ≠
          '{' ∧ c ≠ '}' := by
        refine List.forall_mem_append.mpr ⟨?_, hafter⟩
        cases slot.optional <;> simp
      have hsplit : splitOptional ((if slot.optional then ['?'] else []) ++ slot.after) =
          (slot.optional, slot.after) := by
        cases slot.optional with
        | true => rfl
        | false =>
            simp only [Bool.false_eq_true, if_false, List.nil_append]
            unfold splitOptional
            split
            · next more hmore => exact absurd (by rw [hmore]; rfl) hhead
            · rfl
      rw [ofText?_append hbefore, List.flatMap_cons, Slot.source, List.cons_append,
        List.append_assoc, List.cons_append, ofText?_braces hcontent, ih _ hmark hrest,
        Option.map_some, Option.map_some, hsplit, List.append_nil]

end CutPath

namespace WrittenPath

def text (w : WrittenPath) : List Char :=
  w.before ++ w.slots.flatMap fun slot => slot.1.text ++ slot.2

def cut (w : WrittenPath) : CutPath :=
  ⟨w.before, w.slots.map fun slot => ⟨slot.1.content, slot.1.optional, slot.2⟩⟩

def template (w : WrittenPath) : Template :=
  ⟨w.before, w.slots.map fun slot => (slot.1.placeholder, slot.2)⟩

def ofCut (cut : CutPath) : WrittenPath :=
  ⟨cut.before, cut.slots.map fun slot => (.ofContent slot.content slot.optional, slot.after)⟩

/-- Whether the placeholders have names, no two of them the same one, and the texts have no
characters but those of paths and no two slashes in a row. -/
structure IsAccepted (w : WrittenPath) : Prop where
  placeholders : ∀ slot ∈ w.slots, slot.1.name ≠ [] ∧ slot.1.HasForm
  before : Path.isStaticText w.before = true
  after : ∀ slot ∈ w.slots, Path.isStaticText slot.2 = true
  distinct : (w.slots.map (·.1.name)).Nodup

instance (w : WrittenPath) : Decidable w.IsAccepted :=
  decidable_of_iff
    ((∀ slot ∈ w.slots, slot.1.name ≠ [] ∧ slot.1.HasForm) ∧ Path.isStaticText w.before = true ∧
    (∀ slot ∈ w.slots, Path.isStaticText slot.2 = true) ∧ (w.slots.map (·.1.name)).Nodup)
    ⟨fun h => ⟨h.1, h.2.1, h.2.2.1, h.2.2.2⟩, fun h => ⟨h.1, h.2, h.3, h.4⟩⟩

variable {w : WrittenPath} {path : String}

theorem source_cut (w : WrittenPath) : w.cut.source = w.text := by
  unfold CutPath.source text cut
  rw [List.flatMap_map]
  simp [Slot.source, WrittenPlaceholder.text]

theorem cut_ofCut {cut : CutPath} (h : ∀ slot ∈ cut.slots,
    (WrittenPlaceholder.ofContent slot.content slot.optional).content = slot.content) :
    (ofCut cut).cut = cut := by
  have hslots : cut.slots.map
      (fun slot => (⟨(WrittenPlaceholder.ofContent slot.content slot.optional).content,
      slot.optional, slot.after⟩ : Slot)) = cut.slots.map id :=
    List.map_congr_left fun slot hslot => by rw [h slot hslot]; rfl
  rw [List.map_id] at hslots
  unfold WrittenPath.cut ofCut
  rw [List.map_map]
  exact congrArg (CutPath.mk cut.before) hslots

theorem ofCut_cut (h : ∀ slot ∈ w.slots, slot.1.HasForm) : ofCut w.cut = w := by
  have hslots : w.slots.map (fun slot =>
      (WrittenPlaceholder.ofContent slot.1.content slot.1.optional, slot.2)) = w.slots.map id :=
    List.map_congr_left fun slot hslot => by rw [(h slot hslot).ofContent_content]; rfl
  rw [List.map_id] at hslots
  unfold ofCut cut
  rw [List.map_map]
  exact congrArg (WrittenPath.mk w.before) hslots

theorem placeholders_cut (h : ∀ slot ∈ w.slots, slot.1.name ≠ [] ∧ slot.1.HasForm) :
    w.cut.placeholders = w.template.placeholders := by
  unfold CutPath.placeholders cut template
  rw [List.filterMap_map, ← List.filterMap_eq_map]
  refine List.filterMap_congr fun slot hslot => ?_
  obtain ⟨hname, hform⟩ := h slot hslot
  simp [hform.read?_content hname]

theorem nodup_names (w : WrittenPath) :
    w.template.names.Nodup ↔ (w.slots.map (·.1.name)).Nodup := by
  have hnames : w.template.names = (w.slots.map (·.1.name)).map String.ofList := by
    simp [Template.names, template, WrittenPlaceholder.placeholder, Function.comp_def]
  rw [hnames, List.nodup_map_iff fun _ _ => String.ofList_injective]

end WrittenPath

namespace Path

/-- Two slashes in a row stand on one side of any other character. -/
theorem hasDoubleSlash_around {text rest : List Char} {c : Char} (hc : c ≠ '/')
    (htext : hasDoubleSlash text = false) (hrest : hasDoubleSlash rest = false) :
    hasDoubleSlash (text ++ c :: rest) = false := by
  induction text with
  | nil => rwa [List.nil_append, hasDoubleSlash_cons hc]
  | cons d more ih =>
      have hmore := ih (hasDoubleSlash_tail htext)
      rw [List.cons_append]
      by_cases hd : d = '/'
      · subst hd
        rw [hasDoubleSlash_slash, hmore]
        cases more with
        | nil => exact fun hhead => hc (Option.some.inj hhead)
        | cons e others =>
            intro hhead
            obtain rfl : e = '/' := Option.some.inj hhead
            cases htext
      · rwa [hasDoubleSlash_cons hd]

theorem braceless_of_isStaticText {text : List Char} (h : isStaticText text = true) :
    (∀ c ∈ text, c ≠ '{' ∧ c ≠ '}') ∧ text.head? ≠ some '?' := by
  have hchars := List.all_eq_true.mp (Bool.and_eq_true_iff.mp h).1
  refine ⟨fun c hc => ?_, fun hhead => ?_⟩
  · have hne := pathChar_ne (hchars c hc)
    exact ⟨hne.2.1, hne.2.2.1⟩
  · exact (pathChar_ne (hchars _ (List.mem_of_head? hhead))).2.2.2.1 rfl

theorem isStaticText_word (before after : List Char) :
    isStaticText (before ++ ("param".toList ++ after)) = true ↔
      isStaticText before = true ∧ isStaticText after = true := by
  have hword : "param".toList.all isPathChar = true := by decide
  have hchars : "param".toList = 'p' :: ['a', 'r', 'a', 'm'] := by decide
  simp only [isStaticText, List.all_append, hword, Bool.and_eq_true, Bool.not_eq_true', true_and]
  constructor
  · rintro ⟨⟨hbefore, hafter⟩, hsingle⟩
    exact ⟨⟨hbefore, hasDoubleSlash_left hsingle⟩, hafter,
      hasDoubleSlash_right (hasDoubleSlash_right hsingle)⟩
  · rintro ⟨⟨hbefore, hleft⟩, hafter, hright⟩
    refine ⟨⟨hbefore, hafter⟩, ?_⟩
    rw [hchars, List.cons_append]
    refine hasDoubleSlash_around (by decide) hleft ?_
    rwa [hasDoubleSlash_append (by decide)]

end Path

/-- The outline of a path is a text of paths if its texts are. -/
theorem CutPath.isStaticText_outline_iff (cut : CutPath) : Path.isStaticText cut.outline = true ↔
    Path.isStaticText cut.before = true ∧
      ∀ slot ∈ cut.slots, Path.isStaticText slot.after = true := by
  obtain ⟨before, slots⟩ := cut
  unfold outline
  simp only
  induction slots generalizing before with
  | nil => simp
  | cons slot rest ih =>
      rw [List.flatMap_cons, List.append_assoc, Path.isStaticText_word, ih, List.forall_mem_cons]

namespace WrittenPath

variable {w : WrittenPath} {path : String}

/-- An accepted path is cut where it was written. -/
theorem IsAccepted.cut_text (h : w.IsAccepted) : CutPath.ofText? w.text = some w.cut := by
  rw [← source_cut]
  refine CutPath.ofText?_source (Path.braceless_of_isStaticText h.before).1 ?_
  refine List.forall_mem_map.mpr fun slot hslot => ?_
  exact ⟨(h.placeholders slot hslot).2.braceless,
    Path.braceless_of_isStaticText (h.after slot hslot)⟩

theorem IsAccepted.parse (h : w.IsAccepted) (htext : w.text = path.toList) :
    Template.parse path = .ok w.template := by
  have hplaceholders := placeholders_cut h.placeholders
  have hcut : CutPath.ofText? path.toList = some w.cut := htext ▸ h.cut_text
  have houtline : Path.isStaticText w.cut.outline = true :=
    w.cut.isStaticText_outline_iff.mpr ⟨h.before, List.forall_mem_map.mpr h.after⟩
  have hcount : w.cut.slots.length = w.cut.placeholders.length := by
    rw [hplaceholders]
    simp [cut, template]
  have hnames : Template.firstRepeated? [] (w.cut.placeholders.map (·.1.name)) = none := by
    refine Template.firstRepeated?_eq_none.mpr ⟨?_, fun _ _ => List.not_mem_nil⟩
    rw [hplaceholders]
    exact w.nodup_names.mpr h.distinct
  rw [Template.parse_of_cut hcut houtline hcount hnames, hplaceholders]
  rfl

/-- The way in which an accepted path was written can be read off its text. -/
theorem IsAccepted.unique {other : WrittenPath} (h : w.IsAccepted) (hother : other.IsAccepted)
    (htext : other.text = w.text) : other = w := by
  have hcut : other.cut = w.cut := by
    have heq := hother.cut_text
    rw [htext, h.cut_text] at heq
    exact (Option.some.inj heq).symm
  rw [← ofCut_cut fun slot hslot => (h.placeholders slot hslot).2, ← hcut,
    ofCut_cut fun slot hslot => (hother.placeholders slot hslot).2]

/-- A path that is read without an error was written as the grammar has it. -/
theorem exists_of_parse {t : Template} (h : Template.parse path = .ok t) :
    ∃ w : WrittenPath, w.IsAccepted ∧ w.text = path.toList := by
  obtain ⟨cut, hcut, houtline, rfl, hcount, hrepeated⟩ := Template.parse_eq_ok h
  have hbraces := CutPath.braceless_of_cut hcut
  obtain ⟨hbefore, hafter⟩ := cut.isStaticText_outline_iff.mp houtline
  have hread : ∀ slot ∈ cut.slots, ∃ q, Placeholder.read? slot.content slot.optional = some q := by
    intro slot hslot
    have hall := List.filterMap_length_eq_length.mp
      (Nat.le_antisymm (List.length_filterMap_le _ _) hcount)
    simpa [Option.isSome_iff_exists] using hall slot hslot
  have hwritten : ∀ slot ∈ cut.slots, _ := fun slot hslot =>
    (hread slot hslot).elim fun _ hq =>
      WrittenPlaceholder.ofContent_of_read? hq (hbraces slot hslot)
  have hsame : (ofCut cut).cut = cut := cut_ofCut fun slot hslot => (hwritten slot hslot).1
  have hplaceholders : ∀ slot ∈ (ofCut cut).slots, slot.1.name ≠ [] ∧ slot.1.HasForm :=
    List.forall_mem_map.mpr fun slot hslot => (hwritten slot hslot).2
  refine ⟨ofCut cut, ⟨hplaceholders, hbefore, List.forall_mem_map.mpr hafter, ?_⟩, ?_⟩
  · have hdistinct := (Template.firstRepeated?_eq_none.mp hrepeated).1
    rw [← nodup_names]
    unfold Template.names at hdistinct ⊢
    rwa [← placeholders_cut hplaceholders, hsame]
  · rw [← source_cut, hsame]
    exact (CutPath.source_of_cut _).1 cut hcut

end WrittenPath

namespace RoutePattern

/-- The checks of a path accept exactly the grammar of paths. A path can be written in one way at
most, and if it is, it is assembled from the texts and the placeholders as they were written;
otherwise it is malformed. -/
theorem checks_accept_grammar (path space : String) :
    let expanded := Shortcut.expand path
    ((∃ t, Template.parse expanded = .ok t) ↔ ∃ w : WrittenPath, w.IsAccepted ∧
      w.text = expanded.toList) ∧
    (∀ w : WrittenPath, w.IsAccepted → w.text = expanded.toList →
      Template.parse expanded = .ok w.template ∧
      compile path space = assemble space expanded w.template ∧
      ∀ other : WrittenPath, other.IsAccepted → other.text = expanded.toList → other = w) ∧
    ((¬ ∃ w : WrittenPath, w.IsAccepted ∧ w.text = expanded.toList) →
      ∃ cause, Template.parse expanded = .error cause ∧
      compile path space = .error (.badPattern cause)) := by
  intro expanded
  have hiff : (∃ t, Template.parse expanded = .ok t) ↔
      ∃ w : WrittenPath, w.IsAccepted ∧ w.text = expanded.toList :=
    ⟨fun ⟨_, ht⟩ => WrittenPath.exists_of_parse ht, fun ⟨w, hw, htext⟩ => ⟨_, hw.parse htext⟩⟩
  refine ⟨hiff, fun w hw htext => ?_, fun hnone => ?_⟩
  · have hparse : Template.parse expanded = .ok w.template := hw.parse htext
    exact ⟨hparse, compile_of_parse space hparse,
      fun other hother hsame => hw.unique hother (hsame.trans htext.symm)⟩
  · rcases compile_cases path space with herror | ⟨t, ht, _⟩
    · exact herror
    · exact absurd (hiff.mp ⟨t, ht⟩) hnone

/-- A path with an optional number, a name that takes all up to the next slash, and a text right
behind it. -/
def datedPath : WrittenPath where
  before := "posts/".toList
  slots := [(⟨"year".toList, some "[0-9]+".toList, true⟩, "/".toList),
    (⟨"slug".toList, none, false⟩, "-x".toList)]

/-- One of two question marks is part of the text, where it is not allowed. -/
theorem checks_accept_grammar_for_dated_path :
    datedPath.IsAccepted ∧ datedPath.text = (Shortcut.expand "posts/{year:i}?/{slug}-x").toList ∧
    Template.parse (Shortcut.expand "posts/{year:i}?/{slug}-x") = .ok datedPath.template ∧
    compile "posts/{year:i}?/{slug}-x" "v" =
      assemble "v" (Shortcut.expand "posts/{year:i}?/{slug}-x") datedPath.template ∧
    (¬ ∃ w : WrittenPath, w.IsAccepted ∧ w.text = (Shortcut.expand "posts/{year:i}??").toList) ∧
    ∃ cause, compile "posts/{year:i}??" "v" = .error (.badPattern cause) := by
  have haccepted : datedPath.IsAccepted := by decide
  have htext : datedPath.text = (Shortcut.expand "posts/{year:i}?/{slug}-x").toList := by
    decide +kernel
  obtain ⟨_, hread, _⟩ := checks_accept_grammar "posts/{year:i}?/{slug}-x" "v"
  obtain ⟨hparse, hcompile, _⟩ := hread datedPath haccepted htext
  obtain ⟨hiff, _, hmalformed⟩ := checks_accept_grammar "posts/{year:i}??" "v"
  have hfails : (Template.parse (Shortcut.expand "posts/{year:i}??")).isOk = false := by
    decide +kernel
  have hnone : ¬ ∃ w : WrittenPath, w.IsAccepted ∧
      w.text = (Shortcut.expand "posts/{year:i}??").toList :=
    fun hsome => by
      obtain ⟨t, ht⟩ := hiff.mpr hsome
      rw [ht] at hfails
      cases hfails
  obtain ⟨cause, _, herror⟩ := hmalformed hnone
  exact ⟨haccepted, htext, hparse, hcompile, hnone, cause, herror⟩

end RoutePattern

end NamedRoutes
