import NamedRoutes.Proofs.Pattern.Braces
import NamedRoutes.Proofs.Pattern.Layout

/-!
Paths made of whole components: between two slashes there is either literal text or one placeholder,
with a shortcut or without an expression. Such a path is read as its components in turn.
-/

namespace NamedRoutes

/-- What may stand between two slashes of a path. -/
inductive Component where
  | literal (text : String)
  | placeholder (name : String) (shortcut : Option Shortcut) (optional : Bool)
  deriving DecidableEq, Repr

namespace Component

def expression (shortcut : Option Shortcut) : String :=
  (shortcut.map Shortcut.expression).getD Placeholder.defaultExpression

/-- What stands between braces. A shortcut is written out if it is among some. -/
def content (written : List Shortcut) (name : String) : Option Shortcut → List Char
  | none => name.toList
  | some s =>
      name.toList ++ ':' :: (if s ∈ written then s.expression.toList else [s.letter])

def source (written : List Shortcut) : Component → List Char
  | literal text => text.toList
  | placeholder name shortcut optional =>
      '{' :: (content written name shortcut ++ '}' :: if optional then ['?'] else [])

def tail (written : List Shortcut) (components : List Component) : List Char :=
  components.flatMap fun c => '/' :: c.source written

def path (components : List Component) : String :=
  "/".intercalate (components.map fun c => .ofList (c.source []))

def name? : Component → Option String
  | literal _ => none
  | placeholder name _ _ => some name

/-- Whether a component is accepted in a path. -/
def IsSound : Component → Prop
  | literal text => text ≠ "" ∧ ∀ c ∈ text.toList, Path.isPathChar c = true ∧ c ≠ '/'
  | placeholder name _ _ => Path.isName name.toList = true

instance (c : Component) : Decidable c.IsSound :=
  match c with
  | literal text =>
      have := List.decidableBAll (fun c => Path.isPathChar c = true ∧ c ≠ '/') text.toList
      inferInstanceAs (Decidable (_ ∧ _))
  | placeholder name _ _ => inferInstanceAs (Decidable (Path.isName name.toList = true))

/-- Whether some components are accepted as a path. -/
structure WellFormed (components : List Component) : Prop where
  nonempty : components ≠ []
  sound : ∀ c ∈ components, c.IsSound
  distinct : (components.filterMap name?).Nodup

end Component

namespace Shortcut

theorem expandIn_cons (shortcut : Shortcut) {c : Char} (hc : c ≠ ':') (rest : List Char) :
    shortcut.expandIn (c :: rest) = c :: shortcut.expandIn rest := by
  rw [expandIn]
  rintro d tail rfl
  exact absurd rfl hc

theorem expandIn_append (shortcut : Shortcut) {text : List Char} (htext : ':' ∉ text)
    (rest : List Char) : shortcut.expandIn (text ++ rest) = text ++ shortcut.expandIn rest := by
  induction text with
  | nil => rfl
  | cons c more ih =>
      have hc : c ≠ ':' := fun hc => htext (hc ▸ List.mem_cons_self)
      have hmore : ':' ∉ more := fun hmem => htext (List.mem_cons_of_mem _ hmem)
      rw [List.cons_append, expandIn_cons shortcut hc, ih hmore, List.cons_append]

/-- A shortcut is written out where its letter stands between a colon and a brace. -/
theorem expandIn_mark (shortcut s : Shortcut) (written : List Shortcut) (rest : List Char) :
    shortcut.expandIn (':' :: ((if s ∈ written then s.expression.toList else [s.letter]) ++
        '}' :: rest)) =
      ':' :: ((if s ∈ shortcut :: written then s.expression.toList else [s.letter]) ++
        '}' :: shortcut.expandIn rest) := by
  by_cases hs : s ∈ written
  · rw [if_pos hs, if_pos (List.mem_cons_of_mem _ hs)]
    cases s <;> rfl
  · rw [if_neg hs]
    cases shortcut <;> cases s <;> simp_all [expandIn, letter, expression]

end Shortcut

theorem Path.nameChar_ne {c : Char} (h : isNameChar c = true) :
    c ≠ ':' ∧ c ≠ '{' ∧ c ≠ '}' ∧ c ≠ '/' ∧ c ≠ '?' := by
  refine ⟨?_, ?_, ?_, ?_, ?_⟩ <;> rintro rfl <;> exact absurd h (by decide)

theorem Path.pathChar_ne {c : Char} (h : isPathChar c = true) :
    c ≠ ':' ∧ c ≠ '{' ∧ c ≠ '}' ∧ c ≠ '?' ∧ c ≠ ' ' := by
  refine ⟨?_, ?_, ?_, ?_, ?_⟩ <;> rintro rfl <;> exact absurd h (by decide)

/-- Some texts with slashes between them. -/
theorem Path.intercalate_cons (text : List Char) (rest : List (List Char)) :
    ['/'].intercalate (text :: rest) = text ++ rest.flatMap fun more => '/' :: more := by
  induction rest generalizing text with
  | nil => simp [List.intercalate]
  | cons more rest ih =>
      have hstep : ['/'].intercalate (text :: more :: rest) =
          text ++ '/' :: ['/'].intercalate (more :: rest) := by simp [List.intercalate]
      rw [hstep, ih, List.flatMap_cons, List.cons_append]

namespace Component

variable {c : Component} {components : List Component}

theorem nameChars {name : String} (h : Path.isName name.toList = true) :
    name.toList ≠ [] ∧ ∀ c ∈ name.toList, Path.isNameChar c = true := by
  simpa [Path.isName] using h

theorem expandIn_source (shortcut : Shortcut) (written : List Shortcut) (hc : c.IsSound)
    (rest : List Char) : shortcut.expandIn (c.source written ++ rest) =
      c.source (shortcut :: written) ++ shortcut.expandIn rest := by
  cases c with
  | literal text =>
      exact shortcut.expandIn_append (fun hmem => (Path.pathChar_ne (hc.2 _ hmem).1).1 rfl) rest
  | placeholder name s optional =>
      have hname : ':' ∉ name.toList := fun hmem =>
        (Path.nameChar_ne ((nameChars hc).2 _ hmem)).1 rfl
      have hafter : shortcut.expandIn ((if optional then ['?'] else []) ++ rest) =
          (if optional then ['?'] else []) ++ shortcut.expandIn rest :=
        shortcut.expandIn_append (by cases optional <;> decide) rest
      have hclosed : ∀ text : List Char, shortcut.expandIn ('}' :: text) =
          '}' :: shortcut.expandIn text := fun text => shortcut.expandIn_cons (by decide) text
      simp only [source, List.cons_append, List.append_assoc]
      rw [shortcut.expandIn_cons (by decide)]
      cases s with
      | none =>
          rw [content, content, shortcut.expandIn_append hname, hclosed, hafter]
      | some s =>
          simp only [content, List.append_assoc, List.cons_append]
          rw [shortcut.expandIn_append hname, shortcut.expandIn_mark, hafter]

theorem expandIn_tail (shortcut : Shortcut) (written : List Shortcut)
    (h : ∀ c ∈ components, c.IsSound) :
    shortcut.expandIn (tail written components) = tail (shortcut :: written) components := by
  induction components with
  | nil => rfl
  | cons c rest ih =>
      obtain ⟨hc, hrest⟩ := List.forall_mem_cons.mp h
      have htail : ∀ written, tail written (c :: rest) =
          '/' :: (c.source written ++ tail written rest) :=
        fun written => List.flatMap_cons
      rw [htail, htail, shortcut.expandIn_cons (by decide), expandIn_source shortcut written hc,
        ih hrest]

theorem toList_path (c : Component) (rest : List Component) :
    (path (c :: rest)).toList = c.source [] ++ tail [] rest := by
  unfold path
  rw [String.toList_intercalate, List.map_map]
  have hslash : "/".toList = ['/'] := rfl
  rw [hslash, List.map_cons, Path.intercalate_cons, List.flatMap_map]
  simp [tail]

def written (c : Component) (rest : List Component) : List Char :=
  c.source Shortcut.all.reverse ++ tail Shortcut.all.reverse rest

theorem expand_path {rest : List Component} (h : ∀ d ∈ c :: rest, d.IsSound) :
    Shortcut.expand (path (c :: rest)) = .ofList (written c rest) := by
  obtain ⟨hc, hrest⟩ := List.forall_mem_cons.mp h
  unfold Shortcut.expand
  rw [toList_path]
  simp only [Shortcut.all, List.foldl_cons, List.foldl_nil]
  simp only [expandIn_source _ _ hc, expandIn_tail _ _ hrest]
  rfl

end Component

namespace CutPath

theorem braceless {text : List Char} (h : '{' ∉ text ∧ '}' ∉ text) :
    ∀ c ∈ text, c ≠ '{' ∧ c ≠ '}' := by
  rintro c hmem
  exact ⟨fun heq => h.1 (heq ▸ hmem), fun heq => h.2 (heq ▸ hmem)⟩

/-- Text without braces before the rest of a path. -/
theorem ofText?_append {text : List Char} (h : ∀ c ∈ text, c ≠ '{' ∧ c ≠ '}') (rest : List Char) :
    ofText? (text ++ rest) =
      (ofText? rest).map fun cut => { cut with before := text ++ cut.before } := by
  induction text with
  | nil => simp
  | cons c more ih =>
      obtain ⟨⟨hopen, hclose⟩, hmore⟩ := List.forall_mem_cons.mp h
      rw [List.cons_append, ofText?, if_neg hopen, if_neg hclose, ih hmore, Option.map_map]
      rfl

/-- Text in braces before the rest of a path. -/
theorem ofText?_braces {content : List Char} (h : ∀ c ∈ content, c ≠ '{' ∧ c ≠ '}')
    (rest : List Char) : ofText? ('{' :: (content ++ '}' :: rest)) =
      (ofText? rest).map fun cut =>
        ⟨[], ⟨content, (splitOptional cut.before).1, (splitOptional cut.before).2⟩ ::
          cut.slots⟩ := by
  have hbraces : ofBraces? (content ++ '}' :: rest) =
      (ofText? rest).map fun cut => (content, cut) := by
    induction content with
    | nil => rw [List.nil_append, ofBraces?, if_pos rfl]
    | cons c more ih =>
        obtain ⟨⟨hopen, hclose⟩, hmore⟩ := List.forall_mem_cons.mp h
        rw [List.cons_append, ofBraces?, if_neg hclose, if_neg hopen, ih hmore, Option.map_map]
        rfl
  rw [ofText?, if_pos rfl, hbraces, Option.map_map]
  rfl

def slashed (cut : CutPath) : CutPath := { cut with before := '/' :: cut.before }

def pieces (cut : CutPath) : List Piece :=
  (Path.pieces cut.before).map .ofText ++ cut.placeholders.flatMap fun next =>
    .ofExpression next.1.expression.toList next.1.optional :: (Path.pieces next.2).map .ofText

end CutPath

/-- A path is read if its cut has no fault. -/
theorem Template.parse_of_cut {path : String} {cut : CutPath}
    (hcut : CutPath.ofText? path.toList = some cut)
    (houtline : Path.isStaticText cut.outline = true)
    (hcount : cut.slots.length = cut.placeholders.length)
    (hnames : firstRepeated? [] (cut.placeholders.map (·.1.name)) = none) :
    parse path = .ok ⟨cut.before, cut.placeholders⟩ := by
  unfold parse
  simp only [hcut, bind, Except.bind, houtline, Bool.not_true, Bool.false_eq_true, if_false, pure,
    Except.pure, hcount, Nat.sub_self, bne_self_eq_false, names, hnames]

/-- No name is repeated if and only if the names are distinct and none has been seen before. -/
theorem Template.firstRepeated?_eq_none {names seen : List String} :
    firstRepeated? seen names = none ↔ names.Nodup ∧ ∀ name ∈ names, name ∉ seen := by
  induction names generalizing seen with
  | nil => simp [firstRepeated?]
  | cons name rest ih =>
      rw [firstRepeated?, List.nodup_cons, List.forall_mem_cons]
      split
      · rename_i hseen
        exact ⟨nofun, fun h => absurd (List.contains_iff_mem.mp hseen) h.2.1⟩
      · rename_i hfresh
        rw [List.contains_iff_mem] at hfresh
        rw [ih]
        simp only [List.mem_cons, not_or]
        constructor
        · rintro ⟨hdistinct, hnew⟩
          exact ⟨⟨fun hmem => (hnew name hmem).1 rfl, hdistinct⟩, hfresh,
            fun other h => (hnew other h).2⟩
        · rintro ⟨⟨hname, hdistinct⟩, _, hothers⟩
          refine ⟨hdistinct, fun other hmem => ⟨?_, hothers other hmem⟩⟩
          rintro rfl
          exact hname hmem

namespace Component

variable {c : Component} {components : List Component}

def placeholder? : Component → Option Placeholder
  | literal _ => none
  | placeholder name shortcut optional => some ⟨name, expression shortcut, optional⟩

def piece : Component → Piece
  | literal text => .text text.toList
  | placeholder _ shortcut optional => .ofExpression (expression shortcut).toList optional

def cut (after : CutPath) : Component → CutPath
  | literal text => ⟨text.toList ++ after.before, after.slots⟩
  | placeholder name shortcut optional =>
      ⟨[], ⟨content Shortcut.all.reverse name shortcut, optional, after.before⟩ :: after.slots⟩

def cutTail : List Component → CutPath
  | [] => ⟨[], []⟩
  | c :: rest => (c.cut (cutTail rest)).slashed

theorem content_written (name : String) (s : Shortcut) :
    content Shortcut.all.reverse name (some s) = name.toList ++ ':' :: s.expression.toList := by
  have hmem : s ∈ Shortcut.all.reverse := by cases s <;> decide
  rw [content, if_pos hmem]

theorem ofText?_source (hc : c.IsSound) {rest : List Char} {after : CutPath}
    (h : CutPath.ofText? rest = some after) (hafter : after.before.head? ≠ some '?') :
    CutPath.ofText? (c.source Shortcut.all.reverse ++ rest) = some (c.cut after) := by
  cases c with
  | literal text =>
      have htext : ∀ c ∈ text.toList, c ≠ '{' ∧ c ≠ '}' := fun c hmem =>
        have hne := Path.pathChar_ne (hc.2 c hmem).1
        ⟨hne.2.1, hne.2.2.1⟩
      rw [source, CutPath.ofText?_append htext, h]
      rfl
  | placeholder name shortcut optional =>
      have hcontent : ∀ c ∈ content Shortcut.all.reverse name shortcut, c ≠ '{' ∧ c ≠ '}' := by
        have hname : ∀ c ∈ name.toList, c ≠ '{' ∧ c ≠ '}' := fun c hmem =>
          have hne := Path.nameChar_ne ((nameChars hc).2 c hmem)
          ⟨hne.2.1, hne.2.2.1⟩
        cases shortcut with
        | none => exact hname
        | some s =>
            rw [content_written]
            refine List.forall_mem_append.mpr ⟨hname, ?_⟩
            cases s <;> exact CutPath.braceless (by decide)
      simp only [source, List.cons_append, List.append_assoc]
      rw [CutPath.ofText?_braces hcontent]
      cases optional with
      | true =>
          have hmark : CutPath.ofText? (['?'] ++ rest) =
              some ⟨'?' :: after.before, after.slots⟩ := by
            rw [CutPath.ofText?_append (CutPath.braceless (by decide)), h]
            rfl
          simp only [if_true, hmark]
          rfl
      | false =>
          have hsplit : CutPath.splitOptional after.before = (false, after.before) := by
            unfold CutPath.splitOptional
            split
            · rename_i more hmore
              rw [hmore] at hafter
              exact absurd rfl hafter
            · rfl
          simp only [Bool.false_eq_true, if_false, List.nil_append, h, Option.map_some, hsplit]
          rfl

theorem before_cutTail (components : List Component) :
    (cutTail components).before = [] ∨ ∃ more, (cutTail components).before = '/' :: more := by
  cases components with
  | nil => exact Or.inl rfl
  | cons c rest => exact Or.inr ⟨_, rfl⟩

theorem head?_cutTail (components : List Component) :
    (cutTail components).before.head? ≠ some '?' := by
  rcases before_cutTail components with hnil | ⟨more, hmore⟩
  · rw [hnil]
    exact nofun
  · rw [hmore]
    exact fun heq => absurd (Option.some.inj heq) (by decide)

theorem ofText?_tail (h : ∀ c ∈ components, c.IsSound) :
    CutPath.ofText? (tail Shortcut.all.reverse components) = some (cutTail components) := by
  induction components with
  | nil => rfl
  | cons c rest ih =>
      obtain ⟨hc, hrest⟩ := List.forall_mem_cons.mp h
      have hsource := ofText?_source hc (ih hrest) (head?_cutTail rest)
      change CutPath.ofText? (['/'] ++ (c.source _ ++ tail _ rest)) = _
      rw [CutPath.ofText?_append (CutPath.braceless (by decide)), hsource]
      rfl

/-- The text in place of a component where the form of the path is checked. -/
def word : Component → List Char
  | literal text => text.toList
  | placeholder _ _ _ => "param".toList

theorem word_of_isSound (hc : c.IsSound) :
    c.word ≠ [] ∧ '/' ∉ c.word ∧ ∀ d ∈ c.word, Path.isPathChar d = true := by
  cases c with
  | literal text =>
      refine ⟨fun hnil => hc.1 ?_, fun hmem => (hc.2 _ hmem).2 rfl, fun d hd => (hc.2 d hd).1⟩
      exact String.toList_eq_nil_iff.mp hnil
  | placeholder name shortcut optional =>
      change "param".toList ≠ [] ∧ '/' ∉ "param".toList ∧
        ∀ d ∈ "param".toList, Path.isPathChar d = true
      exact ⟨nofun, by decide, List.all_eq_true.mp (by decide)⟩

theorem outline_cut (c : Component) (after : CutPath) :
    (c.cut after).outline = c.word ++ after.outline := by
  cases c with
  | literal text => simp [cut, CutPath.outline, word]
  | placeholder name shortcut optional => simp [cut, CutPath.outline, word]

theorem outline_cutTail (components : List Component) :
    (cutTail components).outline = components.flatMap fun c => '/' :: c.word := by
  induction components with
  | nil => rfl
  | cons c rest ih =>
      have hslashed : ∀ cut : CutPath, cut.slashed.outline = '/' :: cut.outline := fun _ => rfl
      rw [cutTail, hslashed, outline_cut, ih]
      rfl

theorem isStaticText_outline {rest : List Component} (h : ∀ d ∈ c :: rest, d.IsSound) :
    Path.isStaticText (c.cut (cutTail rest)).outline = true := by
  rw [outline_cut, outline_cutTail]
  obtain ⟨hc, hrest⟩ := List.forall_mem_cons.mp h
  have hdouble : Path.hasDoubleSlash (rest.flatMap fun c => '/' :: c.word) = false := by
    clear h hc
    induction rest with
    | nil => rfl
    | cons d more ih =>
        obtain ⟨hd, hmore⟩ := List.forall_mem_cons.mp hrest
        obtain ⟨hne, hslash, _⟩ := word_of_isSound hd
        rw [List.flatMap_cons, List.cons_append]
        cases hword : d.word with
        | nil => exact absurd hword hne
        | cons first others =>
            rw [hword] at hslash
            have hfirst : first ≠ '/' := fun heq => hslash (heq ▸ List.mem_cons_self)
            have hother : Path.hasDoubleSlash ('/' :: (first :: others ++
                more.flatMap fun c => '/' :: c.word)) = Path.hasDoubleSlash (first :: others ++
                  more.flatMap fun c => '/' :: c.word) := by
              rw [Path.hasDoubleSlash]
              rintro tail _ heq
              exact hfirst (List.cons.inj heq).1
            rw [hother, Path.hasDoubleSlash_append hslash]
            exact ih hmore
  have hall : ∀ d ∈ c.word ++ rest.flatMap (fun c => '/' :: c.word), Path.isPathChar d = true := by
    refine List.forall_mem_append.mpr ⟨(word_of_isSound hc).2.2, fun d hd => ?_⟩
    obtain ⟨e, he, hd⟩ := List.mem_flatMap.mp hd
    rcases List.mem_cons.mp hd with rfl | hd
    · decide
    · exact (word_of_isSound (hrest e he)).2.2 d hd
  rw [Path.isStaticText, Path.hasDoubleSlash_append (word_of_isSound hc).2.1, hdouble]
  exact Bool.and_eq_true_iff.mpr ⟨List.all_eq_true.mpr hall, rfl⟩

theorem read?_content {name : String} (hname : Path.isName name.toList = true)
    (shortcut : Option Shortcut) (optional : Bool) :
    Placeholder.read? (content Shortcut.all.reverse name shortcut) optional =
      some ⟨name, expression shortcut, optional⟩ := by
  obtain ⟨hne, hchars⟩ := nameChars hname
  have hstop : ∀ rest : List Char, rest.head?.all (fun c => !Path.isNameChar c) = true →
      (name.toList ++ rest).takeWhile Path.isNameChar = name.toList ∧
        (name.toList ++ rest).dropWhile Path.isNameChar = rest := by
    intro rest hrest
    rw [List.takeWhile_append_of_pos hchars, List.dropWhile_append_of_pos hchars]
    cases rest with
    | nil => simp
    | cons d more =>
        have hd : Path.isNameChar d = false := by simpa using hrest
        simp [hd]
  have hempty : name.toList.isEmpty = false := by simpa using hne
  unfold Placeholder.read?
  cases shortcut with
  | none =>
      obtain ⟨htake, hdrop⟩ := hstop [] rfl
      rw [List.append_nil] at htake hdrop
      simp only [content, htake, hdrop, hempty, Bool.false_eq_true, if_false, String.ofList_toList]
      rfl
  | some s =>
      obtain ⟨htake, hdrop⟩ := hstop (':' :: s.expression.toList) rfl
      simp only [content_written, htake, hdrop, hempty, Bool.false_eq_true, if_false,
        String.ofList_toList]
      cases s <;> rfl

theorem placeholders_cut (hc : c.IsSound) (after : CutPath) :
    (c.cut after).placeholders =
      (c.placeholder?.map fun p => (p, after.before)).toList ++ after.placeholders ∧
    (after.slots.length = after.placeholders.length →
      (c.cut after).slots.length = (c.cut after).placeholders.length) := by
  cases c with
  | literal text => exact ⟨rfl, id⟩
  | placeholder name shortcut optional =>
      have hread := read?_content hc shortcut optional
      have hplaceholders : (cut after (placeholder name shortcut optional)).placeholders =
          (⟨name, expression shortcut, optional⟩, after.before) :: after.placeholders := by
        simp [cut, CutPath.placeholders, hread]
      refine ⟨hplaceholders, fun hcount => ?_⟩
      rw [hplaceholders, List.length_cons, ← hcount]
      rfl

theorem placeholders_cutTail (h : ∀ c ∈ components, c.IsSound) :
    (cutTail components).placeholders.map (·.1) = components.filterMap placeholder? ∧
    (cutTail components).slots.length = (cutTail components).placeholders.length := by
  induction components with
  | nil => exact ⟨rfl, rfl⟩
  | cons c rest ih =>
      obtain ⟨hc, hrest⟩ := List.forall_mem_cons.mp h
      obtain ⟨hnext, hcount⟩ := ih hrest
      obtain ⟨hplaceholders, hslots⟩ := placeholders_cut hc (cutTail rest)
      refine ⟨?_, hslots hcount⟩
      change (c.cut (cutTail rest)).placeholders.map (·.1) = _
      rw [hplaceholders, List.map_append, hnext, List.filterMap_cons]
      cases c.placeholder? <;> rfl

def trail (components : List Component) : List Piece :=
  components.flatMap fun c => [.slash, c.piece]

theorem pieces_cut (hc : c.IsSound) {after : CutPath}
    (hafter : after.before = [] ∨ ∃ more, after.before = '/' :: more) :
    (c.cut after).pieces = c.piece :: after.pieces := by
  obtain ⟨hplaceholders, _⟩ := placeholders_cut hc after
  unfold CutPath.pieces
  rw [hplaceholders]
  cases c with
  | literal text =>
      obtain ⟨hne, hslash, _⟩ : text.toList ≠ [] ∧ '/' ∉ text.toList ∧ _ := word_of_isSound hc
      have htext : Piece.ofText text.toList = .text text.toList :=
        if_neg fun heq => hslash (by rw [heq]; exact List.mem_cons_self)
      change (Path.pieces (text.toList ++ after.before)).map Piece.ofText ++ _ = _
      rw [Path.pieces_word hne hslash hafter, List.map_cons, htext]
      rfl
  | placeholder name shortcut optional => rfl

theorem pieces_slashed (cut : CutPath) : cut.slashed.pieces = .slash :: cut.pieces := rfl

theorem pieces_cutTail (h : ∀ c ∈ components, c.IsSound) :
    (cutTail components).pieces = trail components := by
  induction components with
  | nil => rfl
  | cons c rest ih =>
      obtain ⟨hc, hrest⟩ := List.forall_mem_cons.mp h
      rw [cutTail, pieces_slashed, pieces_cut hc (before_cutTail rest), ih hrest]
      rfl

theorem isStock_of_placeholder? {p : Placeholder} (h : c.placeholder? = some p) :
    Fragment.IsStock p.expression.toList := by
  cases c with
  | literal text => cases h
  | placeholder name shortcut optional =>
      obtain rfl := Option.some.inj h
      refine List.mem_map_of_mem ?_
      cases shortcut with
      | none => exact List.mem_cons_self
      | some s => exact List.mem_cons_of_mem _ (List.mem_map_of_mem (by cases s <;> decide))

/-- What a path of components is read as. -/
theorem parse_path (h : WellFormed (c :: components)) :
    ∃ t, Template.parse (Shortcut.expand (path (c :: components))) = .ok t ∧
      t.names = (c :: components).filterMap name? ∧
      (∀ next ∈ t.placeholders, Fragment.IsStock next.1.expression.toList) ∧
      ∀ space, t.pieces space = (if space == "" then [] else
        (Path.pieces (space.toList ++ ['/'])).map .ofText) ++ c.piece :: trail components := by
  obtain ⟨hc, hrest⟩ := List.forall_mem_cons.mp h.sound
  obtain ⟨hafter, hcount⟩ := placeholders_cutTail hrest
  obtain ⟨hplaceholders, hslots⟩ := placeholders_cut hc (cutTail components)
  have hcut : CutPath.ofText? (written c components) = some (c.cut (cutTail components)) :=
    ofText?_source hc (ofText?_tail hrest) (head?_cutTail components)
  have hall : (c.cut (cutTail components)).placeholders.map (·.1) =
      (c :: components).filterMap placeholder? := by
    rw [hplaceholders, List.map_append, hafter, List.filterMap_cons]
    cases c.placeholder? <;> rfl
  have hnames : (c.cut (cutTail components)).placeholders.map (·.1.name) =
      (c :: components).filterMap name? := by
    have hname : ∀ d : Component, d.placeholder?.map Placeholder.name = d.name? := fun d => by
      cases d <;> rfl
    have hmap := congrArg (List.map Placeholder.name) hall
    rw [List.map_map, List.map_filterMap] at hmap
    simp only [hname] at hmap
    exact hmap
  have hexpanded : CutPath.ofText? (Shortcut.expand (path (c :: components))).toList =
      some (c.cut (cutTail components)) := by
    rw [expand_path h.sound, String.toList_ofList]
    exact hcut
  have hunique : Template.firstRepeated? []
      ((c.cut (cutTail components)).placeholders.map (·.1.name)) = none := by
    rw [hnames]
    exact Template.firstRepeated?_eq_none.mpr ⟨h.distinct, fun _ _ => List.not_mem_nil⟩
  refine ⟨_, Template.parse_of_cut hexpanded (isStaticText_outline h.sound) (hslots hcount) hunique,
    hnames, fun next hnext => ?_, fun space => ?_⟩
  · have hmem : next.1 ∈ (c :: components).filterMap placeholder? := by
      rw [← hall]
      exact List.mem_map_of_mem hnext
    obtain ⟨d, _, hd⟩ := List.mem_filterMap.mp hmem
    exact isStock_of_placeholder? hd
  · have hpieces := pieces_cut hc (before_cutTail components)
    rw [pieces_cutTail hrest] at hpieces
    rw [← hpieces]
    rfl

end Component

end NamedRoutes
