import NamedRoutes.Proofs.Regex.Pasting
import NamedRoutes.RoutePattern

/-!
The text of a compiled pattern. It is made of fragments: literal text, and one group for each
parameter, which may be optional together with a slash beside it. Every expression of a parameter
has been checked in its parentheses before it is pasted.
-/

namespace NamedRoutes

open Regex

section MapError

variable {ε ε' α : Type}

theorem mapError_ok (f : ε → ε') (a : α) : (Except.ok a).mapError f = .ok a := rfl

theorem mapError_error (f : ε → ε') (e : ε) :
    (Except.error e : Except ε α).mapError f = .error (f e) := rfl

end MapError

/-- A piece of the text of a pattern. An optional parameter may take the slash before it or the
slash after it along. -/
inductive Fragment where
  | literal (text : List Char)
  | required (expression : List Char)
  | optional (expression : List Char)
  | afterSlash (expression : List Char)
  | beforeSlash (expression : List Char)

namespace Fragment

def group (expression : List Char) : List Char := '(' :: (expression ++ [')'])

def source : Fragment → List Char
  | literal text => quote text
  | required e => group e
  | optional e => group e ++ ['?']
  | afterSlash e => "(?:/".toList ++ group e ++ ")?".toList
  | beforeSlash e => "(?:".toList ++ group e ++ "/)?".toList

def expression? : Fragment → Option (List Char)
  | literal _ => none
  | required e | optional e | afterSlash e | beforeSlash e => some e

def valueSource (expression : List Char) : String :=
  "^" ++ ("(" ++ .ofList expression ++ ")") ++ "$"

theorem source_afterSlash (e : List Char) :
    (afterSlash e).source =
      ("(?:".toList ++ ((quote ['/'] ++ group e) ++ [')'])) ++ ['?'] := by
  simp [source, quote, quoteChar, isSpecial, specialChars, Text.isAsciiBlank]

theorem source_beforeSlash (e : List Char) :
    (beforeSlash e).source =
      ("(?:".toList ++ ((group e ++ quote ['/']) ++ [')'])) ++ ['?'] := by
  simp [source, quote, quoteChar, isSpecial, specialChars, Text.isAsciiBlank]

def parameterCount (fragments : List Fragment) : Nat := (fragments.filterMap expression?).length

/-- A fragment opens a group if it stands for a parameter, and closes all parentheses. -/
theorem opens_source (f : Fragment) (h : ∀ e, f.expression? = some e → Reader.HasOneGroup e) :
    Reader.Opens f.source (parameterCount [f]) := by
  cases f with
  | literal text => exact Reader.Opens.quote text
  | required e => exact (h e rfl).opens
  | optional e => exact (h e rfl).opens.optional
  | afterSlash e =>
      rw [source_afterSlash]
      exact ((Reader.Opens.quote ['/']).append (h e rfl).opens).wrapped.optional
  | beforeSlash e =>
      rw [source_beforeSlash]
      exact ((h e rfl).opens.append (Reader.Opens.quote ['/'])).wrapped.optional

/-- A fragment can be read anywhere if the expression of its parameter can. -/
theorem reads_source (f : Fragment)
    (h : ∀ e, f.expression? = some e → ∃ s, Reader.Standalone e s) :
    Reader.Reads f.source (parameterCount [f]) := by
  cases f with
  | literal text => exact Reader.Reads.quote text
  | required e =>
      obtain ⟨s, hs⟩ := h e rfl
      exact hs.readsItem.reads
  | optional e =>
      obtain ⟨s, hs⟩ := h e rfl
      exact hs.readsItem.optional
  | afterSlash e =>
      obtain ⟨s, hs⟩ := h e rfl
      rw [source_afterSlash]
      exact ((Reader.Reads.quote ['/']).append hs.readsItem.reads).wrapped.optional
  | beforeSlash e =>
      obtain ⟨s, hs⟩ := h e rfl
      rw [source_beforeSlash]
      exact (hs.readsItem.reads.append (Reader.Reads.quote ['/'])).wrapped.optional

theorem parameterCount_cons (f : Fragment) (rest : List Fragment) :
    parameterCount (f :: rest) = parameterCount [f] + parameterCount rest := by
  unfold parameterCount
  rw [show f :: rest = [f] ++ rest from rfl, List.filterMap_append, List.length_append]

/-- What the empty text has, and two texts in turn have if both do, the text of some fragments has
if each of them does. -/
theorem source_induction {has : List Char → Nat → Prop} {fits : List Char → Prop} (hnil : has [] 0)
    (happend : ∀ {text more : List Char} {m n : Nat}, has text m → has more n →
      has (text ++ more) (m + n))
    (hsource : ∀ f : Fragment, (∀ e, f.expression? = some e → fits e) →
      has f.source (parameterCount [f]))
    (fragments : List Fragment) (h : ∀ e ∈ fragments.filterMap expression?, fits e) :
    has (fragments.flatMap source) (parameterCount fragments) := by
  induction fragments with
  | nil => exact hnil
  | cons f rest ih =>
      rw [List.flatMap_cons, parameterCount_cons]
      refine happend (hsource f fun e he => h e ?_) (ih fun e he => h e ?_)
      · simp [he]
      · exact List.mem_filterMap.mpr
          ((List.mem_filterMap.mp he).imp fun g hg => ⟨List.mem_cons_of_mem f hg.1, hg.2⟩)

theorem opens_all (fragments : List Fragment)
    (h : ∀ e ∈ fragments.filterMap expression?, Reader.HasOneGroup e) :
    Reader.Opens (fragments.flatMap source) (parameterCount fragments) :=
  source_induction .nil .append opens_source fragments h

theorem reads_all (fragments : List Fragment)
    (h : ∀ e ∈ fragments.filterMap expression?, ∃ s, Reader.Standalone e s) :
    Reader.Reads (fragments.flatMap source) (parameterCount fragments) :=
  source_induction .nil .append reads_source fragments h

/-- Only literal text is a slash. -/
theorem expression?_of_slash {f : Fragment} (h : f.source = ['/']) : f.expression? = none := by
  cases f with
  | literal text => rfl
  | _ => cases h

end Fragment

theorem Parameter.source_of_ofSource {name source : String} {optional : Bool} {p : Parameter}
    (h : Parameter.ofSource name source optional = .ok p) : p.value.source = source := by
  unfold Parameter.ofSource at h
  cases hcompile : Expression.compile source with
  | error cause =>
      rw [hcompile] at h
      cases h
  | ok value =>
      rw [hcompile] at h
      cases h
      exact (Expression.compile_eq_ok hcompile).2

namespace RoutePattern

/-- Whether a draft consists of some fragments, the latest first, with parameters for those that
stand for one. -/
structure Draft.Renders (d : Draft) (fragments : List Fragment) : Prop where
  texts : d.fragments = fragments.map Fragment.source
  values : (d.segments.filterMap Segment.parameter?).map (·.value.source) =
    (fragments.filterMap Fragment.expression?).map Fragment.valueSource
  checked : ∀ e ∈ fragments.filterMap Fragment.expression?, Reader.HasOneGroup e

namespace Draft

theorem Renders.addPiece {d : Draft} {fragments : List Fragment} (h : d.Renders fragments)
    (piece : List Char) :
    ∃ more : List Fragment, more.filterMap Fragment.expression? = [] ∧
      (d.addPiece piece).Renders (more ++ fragments) := by
  unfold Draft.addPiece
  by_cases htaken : (d.slashTaken && piece == ['/']) = true
  · simp only [htaken, if_true]
    exact ⟨[], rfl, h.texts, h.values, h.checked⟩
  · simp only [htaken, Bool.false_eq_true, if_false]
    refine ⟨[.literal piece], rfl, ?_, h.values, h.checked⟩
    rw [h.texts]
    rfl

theorem Renders.addText {d : Draft} {fragments : List Fragment} (h : d.Renders fragments)
    (text : List Char) :
    ∃ more : List Fragment, more.filterMap Fragment.expression? = [] ∧
      (d.addText text).Renders (more ++ fragments) := by
  unfold Draft.addText
  induction Path.pieces text generalizing d fragments with
  | nil => exact ⟨[], rfl, h⟩
  | cons piece rest ih =>
      obtain ⟨first, hfirst, hpiece⟩ := h.addPiece piece
      obtain ⟨more, hmore, hrest⟩ := ih hpiece
      refine ⟨more ++ first, ?_, ?_⟩
      · rw [List.filterMap_append, hmore, hfirst, List.append_nil]
      · rw [List.append_assoc]
        exact hrest

theorem segments_addGroup (d : Draft) (group : List Char) (optional slashFollows : Bool) :
    (d.addGroup group optional slashFollows).segments = d.segments := by
  unfold addGroup
  split
  · rfl
  · split <;> rfl

/-- A group is added as a fragment of its own. A slash before it that it takes along is no longer
one. -/
theorem texts_addGroup (d : Draft) (fragments : List Fragment)
    (h : d.fragments = fragments.map Fragment.source) (e : List Char)
    (optional slashFollows : Bool) :
    ∃ more : List Fragment,
      (d.addGroup (Fragment.group e) optional slashFollows).fragments = more.map Fragment.source ∧
        more.filterMap Fragment.expression? = e :: fragments.filterMap Fragment.expression? := by
  unfold addGroup
  cases optional with
  | false =>
      refine ⟨.required e :: fragments, ?_, rfl⟩
      simp only [Bool.not_false, if_true, h]
      rfl
  | true =>
      simp only [Bool.not_true, Bool.false_eq_true, if_false]
      split
      · rename_i taken htaken
        rw [h] at htaken
        cases fragments with
        | nil => cases htaken
        | cons f rest =>
            obtain ⟨hf, rfl⟩ := List.cons.inj htaken
            refine ⟨.afterSlash e :: rest, rfl, ?_⟩
            rw [List.filterMap_cons, List.filterMap_cons, Fragment.expression?_of_slash hf]
            rfl
      · exact ⟨.beforeSlash e :: fragments, by rw [h]; rfl, rfl⟩
      · exact ⟨.optional e :: fragments, by rw [h]; rfl, rfl⟩

end Draft

theorem placeholderGroup_eq_ok {path : String} {p : Placeholder} {group : String}
    (h : placeholderGroup path p = .ok group) :
    group = "(" ++ p.expression ++ ")" ∧ group.toList = Fragment.group p.expression.toList ∧
      Reader.HasOneGroup p.expression.toList := by
  have htext : ("(" ++ p.expression ++ ")").toList = Fragment.group p.expression.toList := by
    simp [Fragment.group]
  unfold placeholderGroup at h
  cases hcompile : Expression.compile ("(" ++ p.expression ++ ")") with
  | error cause =>
      simp only [hcompile] at h
      cases cause <;> cases h
  | ok e =>
      simp only [hcompile] at h
      by_cases hone : e.groups = 1
      · simp only [hone, if_true] at h
        cases h
        have hparse := (Expression.compile_eq_ok hcompile).1
        rw [hone, htext] at hparse
        exact ⟨rfl, htext, e.regex, hparse⟩
      · simp only [hone, if_false] at h
        cases h

/-- What adding a placeholder comes to. -/
theorem addPlaceholder_eq_ok {path : String} {d s : Draft} {p : Placeholder} {after : List Char}
    (h : d.addPlaceholder path (p, after) = .ok s) :
    Reader.HasOneGroup p.expression.toList ∧ ∃ parameter : Parameter,
      Parameter.ofSource p.name (Fragment.valueSource p.expression.toList) p.optional =
        .ok parameter ∧
      s = (({ d with segments := .parameter parameter :: d.segments } : Draft).addGroup
        (Fragment.group p.expression.toList) p.optional (after.head? == some '/')).addText
        after := by
  unfold Draft.addPlaceholder at h
  simp only [bind, Except.bind] at h
  cases hgroup : placeholderGroup path p with
  | error cause =>
      rw [hgroup] at h
      cases h
  | ok group =>
      rw [hgroup] at h
      obtain ⟨hsource, htext, hchecked⟩ := placeholderGroup_eq_ok hgroup
      have hvalue : "^" ++ group ++ "$" = Fragment.valueSource p.expression.toList := by
        rw [hsource, Fragment.valueSource, String.ofList_toList]
      simp only [hvalue] at h
      cases hparameter : Parameter.ofSource p.name (Fragment.valueSource p.expression.toList)
          p.optional with
      | error cause =>
          simp only [hparameter] at h
          cases h
      | ok parameter =>
          simp only [hparameter] at h
          cases h
          refine ⟨hchecked, parameter, rfl, ?_⟩
          rw [htext]

theorem Draft.Renders.addPlaceholder {path : String} {d s : Draft} {fragments : List Fragment}
    (h : d.Renders fragments) (next : Placeholder × List Char)
    (hs : d.addPlaceholder path next = .ok s) :
    ∃ more : List Fragment, s.Renders more ∧ more.filterMap Fragment.expression? =
      next.1.expression.toList :: fragments.filterMap Fragment.expression? := by
  obtain ⟨p, after⟩ := next
  obtain ⟨hchecked, parameter, hparameter, rfl⟩ := addPlaceholder_eq_ok hs
  have hvalue := Parameter.source_of_ofSource hparameter
  obtain ⟨added, htexts, hadded⟩ := texts_addGroup
    { d with segments := .parameter parameter :: d.segments } fragments h.texts
    p.expression.toList p.optional (after.head? == some '/')
  have hrenders : (({ d with segments := .parameter parameter :: d.segments } :
      Draft).addGroup (Fragment.group p.expression.toList) p.optional
        (after.head? == some '/')).Renders added := by
    refine ⟨htexts, ?_, ?_⟩
    · rw [segments_addGroup, hadded]
      simp only [List.filterMap_cons, Segment.parameter?, List.map_cons, hvalue, h.values]
    · rw [hadded]
      exact List.forall_mem_cons.mpr ⟨hchecked, h.checked⟩
  obtain ⟨more, hmore, hrenders⟩ := hrenders.addText after
  refine ⟨more ++ added, hrenders, ?_⟩
  rw [List.filterMap_append, hmore, hadded]
  rfl

/-- The fragments of some placeholders are added one after another. -/
theorem Draft.Renders.foldl {path : String} (placeholders : List (Placeholder × List Char))
    {d s : Draft} {fragments : List Fragment} (h : d.Renders fragments)
    (hs : placeholders.foldlM (Draft.addPlaceholder path) d = .ok s) :
    ∃ more : List Fragment, s.Renders more ∧ more.filterMap Fragment.expression? =
      (placeholders.map (·.1.expression.toList)).reverse ++
        fragments.filterMap Fragment.expression? := by
  induction placeholders generalizing d fragments with
  | nil =>
      cases hs
      exact ⟨fragments, h, rfl⟩
  | cons next rest ih =>
      rw [List.foldlM_cons] at hs
      cases hnext : d.addPlaceholder path next with
      | error cause =>
          rw [hnext] at hs
          cases hs
      | ok t =>
          rw [hnext] at hs
          obtain ⟨more, hmore, hexpressions⟩ := h.addPlaceholder next hnext
          obtain ⟨all, hall, hallExpressions⟩ := ih hmore hs
          refine ⟨all, hall, ?_⟩
          rw [hallExpressions, hexpressions]
          simp

/-- The expressions of the parameters of a pattern. -/
structure Pasted (p : RoutePattern) (fragments : List Fragment) : Prop where
  text : p.regex.toList = fragments.flatMap Fragment.source
  values : p.parameters.map (·.value.source) =
    (fragments.filterMap Fragment.expression?).map Fragment.valueSource
  checked : ∀ e ∈ fragments.filterMap Fragment.expression?, Reader.HasOneGroup e
  names : p.names.length = (fragments.filterMap Fragment.expression?).length
  expression : Expression.compile ("^" ++ p.regex ++ "$") = .ok p.expression

theorem renders_of_draft {space path : String} {t : Template} {d : Draft}
    (h : draft space path t = .ok d) :
    ∃ fragments : List Fragment, d.Renders fragments ∧
      fragments.filterMap Fragment.expression? =
        (t.placeholders.map (·.1.expression.toList)).reverse := by
  have hnone : ({} : Draft).Renders [] := ⟨rfl, rfl, List.forall_mem_nil _⟩
  have hstart : ∃ fragments : List Fragment, fragments.filterMap Fragment.expression? = [] ∧
      (if space == "" then {} else ({} : Draft).addText (space.toList ++ ['/'])).Renders
        fragments := by
    by_cases hspace : (space == "") = true
    · simp only [hspace, if_true]
      exact ⟨[], rfl, hnone⟩
    · simp only [hspace, Bool.false_eq_true, if_false]
      obtain ⟨more, hmore, hrenders⟩ := hnone.addText (space.toList ++ ['/'])
      rw [List.append_nil] at hrenders
      exact ⟨more, hmore, hrenders⟩
  obtain ⟨before, hbefore, hrenders⟩ := hstart
  obtain ⟨more, hmore, hrenders⟩ := hrenders.addText t.before
  obtain ⟨fragments, hfragments, hexpressions⟩ := hrenders.foldl t.placeholders h
  refine ⟨fragments, hfragments, ?_⟩
  rw [hexpressions, List.filterMap_append, hmore, hbefore]
  simp

theorem toList_anchored (text : String) :
    ("^" ++ text ++ "$").toList = '^' :: (text.toList ++ ['$']) := by
  simp

theorem Draft.Renders.toList_regex {d : Draft} {fragments : List Fragment}
    (h : d.Renders fragments) :
    d.regex.toList = fragments.reverse.flatMap Fragment.source := by
  rw [Draft.regex, String.toList_ofList, h.texts, ← List.map_reverse, List.flatMap_def]

theorem Draft.Renders.toList_source {d : Draft} {fragments : List Fragment}
    (h : d.Renders fragments) :
    d.source.toList = '^' :: (fragments.reverse.flatMap Fragment.source ++ ['$']) := by
  rw [Draft.source, toList_anchored, h.toList_regex]

/-- What compiling a path leads to once it is read. -/
theorem compile_of_parse {path : String} (space : String) {t : Template}
    (h : Template.parse (Shortcut.expand path) = .ok t) :
    compile path space = assemble space (Shortcut.expand path) t := by
  simp only [compile, h]
  rfl

/-- What compiling a path leads to: an error of its form, an error of a placeholder, or an
expression or none for a text made of fragments. -/
theorem compile_cases (path space : String) :
    (∃ cause, Template.parse (Shortcut.expand path) = .error cause ∧
      compile path space = .error (.badPattern cause)) ∨
    ∃ t, Template.parse (Shortcut.expand path) = .ok t ∧
      ((∃ e, draft space (Shortcut.expand path) t = .error e ∧ compile path space = .error e) ∨
      ∃ (d : Draft) (fragments : List Fragment), d.Renders fragments ∧
        fragments.filterMap Fragment.expression? =
          (t.placeholders.map (·.1.expression.toList)).reverse ∧
        ((∃ cause, Expression.compile d.source = .error cause ∧
          compile path space = .error (.badExpression d.source cause)) ∨
        ∃ p, compile path space = .ok p ∧ p.Pasted fragments.reverse)) := by
  cases htemplate : Template.parse (Shortcut.expand path) with
  | error cause =>
      refine Or.inl ⟨cause, rfl, ?_⟩
      unfold compile
      simp only [htemplate, bind, Except.bind, mapError_error]
  | ok t =>
      have heq := compile_of_parse space htemplate
      unfold assemble at heq
      refine Or.inr ⟨t, rfl, ?_⟩
      cases hdraft : draft space (Shortcut.expand path) t with
      | error e =>
          rw [hdraft] at heq
          exact Or.inl ⟨e, rfl, heq⟩
      | ok d =>
          rw [hdraft] at heq
          obtain ⟨fragments, hrenders, hexpressions⟩ := renders_of_draft hdraft
          refine Or.inr ⟨d, fragments, hrenders, hexpressions, ?_⟩
          simp only [bind, Except.bind] at heq
          cases hcompile : Expression.compile d.source with
          | error cause =>
              simp only [hcompile] at heq
              exact Or.inl ⟨cause, rfl, heq⟩
          | ok expression =>
              simp only [hcompile] at heq
              refine Or.inr ⟨_, heq, ?_, ?_, ?_, ?_, hcompile⟩
              · exact hrenders.toList_regex
              · rw [parameters, List.filterMap_reverse, List.map_reverse, hrenders.values,
                  List.filterMap_reverse, List.map_reverse]
              · rw [List.filterMap_reverse]
                exact fun e he => hrenders.checked e (List.mem_reverse.mp he)
              · rw [List.filterMap_reverse, List.length_reverse, hexpressions, Template.names]
                simp

/-- The text of a compiled pattern is made of fragments. -/
theorem pasted_of_compile {path space : String} {p : RoutePattern}
    (h : compile path space = .ok p) : ∃ fragments, p.Pasted fragments := by
  rcases compile_cases path space with
    ⟨_, _, herror⟩ | ⟨_, _,
      ⟨_, _, herror⟩ | ⟨_, fragments, _, _, ⟨_, _, herror⟩ | ⟨q, hq, hpasted⟩⟩⟩
  · rw [herror] at h
    cases h
  · rw [herror] at h
    cases h
  · rw [herror] at h
    cases h
  · obtain rfl := Except.ok.inj (hq.symm.trans h)
    exact ⟨_, hpasted⟩

end RoutePattern

end NamedRoutes
