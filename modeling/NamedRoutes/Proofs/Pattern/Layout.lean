import NamedRoutes.Proofs.Pattern.Acceptance
import NamedRoutes.Proofs.Pattern.Language
import NamedRoutes.Proofs.Pattern.Pieces

/-!
Which fragments the pieces of a path become. An optional parameter takes the slash before it along,
or else the slash after it, unless another parameter has taken that one. So the fragments of a whole
path can be told from its pieces by looking at two of them at a time. A path whose placeholders have
no written out expressions is always accepted, and matches what its fragments spell.
-/

namespace NamedRoutes

/-- A piece of a path: a slash, other literal text, or a parameter by its expression. -/
inductive Piece where
  | slash
  | text (text : List Char)
  | required (expression : List Char)
  | optional (expression : List Char)
  deriving DecidableEq, Repr

namespace Piece

def ofText (text : List Char) : Piece := if text = ['/'] then .slash else .text text

def ofExpression (expression : List Char) (optional : Bool) : Piece :=
  if optional then .optional expression else .required expression

def expression? : Piece → Option (List Char)
  | slash | text _ => none
  | required e | optional e => some e

@[simp] theorem expression?_ofText (text : List Char) : (ofText text).expression? = none := by
  unfold ofText
  split <;> rfl

@[simp] theorem expression?_ofExpression (e : List Char) (optional : Bool) :
    (ofExpression e optional).expression? = some e := by
  cases optional <;> rfl

def layout : List Piece → List Fragment
  | .slash :: .optional e :: rest => .afterSlash e :: layout rest
  | .optional e :: .slash :: rest => .beforeSlash e :: layout rest
  | .optional e :: rest => .optional e :: layout rest
  | .required e :: rest => .required e :: layout rest
  | .slash :: rest => .literal ['/'] :: layout rest
  | .text t :: rest => .literal t :: layout rest
  | [] => []

theorem layout_optional {rest : List Piece} (h : rest.head? ≠ some .slash) (e : List Char) :
    layout (.optional e :: rest) = .optional e :: layout rest := by
  cases rest with
  | nil => rfl
  | cons piece rest =>
      cases piece with
      | slash => exact absurd rfl h
      | _ => rfl

theorem layout_slash {rest : List Piece} (h : ∀ e, rest.head? ≠ some (.optional e)) :
    layout (.slash :: rest) = .literal ['/'] :: layout rest := by
  cases rest with
  | nil => rfl
  | cons piece rest =>
      cases piece with
      | optional e => exact absurd rfl (h e)
      | _ => rfl

/-- Literal text before pieces that do not start with an optional parameter stays as it is. -/
theorem layout_texts {rest : List Piece} (h : ∀ e, rest.head? ≠ some (.optional e))
    (texts : List (List Char)) :
    layout (texts.map .ofText ++ rest) = texts.map .literal ++ layout rest := by
  induction texts with
  | nil => rfl
  | cons text more ih =>
      have hnext : ∀ e, (more.map Piece.ofText ++ rest).head? ≠ some (.optional e) := by
        intro e
        cases more with
        | nil => exact h e
        | cons next more =>
            rw [List.map_cons, List.cons_append, List.head?_cons, ofText]
            split <;> exact nofun
      rw [List.map_cons, List.cons_append, ofText]
      split
      · rename_i hslash
        rw [layout_slash hnext, ih, hslash]
        rfl
      · rw [layout, ih]
        rfl

/-- Every parameter becomes a fragment. -/
theorem expressions_layout (pieces : List Piece) :
    (layout pieces).filterMap Fragment.expression? = pieces.filterMap expression? := by
  fun_induction layout pieces with
  | case1 e rest ih => simp [Fragment.expression?, expression?, List.filterMap_cons, ih]
  | case2 e rest ih => simp [Fragment.expression?, expression?, List.filterMap_cons, ih]
  | case3 e rest _ ih => simp [Fragment.expression?, expression?, ih]
  | case4 e rest ih => simp [Fragment.expression?, expression?, ih]
  | case5 rest _ ih => simp [Fragment.expression?, expression?, List.filterMap_cons, ih]
  | case6 t rest ih => simp [Fragment.expression?, expression?, List.filterMap_cons, ih]
  | case7 => rfl

end Piece

def Segment.piece : Segment → Piece
  | .literal text => .ofText text.toList
  | .parameter p => .ofExpression p.expressionText.toList p.optional

/-- The expression of a piece is that of its parameter. -/
theorem Segment.expression?_piece (s : Segment) :
    s.piece.expression? = s.parameter?.map (·.expressionText.toList) := by
  cases s with
  | literal text => exact Piece.expression?_ofText _
  | parameter q => exact Piece.expression?_ofExpression _ _

def Template.pieces (space : String) (t : Template) : List Piece :=
  (if space == "" then [] else (Path.pieces (space.toList ++ ['/'])).map .ofText) ++
    ((Path.pieces t.before).map .ofText ++ t.placeholders.flatMap fun next =>
      .ofExpression next.1.expression.toList next.1.optional :: (Path.pieces next.2).map .ofText)

namespace RoutePattern

def pieces (p : RoutePattern) : List Piece := p.segments.map Segment.piece

theorem expressions_pieces (p : RoutePattern) :
    p.pieces.filterMap Piece.expression? = p.parameters.map (·.expressionText.toList) := by
  rw [pieces, List.filterMap_map, parameters, List.map_filterMap]
  exact congrArg (List.filterMap · p.segments) (funext Segment.expression?_piece)

namespace Draft

def pieces (d : Draft) : List Piece := d.segments.reverse.map Segment.piece

end Draft

theorem quote_eq_slash {text : List Char} (h : Regex.quote text = ['/']) : text = ['/'] := by
  cases text with
  | nil => cases h
  | cons c rest =>
      have hfirst : Regex.quoteChar c ++ Regex.quote rest = ['/'] := h
      unfold Regex.quoteChar at hfirst
      split at hfirst
      · cases hfirst
      · obtain ⟨rfl, hrest⟩ := List.cons.inj hfirst
        cases rest with
        | nil => rfl
        | cons d rest =>
            have hnil : Regex.quoteChar d ++ Regex.quote rest = [] := hrest
            unfold Regex.quoteChar at hnil
            split at hnil <;> cases hnil

/-- A slash that an optional parameter may still take along, as a fragment and as a piece. -/
def pendingFragment (pending : Bool) : List Fragment := if pending then [.literal ['/']] else []

def pendingPiece (pending : Bool) : List Piece := if pending then [.slash] else []

/-- How far a draft has got: its fragments are those of its pieces, where the latest slash is
`pending` as long as an optional parameter may still take it along. If not `open`, no slash may
follow. -/
structure Draft.At (d : Draft) (fragments : List Fragment) (pending mayFollow : Bool) : Prop where
  texts : d.fragments = (pendingFragment pending ++ fragments).map Fragment.source
  closed : pending = false → fragments.head? ≠ some (.literal ['/'])
  taken : d.slashTaken = false
  layout : ∀ rest : List Piece, (mayFollow = false → rest.head? ≠ some .slash) →
    Piece.layout (d.pieces ++ rest) =
      fragments.reverse ++ Piece.layout (pendingPiece pending ++ rest)

namespace Draft

variable {d : Draft} {fragments : List Fragment} {pending mayFollow : Bool}

theorem At.weaken (h : d.At fragments pending mayFollow) : d.At fragments pending false :=
  ⟨h.texts, h.closed, h.taken, fun rest hrest => h.layout rest fun _ => hrest rfl⟩

theorem pieces_addPiece (d : Draft) (piece : List Char) :
    (d.addPiece piece).pieces = d.pieces ++ [.ofText piece] := by
  have hsegments : (d.addPiece piece).segments = .literal (.ofList piece) :: d.segments := by
    unfold Draft.addPiece
    split <;> rfl
  simp [Draft.pieces, hsegments, Segment.piece]

theorem pieces_addText (d : Draft) (text : List Char) :
    (d.addText text).pieces = d.pieces ++ (Path.pieces text).map .ofText := by
  unfold Draft.addText
  induction Path.pieces text generalizing d with
  | nil => exact (List.append_nil _).symm
  | cons piece rest ih => rw [List.foldl_cons, ih, pieces_addPiece, List.append_assoc]; rfl

/-- Adding a piece of literal text. Only a slash stays pending. -/
theorem At.addPiece (h : d.At fragments pending mayFollow) (piece : List Char)
    (hpiece : mayFollow = false → piece ≠ ['/']) :
    ∃ fragments' pending', (d.addPiece piece).At fragments' pending' true := by
  have hadd : d.addPiece piece = { d with
      fragments := Regex.quote piece :: d.fragments,
      segments := .literal (.ofList piece) :: d.segments } := by
    unfold Draft.addPiece
    rw [h.taken]
    rfl
  have htexts : (d.addPiece piece).fragments =
      (.literal piece :: (pendingFragment pending ++ fragments)).map Fragment.source := by
    rw [hadd, List.map_cons, ← h.texts]
    rfl
  have htaken : (d.addPiece piece).slashTaken = false := by
    rw [hadd]
    exact h.taken
  by_cases hslash : piece = ['/']
  · subst hslash
    refine ⟨pendingFragment pending ++ fragments, true, htexts, nofun, htaken, fun rest _ => ?_⟩
    rw [pieces_addPiece, List.append_assoc]
    refine (h.layout (.slash :: rest) fun hno => absurd rfl (hpiece hno)).trans ?_
    cases pending <;> simp [pendingFragment, pendingPiece, Piece.layout]
  · have htext : Piece.ofText piece = .text piece := if_neg hslash
    refine ⟨.literal piece :: (pendingFragment pending ++ fragments), false, htexts, ?_, htaken,
      fun rest _ => ?_⟩
    · rintro - hhead
      exact hslash (Fragment.literal.inj (Option.some.inj hhead))
    · rw [pieces_addPiece, htext, List.append_assoc]
      refine (h.layout (.text piece :: rest) fun _ => nofun).trans ?_
      cases pending <;> simp [pendingFragment, pendingPiece, Piece.layout]

theorem At.addPieces (h : d.At fragments pending true) (texts : List (List Char)) :
    ∃ fragments' pending', (texts.foldl Draft.addPiece d).At fragments' pending' true := by
  induction texts generalizing d fragments pending with
  | nil => exact ⟨fragments, pending, h⟩
  | cons text rest ih =>
      obtain ⟨_, _, hfirst⟩ := h.addPiece text nofun
      exact ih hfirst

/-- Adding text after a placeholder. No slash follows if the text does not start with one. -/
theorem At.addText (h : d.At fragments pending mayFollow) (text : List Char)
    (htext : mayFollow = false → text.head? ≠ some '/') :
    ∃ fragments' pending', (d.addText text).At fragments' pending' false := by
  unfold Draft.addText
  have hhead := fun hno => Path.head?_pieces (htext hno)
  cases hpieces : Path.pieces text with
  | nil => exact ⟨fragments, pending, h.weaken⟩
  | cons piece rest =>
      rw [hpieces] at hhead
      obtain ⟨_, _, hfirst⟩ := h.addPiece piece fun hno heq => hhead hno (congrArg some heq)
      obtain ⟨fragments', pending', hrest⟩ := hfirst.addPieces rest
      exact ⟨fragments', pending', hrest.weaken⟩

theorem At.head?_fragments (h : d.At fragments pending mayFollow) :
    (∃ rest, d.fragments = ['/'] :: rest) ↔ pending = true := by
  constructor
  · rintro ⟨rest, hrest⟩
    cases pending with
    | true => rfl
    | false =>
        rw [h.texts] at hrest
        cases fragments with
        | nil => cases hrest
        | cons f more =>
            obtain ⟨hf, _⟩ := List.cons.inj hrest
            cases f with
            | literal text =>
                refine absurd ?_ (h.closed rfl)
                rw [quote_eq_slash hf]
                rfl
            | _ => cases hf
  · rintro rfl
    rw [h.texts]
    exact ⟨_, rfl⟩

theorem addGroup_afterSlash {texts : List (List Char)} (h : d.fragments = ['/'] :: texts)
    (e : List Char) (slashFollows : Bool) :
    d.addGroup (Fragment.group e) true slashFollows =
      { d with fragments := (Fragment.afterSlash e).source :: texts } := by
  unfold addGroup
  rw [h]
  rfl

theorem addGroup_optional (h : ∀ texts, d.fragments ≠ ['/'] :: texts) (e : List Char) :
    d.addGroup (Fragment.group e) true true =
        { d with fragments := (Fragment.beforeSlash e).source :: d.fragments, slashTaken := true } ∧
      d.addGroup (Fragment.group e) true false =
        { d with fragments := (Fragment.optional e).source :: d.fragments } := by
  unfold addGroup
  simp only [Bool.not_true, Bool.false_eq_true, if_false]
  exact ⟨rfl, rfl⟩

/-- What a draft comes to when it gets further pieces that end in no pending slash. -/
theorem At.advance (h : d.At fragments pending false) {s : Draft} (added : List Piece)
    (fragments' : List Fragment) (hpieces : s.pieces = d.pieces ++ added)
    (hadded : added.head? ≠ some .slash) (hne : added ≠ [])
    (htexts : s.fragments = fragments'.map Fragment.source)
    (hclosed : fragments'.head? ≠ some (.literal ['/'])) (htaken : s.slashTaken = false)
    {mayFollow : Bool}
    (hlayout : ∀ rest : List Piece, (mayFollow = false → rest.head? ≠ some .slash) →
      fragments.reverse ++ Piece.layout (pendingPiece pending ++ (added ++ rest)) =
        fragments'.reverse ++ Piece.layout rest) : s.At fragments' false mayFollow := by
  refine ⟨htexts, fun _ => hclosed, htaken, fun rest hrest => ?_⟩
  rw [hpieces, List.append_assoc, ← List.nil_append rest]
  refine (h.layout (added ++ ([] ++ rest)) fun _ => ?_).trans (hlayout rest hrest)
  cases added with
  | nil => exact absurd rfl hne
  | cons piece more => exact hadded

/-- Adding the group of a placeholder. Either any text can be added that may follow, or the slash
that follows is taken along, and then anything can be added. -/
theorem At.addGroup (h : d.At fragments pending false) {s : Draft}
    {e : List Char} {optional : Bool} (hfragments : s.fragments = d.fragments)
    (htaken : s.slashTaken = d.slashTaken)
    (hpieces : s.pieces = d.pieces ++ [.ofExpression e optional]) (slashFollows : Bool) :
    (∃ fragments' mayFollow, (mayFollow = false → slashFollows = false) ∧
      (s.addGroup (Fragment.group e) optional slashFollows).At fragments' false mayFollow) ∨
    (slashFollows = true ∧ ∃ fragments',
      ((s.addGroup (Fragment.group e) optional slashFollows).addPiece ['/']).At fragments'
        false true) := by
  have htaken : s.slashTaken = false := htaken.trans h.taken
  cases optional with
  | false =>
      refine Or.inl ⟨.required e :: (pendingFragment pending ++ fragments), true, nofun, ?_⟩
      refine h.advance [.required e] (.required e :: (pendingFragment pending ++ fragments))
        ?_ nofun nofun ?_ nofun ?_ fun rest _ => ?_
      · exact hpieces
      · rw [List.map_cons, ← h.texts, ← hfragments]
        rfl
      · exact htaken
      · cases pending <;> simp [pendingFragment, pendingPiece, Piece.layout]
  | true =>
      cases pending with
      | true =>
          have htexts : s.fragments = ['/'] :: fragments.map Fragment.source :=
            hfragments.trans h.texts
          rw [addGroup_afterSlash htexts]
          refine Or.inl ⟨.afterSlash e :: fragments, true, nofun, ?_⟩
          refine h.advance [.optional e] (.afterSlash e :: fragments) ?_ nofun nofun ?_ nofun ?_
            fun rest _ => ?_
          · exact hpieces
          · rfl
          · exact htaken
          · simp [pendingPiece, Piece.layout]
      | false =>
          have htexts : s.fragments = fragments.map Fragment.source := hfragments.trans h.texts
          have hclosed : ∀ texts, s.fragments ≠ ['/'] :: texts := fun texts heq =>
            Bool.false_ne_true (h.head?_fragments.mp ⟨texts, hfragments.symm.trans heq⟩)
          cases slashFollows with
          | true =>
              rw [(addGroup_optional hclosed e).1]
              refine Or.inr ⟨rfl, .beforeSlash e :: fragments, ?_⟩
              refine h.advance [.optional e, .slash] (.beforeSlash e :: fragments) ?_ nofun nofun ?_
                nofun rfl fun rest _ => ?_
              · rw [pieces_addPiece]
                change s.pieces ++ _ = _
                rw [hpieces, List.append_assoc]
                rfl
              · change _ :: s.fragments = _
                rw [htexts]
                rfl
              · simp [pendingPiece, Piece.layout]
          | false =>
              rw [(addGroup_optional hclosed e).2]
              refine Or.inl ⟨.optional e :: fragments, false, fun _ => rfl, ?_⟩
              refine h.advance [.optional e] (.optional e :: fragments) ?_ nofun nofun ?_ nofun ?_
                fun rest hrest => ?_
              · exact hpieces
              · rw [htexts]
                rfl
              · exact htaken
              · rw [show Piece.layout (pendingPiece false ++ ([.optional e] ++ rest)) =
                  .optional e :: Piece.layout rest from Piece.layout_optional (hrest rfl) e]
                simp

/-- Adding text keeps the parameters. -/
theorem parameters_addText (d : Draft) (text : List Char) :
    (d.addText text).segments.filterMap Segment.parameter? =
      d.segments.filterMap Segment.parameter? := by
  unfold Draft.addText
  induction Path.pieces text generalizing d with
  | nil => rfl
  | cons piece rest ih =>
      rw [List.foldl_cons, ih]
      unfold Draft.addPiece
      split <;> rfl

end Draft

end RoutePattern

theorem Parameter.ofSource_eq_ok {name source : String} {optional : Bool} {p : Parameter}
    (h : Parameter.ofSource name source optional = .ok p) :
    p.name = name ∧ p.optional = optional ∧ Expression.compile source = .ok p.value := by
  unfold Parameter.ofSource at h
  cases hcompile : Expression.compile source with
  | error cause =>
      rw [hcompile] at h
      cases h
  | ok value =>
      rw [hcompile] at h
      cases h
      exact ⟨rfl, rfl, rfl⟩

theorem Parameter.expressionText_of_source {p : Parameter} {e : List Char}
    (h : p.value.source = Fragment.valueSource e) : p.expressionText.toList = e := by
  simp [expressionText, h, Fragment.valueSource]

/-- Whether the expression for the values of a parameter is the one around its own. -/
def Parameter.IsAnchored (p : Parameter) : Prop :=
  Expression.compile (Fragment.valueSource p.expressionText.toList) = .ok p.value

namespace RoutePattern

variable {d s : Draft} {fragments : List Fragment} {pending : Bool}

/-- Adding a placeholder and the text after it. -/
theorem Draft.At.addPlaceholder (h : d.At fragments pending false) {path : String}
    {next : Placeholder × List Char} (hs : d.addPlaceholder path next = .ok s) :
    (∃ fragments' pending', s.At fragments' pending' false) ∧
      s.pieces = d.pieces ++ .ofExpression next.1.expression.toList next.1.optional ::
        (Path.pieces next.2).map .ofText ∧
      ∃ parameter, parameter.name = next.1.name ∧ parameter.IsAnchored ∧
        s.segments.filterMap Segment.parameter? =
          parameter :: d.segments.filterMap Segment.parameter? := by
  obtain ⟨p, after⟩ := next
  obtain ⟨_, parameter, hparameter, rfl⟩ := addPlaceholder_eq_ok hs
  obtain ⟨hname, hoptional, hcompile⟩ := Parameter.ofSource_eq_ok hparameter
  have htext : parameter.expressionText.toList = p.expression.toList :=
    Parameter.expressionText_of_source (Expression.compile_eq_ok hcompile).2
  generalize hstart : ({ d with segments := .parameter parameter :: d.segments } : Draft) = g
  have hpieces : g.pieces = d.pieces ++ [.ofExpression p.expression.toList p.optional] := by
    rw [← hstart]
    simp [Draft.pieces, Segment.piece, htext, hoptional]
  have hgrouped : ∀ group slashFollows,
      (g.addGroup group p.optional slashFollows).pieces = g.pieces := fun group slashFollows => by
    rw [Draft.pieces, segments_addGroup, Draft.pieces]
  refine ⟨?_, ?_, parameter, hname, ?_, ?_⟩
  · rcases h.addGroup (by rw [← hstart]) (by rw [← hstart]) hpieces (after.head? == some '/')
      with ⟨_, mayFollow, hmay, hat⟩ | ⟨hfollows, _, hat⟩
    · exact hat.addText after fun hno => by simpa using hmay hno
    · obtain ⟨more, rfl⟩ : ∃ more, after = '/' :: more := by
        cases after with
        | nil => cases hfollows
        | cons c more => exact ⟨more, by rw [show c = '/' by simpa using hfollows]⟩
      obtain ⟨fragments', pending', hdone⟩ := hat.addPieces (Path.pieces more)
      exact ⟨fragments', pending', hdone.weaken⟩
  · rw [Draft.pieces_addText, hgrouped, hpieces, List.append_assoc]
    rfl
  · unfold Parameter.IsAnchored
    rwa [htext]
  · rw [Draft.parameters_addText, segments_addGroup, ← hstart]
    rfl

theorem Draft.At.foldl {path : String} (placeholders : List (Placeholder × List Char)) {d s : Draft}
    (h : ∃ fragments pending, d.At fragments pending false)
    (hparameters : ∀ q ∈ d.segments.filterMap Segment.parameter?, q.IsAnchored)
    (hs : placeholders.foldlM (Draft.addPlaceholder path) d = .ok s) :
    (∃ fragments pending, s.At fragments pending false) ∧
      s.pieces = d.pieces ++ placeholders.flatMap (fun next =>
        .ofExpression next.1.expression.toList next.1.optional ::
          (Path.pieces next.2).map .ofText) ∧
      (∀ q ∈ s.segments.filterMap Segment.parameter?, q.IsAnchored) ∧
      (s.segments.filterMap Segment.parameter?).map (·.name) =
        (placeholders.map (·.1.name)).reverse ++
          (d.segments.filterMap Segment.parameter?).map (·.name) := by
  induction placeholders generalizing d with
  | nil =>
      cases hs
      exact ⟨h, (List.append_nil _).symm, hparameters, rfl⟩
  | cons next rest ih =>
      rw [List.foldlM_cons] at hs
      cases hnext : d.addPlaceholder path next with
      | error cause =>
          rw [hnext] at hs
          cases hs
      | ok g =>
          rw [hnext] at hs
          obtain ⟨_, _, hat⟩ := h
          obtain ⟨hg, hpieces, parameter, hname, hanchored, hadded⟩ := hat.addPlaceholder hnext
          have hall : ∀ q ∈ g.segments.filterMap Segment.parameter?, q.IsAnchored := by
            rw [hadded]
            exact List.forall_mem_cons.mpr ⟨hanchored, hparameters⟩
          obtain ⟨hdone, hpieces', hall', hnames⟩ := ih hg hall hs
          refine ⟨hdone, ?_, hall', ?_⟩
          · rw [hpieces', hpieces, List.append_assoc]
            rfl
          · rw [hnames, hadded]
            simp [hname]

theorem draft_at {space path : String} {t : Template} {d : Draft} (h : draft space path t = .ok d) :
    (∃ fragments pending, d.At fragments pending false) ∧ d.pieces = t.pieces space ∧
      (∀ q ∈ d.segments.filterMap Segment.parameter?, q.IsAnchored) ∧
      (d.segments.filterMap Segment.parameter?).map (·.name) = t.names.reverse := by
  have hempty : ({} : Draft).At [] false true := ⟨rfl, fun _ => nofun, rfl, fun _ _ => rfl⟩
  let start : Draft := if space == "" then {} else ({} : Draft).addText (space.toList ++ ['/'])
  have hstart : (∃ fragments pending, start.At fragments pending true) ∧
      start.pieces = (if space == "" then [] else
        (Path.pieces (space.toList ++ ['/'])).map Piece.ofText) ∧
      start.segments.filterMap Segment.parameter? = [] := by
    by_cases hspace : (space == "") = true
    · simp only [start, hspace, if_true]
      exact ⟨⟨_, _, hempty⟩, rfl, rfl⟩
    · simp only [start, hspace, Bool.false_eq_true, if_false]
      exact ⟨hempty.addPieces _, Draft.pieces_addText {} _, Draft.parameters_addText {} _⟩
  obtain ⟨⟨_, _, hat⟩, hpieces, hnone⟩ := hstart
  obtain ⟨fragments, pending, hbefore⟩ : ∃ fragments pending,
      (start.addText t.before).At fragments pending true := hat.addPieces (Path.pieces t.before)
  have hnone : (start.addText t.before).segments.filterMap Segment.parameter? = [] := by
    rw [Draft.parameters_addText, hnone]
  obtain ⟨hdone, hpieces', hall, hnames⟩ := Draft.At.foldl t.placeholders
    ⟨fragments, pending, hbefore.weaken⟩ (hnone ▸ List.forall_mem_nil _) h
  refine ⟨hdone, ?_, hall, ?_⟩
  · rw [hpieces', Draft.pieces_addText, hpieces, List.append_assoc]
    rfl
  · rw [hnames, hnone]
    simp [Template.names]

/-- How a compiled pattern is made of the pieces of its path. -/
structure Assembled (p : RoutePattern) (space path : String) (t : Template) : Prop where
  template : Template.parse (Shortcut.expand path) = .ok t
  path : p.path = if space == "" then Shortcut.expand path else space ++ "/" ++ Shortcut.expand path
  pieces : p.pieces = t.pieces space
  regex : p.regex = .ofList ((Piece.layout p.pieces).flatMap Fragment.source)
  expression : Expression.compile ("^" ++ p.regex ++ "$") = .ok p.expression
  anchored : ∀ q ∈ p.parameters, q.IsAnchored
  names : p.names = t.names
  parameterNames : p.parameters.map (·.name) = p.names

theorem assembled_of_compile {path space : String} {p : RoutePattern}
    (h : compile path space = .ok p) : ∃ t, p.Assembled space path t := by
  cases htemplate : Template.parse (Shortcut.expand path) with
  | error cause =>
      unfold compile at h
      simp only [htemplate, bind, Except.bind, mapError_error] at h
      cases h
  | ok t =>
      rw [compile_of_parse space htemplate] at h
      unfold assemble at h
      cases hdraft : draft space (Shortcut.expand path) t with
      | error cause =>
          rw [hdraft] at h
          cases h
      | ok d =>
          obtain ⟨⟨fragments, pending, hat⟩, hpieces, hall, hnames⟩ := draft_at hdraft
          have htexts : d.fragments.reverse.flatten =
              (Piece.layout d.pieces).flatMap Fragment.source := by
            have hlayout := hat.layout [] fun _ => nofun
            rw [List.append_nil, List.append_nil] at hlayout
            rw [hlayout, hat.texts, ← List.map_reverse, List.reverse_append, ← List.flatMap_def]
            cases pending <;> rfl
          rw [hdraft] at h
          simp only [bind, Except.bind] at h
          cases hcompile : Expression.compile d.source with
          | error cause =>
              simp only [hcompile] at h
              cases h
          | ok expression =>
              simp only [hcompile] at h
              cases h
              refine ⟨t, htemplate, rfl, hpieces, congrArg String.ofList htexts,
                hcompile, ?_, rfl, ?_⟩
              · intro q hq
                refine hall q ?_
                rw [parameters, List.filterMap_reverse] at hq
                exact List.mem_reverse.mp hq
              · rw [parameters, List.filterMap_reverse, List.map_reverse, hnames,
                  List.reverse_reverse]

variable {p : RoutePattern} {space path : String} {t : Template}

theorem allStock_layout {pieces : List Piece}
    (h : ∀ e ∈ pieces.filterMap Piece.expression?, Fragment.IsStock e) :
    Fragment.AllStock (Piece.layout pieces) :=
  fun e he => h e (Piece.expressions_layout pieces ▸ he)

/-- The expressions of the fragments can be read anywhere if those of the parameters are
self-contained. -/
theorem standalone_of_selfContained (hp : p.IsCompiled)
    (hself : ∀ q ∈ p.parameters, q.IsSelfContained) :
    Fragment.AllStandalone (Piece.layout p.pieces) := by
  intro e he
  rw [Piece.expressions_layout, expressions_pieces] at he
  obtain ⟨q, hq, rfl⟩ := List.mem_map.mp he
  obtain ⟨path, space, hcompile⟩ := hp
  obtain ⟨fragments, hpasted⟩ := pasted_of_compile hcompile
  have hvalue : q.value.source ∈ p.parameters.map (·.value.source) := List.mem_map_of_mem hq
  rw [hpasted.values] at hvalue
  obtain ⟨e, he, hsource⟩ := List.mem_map.mp hvalue
  rw [Parameter.expressionText_of_source hsource.symm]
  exact hpasted.standalone hself e he

theorem Assembled.allStock_of_placeholders (h : p.Assembled space path t)
    (hstock : ∀ next ∈ t.placeholders, Fragment.IsStock next.1.expression.toList) :
    Fragment.AllStock (Piece.layout p.pieces) := by
  have hnone : ∀ texts : List (List Char),
      (texts.map Piece.ofText).filterMap Piece.expression? = [] := by
    intro texts
    rw [List.filterMap_map, List.filterMap_eq_nil_iff]
    exact fun text _ => Piece.expression?_ofText text
  have hspace : (if space == "" then [] else
      (Path.pieces (space.toList ++ ['/'])).map Piece.ofText).filterMap Piece.expression? = [] := by
    split
    · rfl
    · exact hnone _
  refine allStock_layout fun e he => ?_
  rw [h.pieces, Template.pieces, List.filterMap_append, hspace, List.nil_append,
    List.filterMap_append, hnone, List.nil_append, List.mem_filterMap] at he
  obtain ⟨piece, hpiece, he⟩ := he
  obtain ⟨next, hnext, hpiece⟩ := List.mem_flatMap.mp hpiece
  rcases List.mem_cons.mp hpiece with rfl | hpiece
  · rw [Piece.expression?_ofExpression] at he
    exact Option.some.inj he ▸ hstock next hnext
  · have hmem := List.mem_filterMap.mpr ⟨piece, hpiece, he⟩
    rw [hnone] at hmem
    cases hmem

theorem isStock_of_not_isCustom {q : Parameter} (h : ¬ q.IsCustom) :
    Fragment.IsStock q.expressionText.toList := by
  obtain ⟨text, hmem, hsource⟩ := List.mem_map.mp (Decidable.not_not.mp h)
  have htext : q.expressionText = text := by
    apply String.toList_injective
    simp [Parameter.expressionText, ← hsource]
  rw [htext]
  exact List.mem_map_of_mem hmem

theorem not_isCustom_of_isStock {q : Parameter} (hanchored : q.IsAnchored)
    (h : Fragment.IsStock q.expressionText.toList) : ¬ q.IsCustom := by
  obtain ⟨text, hmem, htext⟩ := List.mem_map.mp h
  have hsource : q.value.source = "^(" ++ text ++ ")$" := by
    rw [(Expression.compile_eq_ok hanchored).2, ← htext]
    exact String.toList_inj.mp (by simp [Fragment.valueSource])
  exact fun hcustom => hcustom (List.mem_map.mpr ⟨text, hmem, hsource.symm⟩)

theorem allStock_of_parameters (h : ∀ q ∈ p.parameters, ¬ q.IsCustom) :
    Fragment.AllStock (Piece.layout p.pieces) := by
  refine allStock_layout fun e he => ?_
  obtain ⟨piece, hpiece, he⟩ := List.mem_filterMap.mp he
  obtain ⟨segment, hsegment, rfl⟩ := List.mem_map.mp hpiece
  cases segment with
  | literal text =>
      rw [Segment.piece, Piece.expression?_ofText] at he
      cases he
  | parameter q =>
      rw [Segment.piece, Piece.expression?_ofExpression] at he
      have hq : q ∈ p.parameters := List.mem_filterMap.mpr ⟨_, hsegment, rfl⟩
      exact Option.some.inj he ▸ isStock_of_not_isCustom (h q hq)

/-- A pattern without written out expressions matches what the fragments of its pieces spell. -/
theorem Assembled.compiled (h : p.Assembled space path t)
    (hstock : Fragment.AllStock (Piece.layout p.pieces)) :
    Fragment.Compiled p.expression (Piece.layout p.pieces) := by
  refine ⟨hstock, ?_⟩
  rw [← h.regex]
  exact h.expression

theorem addPlaceholder_of_stock (path : String) (d : Draft) {next : Placeholder × List Char}
    (h : Fragment.IsStock next.1.expression.toList) :
    ∃ s, d.addPlaceholder path next = .ok s := by
  obtain ⟨p, after⟩ := next
  obtain ⟨regex, hparse⟩ := Fragment.hasOneGroup_of_isStock h
  obtain ⟨s, hs⟩ := Fragment.standalone_of_isStock h
  have htext : ("(" ++ p.expression ++ ")").toList =
      '(' :: (p.expression.toList ++ [')']) := by simp
  rw [← htext] at hparse
  have hgroup : placeholderGroup path p = .ok ("(" ++ p.expression ++ ")") := by
    unfold placeholderGroup
    simp only [Expression.compile_of_parse hparse, if_true]
  obtain ⟨value, hvalue⟩ : ∃ value,
      Expression.compile ("^" ++ ("(" ++ p.expression ++ ")") ++ "$") = .ok value :=
    Expression.compile_of_reads hs.readsItem.reads (by simp)
  unfold Draft.addPlaceholder
  simp only [hgroup, bind, Except.bind, Parameter.ofSource, hvalue]
  exact ⟨_, rfl⟩

/-- A path without written out expressions is accepted if it has the form of a pattern. -/
theorem compile_of_stock (space : String) (ht : Template.parse (Shortcut.expand path) = .ok t)
    (hstock : ∀ next ∈ t.placeholders, Fragment.IsStock next.1.expression.toList) :
    ∃ p, compile path space = .ok p := by
  have hdraft : ∀ (placeholders : List (Placeholder × List Char)) (d : Draft),
      (∀ next ∈ placeholders, Fragment.IsStock next.1.expression.toList) →
        ∃ s, placeholders.foldlM (Draft.addPlaceholder (Shortcut.expand path)) d = .ok s := by
    intro placeholders
    induction placeholders with
    | nil => exact fun d _ => ⟨d, rfl⟩
    | cons next rest ih =>
        intro d h
        obtain ⟨hnext, hrest⟩ := List.forall_mem_cons.mp h
        obtain ⟨g, hg⟩ := addPlaceholder_of_stock (Shortcut.expand path) d hnext
        obtain ⟨s, hs⟩ := ih g hrest
        exact ⟨s, by rw [List.foldlM_cons, hg]; exact hs⟩
  rcases compile_cases path space with ⟨cause, herror, _⟩ | ⟨t', ht', hcases⟩
  · rw [ht] at herror
    cases herror
  · obtain rfl := Except.ok.inj (ht.symm.trans ht')
    rcases hcases with ⟨cause, herror, _⟩ | ⟨d, fragments, hrenders, hexpressions,
      ⟨cause, hcompile, _⟩ | ⟨p, hp, _⟩⟩
    · obtain ⟨s, hs⟩ := hdraft t.placeholders _ hstock
      rw [show draft space (Shortcut.expand path) t = .ok s from hs] at herror
      cases herror
    · have hreads := Fragment.reads_all fragments.reverse fun e he => by
        rw [List.filterMap_reverse, List.mem_reverse, hexpressions, List.mem_reverse,
          List.mem_map] at he
        obtain ⟨next, hnext, rfl⟩ := he
        exact Fragment.standalone_of_isStock (hstock next hnext)
      obtain ⟨e, he⟩ := Expression.compile_of_reads hreads hrenders.toList_source
      rw [he] at hcompile
      cases hcompile
    · exact ⟨p, hp⟩

end RoutePattern

end NamedRoutes
