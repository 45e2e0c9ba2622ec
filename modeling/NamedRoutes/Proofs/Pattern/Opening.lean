import NamedRoutes.Proofs.Pattern.Components
import NamedRoutes.Proofs.Pattern.Margins

/-!
A namespace in front of a path. When a pattern is compiled in a namespace, the namespace is put in
front of it as it stands. It can as well be written into the path, if only characters of paths occur
in it: then it is read with the rest, and out comes the same pattern, or an error of the same kind.
-/

namespace NamedRoutes

/-- What callers tell an error by: its class, or the error itself if it is not sorted. -/
def Error.kind (e : Error) : ErrorClass ⊕ Error :=
  match e.class? with
  | some c => .inl c
  | none => .inr e

section MapError

variable {ε ε' α β : Type} {f : ε → ε'} {g k : α → Except ε β}

/-- Two results that an image of their errors does not tell apart go on to such results. -/
theorem mapError_bind_congr {first second : Except ε α} (h : first.mapError f = second.mapError f)
    (hnext : ∀ a, second = .ok a → (g a).mapError f = (k a).mapError f) :
    (first >>= g).mapError f = (second >>= k).mapError f := by
  cases first with
  | error e =>
      cases second with
      | error e' => exact congrArg Except.error (Except.error.inj h)
      | ok a => cases h
  | ok a =>
      cases second with
      | error e => cases h
      | ok b =>
          obtain rfl := Except.ok.inj h
          exact hnext a rfl

theorem mapError_foldlM_congr {g k : β → α → Except ε β}
    (h : ∀ state item, (g state item).mapError f = (k state item).mapError f) (items : List α)
    (state : β) : (items.foldlM g state).mapError f = (items.foldlM k state).mapError f := by
  induction items generalizing state with
  | nil => rfl
  | cons item rest ih =>
      rw [List.foldlM_cons, List.foldlM_cons]
      exact mapError_bind_congr (h state item) fun next _ => ih next

end MapError

namespace Path

/-- Whether a text can stand in front of paths as a part of them, with a slash behind it. -/
structure Opens (space : String) : Prop where
  nonempty : space ≠ ""
  chars : ∀ c ∈ space.toList, isPathChar c = true
  first : space.toList.head? ≠ some '/'
  last : space.toList.getLast? ≠ some '/'
  single : hasDoubleSlash space.toList = false

variable {space : String}

theorem toList_under (space path : String) :
    (space ++ "/" ++ path).toList = (space.toList ++ ['/']) ++ path.toList := by
  rw [String.toList_append, String.toList_append]
  rfl

theorem Opens.ne (h : Opens space) : ∀ c ∈ space.toList ++ ['/'], c ≠ ':' ∧ c ≠ '{' ∧ c ≠ '}' := by
  intro c hc
  have hchar : isPathChar c = true := by
    rcases List.mem_append.mp hc with hc | hc
    · exact h.chars c hc
    · rw [List.mem_singleton.mp hc]
      decide
  obtain ⟨hcolon, hopen, hclose, _⟩ := pathChar_ne hchar
  exact ⟨hcolon, hopen, hclose⟩

/-- Text behind it is checked as if it stood alone. -/
theorem Opens.isStaticText (h : Opens space) {text : List Char} (htext : text.head? ≠ some '/') :
    isStaticText (space.toList ++ ['/'] ++ text) = isStaticText text := by
  have hchars : (space.toList ++ ['/'] ++ text).all isPathChar = text.all isPathChar := by
    have hspace : space.toList.all isPathChar = true := List.all_eq_true.mpr h.chars
    have hslash : isPathChar '/' = true := by decide
    simp [hspace, hslash]
  have hdouble : hasDoubleSlash (space.toList ++ ['/'] ++ text) = hasDoubleSlash text := by
    cases hrest : hasDoubleSlash text with
    | false =>
        rw [List.append_assoc]
        exact hasDoubleSlash_between h.single h.last htext hrest
    | true =>
        cases hwhole : hasDoubleSlash (space.toList ++ ['/'] ++ text) with
        | false => rw [hasDoubleSlash_right hwhole] at hrest; cases hrest
        | true => rfl
  unfold Path.isStaticText
  rw [hchars, hdouble]

/-- The root is what it stands for itself, any other path stands behind it. -/
theorem Opens.join_cases (h : Opens space) (path : String) :
    (path = "" ∧ join space path = space) ∨
    (path ≠ "" ∧ join space path = space ++ "/" ++ path) := by
  unfold join
  rw [if_neg (by simpa using h.nonempty)]
  by_cases hempty : path = ""
  · exact Or.inl ⟨hempty, if_pos (beq_iff_eq.mpr hempty)⟩
  · exact Or.inr ⟨hempty, if_neg fun heq => hempty (beq_iff_eq.mp heq)⟩

theorem Opens.isStaticText_join (h : Opens space) {path : String}
    (hpath : path.toList.head? ≠ some '/') :
    Path.isStaticText (join space path).toList = Path.isStaticText path.toList := by
  rcases h.join_cases path with ⟨rfl, hroot⟩ | ⟨_, hunder⟩
  · have hchars : space.toList.all isPathChar = true := List.all_eq_true.mpr h.chars
    rw [hroot, Path.isStaticText, hchars, h.single]
    rfl
  · rw [hunder, toList_under, h.isStaticText hpath]

theorem Opens.isStatic (h : Opens space) : Path.isStatic space = true := by
  have hopen : '{' ∉ space.toList := fun hmem => (h.ne _ (List.mem_append_left _ hmem)).2.1 rfl
  have hclose : '}' ∉ space.toList := fun hmem => (h.ne _ (List.mem_append_left _ hmem)).2.2 rfl
  simp [Path.isStatic, hopen, hclose]

/-- A path has placeholders behind it if it has them alone. -/
theorem Opens.isStatic_join (h : Opens space) (path : String) :
    Path.isStatic (join space path) = Path.isStatic path := by
  have hspace := h.isStatic
  rcases h.join_cases path with ⟨rfl, hroot⟩ | ⟨_, hunder⟩
  · rw [hroot, hspace]
    rfl
  rw [hunder]
  unfold Path.isStatic at hspace ⊢
  obtain ⟨hopen, hclose⟩ := Bool.and_eq_true_iff.mp hspace
  rw [Bool.not_eq_true'] at hopen hclose
  have hslash : ['/'].contains '{' = false ∧ ['/'].contains '}' = false := by decide
  simp only [toList_under, List.contains_append, hopen, hclose, hslash, Bool.false_or]

/-- A trimmed path behind it is trimmed already, and if nothing stands behind it the slash is cut
off. -/
theorem Opens.trim (h : Opens space) (path : String) :
    Path.trim (space ++ "/" ++ Path.trim path) = join space (Path.trim path) := by
  have hne : space.toList ≠ [] := fun hnil => h.nonempty (String.toList_eq_nil_iff.mp hnil)
  have hmargin : ∀ c ∈ space.toList, c ≠ '/' → isMargin c = false := by
    intro c hc hslash
    have hblank := (pathChar_ne (h.chars c hc)).2.2.2.2
    simp [isMargin, hblank, hslash]
  have hfirst : ∀ rest c, (space.toList ++ '/' :: rest).head? = some c → isMargin c = false := by
    intro rest c hc
    have hhead : space.toList.head? = some c := by
      rw [List.head?_append, List.head?_eq_some_head hne] at hc
      rw [List.head?_eq_some_head hne]
      exact hc
    exact hmargin c (List.mem_of_head? hhead) fun hslash => h.first (hslash ▸ hhead)
  have htext : ∀ rest, (space ++ "/" ++ rest).toList = space.toList ++ '/' :: rest.toList :=
    fun rest => by
    rw [toList_under, List.append_assoc, List.singleton_append]
  rcases h.join_cases (Path.trim path) with ⟨hempty, hroot⟩ | ⟨hempty, hunder⟩
  · have hlast : ∀ c, space.toList.getLast? = some c → isMargin c = false := fun c hc =>
      hmargin c (List.mem_of_getLast? hc) fun hslash => h.last (hslash ▸ hc)
    rw [hroot, hempty]
    unfold Path.trim Text.trim
    rw [htext, Text.trimStart_of_head? (hfirst _)]
    exact (congrArg String.ofList (trimEnd_slash space.toList)).trans
      (by rw [Text.trimEnd_of_getLast? hlast, String.ofList_toList])
  · have hrest : (Path.trim path).toList ≠ [] :=
      fun hnil => hempty (String.toList_eq_nil_iff.mp hnil)
    rw [hunder]
    apply trim_eq_self
    · intro c hc
      rw [htext] at hc
      exact hfirst _ c hc
    · intro c hc
      rw [toList_under, List.getLast?_append, List.getLast?_eq_some_getLast hrest] at hc
      have hlast : (Path.trim path).toList.getLast? = some c := by
        rw [List.getLast?_eq_some_getLast hrest]
        exact hc
      exact isMargin_of_getLast?_trim hlast

end Path

theorem Shortcut.expand_under {space : String} (h : Path.Opens space) (path : String) :
    expand (space ++ "/" ++ path) = space ++ "/" ++ expand path := by
  have hnone : ':' ∉ space.toList ++ ['/'] := fun hmem => (h.ne _ hmem).1 rfl
  unfold expand all
  simp only [Path.toList_under, List.foldl_cons, List.foldl_nil, expandIn_append _ hnone]
  rw [← String.toList_inj, Path.toList_under, String.toList_ofList, String.toList_ofList]

namespace Template

/-- A template with a text and a slash in front. -/
def under (space : String) (t : Template) : Template :=
  { t with before := space.toList ++ ['/'] ++ t.before }

/-- The outline of a path that starts with no slash starts with none. -/
theorem head?_outline {path : String} {cut : CutPath}
    (hcut : CutPath.ofText? path.toList = some cut)
    (hfirst : path.toList.head? ≠ some '/') : cut.outline.head? ≠ some '/' := by
  have hsource := (CutPath.source_of_cut _).1 cut hcut
  exact fun heq => hfirst (hsource ▸ cut.ends_outline.1 heq)

/-- What is read with a namespace in front is what is read without it. -/
theorem parse_under {space path : String} (h : Path.Opens space)
    (hfirst : path.toList.head? ≠ some '/') :
    (∃ t, parse path = .ok t ∧ parse (space ++ "/" ++ path) = .ok (t.under space)) ∨
      ∃ cause other, parse path = .error cause ∧ parse (space ++ "/" ++ path) = .error other := by
  have hbraces : ∀ c ∈ space.toList ++ ['/'], c ≠ '{' ∧ c ≠ '}' := fun c hc => (h.ne c hc).2
  unfold parse
  rw [Path.toList_under, CutPath.ofText?_append hbraces]
  cases hcut : CutPath.ofText? path.toList with
  | none => exact Or.inr ⟨_, _, rfl, rfl⟩
  | some cut =>
      have houtline : Path.isStaticText
          (CutPath.outline { cut with before := space.toList ++ ['/'] ++ cut.before }) =
            Path.isStaticText cut.outline := by
        rw [← h.isStaticText (head?_outline hcut hfirst)]
        simp [CutPath.outline]
      simp only [Option.map_some, houtline, bind, Except.bind, pure, Except.pure]
      cases Path.isStaticText cut.outline with
      | false => exact Or.inr ⟨_, _, rfl, rfl⟩
      | true =>
          -- The text before the slots is no part of what is still checked.
          have hslots : ∀ before, (CutPath.mk before cut.slots).placeholders = cut.placeholders :=
            fun _ => rfl
          have hnames : ∀ before, (Template.mk before cut.placeholders).names =
              cut.placeholders.map (·.1.name) := fun _ => rfl
          simp only [hslots, hnames, Bool.not_true, Bool.false_eq_true, if_false]
          split
          · exact Or.inr ⟨_, _, rfl, rfl⟩
          · cases firstRepeated? [] (cut.placeholders.map (·.1.name)) with
            | some name => exact Or.inr ⟨_, _, rfl, rfl⟩
            | none => exact Or.inl ⟨_, rfl, rfl⟩

end Template

namespace RoutePattern

theorem placeholderGroup_kind (path other : String) (p : Placeholder) :
    (placeholderGroup path p).mapError Error.kind =
      (placeholderGroup other p).mapError Error.kind := by
  unfold placeholderGroup
  cases hcompile : Expression.compile ("(" ++ p.expression ++ ")") with
  | error cause =>
      simp only [hcompile]
      cases cause <;> rfl
  | ok e =>
      simp only [hcompile]
      split <;> rfl

/-- The path of a draft is only named in errors. -/
theorem addPlaceholder_kind (path other : String) (d : Draft) (next : Placeholder × List Char) :
    (d.addPlaceholder path next).mapError Error.kind =
      (d.addPlaceholder other next).mapError Error.kind := by
  unfold Draft.addPlaceholder
  exact mapError_bind_congr (placeholderGroup_kind path other next.1) fun _ _ => rfl

theorem addText_under (d : Draft) (text rest : List Char) :
    d.addText (text ++ ['/'] ++ rest) = (d.addText (text ++ ['/'])).addText rest := by
  unfold Draft.addText
  rw [List.append_assoc, List.singleton_append, Path.pieces_append_slash, Path.pieces_append_slash,
    List.foldl_append, List.foldl_append]
  rfl

/-- A namespace that is part of the path leads to the same draft. -/
theorem draft_under {space : String} (hspace : space ≠ "") (path other : String) (t : Template) :
    (draft "" other (t.under space)).mapError Error.kind =
      (draft space path t).mapError Error.kind := by
  have hne : (space == "") = false := by simpa using hspace
  unfold draft
  simp only [hne, beq_self_eq_true, if_true, Bool.false_eq_true, if_false, Template.under,
    addText_under]
  exact mapError_foldlM_congr (addPlaceholder_kind other path) _ _

/-- A path with a namespace written into it is compiled to the pattern that the path has in the
namespace. -/
theorem compile_under {space path : String} (h : Path.Opens space)
    (hfirst : path.toList.head? ≠ some '/') :
    (compile (space ++ "/" ++ path) "").mapError Error.kind =
      (compile path space).mapError Error.kind := by
  have hhead : (Shortcut.expand path).toList.head? ≠ some '/' := by
    rwa [(Shortcut.ends_expand path).1]
  have hexpand := Shortcut.expand_under h path
  rcases Template.parse_under h hhead with ⟨t, ht, hunder⟩ | ⟨cause, other, hcause, hother⟩
  · rw [← hexpand] at hunder
    rw [compile_of_parse space ht, compile_of_parse "" hunder, hexpand]
    unfold assemble
    have hdraft := draft_under h.nonempty (Shortcut.expand path)
      (space ++ "/" ++ Shortcut.expand path) t
    have hne : (space == "") = false := by simpa using h.nonempty
    simp only [hne, beq_self_eq_true, if_true, Bool.false_eq_true, if_false]
    exact mapError_bind_congr hdraft fun _ _ => rfl
  · rw [← hexpand] at hother
    unfold compile
    simp only [hcause, hother, bind, Except.bind, mapError_error, Error.kind, Error.class?]

end RoutePattern

end NamedRoutes
