import NamedRoutes.Proofs.Pattern.Components

/-!
The language of a path made of whole components. It matches the texts that one gets by putting
slashes between parts: a literal component stands for itself, a required parameter for a value, and
an optional one for a value or for no part at all.
-/

namespace NamedRoutes

namespace Component

def isOptional : Component → Bool
  | literal _ => false
  | placeholder _ _ optional => optional

/-- Whether a text fully matches the expression of a placeholder. -/
def IsValue (shortcut : Option Shortcut) (value : String) : Prop :=
  ∃ e, Expression.compile ("^(" ++ expression shortcut ++ ")$") = .ok e ∧ e.accepts value = .ok true

/-- The parts that stand for some components, given the values of their parameters. -/
inductive Fills : List Component → List (Option String) → List String → Prop where
  | nil : Fills [] [] []
  | literal {text : String} {rest : List Component} {values : List (Option String)}
      {parts : List String} (more : Fills rest values parts) :
      Fills (.literal text :: rest) values (text :: parts)
  | given {name : String} {shortcut : Option Shortcut} {optional : Bool} {value : String}
      {rest : List Component} {values : List (Option String)} {parts : List String}
      (isValue : IsValue shortcut value) (more : Fills rest values parts) :
      Fills (.placeholder name shortcut optional :: rest) (some value :: values) (value :: parts)
  | omitted {name : String} {shortcut : Option Shortcut} {rest : List Component}
      {values : List (Option String)} {parts : List String} (more : Fills rest values parts) :
      Fills (.placeholder name shortcut true :: rest) (none :: values) parts

theorem isStock_expression (shortcut : Option Shortcut) :
    Fragment.IsStock (expression shortcut).toList :=
  isStock_of_placeholder? (c := .placeholder "" shortcut false) rfl

theorem isValue_iff (shortcut : Option Shortcut) (value : String) :
    IsValue shortcut value ↔ Fragment.Admits (expression shortcut).toList value.toList := by
  have hstock := isStock_expression shortcut
  have hsource : "^(" ++ expression shortcut ++ ")$" =
      Fragment.valueSource (expression shortcut).toList :=
    String.toList_inj.mp (by simp [Fragment.valueSource])
  obtain ⟨s, hs⟩ := Fragment.standalone_of_isStock hstock
  obtain ⟨e, he⟩ : ∃ e, Expression.compile (Fragment.valueSource (expression shortcut).toList) =
      .ok e :=
    Expression.compile_of_reads hs.readsItem.reads (by simp [Fragment.valueSource])
  have haccepts := Fragment.accepts_iff hstock he value
  unfold IsValue
  rw [hsource]
  constructor
  · rintro ⟨e', he', haccepted⟩
    obtain rfl := Except.ok.inj (he.symm.trans he')
    exact haccepts.mp haccepted
  · exact fun hadmits => ⟨e, he, haccepts.mpr hadmits⟩

def slashed (parts : List String) : List Char := parts.flatMap fun part => '/' :: part.toList

def joined : List String → List Char
  | [] => []
  | part :: rest => part.toList ++ slashed rest

def spelledValues (values : List (Option String)) : List (Option (List Char)) :=
  values.map (·.map String.toList)

theorem toList_intercalate (parts : List String) :
    ("/".intercalate parts).toList = joined parts := by
  have hslash : "/".toList = ['/'] := rfl
  rw [String.toList_intercalate, hslash]
  cases parts with
  | nil => rfl
  | cons part rest => rw [List.map_cons, Path.intercalate_cons, List.flatMap_map]; rfl

variable {c : Component} {components : List Component} {values : List (Option String)}
  {parts : List String}

theorem Fills.ne_nil (h : Fills components values parts)
    (hsome : ∃ c ∈ components, c.isOptional = false) : parts ≠ [] := by
  induction h with
  | nil =>
      obtain ⟨_, hmem, _⟩ := hsome
      cases hmem
  | literal more => exact List.cons_ne_nil _ _
  | given isValue more => exact List.cons_ne_nil _ _
  | omitted more ih =>
      obtain ⟨c, hmem, hc⟩ := hsome
      rcases List.mem_cons.mp hmem with rfl | hmem
      · cases hc
      · exact ih ⟨c, hmem, hc⟩

def tailFragments : Component → List Fragment
  | literal text => [.literal ['/'], .literal text.toList]
  | placeholder _ shortcut false => [.literal ['/'], .required (expression shortcut).toList]
  | placeholder _ shortcut true => [.afterSlash (expression shortcut).toList]

theorem layout_trail (components : List Component) :
    Piece.layout (trail components) = components.flatMap tailFragments := by
  induction components with
  | nil => rfl
  | cons c rest ih =>
      have htrail : trail (c :: rest) = .slash :: c.piece :: trail rest := rfl
      rw [htrail, List.flatMap_cons, ← ih]
      cases c with
      | literal text => rfl
      | placeholder name shortcut optional => cases optional <;> rfl

/-- Components with slashes before them spell parts with slashes before them. -/
theorem Fills.spells_trail (h : Fills components values parts) :
    Fragment.Spells (components.flatMap tailFragments) (spelledValues values) (slashed parts) := by
  induction h with
  | nil => exact ⟨rfl, rfl⟩
  | literal more ih =>
      exact ⟨[], ['/'], _, _, ⟨rfl, rfl⟩, ⟨[], _, _, _, ⟨rfl, rfl⟩, ih, rfl, rfl⟩, rfl, rfl⟩
  | @given name shortcut optional value rest values parts isValue more ih =>
      have hadmits := (isValue_iff shortcut value).mp isValue
      cases optional with
      | false =>
          exact ⟨[], ['/'], _, _, ⟨rfl, rfl⟩,
            ⟨[some value.toList], value.toList, _, _, ⟨_, hadmits, rfl, rfl⟩, ih, rfl, rfl⟩, rfl,
            rfl⟩
      | true =>
          exact ⟨[some value.toList], '/' :: value.toList, _, _, Or.inr ⟨_, hadmits, rfl, rfl⟩, ih,
            rfl, rfl⟩
  | omitted more ih => exact ⟨[none], [], _, _, Or.inl ⟨rfl, rfl⟩, ih, rfl, rfl⟩

theorem isValue_of_admits {shortcut : Option Shortcut} {v : List Char}
    (h : Fragment.Admits (expression shortcut).toList v) : IsValue shortcut (.ofList v) :=
  (isValue_iff shortcut _).mpr (by rwa [String.toList_ofList])

theorem fills_of_trail {spelled : List (Option (List Char))} {text : List Char}
    (h : Fragment.Spells (components.flatMap tailFragments) spelled text) :
    ∃ values parts, Fills components values parts ∧ spelled = spelledValues values ∧
      text = slashed parts := by
  induction components generalizing spelled text with
  | nil =>
      obtain ⟨rfl, rfl⟩ := h
      exact ⟨[], [], .nil, rfl, rfl⟩
  | cons c rest ih =>
      cases c with
      | literal word =>
          obtain ⟨_, _, _, _, ⟨rfl, rfl⟩, ⟨_, _, _, _, ⟨rfl, rfl⟩, hrest, rfl, rfl⟩, rfl, rfl⟩ := h
          obtain ⟨values, parts, hfills, rfl, rfl⟩ := ih hrest
          exact ⟨values, word :: parts, .literal hfills, rfl, rfl⟩
      | placeholder name shortcut optional =>
          cases optional with
          | false =>
              obtain ⟨_, _, _, _, ⟨rfl, rfl⟩,
                ⟨_, v, _, _, ⟨_, hv, rfl, rfl⟩, hrest, rfl, rfl⟩, rfl, rfl⟩ := h
              obtain ⟨values, parts, hfills, rfl, rfl⟩ := ih hrest
              refine ⟨some (.ofList v) :: values, .ofList v :: parts,
                .given (isValue_of_admits hv) hfills, ?_, ?_⟩
              · simp [spelledValues]
              · simp [slashed]
          | true =>
              obtain ⟨_, _, _, _, htakes, hrest, rfl, rfl⟩ := h
              obtain ⟨values, parts, hfills, rfl, rfl⟩ := ih hrest
              rcases htakes with ⟨rfl, rfl⟩ | ⟨v, hv, rfl, rfl⟩
              · exact ⟨none :: values, parts, .omitted hfills, rfl, rfl⟩
              · refine ⟨some (.ofList v) :: values, .ofList v :: parts,
                  .given (isValue_of_admits hv) hfills, ?_, ?_⟩
                · simp [spelledValues]
                · simp [slashed]

def lead : List Component → List Piece
  | [] => []
  | c :: rest => c.piece :: trail rest

/-- The fragments of some components with no slash before them. An optional parameter takes the
slash after it along, until a required component comes. -/
def leadFragments : List Component → List Fragment
  | [] => []
  | literal text :: rest => .literal text.toList :: rest.flatMap tailFragments
  | placeholder _ shortcut false :: rest =>
      .required (expression shortcut).toList :: rest.flatMap tailFragments
  | [placeholder _ shortcut true] => [.optional (expression shortcut).toList]
  | placeholder _ shortcut true :: rest =>
      .beforeSlash (expression shortcut).toList :: leadFragments rest

theorem layout_lead (components : List Component) :
    Piece.layout (lead components) = leadFragments components := by
  fun_induction leadFragments components with
  | case1 => rfl
  | case2 text rest =>
      rw [← layout_trail]
      rfl
  | case3 name shortcut rest =>
      rw [← layout_trail]
      rfl
  | case4 name shortcut => rfl
  | case5 name shortcut rest hne ih =>
      rw [← ih]
      cases rest with
      | nil => exact absurd rfl hne
      | cons d more => rfl

/-- Components of which one is required spell parts with slashes between them. -/
theorem Fills.spells_lead (h : Fills components values parts)
    (hsome : ∃ c ∈ components, c.isOptional = false) :
    Fragment.Spells (leadFragments components) (spelledValues values) (joined parts) := by
  fun_induction leadFragments components generalizing values parts with
  | case1 =>
      obtain ⟨_, hmem, _⟩ := hsome
      cases hmem
  | case2 text rest =>
      cases h with
      | literal more => exact ⟨[], _, _, _, ⟨rfl, rfl⟩, more.spells_trail, rfl, rfl⟩
  | case3 name shortcut rest =>
      cases h with
      | given isValue more =>
          exact ⟨_, _, _, _, ⟨_, (isValue_iff shortcut _).mp isValue, rfl, rfl⟩, more.spells_trail,
            rfl, rfl⟩
  | case4 name shortcut =>
      obtain ⟨c, hmem, hc⟩ := hsome
      obtain rfl := List.mem_singleton.mp hmem
      cases hc
  | case5 name shortcut rest hne ih =>
      have hrest : ∃ c ∈ rest, c.isOptional = false := by
        obtain ⟨c, hmem, hc⟩ := hsome
        rcases List.mem_cons.mp hmem with rfl | hmem
        · cases hc
        · exact ⟨c, hmem, hc⟩
      cases h with
      | @given _ _ _ value _ values parts isValue more =>
          have hadmits := (isValue_iff shortcut value).mp isValue
          refine ⟨[some value.toList], value.toList ++ ['/'], _, _, Or.inr ⟨_, hadmits, rfl, rfl⟩,
            ih more hrest, rfl, ?_⟩
          cases parts with
          | nil => exact absurd rfl (more.ne_nil hrest)
          | cons part others => simp [joined, slashed]
      | omitted more => exact ⟨[none], [], _, _, Or.inl ⟨rfl, rfl⟩, ih more hrest, rfl, rfl⟩

/-- If there is no required component, the last part may have a slash after it. -/
theorem fills_of_lead {spelled : List (Option (List Char))} {text : List Char}
    (h : Fragment.Spells (leadFragments components) spelled text) :
    ∃ values parts, Fills components values parts ∧ spelled = spelledValues values ∧
      (text = joined parts ∨ parts ≠ [] ∧ (∀ c ∈ components, c.isOptional = true) ∧
        text = joined parts ++ ['/']) := by
  fun_induction leadFragments components generalizing spelled text with
  | case1 =>
      obtain ⟨rfl, rfl⟩ := h
      exact ⟨[], [], .nil, rfl, Or.inl rfl⟩
  | case2 word rest =>
      obtain ⟨_, _, _, _, ⟨rfl, rfl⟩, hrest, rfl, rfl⟩ := h
      obtain ⟨values, parts, hfills, rfl, rfl⟩ := fills_of_trail hrest
      exact ⟨values, word :: parts, .literal hfills, rfl, Or.inl rfl⟩
  | case3 name shortcut rest =>
      obtain ⟨_, v, _, _, ⟨_, hv, rfl, rfl⟩, hrest, rfl, rfl⟩ := h
      obtain ⟨values, parts, hfills, rfl, rfl⟩ := fills_of_trail hrest
      refine ⟨some (.ofList v) :: values, .ofList v :: parts,
        .given (isValue_of_admits hv) hfills, ?_, Or.inl ?_⟩
      · simp [spelledValues]
      · simp [joined]
  | case4 name shortcut =>
      obtain ⟨_, v, _, _, htakes, ⟨rfl, rfl⟩, rfl, rfl⟩ := h
      rcases htakes with ⟨rfl, rfl⟩ | ⟨_, hv, rfl, rfl⟩
      · exact ⟨[none], [], .omitted .nil, rfl, Or.inl rfl⟩
      · refine ⟨[some (.ofList v)], [.ofList v], .given (isValue_of_admits hv) .nil, ?_, Or.inl ?_⟩
        · simp [spelledValues]
        · simp [joined, slashed]
  | case5 name shortcut rest hne ih =>
      obtain ⟨_, _, _, tail, htakes, hrest, rfl, rfl⟩ := h
      obtain ⟨values, parts, hfills, rfl, htail⟩ := ih hrest
      have hall : (∀ c ∈ rest, c.isOptional = true) →
          ∀ c ∈ placeholder name shortcut true :: rest, c.isOptional = true := fun hrest =>
        List.forall_mem_cons.mpr ⟨rfl, hrest⟩
      rcases htakes with ⟨rfl, rfl⟩ | ⟨v, hv, rfl, rfl⟩
      · exact ⟨none :: values, parts, .omitted hfills, rfl,
          htail.imp_right fun h => ⟨h.1, hall h.2.1, h.2.2⟩⟩
      · refine ⟨some (.ofList v) :: values, .ofList v :: parts,
          .given (isValue_of_admits hv) hfills, by simp [spelledValues], ?_⟩
        rcases htail with htail | ⟨hparts, hoptional, htail⟩
        · cases parts with
          | nil =>
              refine Or.inr ⟨List.cons_ne_nil _ _, hall fun c hc => ?_, ?_⟩
              · cases hrequired : c.isOptional with
                | true => rfl
                | false => exact absurd rfl (hfills.ne_nil ⟨c, hc, hrequired⟩)
              · rw [htail]
                simp [joined, slashed]
          | cons part others =>
              rw [htail]
              exact Or.inl (by simp [joined, slashed])
        · cases parts with
          | nil => exact absurd rfl hparts
          | cons part others =>
              rw [htail]
              exact Or.inr ⟨List.cons_ne_nil _ _, hall hoptional, by simp [joined, slashed]⟩

def pieces (space : String) (components : List Component) : List Piece :=
  if space = "" then lead components
  else (Path.pieces space.toList).map .ofText ++ trail components

def fragments (space : String) (components : List Component) : List Fragment :=
  if space = "" then leadFragments components
  else (Path.pieces space.toList).map .literal ++ components.flatMap tailFragments

theorem layout_pieces (space : String) (components : List Component) :
    Piece.layout (pieces space components) = fragments space components := by
  unfold pieces fragments
  split
  · exact layout_lead components
  · rw [Piece.layout_texts, layout_trail]
    intro e
    cases components <;> exact nofun

/-- The parts of a text with those of a namespace in front. -/
def inSpace (space : String) (parts : List String) : List String :=
  (if space = "" then [] else [space]) ++ parts

theorem Fills.spells (h : Fills components values parts) {space : String}
    (hsome : space ≠ "" ∨ ∃ c ∈ components, c.isOptional = false) :
    Fragment.Spells (fragments space components) (spelledValues values)
      (joined (inSpace space parts)) := by
  unfold fragments inSpace
  split
  · rename_i hspace
    exact h.spells_lead (hsome.resolve_left fun hne => hne hspace)
  · refine (Fragment.spells_literals _).mpr ⟨slashed parts, h.spells_trail, ?_⟩
    rw [Path.flatten_pieces]
    rfl

theorem fills_of_spells {space : String} {spelled : List (Option (List Char))} {text : List Char}
    (h : Fragment.Spells (fragments space components) spelled text) :
    ∃ values parts, Fills components values parts ∧ spelled = spelledValues values ∧
      (text = joined (inSpace space parts) ∨ space = "" ∧ parts ≠ [] ∧
        (∀ c ∈ components, c.isOptional = true) ∧ text = joined parts ++ ['/']) := by
  unfold fragments at h
  unfold inSpace
  split at h
  · rename_i hspace
    obtain ⟨values, parts, hfills, hspelled, htext⟩ := fills_of_lead h
    rw [if_pos hspace]
    exact ⟨values, parts, hfills, hspelled, htext.imp_right fun h => ⟨hspace, h⟩⟩
  · rename_i hspace
    obtain ⟨tail, htail, rfl⟩ := (Fragment.spells_literals _).mp h
    obtain ⟨values, parts, hfills, hspelled, rfl⟩ := fills_of_trail htail
    rw [if_neg hspace, Path.flatten_pieces]
    exact ⟨values, parts, hfills, hspelled, Or.inl rfl⟩

/-- A path of components is accepted in every namespace, and its pattern is made of their pieces. -/
theorem exists_assembled (h : WellFormed components) (space : String) :
    ∃ p t, RoutePattern.compile (path components) space = .ok p ∧
      p.Assembled space (path components) t ∧ p.pieces = pieces space components ∧
      p.names = components.filterMap name? ∧
      Fragment.Compiled p.expression (fragments space components) := by
  cases components with
  | nil => exact absurd rfl h.nonempty
  | cons c rest =>
      obtain ⟨t, ht, hnames, hstock, hpieces⟩ := parse_path h
      obtain ⟨p, hp⟩ := RoutePattern.compile_of_stock space ht hstock
      obtain ⟨t', hassembled⟩ := RoutePattern.assembled_of_compile hp
      obtain rfl := Except.ok.inj (ht.symm.trans hassembled.template)
      have hcomponents : p.pieces = pieces space (c :: rest) := by
        rw [hassembled.pieces, hpieces, pieces]
        by_cases hspace : space = ""
        · rw [if_pos hspace, if_pos (beq_iff_eq.mpr hspace)]
          rfl
        · rw [if_neg hspace, if_neg (by simpa using hspace), Path.pieces_append_slash]
          simp [trail, Piece.ofText, Path.pieces]
      refine ⟨p, t, hp, hassembled, hcomponents, hassembled.names.trans hnames, ?_⟩
      rw [← layout_pieces, ← hcomponents]
      exact hassembled.compiled (hassembled.allStock_of_placeholders hstock)

end Component

namespace RoutePattern

open Component

/-- The pattern of a path of components matches a text if and only if the text is made of parts for
the components with slashes between them, those of the namespace first. -/
theorem fullMatch_iff_components_joined (components : List Component) (h : WellFormed components)
    (space : String) (hsome : space ≠ "" ∨ ∃ c ∈ components, c.isOptional = false) :
    ∃ p, compile (Component.path components) space = .ok p ∧
      ∀ text, ∃ found, p.expression.fullMatch? text = .ok found ∧
        (found.isSome ↔ ∃ values parts, Fills components values parts ∧
          text = "/".intercalate ((if space = "" then [] else [space]) ++ parts)) := by
  obtain ⟨p, _, hp, _, _, _, hcompiled⟩ := exists_assembled h space
  refine ⟨p, hp, fun text => ?_⟩
  have htext : ∀ parts, text = "/".intercalate (inSpace space parts) ↔
      text.toList = joined (inSpace space parts) := fun parts => by
    rw [← String.toList_inj, toList_intercalate]
  have hspells : (∃ values parts, Fills components values parts ∧
      text = "/".intercalate (inSpace space parts)) ↔
        ∃ spelled, Fragment.Spells (fragments space components) spelled text.toList := by
    constructor
    · rintro ⟨values, parts, hfills, hjoined⟩
      exact ⟨_, (htext parts).mp hjoined ▸ hfills.spells hsome⟩
    · rintro ⟨spelled, hspelled⟩
      obtain ⟨values, parts, hfills, _, hjoined | ⟨hspace, _, hoptional, _⟩⟩ :=
        fills_of_spells hspelled
      · exact ⟨values, parts, hfills, (htext parts).mpr hjoined⟩
      · obtain ⟨c, hc, hrequired⟩ := hsome.resolve_left fun hne => hne hspace
        rw [hoptional c hc] at hrequired
        cases hrequired
  rcases hcompiled.fullMatch?_cases text with ⟨m, values, hmatch, hspelled, _⟩ | ⟨hnone, hno⟩
  · exact ⟨some m, hmatch, fun _ => hspells.mpr ⟨values, hspelled⟩, fun _ => rfl⟩
  · refine ⟨none, hnone, nofun, fun hjoined => ?_⟩
    obtain ⟨spelled, hspelled⟩ := hspells.mp hjoined
    exact absurd hspelled (hno spelled)

def archiveComponents : List Component :=
  [.placeholder "lang" (some .alphanumerics) true, .literal "archive",
    .placeholder "year" (some .digits) false, .placeholder "page" none true]

theorem fullMatch_iff_components_joined_for_archive :
    WellFormed archiveComponents ∧
    Component.path archiveComponents = "{lang:a}?/archive/{year:i}/{page}?" ∧
    (∃ c ∈ archiveComponents, c.isOptional = false) ∧
    ∃ p, compile (Component.path archiveComponents) "" = .ok p ∧
      ∀ text, ∃ found, p.expression.fullMatch? text = .ok found ∧
        (found.isSome ↔ ∃ values parts, Fills archiveComponents values parts ∧
          text = "/".intercalate parts) := by
  have hwell : WellFormed archiveComponents := ⟨by decide, by decide +kernel, by decide⟩
  have hsome : ∃ c ∈ archiveComponents, c.isOptional = false := by decide
  exact ⟨hwell, by decide +kernel, hsome,
    fullMatch_iff_components_joined archiveComponents hwell "" (Or.inr hsome)⟩

end RoutePattern

end NamedRoutes
