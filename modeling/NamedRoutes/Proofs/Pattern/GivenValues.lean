import NamedRoutes.Proofs.Pattern.Alternation

/-!
What a match binds if every value is given. The slashes around the parameters separate the parts of
the path, and no value has one, so that there is only one way to give each parameter its part.
-/

namespace NamedRoutes

open Fragment

namespace Seam

variable {α : Type} {s : Seam} {pieces : List Piece} {values : List α}

/-- There is a value for the first parameter, and there are enough for the others. -/
theorem exists_cons_of_parameterCount {f : Fragment} {rest : List Fragment} {e : List Char}
    (he : f.expression? = some e) (h : parameterCount (f :: rest) ≤ values.length) :
    ∃ v more, values = v :: more ∧ parameterCount rest ≤ more.length := by
  have hone : parameterCount [f] = 1 := by simp [parameterCount, he]
  rw [parameterCount_cons, hone] at h
  cases values with
  | nil => exact absurd h (by simp)
  | cons v more =>
      rw [List.length_cons] at h
      exact ⟨v, more, rfl, by omega⟩

/-- The seam after a parameter with its value. -/
theorem through_cons_given {f : Fragment} {rest : List Fragment} {e : List Char}
    (he : f.expression? = some e) (v : α) (more : List α) {t : Seam}
    (hnext : s.next f true = some t) :
    s.through (f :: rest) ((v :: more).map some) = t.through rest (more.map some) := by
  have hone : parameterCount [f] = 1 := by simp [parameterCount, he]
  rw [through, hone]
  exact congrArg (Option.bind · _) hnext

/-- If every value is given, path and pattern stay together. -/
theorem exists_through_of_given (hword : ∀ t, .text t ∈ pieces → '/' ∉ t)
    (hsingle : ¬ [.slash, .slash] <:+: pieces)
    (hcount : parameterCount (Piece.layout pieces) ≤ values.length)
    (hs : s = .plain ∨ s = .spent ∧ pieces.head? ≠ some .slash) :
    ∃ t, s.through (Piece.layout pieces) (values.map some) = some t := by
  fun_induction Piece.layout pieces generalizing s values with
  | case1 e rest ih =>
      obtain ⟨v, more, rfl, hmore⟩ := exists_cons_of_parameterCount rfl hcount
      obtain rfl : s = .plain := hs.resolve_right fun hspent => hspent.2 rfl
      rw [through_cons_given rfl v more rfl]
      exact ih (fun t ht => hword t (by simp [ht]))
        (Piece.single_tail (Piece.single_tail hsingle).1).1 hmore
        (Or.inl rfl)
  | case2 e rest ih =>
      obtain ⟨v, more, rfl, hmore⟩ := exists_cons_of_parameterCount rfl hcount
      obtain ⟨hsingle, hhead⟩ := Piece.single_tail (Piece.single_tail hsingle).1
      have hspent : s.next (.beforeSlash e) true = some .spent := by
        rcases hs with rfl | ⟨rfl, _⟩ <;> rfl
      rw [through_cons_given rfl v more hspent]
      exact ih (fun t ht => hword t (by simp [ht])) hsingle hmore (Or.inr ⟨rfl, hhead rfl⟩)
  | case3 e rest _ ih =>
      obtain ⟨v, more, rfl, hmore⟩ := exists_cons_of_parameterCount rfl hcount
      have hplain : s.next (.optional e) true = some .plain := by
        rcases hs with rfl | ⟨rfl, _⟩ <;> rfl
      rw [through_cons_given rfl v more hplain]
      exact ih (fun t ht => hword t (by simp [ht])) (Piece.single_tail hsingle).1 hmore (Or.inl rfl)
  | case4 e rest ih =>
      obtain ⟨v, more, rfl, hmore⟩ := exists_cons_of_parameterCount rfl hcount
      have hplain : s.next (.required e) true = some .plain := by
        rcases hs with rfl | ⟨rfl, _⟩ <;> rfl
      rw [through_cons_given rfl v more hplain]
      exact ih (fun t ht => hword t (by simp [ht])) (Piece.single_tail hsingle).1 hmore (Or.inl rfl)
  | case5 rest _ ih =>
      obtain rfl : s = .plain := hs.resolve_right fun hspent => hspent.2 rfl
      obtain ⟨hsingle, hhead⟩ := Piece.single_tail hsingle
      exact ih (fun t ht => hword t (by simp [ht])) hsingle hcount (Or.inr ⟨rfl, hhead rfl⟩)
  | case6 word rest ih =>
      have hslash : word ≠ ['/'] := by
        rintro rfl
        exact hword _ List.mem_cons_self List.mem_cons_self
      have hplain : s.through (.literal word :: Piece.layout rest) (values.map some) =
          plain.through (Piece.layout rest) (values.map some) := by
        rw [through, next, if_neg hslash]
        rfl
      rw [hplain]
      exact ih (fun t ht => hword t (by simp [ht])) (Piece.single_tail hsingle).1
        hcount (Or.inl rfl)
  | case7 => exact ⟨s, rfl⟩

end Seam

namespace Path

/-- Whether a text may stand between slashes. -/
def IsPart (part : String) : Prop := part ≠ "" ∧ '/' ∉ part.toList

variable {parts others : List String}

theorem IsPart.ne_nil {part : String} (h : IsPart part) : part.toList ≠ [] := fun hnil =>
  h.1 (String.toList_eq_nil_iff.mp hnil)

theorem IsPart.getLast?_append {part : String} (h : IsPart part) (before : List Char) :
    (before ++ part.toList).getLast? ≠ some '/' := by
  rw [List.getLast?_append, List.getLast?_eq_some_getLast h.ne_nil]
  exact fun hlast => h.2 (Option.some.inj hlast ▸ List.getLast_mem h.ne_nil)

/-- Parts between slashes neither start nor end with one. -/
theorem ends_intercalate (h : ∀ part ∈ parts, IsPart part) :
    ("/".intercalate parts).toList.head? ≠ some '/' ∧
    ("/".intercalate parts).toList.getLast? ≠ some '/' := by
  rw [Component.toList_intercalate]
  cases parts with
  | nil => exact ⟨nofun, nofun⟩
  | cons part rest =>
      obtain ⟨hpart, hrest⟩ := List.forall_mem_cons.mp h
      refine ⟨Piece.head?_word hpart.ne_nil hpart.2 _, ?_⟩
      rcases List.eq_nil_or_concat rest with rfl | ⟨init, last, rfl⟩
      · simpa [Component.joined, Component.slashed] using hpart.getLast?_append []
      · have hlast := (hrest last (by simp)).getLast?_append
          (part.toList ++ (Component.slashed init ++ ['/']))
        simpa [Component.joined, Component.slashed] using hlast

theorem eq_nil_of_intercalate (h : ∀ part ∈ parts, IsPart part)
    (hempty : "/".intercalate parts = "") :
    parts = [] := by
  cases parts with
  | nil => rfl
  | cons part rest =>
      have htext : Component.joined (part :: rest) = [] := by
        rw [← Component.toList_intercalate, hempty]
        rfl
      exact absurd (List.append_eq_nil_iff.mp htext).1 (h part List.mem_cons_self).ne_nil

/-- Parts can be told from what they are between slashes. -/
theorem intercalate_inj (hparts : ∀ part ∈ parts, IsPart part)
    (hothers : ∀ part ∈ others, IsPart part)
    (h : "/".intercalate parts = "/".intercalate others) : parts = others := by
  by_cases hnil : parts = []
  · rw [hnil, eq_nil_of_intercalate hothers (by rw [← h, hnil]; rfl)]
  · have hne : others ≠ [] := by
      rintro rfl
      exact hnil (eq_nil_of_intercalate hparts h)
    have hsplit : ∀ {texts : List String}, (∀ part ∈ texts, IsPart part) → texts ≠ [] →
        ("/".intercalate texts).toList.splitOn '/' = texts.map String.toList := by
      intro texts htexts htextsNe
      rw [String.toList_intercalate]
      refine List.splitOn_intercalate '/' (fun text htext => ?_) (by simpa using htextsNe)
      obtain ⟨part, hpart, rfl⟩ := List.mem_map.mp htext
      exact (htexts part hpart).2
    have htexts : parts.map String.toList = others.map String.toList := by
      rw [← hsplit hparts hnil, ← hsplit hothers hne, h]
    exact (List.map_inj_right fun _ _ => String.toList_inj.mp).mp htexts

end Path

namespace Segment

variable {segments : List Segment}

theorem length_parts_le (segments : List Segment) {values : List Value}
    (hvalues : values.length = (segments.filterMap parameter?).length)
    (found : List (Option Value)) :
    (parts segments found).length ≤ (parts segments (values.map some)).length := by
  induction segments generalizing values found with
  | nil => exact Nat.le_refl _
  | cons s rest ih =>
      cases s with
      | literal word =>
          have hmore := ih hvalues found
          by_cases hslash : word = "/"
          · simpa [parts, hslash] using hmore
          · simpa [parts, hslash] using hmore
      | parameter q =>
          cases values with
          | nil => cases hvalues
          | cons v more =>
              have hmore := ih (Nat.succ.inj hvalues) found.tail
              have hfirst : (found.head?.join.map Value.display).toList.length ≤ 1 := by
                cases found.head?.join <;> simp
              simp only [parts, List.length_append, List.map_cons, List.head?_cons,
                Option.join_some, Option.map_some, Option.toList_some, List.length_singleton,
                List.tail_cons]
              omega

/-- If all values of some are given, others with the same parts are the same texts. -/
theorem parts_inj {segments : List Segment} {values : List Value} {found : List (Option Value)}
    (hvalues : values.length = (segments.filterMap parameter?).length)
    (hfound : found.length = values.length)
    (h : parts segments found = parts segments (values.map some)) :
    found.map (Option.map Value.display) = values.map fun v => some v.display := by
  induction segments generalizing values found with
  | nil =>
      obtain rfl := List.eq_nil_of_length_eq_zero hvalues
      obtain rfl := List.eq_nil_of_length_eq_zero hfound
      rfl
  | cons s rest ih =>
      cases s with
      | literal word =>
          by_cases hslash : word = "/"
          · exact ih hvalues hfound (by simpa [parts, hslash] using h)
          · exact ih hvalues hfound (by simpa [parts, hslash] using h)
      | parameter q =>
          cases values with
          | nil => cases hvalues
          | cons v more =>
              cases found with
              | nil => cases hfound
              | cons first others =>
                  have hvalues := Nat.succ.inj hvalues
                  cases first with
                  | none =>
                      have hlength := congrArg List.length h
                      have hle := length_parts_le rest hvalues others
                      simp [parts] at hlength
                      omega
                  | some w =>
                      obtain ⟨hw, hothers⟩ := List.cons.inj h
                      have hmore := ih hvalues (Nat.succ.inj hfound) hothers
                      rw [List.map_cons, List.map_cons, hmore, Option.map_some, hw]

/-- The parts of some segments whose values are accepted. -/
theorem isPart_of_mem_parts {name : String} {values : List (Option Value)}
    (hword : ∀ word, literal word ∈ segments → word = "/" ∨ Path.IsPart word)
    (hvalue : ∀ q ∈ segments.filterMap parameter?, ∀ v : Value, q.accepts v.display = .ok true →
      Path.IsPart v.display)
    (h : firstRefusal? name (segments.filterMap parameter?) values = none) :
    ∀ part ∈ parts segments values, Path.IsPart part := by
  induction segments generalizing values with
  | nil => exact List.forall_mem_nil _
  | cons s rest ih =>
      cases s with
      | literal word =>
          have hmore := ih (fun word hmem => hword word (List.mem_cons_of_mem _ hmem)) hvalue h
          rw [parts]
          split
          · exact hmore
          · next hslash =>
              exact List.forall_mem_cons.mpr
                ⟨(hword word List.mem_cons_self).resolve_left hslash, hmore⟩
      | parameter q =>
          obtain ⟨hq, hothers⟩ := List.forall_mem_cons.mp hvalue
          obtain ⟨hfirst, hrest⟩ := Option.or_eq_none_iff.mp h
          have hmore := ih (fun word hmem => hword word (List.mem_cons_of_mem _ hmem)) hothers hrest
          rw [parts]
          cases hgiven : values.head?.join with
          | none => simpa using hmore
          | some v =>
              rw [hgiven] at hfirst
              exact List.forall_mem_cons.mpr ⟨hq v (Parameter.accepts_of_refusal? hfirst), hmore⟩

end Segment

namespace Matched

/-- If every name is found, the entries are the names with what is found under them. -/
theorem parameters_eq_zip (m : Matched) {base : Nat} {names texts : List String}
    (hdistinct : names.Nodup)
    (h : (names.map fun name => (m.parameters base names).lookup name) = texts.map some) :
    m.parameters base names = names.zip texts := by
  induction names generalizing base texts with
  | nil => rfl
  | cons name rest ih =>
      obtain ⟨hname, hrest⟩ := List.nodup_cons.mp hdistinct
      obtain ⟨text, more, rfl, hfirst, hothers⟩ := List.map_eq_cons_iff.mp h.symm
      have hnone : (m.parameters (base + 1) rest).lookup name = none := by
        refine List.lookup_eq_none_iff.mpr fun entry hentry => bne_iff_ne.mpr ?_
        rintro rfl
        exact hname (m.name_mem_of_parameters hentry)
      change some text = (m.parameters base (name :: rest)).lookup name at hfirst
      change more.map some = rest.map fun other =>
        (m.parameters base (name :: rest)).lookup other at hothers
      have hcons : m.parameters base (name :: rest) =
          (name, text) :: m.parameters (base + 1) rest := by
        rw [parameters] at hfirst ⊢
        split at hfirst
        · split at hfirst
          · rw [hnone] at hfirst
            cases hfirst
          · next value hempty =>
              rw [List.lookup_cons_self] at hfirst
              rw [if_neg hempty, Option.some.inj hfirst]
        · rw [hnone] at hfirst
          cases hfirst
      have hfound : (rest.map fun other => (m.parameters (base + 1) rest).lookup other) =
          more.map some := by
        rw [hothers, hcons]
        refine List.map_congr_left fun other hmem => ?_
        have hne : (other == name) = false := beq_false_of_ne fun heq => hname (heq ▸ hmem)
        rw [List.lookup_cons, hne]
      rw [hcons, List.zip_cons_cons, ih hrest hfound]

end Matched

namespace RoutePattern

variable {p : RoutePattern} {space path : String} {t : Template}

/-- The words of a pattern are parts. -/
theorem Assembled.isPart_of_literal (h : p.Assembled space path t) {word : String}
    (hmem : Segment.literal word ∈ p.segments) : word = "/" ∨ Path.IsPart word := by
  by_cases hslash : word = "/"
  · exact Or.inl hslash
  · have hpiece := Segment.piece_literal (beq_eq_false_iff_ne.mpr hslash)
    have htext : .text word.toList ∈ p.pieces := hpiece ▸ List.mem_map_of_mem hmem
    obtain ⟨hne, hword⟩ := h.word htext
    exact Or.inr ⟨fun hempty => hne (by rw [hempty]; rfl), hword⟩

/-- What a parameter without a written out expression accepts is a part. -/
theorem Assembled.isPart_of_accepts (h : p.Assembled space path t)
    (hstock : AllStock (Piece.layout p.pieces)) {q : Parameter} (hq : q ∈ p.parameters) {v : Value}
    (haccepts : q.accepts v.display = .ok true) : Path.IsPart v.display := by
  have hown : IsStock q.expressionText.toList := by
    refine hstock _ ?_
    rw [Piece.expressions_layout, expressions_pieces]
    exact List.mem_map_of_mem hq
  have haccepted : q.value.accepts v.display = .ok true := by
    unfold Parameter.accepts at haccepts
    cases hvalue : q.value.accepts v.display with
    | error cause =>
        rw [hvalue, mapError_error] at haccepts
        cases haccepts
    | ok accepted =>
        rw [hvalue, mapError_ok] at haccepts
        exact congrArg Except.ok (Except.ok.inj haccepts)
  have hadmits := (accepts_iff hown (h.anchored q hq) v.display).mp haccepted
  exact ⟨fun hempty => hadmits.1 (by rw [hempty]; rfl), slash_not_mem_of_admits hown hadmits⟩

/-- What a path was built of are parts with slashes between them. -/
theorem Assembled.built_of_parts (h : p.Assembled space path t) (hproper : Piece.IsProper p.pieces)
    (hwhole : p.HasWholeParameters) (hstock : AllStock (Piece.layout p.pieces)) {name : String}
    {values unused : List (Option Value)} {d : PathDraft}
    (hfill : Route.fill name p.segments {} values = .ok (d, unused)) :
    d.path = "/".intercalate (Segment.parts p.segments values) ∧
      ∀ part ∈ Segment.parts p.segments values, Path.IsPart part := by
  have hfilled : Route.filled name p.segments [] values = .ok (d, unused) := by
    rw [← Route.fill_alternating (h.alternating hproper hwhole)]
    exact hfill
  unfold Route.filled at hfilled
  cases hnone : firstRefusal? name (p.segments.filterMap Segment.parameter?) values with
  | some e =>
      rw [hnone] at hfilled
      cases hfilled
  | none =>
      rw [hnone] at hfilled
      cases hfilled
      exact ⟨PathDraft.path_ended _, Segment.isPart_of_mem_parts (fun _ => h.isPart_of_literal)
        (fun _ hq _ => h.isPart_of_accepts hstock hq) hnone⟩

/-- What is found in a path that was built with every value given are these values. -/
theorem Assembled.bound_exactly (h : p.Assembled space path t) (hproper : Piece.IsProper p.pieces)
    (hwhole : p.HasWholeParameters) (hstock : AllStock (Piece.layout p.pieces)) {name : String}
    {values : List Value} (hcount : values.length = p.parameters.length) {d : PathDraft}
    {unused : List (Option Value)}
    (hfill : Route.fill name p.segments {} (values.map some) = .ok (d, unused)) :
    d.path.toList.head? ≠ some '/' ∧ d.path.toList.getLast? ≠ some '/' ∧
    space.toList <+: d.path.toList ∧
      ∃ m, p.expression.fullMatch? d.path = .ok (some m) ∧
        m.parameters 0 p.names = p.names.zip (values.map Value.display) := by
  obtain ⟨hpath, hparts⟩ := h.built_of_parts hproper hwhole hstock hfill
  obtain ⟨hfirst, hlast⟩ := Path.ends_intercalate hparts
  rw [← hpath] at hfirst hlast
  have hnames : p.names.length = p.parameters.length := by
    rw [← h.parameterNames, List.length_map]
  have henough : parameterCount (Piece.layout p.pieces) ≤ values.length := by
    rw [← h.length_names, hnames, hcount]
  have haligned : p.IsAligned (values.map some) :=
    Option.isSome_iff_exists.mpr (Seam.exists_through_of_given (fun t ht => (hproper.word t ht).2.1)
      hproper.single henough (Or.inl rfl))
  obtain ⟨given, _, hspells, _⟩ := h.built_text hstock hfill haligned
  refine ⟨hfirst, hlast, h.starts_with_space hspells, ?_⟩
  rcases (h.compiled hstock).fullMatch?_cases d.path with ⟨m, _, hmatch, _⟩ | ⟨_, hno⟩
  · refine ⟨m, hmatch, m.parameters_eq_zip h.nodup_names ?_⟩
    obtain ⟨d', hfound, hsame⟩ := h.fill_found hproper hwhole hstock hlast hmatch name
    obtain ⟨hpath', hparts'⟩ := h.built_of_parts hproper hwhole hstock hfound
    have hequal := Path.intercalate_inj hparts' hparts (by rw [← hpath', ← hpath, hsame])
    have htexts := Segment.parts_inj hcount (by rw [List.length_map, hnames, hcount]) hequal
    simpa [Function.comp_def, Value.display] using htexts
  · exact absurd hspells (hno given)

end RoutePattern

end NamedRoutes
