import NamedRoutes.Proofs.Pattern.BuiltText

/-!
What a match starts with. Literal text at the front of a pattern is matched first, so what a pattern
matches starts with the namespace, whatever the expressions of its placeholders are. The slash
behind the namespace is part of that only as long as no optional parameter takes it along: then the
fragment after it decides, and so on.
-/

namespace NamedRoutes

open Regex

/-- Whether nothing is left of a text at a place, or what is left starts with a slash. -/
def Place.AtSlash (p : Place) : Prop := p.after = [] ∨ ∃ more, p.after = '/' :: more

namespace Regex

variable {looping : Bool} {t v : Thread} {k : Rest}

/-- A character at the front of a sequence is matched first. -/
theorem exists_of_run_char {c : Char} {more : List Regex}
    (h : (sequence (.one (.literal c.toNat false .exact) :: more)).run looping t k = .matched v) :
    ∃ u : Thread, t.place.Leads [c] u.place ∧ (sequence more).run looping u k = .matched v := by
  have hrun : (Regex.one (.literal c.toNat false .exact)).run looping t
      ⟨(sequence more).lead?.getD k.lead, fun u => (sequence more).run looping u k⟩ =
        .matched v := h
  simp only [run, Thread.step?] at hrun
  cases hnext : t.place.next? (CharTest.literal c.toNat false .exact).accepts with
  | none =>
      rw [hnext] at hrun
      cases hrun
  | some p =>
      rw [hnext] at hrun
      obtain ⟨d, hd, hleads⟩ := Place.next?_eq_some_iff.mp hnext
      rw [CharTest.accepts_literal] at hd
      exact ⟨t.moveTo p, hd ▸ hleads, hrun⟩

/-- Literal text at the front of a sequence is matched first. -/
theorem exists_of_run_literal (text : List Char) {more : List Regex}
    (h : (sequence ((text.map fun c => .one (.literal c.toNat false .exact)) ++ more)).run
      looping t k = .matched v) :
    ∃ u : Thread, t.place.Leads text u.place ∧ (sequence more).run looping u k = .matched v := by
  induction text generalizing t with
  | nil => exact ⟨t, .refl _, h⟩
  | cons c rest ih =>
      obtain ⟨s, hfirst, hrest⟩ := exists_of_run_char h
      obtain ⟨u, hleads, hmatched⟩ := ih hrest
      exact ⟨u, hfirst.trans hleads, hmatched⟩

/-- At an item that may be left out and that starts with a slash, either a slash follows, or the
match goes on from where it is. -/
theorem atSlash_or_run {body : Regex} {more : List Regex}
    (h :
      (sequence (.repeated .greedy 0 (some 1) (.sequence [Fragment.slashRegex, body]) :: more)).run
      looping t k = .matched v) :
    t.place.AtSlash ∨
      ∃ u : Thread, u.place = t.place ∧ (sequence more).run looping u k = .matched v := by
  have hrun :
      (Regex.repeated .greedy 0 (some 1) (.sequence [Fragment.slashRegex, body])).run looping t
      ⟨(sequence more).lead?.getD k.lead, fun u => (sequence more).run looping u k⟩ =
        .matched v := h
  rw [Round.Follows.run_optional rfl] at hrun
  split at hrun
  · rename_i u hbody
    obtain ⟨w, hleads, _⟩ := exists_of_run_char hbody
    exact Or.inl (Or.inr ⟨w.place.after, hleads.after⟩)
  · exact Or.inr ⟨t.setOut, rfl, Round.of_leave_matched hrun⟩

/-- An end of a match is at the end of the text. -/
theorem after_of_atEnd {u : Thread} (h : atEnd.go u = .matched v) : u.place.after = [] := by
  by_cases hempty : u.place.after.isEmpty = true
  · exact List.isEmpty_iff.mp hempty
  · simp only [atEnd, hempty, Bool.false_eq_true, if_false] at h
    cases h

end Regex

namespace Fragment

/-- Whether fragments hold on to a slash at their front: behind optional parameters that take the
slashes before them along, there is a slash or nothing. -/
def keepsSlash : List Fragment → Bool
  | [] => true
  | .literal text :: _ => text == ['/']
  | .afterSlash _ :: rest => keepsSlash rest
  | _ => false

/-- What is known of the items that some fragments amount to: where they match to the end, a slash
is next or nothing is left, if the fragments keep a slash. -/
structure AmountsTo (fragments : List Fragment) (items : Nat → List Item) : Prop where
  yields : Reader.Yields (fragments.flatMap source) (parameterCount fragments) items
  keeps : keepsSlash fragments = true → ∀ base t v,
    (Regex.sequence ((items base).flatMap Item.contents)).run false t atEnd = .matched v →
      t.place.AtSlash

theorem yields_cons {f : Fragment} {rest : List Fragment} {first more : Nat → List Item}
    (hfirst : Reader.Yields f.source (parameterCount [f]) first)
    (hrest : Reader.Yields (rest.flatMap source) (parameterCount rest) more) :
    Reader.Yields ((f :: rest).flatMap source) (parameterCount (f :: rest)) fun base =>
      first base ++ more (base + parameterCount [f]) := by
  rw [List.flatMap_cons, parameterCount_cons]
  exact hfirst.append hrest

theorem AmountsTo.nil : AmountsTo [] fun _ => [] :=
  ⟨Reader.Yields.nil, fun _ _ _ _ hrun => Or.inl (after_of_atEnd hrun)⟩

theorem AmountsTo.cons_literal {rest : List Fragment} {items : Nat → List Item}
    (h : AmountsTo rest items) (text : List Char) :
    ∃ more, AmountsTo (.literal text :: rest) more := by
  have hyields : Reader.Yields (literal text).source (parameterCount [literal text]) _ :=
    Reader.Yields.quote text
  refine ⟨_, yields_cons hyields h.yields, fun hkeeps base t v hrun => ?_⟩
  obtain rfl : text = ['/'] := by simpa [keepsSlash] using hkeeps
  obtain ⟨u, hleads, _⟩ := exists_of_run_char hrun
  exact Or.inr ⟨u.place.after, hleads.after⟩

/-- Wherever the slash that is taken along is left out, the fragments behind decide. -/
theorem AmountsTo.cons_afterSlash {rest : List Fragment} {items : Nat → List Item}
    (h : AmountsTo rest items) {e : List Char} (he : ∃ s, Reader.Standalone e s) :
    ∃ more, AmountsTo (.afterSlash e :: rest) more := by
  have hyields := yields_source (.afterSlash e) fun e' he' => Option.some.inj he' ▸ he
  refine ⟨_, yields_cons hyields h.yields, fun hkeeps base t v hrun => ?_⟩
  rcases atSlash_or_run hrun with hslash | ⟨u, hplace, hrest⟩
  · exact hslash
  · rw [← hplace]
    exact h.keeps hkeeps _ u v hrest

theorem exists_amountsTo (fragments : List Fragment)
    (h : AllStandalone fragments) : ∃ items, AmountsTo fragments items := by
  induction fragments with
  | nil => exact ⟨_, .nil⟩
  | cons f rest ih =>
      obtain ⟨items, hitems⟩ := ih (forall_tail h)
      have hfirst := yields_source f fun e he => forall_head h he
      cases f with
      | literal text => exact hitems.cons_literal text
      | afterSlash e => exact hitems.cons_afterSlash (forall_head h rfl)
      | required e => exact ⟨_, yields_cons hfirst hitems.yields, nofun⟩
      | optional e => exact ⟨_, yields_cons hfirst hitems.yields, nofun⟩
      | beforeSlash e => exact ⟨_, yields_cons hfirst hitems.yields, nofun⟩

theorem source_literals (words : List (List Char)) :
    (words.map literal).flatMap source = Regex.quote words.flatten := by
  induction words with
  | nil => rfl
  | cons word rest ih =>
      rw [List.map_cons, List.flatMap_cons, ih, List.flatten_cons]
      exact List.flatMap_append.symm

/-- What matches literal text with fragments behind it starts with the text, and a slash follows if
the fragments keep one. -/
theorem AmountsTo.fullMatch? {fragments : List Fragment} {items : Nat → List Item}
    (h : AmountsTo fragments items) {words : List (List Char)} {e : Expression}
    (he : Expression.compile
      ("^" ++ .ofList ((words.map literal ++ fragments).flatMap source) ++ "$") = .ok e)
    {text : List Char} {marks : Marks} (hmatch : e.regex.fullMatch? text = some marks) :
    ∃ rest, text = words.flatten ++ rest ∧
      (keepsSlash fragments = true → rest = [] ∨ ∃ more, rest = '/' :: more) := by
  have hparse := (Expression.compile_eq_ok he).1
  have hyields := (Reader.Yields.quote words.flatten).append h.yields
  rw [RoutePattern.toList_anchored, String.toList_ofList, List.flatMap_append, source_literals,
    hyields.parse] at hparse
  have hregex := (Prod.mk.inj (Except.ok.inj hparse)).1
  rw [← hregex, Regex.fullMatch?_eq] at hmatch
  change (Regex.sequence (.anchor (.lineStart false) :: (_ ++ [.anchor (.lineEnd false)]))).ending?
    _ = _
    at hmatch
  rw [ending?_startAnchor _ _ _ rfl, ending?_endAnchor, List.flatMap_append, List.flatMap_map]
    at hmatch
  simp only [Item.contents, ← List.map_eq_flatMap] at hmatch
  unfold ending? at hmatch
  cases hrun : (Regex.sequence ((words.flatten.map fun c => .one (.literal c.toNat false .exact)) ++
      (items (0 + 0)).flatMap Item.contents)).run false (.start text) atEnd with
  | failed reached left =>
      rw [hrun] at hmatch
      cases hmatch
  | matched v =>
      obtain ⟨u, hleads, hrest⟩ := exists_of_run_literal words.flatten hrun
      exact ⟨u.place.after, hleads.after, fun hkeeps => h.keeps hkeeps _ u v hrest⟩

end Fragment

namespace Piece

/-- A text for a piece, where every parameter is given. -/
def sample : Piece → List Char
  | slash => ['/']
  | text t => t
  | required _ | optional _ => ['0']

/-- The samples of proper pieces do not end with a margin. -/
theorem IsProper.getLast?_sample {pieces : List Piece} (h : IsProper pieces) {c : Char}
    (hc : (pieces.flatMap sample).getLast? = some c) : c ≠ '/' ∧ c ≠ ' ' := by
  obtain ⟨before, last, rfl⟩ : ∃ before last, pieces = before ++ [last] :=
    ⟨_, _, (List.dropLast_concat_getLast h.nonempty).symm⟩
  have hlast : ∃ word, last.sample = word ∧ word ≠ [] ∧ '/' ∉ word ∧ ' ' ∉ word := by
    cases last with
    | slash => exact absurd List.getLast?_concat h.last
    | text t => exact ⟨t, rfl, h.word t (by simp)⟩
    | required e => exact ⟨['0'], rfl, by decide⟩
    | optional e => exact ⟨['0'], rfl, by decide⟩
  obtain ⟨word, hword, hne, hslash, hblank⟩ := hlast
  have hmem : c ∈ word := by
    rw [List.flatMap_append, List.flatMap_singleton, hword, List.getLast?_append,
      List.getLast?_eq_some_getLast hne, Option.some_or] at hc
    exact Option.some.inj hc ▸ List.getLast_mem hne
  exact ⟨fun hcslash => hslash (hcslash ▸ hmem), fun hcblank => hblank (hcblank ▸ hmem)⟩

end Piece

namespace Fragment

/-- A text that a fragment takes, where its parameter is given. -/
def sample : Fragment → List Char
  | literal text => text
  | required _ | optional _ => ['0']
  | afterSlash _ => ['/', '0']
  | beforeSlash _ => ['0', '/']

theorem sample_layout (pieces : List Piece) :
    (Piece.layout pieces).flatMap sample = pieces.flatMap Piece.sample := by
  fun_induction Piece.layout pieces with
  | case1 e rest ih => simp [sample, Piece.sample, ih]
  | case2 e rest ih => simp [sample, Piece.sample, ih]
  | case3 e rest _ ih => simp [sample, Piece.sample, ih]
  | case4 e rest ih => simp [sample, Piece.sample, ih]
  | case5 rest _ ih => simp [sample, Piece.sample, ih]
  | case6 t rest ih => simp [sample, Piece.sample, ih]
  | case7 => rfl

/-- A digit is a value for every expression that is not written out. -/
theorem admits_digit {e : List Char} (he : IsStock e) : Admits e ['0'] := by
  have hall : ∀ e ∈ Parameter.stockTexts.map String.toList, (valueTest e).accepts '0' = true := by
    decide +kernel
  exact ⟨List.cons_ne_nil _ _, fun c hc => List.mem_singleton.mp hc ▸ hall e he⟩

theorem takes_sample {f : Fragment} (h : ∀ e, f.expression? = some e → IsStock e) :
    ∃ values, f.Takes values f.sample := by
  cases f with
  | literal text => exact ⟨[], rfl, rfl⟩
  | required e => exact ⟨_, ['0'], admits_digit (h e rfl), rfl, rfl⟩
  | optional e => exact ⟨_, Or.inr ⟨['0'], admits_digit (h e rfl), rfl, rfl⟩⟩
  | afterSlash e => exact ⟨_, Or.inr ⟨['0'], admits_digit (h e rfl), rfl, rfl⟩⟩
  | beforeSlash e => exact ⟨_, Or.inr ⟨['0'], admits_digit (h e rfl), rfl, rfl⟩⟩

theorem spells_samples {fragments : List Fragment} (h : AllStock fragments) :
    ∃ values, Spells fragments values (fragments.flatMap sample) := by
  induction fragments with
  | nil => exact ⟨[], rfl, rfl⟩
  | cons f rest ih =>
      obtain ⟨first, hfirst⟩ := takes_sample fun e he => h.head he
      obtain ⟨more, hmore⟩ := ih h.tail
      exact ⟨_, first, f.sample, more, _, hfirst, hmore, rfl, rfl⟩

/-- Fragments that do not keep a slash can leave out those that take one along, and then go on
without one. -/
theorem exists_leak {fragments : List Fragment} (hkeeps : keepsSlash fragments = false)
    (hstock : AllStock fragments) (hclean : ∀ f ∈ fragments, f.IsClean) :
    ∃ before after values c more, fragments = before ++ after ∧ after.flatMap sample = c :: more ∧
      c ≠ '/' ∧ Spells fragments values (c :: more) := by
  induction fragments with
  | nil => cases hkeeps
  | cons f rest ih =>
      obtain ⟨values, hspells⟩ := spells_samples hstock
      rw [List.flatMap_cons] at hspells
      cases f with
      | afterSlash e =>
          obtain ⟨before, after, values, c, more, hrest, htext, hc, hspells⟩ :=
            ih hkeeps hstock.tail fun g hg => hclean g (List.mem_cons_of_mem _ hg)
          exact ⟨_ :: before, after, none :: values, c, more, by rw [hrest]; rfl, htext, hc,
            [none], [], values, c :: more, Or.inl ⟨rfl, rfl⟩, hspells, rfl, rfl⟩
      | literal text =>
          have hword : text ≠ [] ∧ '/' ∉ text :=
            (hclean _ List.mem_cons_self).resolve_left (by simpa [keepsSlash] using hkeeps)
          obtain ⟨c, tail, rfl⟩ := List.exists_cons_of_ne_nil hword.1
          exact ⟨[], _, values, c, _, rfl, rfl,
            fun hc => hword.2 (hc ▸ List.mem_cons_self), hspells⟩
      | required e => exact ⟨[], _, values, '0', _, rfl, rfl, by decide, hspells⟩
      | optional e => exact ⟨[], _, values, '0', _, rfl, rfl, by decide, hspells⟩
      | beforeSlash e => exact ⟨[], _, values, '0', _, rfl, rfl, by decide, hspells⟩

end Fragment

namespace RoutePattern

variable {p : RoutePattern} {space path text : String} {t : Template}

/-- The fragments of a pattern behind its namespace. -/
def behind (p : RoutePattern) (space : String) : List Fragment :=
  (Piece.layout p.pieces).drop (Path.pieces space.toList).length

/-- Whether the slash between the namespace and the rest of a path is never given up: behind
optional parameters that take the slashes before them along, there is a slash or nothing. -/
def KeepsSlash (p : RoutePattern) (space : String) : Prop :=
  Fragment.keepsSlash (p.behind space) = true

instance (p : RoutePattern) (space : String) : Decidable (p.KeepsSlash space) :=
  inferInstanceAs (Decidable (_ = true))

theorem Assembled.layout_behind (h : p.Assembled space path t) (hspace : space ≠ "") :
    Piece.layout p.pieces = (Path.pieces space.toList).map .literal ++ p.behind space := by
  obtain ⟨rest, _, hlayout⟩ := h.layout_eq hspace
  unfold behind
  rw [hlayout, List.drop_left' (List.length_map _)]

/-- What a pattern matches starts with its namespace, whatever the expressions of its parameters
are, as long as they are self-contained. Behind the namespace there is a slash or nothing, if the
pattern keeps the slash. -/
theorem Assembled.starts_with (h : p.Assembled space path t) (hp : p.IsCompiled)
    (hself : ∀ q ∈ p.parameters, q.IsSelfContained) (hspace : space ≠ "")
    (hmatch : p.expression.fullMatch? text ≠ .ok none) :
    ∃ rest, text.toList = space.toList ++ rest ∧
      (p.KeepsSlash space → rest = [] ∨ ∃ more, rest = '/' :: more) := by
  have hlayout := h.layout_behind hspace
  have hstandalone := standalone_of_selfContained hp hself
  rw [hlayout, Fragment.AllStandalone, List.filterMap_append] at hstandalone
  obtain ⟨items, hitems⟩ := Fragment.exists_amountsTo (p.behind space) fun e he =>
    hstandalone e (List.mem_append_right _ he)
  have hexpression := h.expression
  rw [h.regex, hlayout] at hexpression
  cases hmarks : p.expression.regex.fullMatch? text.toList with
  | none =>
      refine absurd ?_ hmatch
      unfold Expression.fullMatch?
      rw [hmarks]
  | some marks =>
      have hmatched := hitems.fullMatch? hexpression hmarks
      rwa [Path.flatten_pieces] at hmatched

/-- A pattern that gives up the slash matches a path outside the namespace, if no expression is
written out. -/
theorem Assembled.exists_outside (h : p.Assembled space path t) (hproper : Piece.IsProper p.pieces)
    (hparse : Path.parseNamespace text = .ok space) (hspace : space ≠ "")
    (hstock : ∀ q ∈ p.parameters, ¬ q.IsCustom) (hkeeps : ¬ p.KeepsSlash space) :
    ∃ (request : String) (m : Matched) (c : Char) (more : List Char), Path.trim request = request ∧
      p.expression.fullMatch? request = .ok (some m) ∧ request.toList = space.toList ++ c :: more ∧
      c ≠ '/' := by
  have hall := allStock_of_parameters hstock
  have hcompiled := h.compiled hall
  have hlayout := h.layout_behind hspace
  have hclean : ∀ f ∈ p.behind space, f.IsClean := fun f hf =>
    Piece.isClean_of_mem_layout (fun _ hmem => h.word hmem) (List.mem_of_mem_drop hf)
  have hbehind : Fragment.AllStock (p.behind space) := fun e he =>
    hall e (hlayout ▸ List.filterMap_append ▸ List.mem_append_right _ he)
  obtain ⟨before, after, values, c, more, hbefore, hafter, hc, hspells⟩ :=
    Fragment.exists_leak (Bool.eq_false_iff.mpr hkeeps) hbehind hclean
  have hrequest : Fragment.Spells (Piece.layout p.pieces) values (space.toList ++ c :: more) := by
    rw [hlayout]
    exact (Fragment.spells_literals _).mpr ⟨_, hspells, by rw [Path.flatten_pieces]⟩
  have hlast : ∀ d, (space.toList ++ c :: more).getLast? = some d → Path.isMargin d = false := by
    intro d hd
    have hsample : (p.pieces.flatMap Piece.sample).getLast? = some d := by
      rw [← Fragment.sample_layout, hlayout, hbefore, List.flatMap_append,
        List.flatMap_append, hafter]
      simpa using hd
    obtain ⟨hslash, hblank⟩ := hproper.getLast?_sample hsample
    simp [Path.isMargin, hslash, hblank]
  have hfirst : ∀ d, (space.toList ++ c :: more).head? = some d → Path.isMargin d = false := by
    intro d hd
    obtain ⟨hblank, hslash, _⟩ := Path.parseNamespace_eq_ok hparse
    have hne : space.toList ≠ [] := fun hnil => hspace (String.toList_eq_nil_iff.mp hnil)
    rw [List.head?_append, List.head?_eq_some_head hne, Option.some_or, ← List.head?_eq_some_head]
      at hd
    have hdslash : d ≠ '/' := fun heq => hslash (heq ▸ hd)
    have hdblank : d ≠ ' ' := fun heq => hblank (heq ▸ List.mem_of_head? hd)
    simp [Path.isMargin, hdslash, hdblank]
  rcases hcompiled.fullMatch?_cases (.ofList (space.toList ++ c :: more)) with
    ⟨m, _, hmatch, _⟩ | ⟨_, hno⟩
  · refine ⟨_, m, c, more, Path.trim_eq_self ?_ ?_, hmatch, String.toList_ofList, hc⟩
    · rwa [String.toList_ofList]
    · rwa [String.toList_ofList]
  · refine absurd ?_ (hno values)
    rwa [String.toList_ofList]

end RoutePattern

end NamedRoutes
