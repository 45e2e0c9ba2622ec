import NamedRoutes.Proofs.Pattern.OwnMatch
import NamedRoutes.Proofs.Regex.Ways
import NamedRoutes.Proofs.Regex.Yields

/-!
The texts that fragments match. Each expression of a parameter that is one by itself stands in its
group as it is by itself, so a match goes on from fragment to fragment, and records where each
expression spans the text. A fragment without a written out expression spells its literal text, or a
value of its parameter with the slash it takes along, or nothing if the parameter is optional. A
text made of such fragments matches exactly the texts that they spell in turn, and its groups are
the values.
-/

namespace NamedRoutes

open Regex

/-- What each character of a value has to pass. -/
def Shortcut.test : Shortcut → CharTest
  | digits => .set ⟨false, [.range 0x30 0x39], .exact, false⟩
  | alphanumerics =>
      .set ⟨false, [.range 0x61 0x7A, .range 0x41 0x5A, .range 0x30 0x39], .exact, false⟩
  | slug =>
      .set ⟨false,
        [.range 0x61 0x7A, .range 0x41 0x5A, .range 0x30 0x39, .single 0x5F, .single 0x2D,
          .single 0x2E], .exact, false⟩

/-- What each character of a value has to pass if nothing else is said: it is no slash. -/
def Placeholder.defaultTest : CharTest := .literal 0x2F true .exact

theorem CharTest.accepts_literal {c d : Char} :
    (CharTest.literal c.toNat false .exact).accepts d = true ↔ d = c := by
  have htest : (CharTest.literal c.toNat false .exact).accepts d = (d.toNat == c.toNat) := by
    simp [CharTest.accepts, Folding.isCased]
  rw [htest, beq_iff_eq, Char.toNat_inj]

namespace Fragment

/-- What each character of a value has to pass, for an expression that is not written out. -/
def valueTest (e : List Char) : CharTest :=
  match Shortcut.all.find? fun shortcut => shortcut.expression.toList == e with
  | some shortcut => shortcut.test
  | none => Placeholder.defaultTest

/-- Whether an expression is not written out. -/
def IsStock (e : List Char) : Prop := e ∈ Parameter.stockTexts.map String.toList

/-- Whether a text is a value for an expression that is not written out. -/
def Admits (e value : List Char) : Prop := value ≠ [] ∧ ∀ c ∈ value, (valueTest e).accepts c = true

theorem stock_groups : ∀ text ∈ Parameter.stockTexts,
    (Expression.compile ("(" ++ text ++ ")")).toOption.map (·.groups) = some 1 := by
  decide +kernel

theorem hasOneGroup_of_isStock {e : List Char} (he : IsStock e) : Reader.HasOneGroup e := by
  obtain ⟨text, htext, rfl⟩ := List.mem_map.mp he
  have hgroups := stock_groups text htext
  cases hcompile : Expression.compile ("(" ++ text ++ ")") with
  | error cause =>
      rw [hcompile] at hgroups
      cases hgroups
  | ok expression =>
      rw [hcompile] at hgroups
      have hone : expression.groups = 1 := Option.some.inj hgroups
      have hparse := (Expression.compile_eq_ok hcompile).1
      rw [hone] at hparse
      exact ⟨expression.regex, by simpa using hparse⟩

theorem standalone_of_isStock {e : List Char} (he : IsStock e) : ∃ s, Reader.Standalone e s := by
  have hone := hasOneGroup_of_isStock he
  obtain ⟨text, htext, rfl⟩ := List.mem_map.mp he
  have hok := Parameter.stock_compile text htext
  cases hcompile : Expression.compile text with
  | error cause =>
      rw [hcompile] at hok
      cases hok
  | ok expression => exact Reader.standalone_of_parse hone (Expression.compile_eq_ok hcompile).1

/-- The expression of a parameter as it is by itself. -/
def body (e : List Char) : Regex :=
  match parse e with
  | .ok (regex, _) => regex
  | .error _ => .never

theorem parse_of_standalone {e : List Char} (he : ∃ s, Reader.Standalone e s) :
    parse e = .ok (body e, 0) := by
  obtain ⟨s, hs⟩ := he
  obtain ⟨regex, hparse⟩ := hs.parse_eq
  rw [hparse, body, hparse]

theorem numbersWithin_body {e : List Char} (he : ∃ s, Reader.Standalone e s) :
    (body e).numbersWithin 0 := numbersWithin_of_parse (parse_of_standalone he)

theorem body_of_isStock {e : List Char} (he : IsStock e) :
    body e = .sequence [.repeated .greedy 1 none (.one (valueTest e))] := by
  simp only [IsStock, Parameter.stockTexts, Shortcut.all, List.map_cons, List.map_nil,
    List.mem_cons, List.not_mem_nil, or_false] at he
  rcases he with rfl | rfl | rfl | rfl <;> decide +kernel

/-- Such an expression matches its values, wherever they stand. -/
theorem spans_body {e : List Char} (he : IsStock e) {p q : Place} :
    (body e).Spans p q ↔ ∃ value, Admits e value ∧ p.Leads value q := by
  have hsteps : (body e).Spans p q ↔
      ∃ count, Allows 1 none count ∧ Place.Steps (valueTest e).Step count p q := by
    have hspans : (repeated .greedy 1 none (.one (valueTest e))).Spans = fun p q =>
        ∃ count, Allows 1 none count ∧ Place.Steps (valueTest e).Step count p q :=
      spans_repeated .greedy (by decide)
    rw [body_of_isStock he]
    constructor
    · rintro ⟨_, hsteps, rfl⟩
      rwa [hspans] at hsteps
    · intro hsteps
      refine ⟨q, ?_, rfl⟩
      rwa [hspans]
  rw [hsteps]
  simp only [CharTest.steps_iff]
  constructor
  · rintro ⟨_, hcount, value, rfl, hall, hleads⟩
    exact ⟨value, ⟨List.length_pos_iff.mp hcount.enough, hall⟩, hleads⟩
  · rintro ⟨value, ⟨hne, hall⟩, hleads⟩
    exact ⟨_, ⟨List.length_pos_iff.mpr hne, nofun⟩, value, rfl, hall, hleads⟩

def valueRegex (base : Nat) (e : List Char) : Regex := .capture (base + 1) (body e)

theorem yieldsItem_group {e : List Char} (he : ∃ s, Reader.Standalone e s) :
    Reader.YieldsItem (group e) 1 fun base => .single (valueRegex base e) := by
  have hparse := parse_of_standalone he
  obtain ⟨s, hs⟩ := he
  exact hs.yieldsItem hparse

def slashRegex : Regex := .one (.literal '/'.toNat false .exact)

def regexes (base : Nat) : Fragment → List Regex
  | literal text => text.map fun c => .one (.literal c.toNat false .exact)
  | required e => [valueRegex base e]
  | optional e => [.repeated .greedy 0 (some 1) (valueRegex base e)]
  | afterSlash e => [.repeated .greedy 0 (some 1) (.sequence [slashRegex, valueRegex base e])]
  | beforeSlash e => [.repeated .greedy 0 (some 1) (.sequence [valueRegex base e, slashRegex])]

def allRegexes (base : Nat) : List Fragment → List Regex
  | [] => []
  | f :: rest => f.regexes base ++ allRegexes (base + parameterCount [f]) rest

def AllStandalone (fragments : List Fragment) : Prop :=
  ∀ e ∈ fragments.filterMap expression?, ∃ s, Reader.Standalone e s

section Members

variable {P : List Char → Prop} {f : Fragment} {rest : List Fragment}

theorem forall_head (h : ∀ e ∈ (f :: rest).filterMap expression?, P e) {e : List Char}
    (he : f.expression? = some e) : P e :=
  h e (List.mem_filterMap.mpr ⟨f, List.mem_cons_self .., he⟩)

theorem forall_tail (h : ∀ e ∈ (f :: rest).filterMap expression?, P e) :
    ∀ e ∈ rest.filterMap expression?, P e := fun e he => h e (List.mem_filterMap.mpr
  ((List.mem_filterMap.mp he).imp fun _ hg => ⟨List.mem_cons_of_mem f hg.1, hg.2⟩))

end Members

def AllStock (fragments : List Fragment) : Prop := ∀ e ∈ fragments.filterMap expression?, IsStock e

theorem AllStock.tail {f : Fragment} {rest : List Fragment} (h : AllStock (f :: rest)) :
    AllStock rest := forall_tail h

theorem AllStock.head {f : Fragment} {rest : List Fragment} (h : AllStock (f :: rest))
    {e : List Char} (he : f.expression? = some e) : IsStock e := forall_head h he

theorem AllStock.standalone {fragments : List Fragment} (h : AllStock fragments) :
    AllStandalone fragments := fun e he => standalone_of_isStock (h e he)

theorem AllStock.isLocal {fragments : List Fragment} (h : AllStock fragments) :
    ∀ e ∈ fragments.filterMap expression?, (body e).isLocal = true := fun e he => by
  rw [body_of_isStock (h e he)]
  rfl

theorem yields_source (f : Fragment)
    (h : ∀ e, f.expression? = some e → ∃ s, Reader.Standalone e s) :
    Reader.Yields f.source (parameterCount [f]) fun base => (f.regexes base).map Item.single := by
  cases f with
  | literal text =>
      simp only [regexes, List.map_map]
      exact Reader.Yields.quote text
  | required e => exact (yieldsItem_group (h e rfl)).yields
  | optional e => exact (yieldsItem_group (h e rfl)).optional
  | afterSlash e =>
      rw [source_afterSlash]
      exact ((Reader.Yields.quote ['/']).append
        (yieldsItem_group (h e rfl)).yields).wrapped.optional
  | beforeSlash e =>
      rw [source_beforeSlash]
      exact ((yieldsItem_group (h e rfl)).yields.append
        (Reader.Yields.quote ['/'])).wrapped.optional

theorem yields_all (fragments : List Fragment) (h : AllStandalone fragments) :
    Reader.Yields (fragments.flatMap source) (parameterCount fragments) fun base =>
      (allRegexes base fragments).map Item.single := by
  induction fragments with
  | nil => exact Reader.Yields.nil
  | cons f rest ih =>
      rw [List.flatMap_cons, parameterCount_cons]
      simp only [allRegexes, List.map_append]
      exact (yields_source f fun e he => forall_head h he).append (ih (forall_tail h))

def way (base : Nat) : Fragment → Way
  | literal text => .moving fun p q => p.Leads text q
  | required e => .recording (base + 1) (body e).Spans
  | optional e => (Way.recording (base + 1) (body e).Spans).orNot
  | afterSlash e =>
      ((Way.moving fun p q => p.Leads ['/'] q).andThen (.recording (base + 1) (body e).Spans)).orNot
  | beforeSlash e =>
      ((Way.recording (base + 1) (body e).Spans).andThen (.moving fun p q => p.Leads ['/'] q)).orNot

/-- What some fragments in turn do to a match. -/
def wayThrough (base : Nat) : List Fragment → Way
  | [] => fun s u => u = s
  | f :: rest => (f.way base).andThen (wayThrough (base + parameterCount [f]) rest)

theorem follows_value {e : List Char} (he : ∃ s, Reader.Standalone e s) (base : Nat)
    (looping : Bool) :
    Round.Follows base 1 (.recording (base + 1) (body e).Spans) ((body e).isLocal = true)
      ((valueRegex base e).run looping) :=
  (((body e).tracks (numbersWithin_body he) looping).follows (base + 1)).capture

def literalRegex (text : List Char) : Regex :=
  .sequence (text.map fun c => .one (.literal c.toNat false .exact))

theorem spans_literalRegex (text : List Char) {p q : Place} :
    (literalRegex text).Spans p q ↔ p.Leads text q := by
  induction text generalizing p with
  | nil => exact Place.leads_nil.symm
  | cons c rest ih =>
      have hsteps : (literalRegex (c :: rest)).Spans p q ↔ ∃ r, p.next?
          (CharTest.literal c.toNat false .exact).accepts = some r ∧
          (literalRegex rest).Spans r q := Iff.rfl
      simp only [hsteps, ih, Place.next?_eq_some_iff, CharTest.accepts_literal, exists_eq_left]
      constructor
      · rintro ⟨r, hfirst, hrest⟩
        exact hfirst.trans hrest
      · exact Place.Leads.of_cons

theorem literalRegex_isLocal (text : List Char) :
    (literalRegex text).isLocal = true ∧ (literalRegex text).numbersWithin 0 := by
  induction text with
  | nil => exact ⟨rfl, trivial⟩
  | cons c rest ih => exact ⟨ih.1, trivial, ih.2⟩

theorem follows_literal (base : Nat) (text : List Char) (exact : Prop) (looping : Bool) :
    Round.Follows base 0 (.moving fun p q => p.Leads text q)
      exact ((literalRegex text).run looping) := by
  have htracks := (literalRegex text).tracks (literalRegex_isLocal text).2 looping
  have hspans : (literalRegex text).Spans = fun p q => p.Leads text q :=
    funext fun p => funext fun q => propext (spans_literalRegex text)
  rw [hspans] at htracks
  exact (htracks.mono fun _ => (literalRegex_isLocal text).1).follows base

theorem follows_way (base : Nat) (f : Fragment)
    (h : ∀ e, f.expression? = some e → ∃ s, Reader.Standalone e s) (looping : Bool) :
    Round.Follows base (parameterCount [f]) (f.way base)
      (∀ e, f.expression? = some e → (body e).isLocal = true)
      ((Regex.sequence (f.regexes base)).run looping) := by
  cases f with
  | literal text => exact follows_literal base text _ looping
  | required e => exact (follows_value (h e rfl) base looping).mono fun hlocal => hlocal e rfl
  | optional e =>
      exact ((follows_value (h e rfl) base true).optional rfl looping).mono
        fun hlocal => hlocal e rfl
  | afterSlash e =>
      have hbody : Round.Follows base 1 _ (True ∧ (body e).isLocal = true)
          ((Regex.sequence [slashRegex, valueRegex base e]).run true) :=
        (follows_literal base ['/'] True true).andThen (r := .sequence [valueRegex base e])
          (follows_value (h e rfl) base true)
      exact (hbody.optional rfl looping).mono fun hlocal => ⟨trivial, hlocal e rfl⟩
  | beforeSlash e =>
      have hbody : Round.Follows base 1 _ ((body e).isLocal = true ∧ True)
          ((Regex.sequence [valueRegex base e, slashRegex]).run true) :=
        (follows_value (h e rfl) base true).andThen (r := .sequence [slashRegex])
          (follows_literal (base + 1) ['/'] True true)
      exact (hbody.optional rfl looping).mono fun hlocal => ⟨hlocal e rfl, trivial⟩

theorem follows_wayThrough (base : Nat) (fragments : List Fragment) (h : AllStandalone fragments)
    (looping : Bool) :
    Round.Follows base (parameterCount fragments) (wayThrough base fragments)
      (∀ e ∈ fragments.filterMap expression?, (body e).isLocal = true)
      ((Regex.sequence (allRegexes base fragments)).run looping) := by
  induction fragments generalizing base with
  | nil => exact Round.Follows.pass base
  | cons f rest ih =>
      rw [parameterCount_cons]
      have hrun : (Regex.sequence (allRegexes base (f :: rest))).run looping =
          fun t k => (Regex.sequence (f.regexes base)).run looping t
            ⟨(Regex.sequence (allRegexes (base + parameterCount [f]) rest)).lead?.getD k.lead,
              fun u => (Regex.sequence (allRegexes (base + parameterCount [f]) rest)).run
              looping u k⟩ :=
        funext fun t => funext fun k => run_sequence_append ..
      rw [hrun]
      exact ((follows_way base f (fun e he => forall_head h he) looping).andThen
        (ih _ (forall_tail h))).mono fun hlocal =>
          ⟨fun e he => forall_head hlocal he, forall_tail hlocal⟩

/-- Whether a fragment spells a text, given the value of its parameter, if it stands for one. -/
def Takes : Fragment → List (Option (List Char)) → List Char → Prop
  | literal text, values, spelled => values = [] ∧ spelled = text
  | required e, values, spelled => ∃ v, Admits e v ∧ values = [some v] ∧ spelled = v
  | optional e, values, spelled =>
      (values = [none] ∧ spelled = []) ∨ ∃ v, Admits e v ∧ values = [some v] ∧ spelled = v
  | afterSlash e, values, spelled =>
      (values = [none] ∧ spelled = []) ∨ ∃ v, Admits e v ∧ values = [some v] ∧ spelled = '/' :: v
  | beforeSlash e, values, spelled =>
      (values = [none] ∧ spelled = []) ∨ ∃ v, Admits e v ∧ values = [some v] ∧ spelled = v ++ ['/']

/-- Whether some fragments spell a text in turn, given the values of all parameters. -/
def Spells : List Fragment → List (Option (List Char)) → List Char → Prop
  | [], values, spelled => values = [] ∧ spelled = []
  | f :: rest, values, spelled => ∃ first text more tail, f.Takes first text ∧
      Spells rest more tail ∧ values = first ++ more ∧ spelled = text ++ tail

end Fragment

/-- Whether the edges of a group are those of a value in a text, or are missing if there is none. -/
def Marks.Delimits (whole : List Char) : Option (List Char) → Option (Nat × Nat) → Prop
  | none, edges => edges = none
  | some value, edges => ∃ first last, edges = some (first, last) ∧ first ≤ last ∧
      (whole.drop first).take (last - first) = value

theorem Marks.Delimits.text? {m : Marks} {whole : List Char} {group : Nat}
    {value : Option (List Char)} (h : Delimits whole value (m.edges? group)) :
    m.text? group whole = value ∧ m.isReversed group = false := by
  cases value with
  | none =>
      have hedges : m.edges? group = none := h
      simp [Marks.text?, Marks.span?, Marks.isReversed, hedges]
  | some value =>
      obtain ⟨first, last, hedges, hle, hvalue⟩ := h
      simp [Marks.text?, Marks.span?, Marks.isReversed, hedges, hle, hvalue]

theorem Place.Leads.delimits {p q : Place} {text : List Char} (h : p.Leads text q) :
    Marks.Delimits p.text (some text) (some (p.index, q.index)) :=
  ⟨p.index, q.index, rfl, h.span.1, h.span.2⟩

/-- What is known of a match once fragments have recorded their groups: the groups before theirs are
as they were, and their own are as some items say. -/
structure Stand.Recorded {α : Type} (holds : α → Option (Nat × Nat) → Prop) (s u : Stand)
    (base : Nat) (items : List α) : Prop where
  before : ∀ group, 0 < group → group ≤ base → u.marks.edges? group = s.marks.edges? group
  items : ∀ i item, items[i]? = some item → holds item (u.marks.edges? (base + i + 1))

namespace Stand.Recorded

variable {α : Type} {holds : α → Option (Nat × Nat) → Prop} {item : α} {items more : List α}
  {s u v : Stand} {base : Nat}

theorem none (h : u.marks = s.marks) : s.Recorded holds u base [] :=
  ⟨fun group _ _ => by rw [h], nofun⟩

theorem single
    (hbefore : ∀ group, 0 < group → group ≤ base → u.marks.edges? group = s.marks.edges? group)
    (h : holds item (u.marks.edges? (base + 1))) : s.Recorded holds u base [item] := by
  refine ⟨hbefore, fun i other hother => ?_⟩
  cases i with
  | zero => exact Option.some.inj hother ▸ h
  | succ i => cases hother

/-- A parameter that is left out has no group. -/
theorem omitted (hs : s.Within base) (h : holds item .none) : s.Recorded holds s base [item] := by
  refine single (fun _ _ _ => rfl) ?_
  have hlast : s.marks.edges[Marks.startEdge (base + 1)]? = .none := List.getElem?_eq_none hs
  have hedges : s.marks.edges? (base + 1) = .none := by simp [Marks.edges?, hlast]
  rwa [hedges]

theorem given (hs : s.Within base)
    (hmarks : u.marks = s.marks.recorded (base + 1) s.place.index u.place.index)
    (h : holds item (some (s.place.index, u.place.index))) : s.Recorded holds u base [item] := by
  refine single (fun group hpositive hle => ?_) ?_
  · rw [hmarks, Marks.edges?_recorded hs _ _ _ hpositive hle]
  · rwa [hmarks, Marks.edges?_recorded_self hs _ _]

/-- What some fragments have recorded stays when others follow. -/
theorem andThen (h : s.Recorded holds v base items)
    (h' : v.Recorded holds u (base + items.length) more) :
    s.Recorded holds u base (items ++ more) := by
  refine ⟨fun group hpositive hle => ?_, fun i item hitem => ?_⟩
  · rw [h'.before group hpositive (Nat.le_add_right_of_le hle), h.before group hpositive hle]
  · by_cases hi : i < items.length
    · rw [List.getElem?_append_left hi] at hitem
      rw [h'.before _ (by omega) (by omega)]
      exact h.items i item hitem
    · rw [List.getElem?_append_right (by omega)] at hitem
      have hholds := h'.items _ item hitem
      have hgroup : base + items.length + (i - items.length) + 1 = base + i + 1 := by omega
      rwa [hgroup] at hholds

/-- Moving on without recording anything. -/
theorem moved (h : s.Recorded holds v base items) (hmarks : u.marks = v.marks) :
    s.Recorded holds u base items :=
  ⟨fun group hpositive hle => by rw [hmarks, h.before group hpositive hle],
    fun i item hitem => by rw [hmarks]; exact h.items i item hitem⟩

end Stand.Recorded

namespace Fragment

variable {base : Nat} {s u : Stand}

theorem takes_of_way (f : Fragment) (hf : ∀ e, f.expression? = some e → IsStock e)
    (hs : s.Within base) (h : f.way base s u) :
    ∃ values text, f.Takes values text ∧ s.place.Leads text u.place ∧
      values.length = parameterCount [f] ∧
      s.Recorded (Marks.Delimits s.place.text) u base values := by
  have hvalue : ∀ {e : List Char} {s u : Stand}, IsStock e →
      Way.recording (base + 1) (body e).Spans s u → ∃ v, Admits e v ∧ s.place.Leads v u.place ∧
        u.marks = s.marks.recorded (base + 1) s.place.index u.place.index := by
    rintro e s u he ⟨hspan, hmarks⟩
    obtain ⟨v, hv, hleads⟩ := (spans_body he).mp hspan
    exact ⟨v, hv, hleads, hmarks⟩
  cases f with
  | literal text =>
      obtain ⟨hleads, hmarks⟩ := h
      exact ⟨[], _, ⟨rfl, rfl⟩, hleads, rfl, .none hmarks⟩
  | required e =>
      obtain ⟨v, hv, hleads, hmarks⟩ := hvalue (hf e rfl) h
      exact ⟨[some v], v, ⟨v, hv, rfl, rfl⟩, hleads, rfl, .given hs hmarks hleads.delimits⟩
  | optional e =>
      rcases h with rfl | h
      · exact ⟨[none], [], Or.inl ⟨rfl, rfl⟩, .refl _, rfl, .omitted hs rfl⟩
      · obtain ⟨v, hv, hleads, hmarks⟩ := hvalue (hf e rfl) h
        exact ⟨[some v], v, Or.inr ⟨v, hv, rfl, rfl⟩, hleads, rfl, .given hs hmarks hleads.delimits⟩
  | afterSlash e =>
      rcases h with rfl | ⟨w, ⟨hslash, hw⟩, h⟩
      · exact ⟨[none], [], Or.inl ⟨rfl, rfl⟩, .refl _, rfl, .omitted hs rfl⟩
      · obtain ⟨v, hv, hleads, hmarks⟩ := hvalue (hf e rfl) h
        have hwithin : w.Within base := by
          unfold Stand.Within
          rwa [hw]
        have hnone : s.Recorded (Marks.Delimits s.place.text) w base [] := .none hw
        have hdelimits := hleads.delimits
        rw [hslash.text_eq] at hdelimits
        have hrecorded := hnone.andThen (.given hwithin hmarks hdelimits)
        exact ⟨[some v], '/' :: v, Or.inr ⟨v, hv, rfl, rfl⟩, hslash.trans hleads, rfl, hrecorded⟩
  | beforeSlash e =>
      rcases h with rfl | ⟨w, h, ⟨hslash, hmarks⟩⟩
      · exact ⟨[none], [], Or.inl ⟨rfl, rfl⟩, .refl _, rfl, .omitted hs rfl⟩
      · obtain ⟨v, hv, hleads, hw⟩ := hvalue (hf e rfl) h
        exact ⟨[some v], v ++ ['/'], Or.inr ⟨v, hv, rfl, rfl⟩, hleads.trans hslash, rfl,
          (Stand.Recorded.given hs hw hleads.delimits).moved hmarks⟩

theorem spells_of_wayThrough (fragments : List Fragment) (hstock : AllStock fragments)
    (hs : s.Within base) (h : wayThrough base fragments s u) :
    ∃ values text, Spells fragments values text ∧ s.place.Leads text u.place ∧
      values.length = parameterCount fragments ∧
        s.Recorded (Marks.Delimits s.place.text) u base values := by
  induction fragments generalizing base s with
  | nil =>
      obtain rfl : u = s := h
      exact ⟨[], [], ⟨rfl, rfl⟩, .refl _, rfl, .none rfl⟩
  | cons f rest ih =>
      obtain ⟨w, hw, hu⟩ := h
      obtain ⟨first, text, htakes, hleads, hlength, hrecorded⟩ :=
        f.takes_of_way (fun e he => hstock.head he) hs hw
      have hwithin : w.Within (base + parameterCount [f]) :=
        ((follows_way base f (fun e he => standalone_of_isStock (hstock.head he)) false).grows s w
          hs hw).2
      obtain ⟨more, tail, hspells, hleads', hlength', hrecorded'⟩ := ih hstock.tail hwithin hu
      rw [← hlength, hleads.text_eq] at hrecorded'
      refine ⟨first ++ more, text ++ tail, ⟨first, text, more, tail, htakes, hspells, rfl, rfl⟩,
        hleads.trans hleads', ?_, hrecorded.andThen hrecorded'⟩
      rw [parameterCount_cons, List.length_append, hlength, hlength']

theorem exists_way {f : Fragment} (hf : ∀ e, f.expression? = some e → IsStock e)
    {values : List (Option (List Char))} {text : List Char}
    (h : f.Takes values text) {p : Place} (hleads : s.place.Leads text p) (base : Nat) :
    ∃ m, f.way base s ⟨p, m⟩ := by
  have hgiven : ∀ {e v : List Char} {s : Stand} {p : Place}, IsStock e → Admits e v →
      s.place.Leads v p → Way.recording (base + 1) (body e).Spans s
        ⟨p, s.marks.recorded (base + 1) s.place.index p.index⟩ :=
    fun he hv hleads => ⟨(spans_body he).mpr ⟨_, hv, hleads⟩, rfl⟩
  have homitted : text = [] → s = ⟨p, s.marks⟩ := by
    rintro rfl
    exact congrArg (Stand.mk · s.marks) (Place.leads_nil.mp hleads).symm
  cases f with
  | literal text =>
      obtain ⟨_, rfl⟩ := h
      exact ⟨s.marks, hleads, rfl⟩
  | required e =>
      obtain ⟨v, hv, _, rfl⟩ := h
      exact ⟨_, hgiven (hf e rfl) hv hleads⟩
  | optional e =>
      rcases h with ⟨_, hnil⟩ | ⟨v, hv, _, rfl⟩
      · exact ⟨s.marks, Or.inl (homitted hnil).symm⟩
      · exact ⟨_, Or.inr (hgiven (hf e rfl) hv hleads)⟩
  | afterSlash e =>
      rcases h with ⟨_, hnil⟩ | ⟨v, hv, _, rfl⟩
      · exact ⟨s.marks, Or.inl (homitted hnil).symm⟩
      · obtain ⟨q, hslash, hvalue⟩ := hleads.of_cons
        exact ⟨_, Or.inr ⟨⟨q, s.marks⟩, ⟨hslash, rfl⟩, hgiven (hf e rfl) hv hvalue⟩⟩
  | beforeSlash e =>
      rcases h with ⟨_, hnil⟩ | ⟨v, hv, _, rfl⟩
      · exact ⟨s.marks, Or.inl (homitted hnil).symm⟩
      · obtain ⟨q, hvalue, hslash⟩ := hleads.of_append
        exact ⟨_, Or.inr ⟨_, hgiven (hf e rfl) hv hvalue, hslash, rfl⟩⟩

theorem exists_wayThrough {fragments : List Fragment} (hstock : AllStock fragments)
    {values : List (Option (List Char))} {text : List Char}
    (h : Spells fragments values text) {p : Place} (hleads : s.place.Leads text p)
    (base : Nat) : ∃ m, wayThrough base fragments s ⟨p, m⟩ := by
  induction fragments generalizing base s values text with
  | nil =>
      obtain ⟨_, rfl⟩ := h
      exact ⟨s.marks, congrArg (Stand.mk · s.marks) (Place.leads_nil.mp hleads)⟩
  | cons f rest ih =>
      obtain ⟨first, text, more, tail, htakes, hspells, _, rfl⟩ := h
      obtain ⟨q, hfirst, hrest⟩ := hleads.of_append
      obtain ⟨m, hm⟩ := exists_way (fun e he => hstock.head he) htakes hfirst base
      obtain ⟨m', hm'⟩ := ih hstock.tail (s := ⟨q, m⟩) hspells hrest _
      exact ⟨m', ⟨q, m⟩, hm, hm'⟩

/-- Whether an expression is made of fragments with expressions that are such by themselves. -/
structure Composed (e : Expression) (fragments : List Fragment) : Prop where
  standalone : AllStandalone fragments
  source : Expression.compile ("^" ++ .ofList (fragments.flatMap source) ++ "$") = .ok e

theorem Composed.regex {e : Expression} {fragments : List Fragment} (h : Composed e fragments) :
    e.regex = .sequence (.anchor (.lineStart false) ::
      (allRegexes 0 fragments ++ [.anchor (.lineEnd false)])) ∧
      e.groups = parameterCount fragments := by
  have hparse := (Expression.compile_eq_ok h.source).1
  rw [RoutePattern.toList_anchored, String.toList_ofList, (yields_all fragments h.standalone).parse]
    at hparse
  obtain ⟨hregex, hgroups⟩ := Prod.mk.inj (Except.ok.inj hparse)
  refine ⟨?_, hgroups.symm⟩
  rw [← hregex, List.flatMap_map]
  simp only [Item.contents, List.flatMap_singleton']
  rfl

theorem Composed.fullMatch?_eq {e : Expression} {fragments : List Fragment}
    (h : Composed e fragments) (text : List Char) :
    e.regex.fullMatch? text = (Regex.sequence (allRegexes 0 fragments)).ending? (.start text) := by
  rw [Regex.fullMatch?_eq, h.regex.1, ending?_startAnchor _ _ _ rfl, ending?_endAnchor]

/-- Whether an expression is made of fragments without written out expressions. -/
structure Compiled (e : Expression) (fragments : List Fragment) : Prop where
  stock : AllStock fragments
  source : Expression.compile ("^" ++ .ofList (fragments.flatMap source) ++ "$") = .ok e

variable {e : Expression} {fragments : List Fragment}

theorem Compiled.composed (h : Compiled e fragments) : Composed e fragments :=
  ⟨h.stock.standalone, h.source⟩

/-- A text made of fragments matches what they spell, and nothing else. The texts of its groups are
the values with which it is spelled. -/
theorem Compiled.fullMatch?_cases (h : Compiled e fragments) (text : String) :
    (∃ m values, e.fullMatch? text = .ok (some m) ∧ Spells fragments values text.toList ∧
      e.groupTexts m = values.map (·.map String.ofList)) ∨
    (e.fullMatch? text = .ok none ∧ ∀ values, ¬ Spells fragments values text.toList) := by
  obtain ⟨hsound, hcomplete⟩ :=
    (follows_wayThrough 0 fragments h.stock.standalone false).ending? text.toList
  have hwithin : Stand.Within 0 ⟨.start text.toList, {}⟩ := Nat.le_refl _
  unfold Expression.fullMatch?
  rw [h.composed.fullMatch?_eq]
  cases hending : (Regex.sequence (allRegexes 0 fragments)).ending? (.start text.toList) with
  | none =>
      refine Or.inr ⟨rfl, fun values hspells => ?_⟩
      have hleads : (Place.start text.toList).Leads text.toList ⟨text.toList.reverse, []⟩ :=
        ⟨(List.append_nil _).symm, (List.append_nil _).symm⟩
      obtain ⟨m, hm⟩ := exists_wayThrough (s := ⟨.start text.toList, {}⟩) h.stock hspells hleads 0
      obtain ⟨_, hsome⟩ := hcomplete h.stock.isLocal ⟨_, hm, rfl⟩
      rw [hending] at hsome
      cases hsome
  | some marks =>
      obtain ⟨u, hu, hend, rfl⟩ := hsound marks hending
      obtain ⟨values, spelled, hspells, hleads, hlength, hrecorded⟩ :=
        spells_of_wayThrough fragments h.stock hwithin hu
      have hspelled : spelled = text.toList := by
        have hafter : text.toList = spelled ++ u.place.after := hleads.after
        rw [hafter, hend, List.append_nil]
      have hholds : ∀ i (hi : i < values.length),
          Marks.Delimits text.toList values[i] (u.marks.edges? (i + 1)) := by
        intro i hi
        have hholds := hrecorded.items i values[i] (List.getElem?_eq_getElem hi)
        rwa [Nat.zero_add] at hholds
      have hnumbers : e.groupNumbers = (List.range values.length).map (· + 1) := by
        rw [Expression.groupNumbers, h.composed.regex.2, hlength]
      have hreversed : e.groupNumbers.any u.marks.isReversed = false := by
        rw [hnumbers, List.any_map, List.any_eq_false]
        intro i hi
        rw [Function.comp_apply, (hholds i (List.mem_range.mp hi)).text?.2]
        exact Bool.false_ne_true
      simp only [hreversed, Bool.false_eq_true, if_false]
      refine Or.inl ⟨_, values, rfl, hspelled ▸ hspells, ?_⟩
      rw [Expression.groupTexts, hnumbers, List.map_map]
      refine List.ext_getElem (by simp) fun i hi hi' => ?_
      simp only [List.length_map] at hi'
      simp only [List.getElem_map, List.getElem_range, Function.comp_apply, Matched.group?,
        (hholds i hi').text?.1]

/-- The expression for the values of a parameter is made of the group of the parameter. -/
theorem composed_of_valueSource {e : List Char} (he : ∃ s, Reader.Standalone e s)
    {value : Expression} (hvalue : Expression.compile (valueSource e) = .ok value) :
    Composed value [.required e] := by
  refine ⟨fun d hd => ?_, ?_⟩
  · obtain rfl : d = e := by simpa [expression?] using hd
    exact he
  · rw [← hvalue, valueSource]
    exact congrArg Expression.compile (String.toList_inj.mp (by simp [source, group]))

/-- The expression for the values of a parameter accepts the texts that its local expression matches
as a whole, and no others. -/
theorem accepts_iff_spans {e : List Char} (he : ∃ s, Reader.Standalone e s)
    (hlocal : (body e).isLocal = true) {value : Expression}
    (hvalue : Expression.compile (valueSource e) = .ok value) (text : String) :
    value.accepts text = .ok true ↔
    (body e).Spans (.start text.toList) ⟨text.toList.reverse, []⟩ := by
  have hcomposed := composed_of_valueSource he hvalue
  have hall : ∀ d ∈ [required e].filterMap expression?, (body d).isLocal = true := by
    intro d hd
    obtain rfl : d = e := by simpa [expression?] using hd
    exact hlocal
  obtain ⟨hsound, hcomplete⟩ :=
    (follows_wayThrough 0 [.required e] hcomposed.standalone false).ending? text.toList
  unfold Expression.accepts Expression.fullMatch?
  rw [hcomposed.fullMatch?_eq]
  cases hending : (Regex.sequence (allRegexes 0 [.required e])).ending? (.start text.toList) with
  | none =>
      refine iff_of_false nofun fun hspans => ?_
      let last : Place := ⟨text.toList.reverse, []⟩
      have hway : wayThrough 0 [.required e] ⟨.start text.toList, {}⟩
          ⟨last, ({} : Marks).recorded 1 0 last.index⟩ := ⟨_, ⟨hspans, rfl⟩, rfl⟩
      obtain ⟨m, hm⟩ := hcomplete hall ⟨_, hway, rfl⟩
      rw [hending] at hm
      cases hm
  | some m =>
      obtain ⟨u, ⟨_, ⟨hspans, hmarks⟩, rfl⟩, hend, rfl⟩ := hsound m hending
      have hplace : u.place = ⟨text.toList.reverse, []⟩ := by
        obtain ⟨⟨before, after⟩, marks⟩ := u
        obtain rfl : after = [] := hend
        have htext : before.reverse ++ [] = text.toList := hspans.text_eq
        rw [← htext, List.append_nil, List.reverse_reverse]
      obtain ⟨_, hleads⟩ := hspans.leads
      have hedges : u.marks.edges? 1 = some (0, u.place.index) := by
        rw [hmarks]
        exact Marks.edges?_recorded_self (Nat.le_refl 0) _ _
      have hreversed : value.groupNumbers.any u.marks.isReversed = false := by
        have hnumbers : value.groupNumbers = [1] := by
          rw [Expression.groupNumbers, hcomposed.regex.2]
          rfl
        simp [hnumbers, Marks.isReversed, hedges]
      simp only [hreversed, Bool.false_eq_true, if_false]
      exact iff_of_true rfl (hplace ▸ hspans)

/-- The expression for the values of a parameter accepts the texts that are values, and no others.
-/
theorem accepts_iff {e : List Char} (he : IsStock e) {value : Expression}
    (hvalue : Expression.compile (valueSource e) = .ok value) (text : String) :
    value.accepts text = .ok true ↔ Admits e text.toList := by
  have hlocal : (body e).isLocal = true := by
    rw [body_of_isStock he]
    rfl
  rw [accepts_iff_spans (standalone_of_isStock he) hlocal hvalue, spans_body he]
  constructor
  · rintro ⟨v, hv, hleads⟩
    have htext : text.toList = v ++ [] := hleads.after
    rwa [htext, List.append_nil]
  · exact fun hadmits => ⟨_, hadmits, (List.append_nil _).symm, (List.append_nil _).symm⟩

theorem spells_literals {fragments : List Fragment} {values : List (Option (List Char))}
    {spelled : List Char} (texts : List (List Char)) :
    Spells (texts.map .literal ++ fragments) values spelled ↔
      ∃ tail, Spells fragments values tail ∧ spelled = texts.flatten ++ tail := by
  induction texts generalizing spelled with
  | nil => simp
  | cons text more ih =>
      constructor
      · rintro ⟨_, _, values, tail, ⟨rfl, rfl⟩, hspells, rfl, rfl⟩
        obtain ⟨rest, hrest, rfl⟩ := ih.mp hspells
        exact ⟨rest, hrest, by simp⟩
      · rintro ⟨tail, hspells, rfl⟩
        exact ⟨[], text, values, more.flatten ++ tail, ⟨rfl, rfl⟩, ih.mpr ⟨tail, hspells, rfl⟩, rfl,
          by simp⟩

end Fragment

end NamedRoutes
