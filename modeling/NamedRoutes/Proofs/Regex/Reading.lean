import NamedRoutes.Proofs.Regex.Embedding

/-!
Reading a whole text inside another one. What is true of every action is carried over to the script
of a character and from there to a text. The main results are that a text that can be read on its
own is read in the same way inside another one, and that a text that can be read after no more than
a sign for the start can be read on its own.
-/

namespace NamedRoutes.Regex

namespace Reader

/-- An action that leaves no reference behind asks for no group, and there was no reference before.
-/
theorem move_of_perform {r s : Reader} (a : Action) (h : a.perform r = .ok s)
    (hs : s.NoReference) : r.Move false s ∧ a.refers = false ∧ r.NoReference := by
  have hmove := perform_move a r s h
  have hasks := asks_of_noReference hmove hs
  rw [hasks] at hmove
  exact ⟨hmove, hasks, noReference_of_move hmove hs⟩

theorem sound_perform (a : Action) (r s : Reader) (h : a.perform r = .ok s) (hr : r.Sound) :
    s.Sound :=
  ⟨poised_perform a r s h, numbered_perform a r s h hr.numbered⟩

/-- The first of some actions that succeed, and the others. -/
theorem performAll_cons_eq_ok (a : Action) (rest : List Action) (r s : Reader)
    (h : Action.performAll (a :: rest) r = .ok s) :
    ∃ t, a.perform r = .ok t ∧ Action.performAll rest t = .ok s := by
  simp only [Action.performAll, bind, Except.bind] at h
  cases hstep : a.perform r with
  | error fault =>
      rw [hstep] at h
      cases h
  | ok t =>
      rw [hstep] at h
      exact ⟨t, rfl, h⟩

theorem performAll_cons_of_ok {a : Action} {rest : List Action} {r t : Reader}
    (h : a.perform r = .ok t) :
    Action.performAll (a :: rest) r = Action.performAll rest t := by
  simp only [Action.performAll, bind, Except.bind, h]

/-- What every action keeps, a script keeps. -/
theorem performAll_keeps {P : Reader → Prop}
    (haction : ∀ (a : Action) (r s : Reader), a.perform r = .ok s → P r → P s)
    (script : List Action) (r s : Reader) (h : Action.performAll script r = .ok s) (hr : P r) :
    P s := by
  induction script generalizing r with
  | nil =>
      cases h
      exact hr
  | cons a rest ih =>
      obtain ⟨t, hstep, hrest⟩ := performAll_cons_eq_ok a rest r s h
      exact ih t hrest (haction a r t hstep hr)

/-- What every move keeps, a script keeps. -/
theorem performAll_induction {P : Reader → Prop}
    (hmove : ∀ r s asks, Move r asks s → P r → P s) (script : List Action) (r s : Reader)
    (h : Action.performAll script r = .ok s) (hr : P r) : P s :=
  performAll_keeps (fun a r s h => hmove r s _ (perform_move a r s h)) script r s h hr

theorem noReference_of_performAll (script : List Action) (r s : Reader)
    (h : Action.performAll script r = .ok s) (hs : s.NoReference) : r.NoReference := by
  apply Classical.byContradiction
  intro hr
  exact performAll_induction (P := fun r => ¬ r.NoReference)
    (fun _ _ _ hmove hr hs => hr (noReference_of_move hmove hs)) script r s h hr hs

theorem names_of_performAll (script : List Action) (r s : Reader)
    (h : Action.performAll script r = .ok s) (hs : s.names = []) : r.names = [] := by
  apply Classical.byContradiction
  intro hr
  exact performAll_induction (P := fun r => r.names ≠ [])
    (fun _ _ _ hmove hr hs => hr (names_of_move hmove hs)) script r s h hr hs

theorem poised_performAll (script : List Action) (r s : Reader) (hr : r.Poised)
    (h : Action.performAll script r = .ok s) : s.Poised := by
  induction script generalizing r with
  | nil =>
      cases h
      exact hr
  | cons a rest ih =>
      obtain ⟨t, hstep, hrest⟩ := performAll_cons_eq_ok a rest r s h
      exact ih t (poised_perform a r t hstep) hrest

/-- What is true of a text inside `k` once the text has led from `r` to `s` and from the reader of
the whole to `m`. If no group of the text has a name, it is read in the same way inside any `k'`. -/
structure Follows (k k' r s m : Reader) (again : Except RegexError Reader) : Prop where
  same : m = k.inside s
  flags : outerFlags s.top s.outer = outerFlags r.top r.outer
  again : s.names = [] → again = .ok (k'.inside s)

variable {k k' : Reader}

theorem performAll_inside (hk : k.Open) (hk' : k'.Open) (script : List Action)
    (r s m : Reader) (hr : r.Sound) (h : Action.performAll script r = .ok s)
    (hs : s.NoReference) (hm : Action.performAll script (k.inside r) = .ok m) :
    Follows k k' r s m (Action.performAll script (k'.inside r)) := by
  induction script generalizing r with
  | nil =>
      cases h
      cases hm
      exact ⟨rfl, rfl, fun _ => rfl⟩
  | cons a rest ih =>
      obtain ⟨t, hstep, hrest⟩ := performAll_cons_eq_ok a rest r s h
      obtain ⟨u, hinside, hmore⟩ := performAll_cons_eq_ok a rest _ m hm
      have ht := noReference_of_performAll rest t s hrest hs
      obtain ⟨_, hrefers, hr'⟩ := move_of_perform a hstep ht
      have hswitch : ∀ added, a ≠ .switch added := by
        rintro added rfl
        obtain ⟨fault, hfault⟩ := switch_inside k r hk added
        rw [hinside] at hfault
        cases hfault
      have hu : u = k.inside t := by
        rcases perform_inside k r hk hr hr' a hswitch hrefers t hstep with hok | ⟨_, fault, hfault⟩
        · rw [hinside] at hok
          cases hok
          rfl
        · rw [hinside] at hfault
          cases hfault
      rw [hu] at hmore
      obtain ⟨hsame, hflags, hagain⟩ := ih t (sound_perform a r t hstep hr) hrest hmore
      refine ⟨hsame, hflags.trans (outerFlags_perform r a hswitch t hstep), fun hnames => ?_⟩
      have htnames := names_of_performAll rest t s hrest hnames
      rcases perform_inside k' r hk' hr hr' a hswitch hrefers t hstep with hok | ⟨hnamed, _⟩
      · rw [performAll_cons_of_ok hok]
        exact hagain hnames
      · exact absurd htnames hnamed

def counting (r : Reader) : Reader := { r with position := r.position + 1 }

theorem poised_inside (k : Reader) {r : Reader} (hr : r.Poised) : (k.inside r).Poised := by
  have hitems := k.items_frameInside r.top r.outer
  have hflags := k.flags_inside r
  have hmode : (k.inside r).mode = r.mode := rfl
  unfold Poised at hr ⊢
  rw [hmode]
  cases hcase : r.mode with
  | greed least most =>
      rw [hcase] at hr
      intro hnil
      change (k.frameInside r.top r.outer).items = [] at hnil
      rw [hitems] at hnil
      exact hr (List.map_eq_nil_iff.mp (List.append_eq_nil_iff.mp hnil).1)
  | lineRemark escaped =>
      rw [hcase] at hr
      rw [← hr]
      exact congrArg Flags.verbose hflags
  | _ => trivial

theorem sound_counting {r : Reader} (hr : r.Sound) : r.counting.Sound :=
  ⟨hr.poised, hr.numbered.frames, hr.numbered.names⟩

/-- A character is the same script for the reader of a text and for that reader inside another one.
-/
theorem step_scripted (r : Reader) (hr : r.Poised) (c : Char) :
    ∃ script, r.step c = Action.performAll script r.counting ∧
      ∀ k : Reader, (k.inside r).step c = Action.performAll script (k.inside r.counting) := by
  obtain ⟨script, hscript⟩ := take_scripted r.mode r.top.flags c
  refine ⟨script, hscript r.counting rfl rfl hr, fun k => ?_⟩
  exact hscript (k.inside r.counting) rfl (k.flags_inside r) (poised_inside k hr)

theorem readAll_cons_eq_ok (c : Char) (rest : List Char) (r s : Reader)
    (h : r.readAll (c :: rest) = .ok s) : ∃ t, r.step c = .ok t ∧ t.readAll rest = .ok s := by
  unfold readAll at h
  rw [List.foldlM_cons] at h
  cases hstep : r.step c with
  | error fault =>
      rw [hstep] at h
      cases h
  | ok t =>
      rw [hstep] at h
      exact ⟨t, rfl, h⟩

theorem readAll_cons_of_ok {c : Char} {rest : List Char} {r t : Reader}
    (h : r.step c = .ok t) : r.readAll (c :: rest) = t.readAll rest := by
  unfold readAll
  rw [List.foldlM_cons, h]
  rfl

theorem readAll_append (first second : List Char) (r : Reader) :
    r.readAll (first ++ second) = r.readAll first >>= fun s => s.readAll second :=
  List.foldlM_append

theorem readAll_append_of_ok {first second : List Char} {r s : Reader}
    (h : r.readAll first = .ok s) : r.readAll (first ++ second) = s.readAll second := by
  rw [readAll_append, h]
  rfl

theorem readAll_append_eq_ok (first second : List Char) (r s : Reader)
    (h : r.readAll (first ++ second) = .ok s) :
    ∃ t, r.readAll first = .ok t ∧ t.readAll second = .ok s := by
  rw [readAll_append] at h
  cases hfirst : r.readAll first with
  | error fault =>
      rw [hfirst] at h
      cases h
  | ok t =>
      rw [hfirst] at h
      exact ⟨t, rfl, h⟩

theorem poised_step {r s : Reader} (hr : r.Poised) (c : Char) (h : r.step c = .ok s) :
    s.Poised := by
  obtain ⟨script, hscript, _⟩ := step_scripted r hr c
  rw [hscript] at h
  exact poised_performAll script r.counting s hr h

theorem poised_readAll (text : List Char) (r s : Reader) (hr : r.Poised)
    (h : r.readAll text = .ok s) : s.Poised := by
  induction text generalizing r with
  | nil =>
      cases h
      exact hr
  | cons c rest ih =>
      obtain ⟨t, hstep, hrest⟩ := readAll_cons_eq_ok c rest r s h
      exact ih t (poised_step hr c hstep) hrest

/-- What every action keeps, reading a text keeps. -/
theorem readAll_keeps {P : Reader → Prop}
    (haction : ∀ (a : Action) (r s : Reader), a.perform r = .ok s → P r → P s)
    (hcounting : ∀ r, P r → P r.counting) (text : List Char) (r s : Reader) (hpoised : r.Poised)
    (h : r.readAll text = .ok s) (hr : P r) : P s := by
  induction text generalizing r with
  | nil =>
      cases h
      exact hr
  | cons c rest ih =>
      obtain ⟨t, hstep, hrest⟩ := readAll_cons_eq_ok c rest r s h
      have hpoised' := poised_step hpoised c hstep
      obtain ⟨script, hscript, _⟩ := step_scripted r hpoised c
      rw [hscript] at hstep
      exact ih t hpoised' hrest
        (performAll_keeps haction script r.counting t hstep (hcounting r hr))

/-- What every move keeps, reading a text keeps. -/
theorem readAll_induction {P : Reader → Prop} (hmove : ∀ r s asks, Move r asks s → P r → P s)
    (hcounting : ∀ r, P r → P r.counting) (text : List Char) (r s : Reader) (hpoised : r.Poised)
    (h : r.readAll text = .ok s) (hr : P r) : P s :=
  readAll_keeps (fun a r s h => hmove r s _ (perform_move a r s h)) hcounting text r s hpoised h hr

theorem noReference_of_readAll (text : List Char) (r s : Reader) (hr : r.Poised)
    (h : r.readAll text = .ok s) (hs : s.NoReference) : r.NoReference := by
  apply Classical.byContradiction
  intro hreference
  exact readAll_induction (P := fun r => ¬ r.NoReference)
    (fun _ _ _ hmove hr hs => hr (noReference_of_move hmove hs)) (fun _ hr => hr) text r s hr h
    hreference hs

theorem names_of_readAll (text : List Char) (r s : Reader) (hr : r.Poised)
    (h : r.readAll text = .ok s) (hs : s.names = []) : r.names = [] := by
  apply Classical.byContradiction
  intro hnames
  exact readAll_induction (P := fun r => r.names ≠ [])
    (fun _ _ _ hmove hr hs => hr (names_of_move hmove hs)) (fun _ hr => hr) text r s hr h
    hnames hs

theorem sound_readAll (text : List Char) (r s : Reader) (hr : r.Sound)
    (h : r.readAll text = .ok s) : s.Sound :=
  readAll_keeps sound_perform (fun _ => sound_counting) text r s hr.poised h hr

/-- A text that refers to no group is read inside `k` as on its own, if it can be read there at all.
Inside `k'` it can be read as well, unless its groups have names. -/
theorem readAll_inside (hk : k.Open) (hk' : k'.Open) (text : List Char) (r s m : Reader)
    (hr : r.Sound) (h : r.readAll text = .ok s) (hs : s.NoReference)
    (hm : (k.inside r).readAll text = .ok m) :
    Follows k k' r s m ((k'.inside r).readAll text) := by
  induction text generalizing r with
  | nil =>
      cases h
      cases hm
      exact ⟨rfl, rfl, fun _ => rfl⟩
  | cons c rest ih =>
      obtain ⟨t, hstep, hrest⟩ := readAll_cons_eq_ok c rest r s h
      obtain ⟨u, hinside, hmore⟩ := readAll_cons_eq_ok c rest _ m hm
      have htpoised := poised_step hr.poised c hstep
      have ht := noReference_of_readAll rest t s htpoised hrest hs
      obtain ⟨script, hscript, hscriptInside⟩ := step_scripted r hr.poised c
      rw [hscript] at hstep
      rw [hscriptInside k] at hinside
      have hfirst := performAll_inside hk hk' script r.counting t u (sound_counting hr) hstep
        ht hinside
      rw [hfirst.same] at hmore
      have htsound := performAll_keeps sound_perform script r.counting t hstep (sound_counting hr)
      obtain ⟨hsame, hflags, hagain⟩ := ih t htsound hrest hmore
      refine ⟨hsame, hflags.trans hfirst.flags, fun hnames => ?_⟩
      have hnext := hfirst.again (names_of_readAll rest t s htpoised hrest hnames)
      rw [← hscriptInside k'] at hnext
      rw [readAll_cons_of_ok hnext]
      exact hagain hnames

/-- Whether a reader has read nothing but signs that consume nothing. -/
structure Thin (k : Reader) : Prop where
  outer : k.outer = []
  branches : k.top.branches = []
  items : ∀ item ∈ k.top.items, ∃ a, item = .single (.anchor a)
  groups : k.groups = []
  names : k.names = []

theorem checkRepeatable_of_inside (hthin : k.Thin) (r : Reader)
    (h : (k.inside r).checkRepeatable = .ok ()) : r.checkRepeatable = .ok () := by
  have hitems : (k.inside r).top.items = _ := k.items_frameInside r.top r.outer
  unfold checkRepeatable at h ⊢
  rw [hitems] at h
  cases hcase : r.top.items with
  | cons item rest =>
      rw [hcase] at h
      cases item with
      | plain items => rfl
      | single item => cases item <;> first | rfl | cases h
  | nil =>
      -- Only the signs that `k` has read could be repeated, but signs cannot.
      rw [hcase] at h
      have hbefore : k.itemsBefore r.top r.outer = [] ∨
          ∃ a rest, k.itemsBefore r.top r.outer = .single (.anchor a) :: rest := by
        cases r.outer with
        | cons parent outer => exact Or.inl rfl
        | nil =>
            unfold itemsBefore
            cases r.top.branches.isEmpty with
            | false => exact Or.inl rfl
            | true =>
                cases hkept : k.top.items with
                | nil => exact Or.inl rfl
                | cons item rest =>
                    obtain ⟨a, ha⟩ := hthin.items item (by simp [hkept])
                    exact Or.inr ⟨a, rest, by simp [ha]⟩
      rcases hbefore with hbefore | ⟨a, rest, hbefore⟩
      · rw [hbefore] at h
        cases h
      · rw [hbefore] at h
        cases h

/-- What an action can do after a sign for the start it can do without the sign. -/
theorem reflect_perform (hk : k.Open) (hthin : k.Thin) (r : Reader) (hr : r.NoReference)
    (a : Action) (hrefers : a.refers = false) (m : Reader)
    (hm : a.perform (k.inside r) = .ok m) : ∃ s, a.perform r = .ok s := by
  cases a with
  | fail fault => cases hm
  | wait mode hmode => exact ⟨_, rfl⟩
  | remark escaped =>
      obtain ⟨hverbose, _⟩ := remark_eq_ok _ m escaped hm
      rw [flags_inside] at hverbose
      simp only [Action.perform, hverbose, if_true]
      exact ⟨_, rfl⟩
  | test question => exact ⟨_, rfl⟩
  | anchor a => exact ⟨_, rfl⟩
  | switch added =>
      obtain ⟨fault, hfault⟩ := switch_inside k r hk added
      rw [hm] at hfault
      cases hfault
  | enter role flags hrole => exact ⟨_, rfl⟩
  | capture => exact ⟨_, rfl⟩
  | captureNamed name =>
      obtain ⟨hfree, _⟩ := captureNamed_eq_ok _ m name hm
      rw [lookup_names] at hfree
      cases hown : r.names.lookup name with
      | none =>
          simp only [Action.perform, hown]
          exact ⟨_, rfl⟩
      | some holder =>
          rw [hown] at hfree
          cases hfree
  | condition text => cases hrefers
  | refer number => cases hrefers
  | referNamed name => cases hrefers
  | branch => exact ⟨_, nextBranch_of_role r (hr _ (List.mem_cons_self ..)).role⟩
  | leave =>
      obtain ⟨parent, outer, houter, _⟩ := leave_eq_ok _ m hm
      cases hcase : r.outer with
      | nil =>
          rw [show (k.inside r).outer = k.outer by simp [inside, hcase, outerInside],
            hthin.outer] at houter
          cases houter
      | cons parent outer =>
          simp only [Action.perform, leave, hcase]
          exact ⟨_, rfl⟩
  | startRepeat least most =>
      obtain ⟨hcheck, _⟩ := startRepeat_eq_ok _ m least most hm
      have hown := checkRepeatable_of_inside hthin r hcheck
      simp only [Action.perform, startRepeat, hown]
      exact ⟨_, rfl⟩
  | repeatLast greed =>
      obtain ⟨least, most, hmode, _⟩ := repeatLast_eq_ok _ m greed hm
      have hown : r.mode = .greed least most := hmode
      simp only [Action.perform, hown]
      exact ⟨_, rfl⟩

theorem reflect_performAll (hk : k.Open) (hthin : k.Thin) (script : List Action)
    (r m : Reader) (hr : r.Sound) (hreference : r.NoReference)
    (hm : Action.performAll script (k.inside r) = .ok m) (hall : m.NoReference) :
    ∃ s, Action.performAll script r = .ok s ∧ s.NoReference ∧ m = k.inside s := by
  induction script generalizing r with
  | nil =>
      cases hm
      exact ⟨r, rfl, hreference, rfl⟩
  | cons a rest ih =>
      obtain ⟨u, hinside, hmore⟩ := performAll_cons_eq_ok a rest _ m hm
      have hu := noReference_of_performAll rest u m hmore hall
      obtain ⟨_, hrefers, _⟩ := move_of_perform a hinside hu
      obtain ⟨t, hstep⟩ := reflect_perform hk hthin r hreference a hrefers u hinside
      have hmove := perform_move a r t hstep
      rw [hrefers] at hmove
      have ht := noReference_move hmove hreference
      have hswitch : ∀ added, a ≠ .switch added := by
        rintro added rfl
        obtain ⟨fault, hfault⟩ := switch_inside k r hk added
        rw [hinside] at hfault
        cases hfault
      have hsame : u = k.inside t := by
        rcases perform_inside k r hk hr hreference a hswitch hrefers t hstep with
          hok | ⟨_, fault, hfault⟩
        · rw [hinside] at hok
          cases hok
          rfl
        · rw [hinside] at hfault
          cases hfault
      rw [hsame] at hmore
      obtain ⟨s, hs, hsreference, hms⟩ := ih t (sound_perform a r t hstep hr) ht hmore
      exact ⟨s, (performAll_cons_of_ok hstep).trans hs, hsreference, hms⟩

/-- A text that can be read after a sign for the start, and that refers to no group, can be read on
its own. -/
theorem reflect_readAll (hk : k.Open) (hthin : k.Thin) (text : List Char) (r m : Reader)
    (hr : r.Sound) (hreference : r.NoReference) (hm : (k.inside r).readAll text = .ok m)
    (hall : m.NoReference) :
    ∃ s, r.readAll text = .ok s ∧ s.NoReference ∧ m = k.inside s := by
  induction text generalizing r with
  | nil =>
      cases hm
      exact ⟨r, rfl, hreference, rfl⟩
  | cons c rest ih =>
      obtain ⟨u, hinside, hmore⟩ := readAll_cons_eq_ok c rest _ m hm
      have hupoised := poised_step (poised_inside k hr.poised) c hinside
      have hu := noReference_of_readAll rest u m hupoised hmore hall
      obtain ⟨script, hscript, hscriptInside⟩ := step_scripted r hr.poised c
      rw [hscriptInside k] at hinside
      obtain ⟨t, hstep, ht, hsame⟩ := reflect_performAll hk hthin script r.counting u
        (sound_counting hr) hreference hinside hu
      have htsound := performAll_keeps sound_perform script r.counting t hstep (sound_counting hr)
      rw [hsame] at hmore
      obtain ⟨s, hs, hsreference, hms⟩ := ih t htsound ht hmore
      rw [← hscript] at hstep
      exact ⟨s, (readAll_cons_of_ok hstep).trans hs, hsreference, hms⟩

end Reader

end NamedRoutes.Regex
