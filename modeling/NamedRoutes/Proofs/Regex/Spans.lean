import NamedRoutes.Proofs.Regex.Places

/-!
Between which places of a text an expression can match, apart from how its ways are tried. An
expression is local if it does not ask for the text around what it matches, and keeps no way that it
has found. What a local expression matches inside a text it also matches by itself, without the text
around it.
-/

namespace NamedRoutes

namespace Place

/-- A place of a text once the text is put into another one. -/
def inside (hole p : Place) : Place := ⟨p.before ++ hole.before, p.after ++ hole.after⟩

variable {hole p q : Place} {text more : List Char} {accepts : Char → Bool}

theorem leads_inside : (hole.inside p).Leads text (hole.inside q) ↔ p.Leads text q := by
  constructor
  · rintro ⟨hbefore, hafter⟩
    simp only [inside, ← List.append_assoc] at hbefore hafter
    exact ⟨List.append_cancel_right hbefore, List.append_cancel_right hafter⟩
  · rintro ⟨hbefore, hafter⟩
    exact ⟨by simp [inside, hbefore], by simp [inside, hafter]⟩

theorem inside_inj : hole.inside q = hole.inside p ↔ q = p := by
  rw [← leads_nil, leads_inside, leads_nil]

theorem next?_inside :
    (hole.inside p).next? accepts = some (hole.inside q) ↔ p.next? accepts = some q := by
  rw [next?_eq_some_iff, next?_eq_some_iff]
  exact exists_congr fun c => and_congr_right fun _ => leads_inside

/-- Who goes forward from the text to the text does not leave it on the way. -/
theorem exists_eq_inside {r : Place} (h : (hole.inside p).Leads text r)
    (h' : r.Leads more (hole.inside q)) : ∃ s, r = hole.inside s := by
  refine ⟨⟨text.reverse ++ p.before, more ++ q.after⟩, ?_⟩
  obtain ⟨before, after⟩ := r
  have hbefore : before = _ := h.before
  have hafter : after = _ := h'.after
  simp only [inside, hbefore, hafter, List.append_assoc]

theorem back?_inside {back : Place} {width : Nat} (h : p.back? width = some back) :
    (hole.inside p).back? width = some (hole.inside back) := by
  induction width generalizing p with
  | zero =>
      cases h
      rfl
  | succ width ih =>
      obtain ⟨before, after⟩ := p
      cases before with
      | nil => cases h
      | cons c before => exact ih (p := ⟨before, c :: after⟩) h

namespace Steps

variable {step step' : Place → Place → Prop} {count : Nat}

theorem inside (hstep : ∀ p q, step p q → step' (hole.inside p) (hole.inside q))
    (h : Steps step count p q) : Steps step' count (hole.inside p) (hole.inside q) := by
  induction count generalizing p with
  | zero => exact inside_inj.mpr h
  | succ count ih =>
      obtain ⟨first, hfirst, hrest⟩ := h
      exact ⟨_, hstep p first hfirst, ih hrest⟩

theorem of_inside (hleads : ∀ p q, step p q → ∃ text, p.Leads text q)
    (hstep : ∀ p q, step (hole.inside p) (hole.inside q) → step' p q)
    (h : Steps step count (hole.inside p) (hole.inside q)) : Steps step' count p q := by
  induction count generalizing p with
  | zero => exact inside_inj.mp h
  | succ count ih =>
      obtain ⟨first, hfirst, hrest⟩ := h
      obtain ⟨text, htext⟩ := hleads _ _ hfirst
      obtain ⟨more, hmore⟩ := hrest.leads hleads
      obtain ⟨middle, rfl⟩ := exists_eq_inside htext hmore
      exact ⟨middle, hstep p middle hfirst, ih hrest⟩

end Steps

end Place

/-- Conditions other than those on words hold at the edges of a text if they hold there inside a
longer one. -/
theorem Anchor.holds_of_inside {a : Anchor}
    (hwords : ∀ negated asciiOnly, a ≠ .wordEdge negated asciiOnly) {hole p : Place}
    (h : a.holds (hole.inside p) = true) : a.holds p = true := by
  obtain ⟨before, after⟩ := p
  cases a with
  | wordEdge negated asciiOnly => exact absurd rfl (hwords negated asciiOnly)
  | textStart => simp_all [holds, Place.inside]
  | textEnd => simp_all [holds, Place.inside]
  | lineStart everyLine =>
      cases before with
      | nil => rfl
      | cons c rest => simpa [holds, Place.inside] using h
  | lineEnd everyLine =>
      cases after with
      | nil => rfl
      | cons c rest =>
          simp only [holds, Place.inside, List.cons_append, List.isEmpty_cons, Bool.false_or,
            Bool.or_eq_true, beq_iff_eq, List.cons.injEq, List.append_eq_nil_iff] at h ⊢
          exact h.imp (fun hlast => ⟨hlast.1, hlast.2.1⟩) id

namespace Regex

/-- Whether an expression asks for characters and nothing else. -/
def isPlain : Regex → Bool
  | .empty | .never | .one _ => true
  | .seq first second | .alt first second => first.isPlain && second.isPlain
  | .group body | .capture _ body => body.isPlain
  | .repeated greed least most body =>
      greed != .possessive && most.all (least ≤ ·) && body.isPlain
  | _ => false

/-- Whether an expression does not ask for the text around what it matches, except that it may rule
out what a plain expression matches there, and keeps no way of matching that it has found, except
that it may take as many characters of a kind as it can. -/
def isLocal : Regex → Bool
  | .empty | .never | .one _ => true
  | .anchor (.wordEdge ..) => false
  | .anchor _ => true
  | .seq first second | .alt first second => first.isLocal && second.isLocal
  | .group body | .capture _ body => body.isLocal
  | .ahead negated body | .behind negated _ body => negated && body.isPlain
  | .repeated greed least most body =>
      (greed != .possessive || body.test?.isSome) && most.all (least ≤ ·) && body.isLocal
  | _ => false

/-- Whether a repetition may have some number of rounds. -/
structure Allows (least : Nat) (most : Option Nat) (count : Nat) : Prop where
  enough : least ≤ count
  bounded : ∀ limit, most = some limit → count - least ≤ limit - least

/-- Between which places an expression can match. Of an expression that keeps one way of matching
all ways are counted; but if it takes characters of a kind, there must be no more of them than it
takes. What a group has recorded is not asked for. -/
def Spans : Regex → Place → Place → Prop
  | .empty => fun p q => q = p
  | .never => fun _ _ => False
  | .one test => fun p q => p.next? test.accepts = some q
  | .anchor a => fun p q => q = p ∧ a.holds p = true
  | .seq first second => fun p q => ∃ r, first.Spans p r ∧ second.Spans r q
  | .alt first second => fun p q => first.Spans p q ∨ second.Spans p q
  | .group body | .capture _ body | .atomic body => body.Spans
  | .ahead negated body => fun p q =>
      q = p ∧ (negated = true → body.isPlain = true → ∀ r, ¬ body.Spans p r)
  | .behind negated width body => fun p q =>
      q = p ∧ (negated = true → body.isPlain = true → ∀ back, p.back? width = some back →
        ∀ r, ¬ body.Spans back r)
  | .repeated greed least most body => fun p q =>
      ∃ count, Allows least most count ∧ Place.Steps body.Spans count p q ∧
        (greed = .possessive → body.test?.isSome = true → most = some count ∨ ∀ r, ¬ body.Spans q r)
  | .backref .. => fun p q => ∃ text, p.Leads text q
  | .conditional _ yes no => fun p q => yes.Spans p q ∨ no.Spans p q

theorem isLocal_repeated {greed : Greed} {least : Nat} {most : Option Nat} {body : Regex}
    (h : (repeated greed least most body).isLocal = true) :
    (greed = .possessive → body.test?.isSome = true) ∧ most.all (least ≤ ·) = true ∧
      body.isLocal = true := by
  simp only [isLocal, Bool.and_eq_true, Bool.or_eq_true, bne_iff_ne] at h
  exact ⟨fun hgreed => h.1.1.resolve_left (absurd hgreed), h.1.2, h.2⟩

theorem isLocal_of_isPlain {r : Regex} (h : r.isPlain = true) : r.isLocal = true := by
  induction r with
  | seq first second ihf ihs | alt first second ihf ihs =>
      simp only [isPlain, isLocal, Bool.and_eq_true] at h ⊢
      exact ⟨ihf h.1, ihs h.2⟩
  | group body ih | capture number body ih => exact ih h
  | repeated greed least most body ih =>
      simp only [isPlain, isLocal, Bool.and_eq_true, Bool.or_eq_true] at h ⊢
      exact ⟨⟨Or.inl h.1.1, h.1.2⟩, ih h.2⟩
  | empty | never | one => rfl
  | anchor | atomic | ahead | behind | backref | conditional => cases h

theorem isPlain_of_test? {r : Regex} {test : CharTest} (h : r.test? = some test) :
    r.isPlain = true := by
  induction r with
  | one other => rfl
  | seq first second ih _ =>
      cases second with
      | empty => exact (Bool.and_true _).trans (ih h)
      | _ => cases h
  | group body ih => exact ih h
  | _ => cases h

theorem spans_repeated (greed : Greed) (hgreed : greed ≠ .possessive) {least : Nat}
    {most : Option Nat} {body : Regex} : (repeated greed least most body).Spans =
      fun p q => ∃ count, Allows least most count ∧ Place.Steps body.Spans count p q := by
  funext p q
  simp only [Spans, hgreed, false_implies, and_true]

/-- What an expression matches lies forward. -/
theorem Spans.leads {r : Regex} {p q : Place} (h : r.Spans p q) : ∃ text, p.Leads text q := by
  have hstays : ∀ {p q : Place}, q = p → ∃ text, p.Leads text q :=
    fun h => ⟨[], Place.leads_nil.mpr h⟩
  induction r generalizing p q with
  | empty => exact hstays h
  | never => exact h.elim
  | one test =>
      obtain ⟨c, _, hleads⟩ := Place.next?_eq_some_iff.mp h
      exact ⟨[c], hleads⟩
  | anchor a => exact hstays h.1
  | seq first second ihf ihs =>
      obtain ⟨r, hfirst, hsecond⟩ := h
      obtain ⟨text, htext⟩ := ihf hfirst
      obtain ⟨more, hmore⟩ := ihs hsecond
      exact ⟨text ++ more, htext.trans hmore⟩
  | alt first second ihf ihs => exact h.elim ihf ihs
  | group body ih | capture number body ih | atomic body ih => exact ih h
  | ahead negated body ih => exact hstays h.1
  | behind negated width body ih => exact hstays h.1
  | backref number folding => exact h
  | conditional number yes no ihy ihn => exact h.elim ihy ihn
  | repeated greed least most body ih =>
      obtain ⟨count, _, hsteps, _⟩ := h
      exact hsteps.leads fun _ _ => ih

theorem Spans.text_eq {r : Regex} {p q : Place} (h : r.Spans p q) : q.text = p.text := by
  obtain ⟨text, hleads⟩ := h.leads
  exact hleads.text_eq

variable {hole p q : Place}

/-- What a plain expression matches in a text it matches in a longer one. -/
theorem Spans.inside {r : Regex} (hplain : r.isPlain = true) (h : r.Spans p q) :
    r.Spans (hole.inside p) (hole.inside q) := by
  induction r generalizing p q with
  | empty => exact Place.inside_inj.mpr h
  | never => exact h
  | one test => exact Place.next?_inside.mpr h
  | seq first second ihf ihs =>
      simp only [isPlain, Bool.and_eq_true] at hplain
      obtain ⟨r, hfirst, hsecond⟩ := h
      exact ⟨_, ihf hplain.1 hfirst, ihs hplain.2 hsecond⟩
  | alt first second ihf ihs =>
      simp only [isPlain, Bool.and_eq_true] at hplain
      exact h.imp (ihf hplain.1) (ihs hplain.2)
  | group body ih | capture number body ih => exact ih hplain h
  | repeated greed least most body ih =>
      simp only [isPlain, Bool.and_eq_true, bne_iff_ne] at hplain
      rw [spans_repeated greed hplain.1.1] at h ⊢
      obtain ⟨count, hcount, hsteps⟩ := h
      exact ⟨count, hcount, hsteps.inside fun _ _ => ih hplain.2⟩
  | anchor | atomic | ahead | behind | backref | conditional => cases hplain

/-- What a local expression matches in a longer text it matches in the text itself, as far as it
lies there. -/
theorem Spans.of_inside {r : Regex} (hlocal : r.isLocal = true)
    (h : r.Spans (hole.inside p) (hole.inside q)) : r.Spans p q := by
  induction r generalizing p q with
  | empty => exact Place.inside_inj.mp h
  | never => exact h
  | one test => exact Place.next?_inside.mp h
  | anchor a =>
      refine ⟨Place.inside_inj.mp h.1, Anchor.holds_of_inside ?_ h.2⟩
      rintro negated asciiOnly rfl
      cases hlocal
  | seq first second ihf ihs =>
      simp only [isLocal, Bool.and_eq_true] at hlocal
      obtain ⟨r, hfirst, hsecond⟩ := h
      obtain ⟨text, htext⟩ := hfirst.leads
      obtain ⟨more, hmore⟩ := hsecond.leads
      obtain ⟨s, rfl⟩ := Place.exists_eq_inside htext hmore
      exact ⟨s, ihf hlocal.1 hfirst, ihs hlocal.2 hsecond⟩
  | alt first second ihf ihs =>
      simp only [isLocal, Bool.and_eq_true] at hlocal
      exact h.imp (ihf hlocal.1) (ihs hlocal.2)
  | group body ih | capture number body ih => exact ih hlocal h
  | ahead negated body ih =>
      simp only [isLocal, Bool.and_eq_true] at hlocal
      refine ⟨Place.inside_inj.mp h.1, fun hnegated hplain r hspan => ?_⟩
      exact h.2 hnegated hplain _ (hspan.inside hplain)
  | behind negated width body ih =>
      simp only [isLocal, Bool.and_eq_true] at hlocal
      refine ⟨Place.inside_inj.mp h.1, fun hnegated hplain back hback r hspan => ?_⟩
      exact h.2 hnegated hplain _ (Place.back?_inside hback) _ (hspan.inside hplain)
  | repeated greed least most body ih =>
      obtain ⟨count, hcount, hsteps, hmost⟩ := h
      refine ⟨count, hcount, hsteps.of_inside (fun _ _ => Spans.leads)
        fun _ _ => ih (isLocal_repeated hlocal).2.2, fun hgreed htest => ?_⟩
      obtain ⟨test, hbody⟩ := Option.isSome_iff_exists.mp htest
      exact (hmost hgreed htest).imp_right fun hnone r hr =>
        hnone _ (hr.inside (isPlain_of_test? hbody))
  | atomic | backref | conditional => cases hlocal

/-- What a local expression matches inside a text it matches as a whole text. -/
theorem Spans.alone {r : Regex} (hlocal : r.isLocal = true) {text : List Char} (h : r.Spans p q)
    (hleads : p.Leads text q) : r.Spans (.start text) ⟨text.reverse, []⟩ := by
  have hp : Place.inside ⟨p.before, q.after⟩ (.start text) = p := by
    rw [Place.inside, Place.start, List.nil_append, ← hleads.after]
  have hq : Place.inside ⟨p.before, q.after⟩ ⟨text.reverse, []⟩ = q := by
    rw [Place.inside, List.nil_append, ← hleads.before]
  have hspan : r.Spans (Place.inside ⟨p.before, q.after⟩ (.start text))
      (Place.inside ⟨p.before, q.after⟩ ⟨text.reverse, []⟩) := by
    rwa [hp, hq]
  exact hspan.of_inside hlocal

end Regex

end NamedRoutes
