import NamedRoutes.Regex.Place

/-!
Places in a text, and how to get from one to another: by a text that lies between them, or by some
steps of a kind in turn.
-/

namespace NamedRoutes

/-- Whether a text leads from one place to another. -/
structure Place.Leads (p : Place) (text : List Char) (q : Place) : Prop where
  before : q.before = text.reverse ++ p.before
  after : p.after = text ++ q.after

namespace Place

variable {p q r : Place} {text more : List Char} {accepts : Char → Bool}

theorem Leads.refl (p : Place) : p.Leads [] p := ⟨rfl, rfl⟩

theorem Leads.trans (h : p.Leads text q) (h' : q.Leads more r) : p.Leads (text ++ more) r :=
  ⟨by rw [h'.before, h.before, List.reverse_append, List.append_assoc],
    by rw [h.after, h'.after, List.append_assoc]⟩

theorem leads_nil : p.Leads [] q ↔ q = p := by
  constructor
  · intro h
    cases p
    cases q
    have hbefore := h.before
    have hafter := h.after
    simp_all
  · rintro rfl
    exact .refl _

theorem Leads.of_append (h : p.Leads (text ++ more) r) :
    ∃ q, p.Leads text q ∧ q.Leads more r := by
  refine ⟨⟨text.reverse ++ p.before, more ++ r.after⟩, ⟨rfl, ?_⟩, ?_, rfl⟩
  · rw [h.after, List.append_assoc]
  · rw [h.before, List.reverse_append, List.append_assoc]

theorem Leads.of_cons {c : Char} (h : p.Leads (c :: more) r) :
    ∃ q, p.Leads [c] q ∧ q.Leads more r :=
  Leads.of_append (show p.Leads ([c] ++ more) r from h)

theorem Leads.text_eq (h : p.Leads text q) : q.text = p.text := by
  simp only [Place.text, h.before, h.after, List.reverse_append, List.reverse_reverse,
    List.append_assoc]

/-- Who moves on to another place has less of the text to come. -/
theorem Leads.lt_of_ne (h : p.Leads text q) (hmoves : q ≠ p) : q.after.length < p.after.length := by
  cases text with
  | nil => exact absurd (leads_nil.mp h) hmoves
  | cons c more =>
      rw [h.after, List.length_append, List.length_cons]
      omega

/-- The text between two places is the part of the whole between their indices. -/
theorem Leads.span (h : p.Leads text q) :
    p.index ≤ q.index ∧ (p.text.drop p.index).take (q.index - p.index) = text := by
  have hindex : q.index = p.index + text.length := by
    simp only [Place.index, h.before, List.length_append, List.length_reverse, Nat.add_comm]
  refine ⟨by omega, ?_⟩
  have hbefore : p.index = p.before.reverse.length := List.length_reverse.symm
  rw [hindex, Nat.add_sub_cancel_left, Place.text, hbefore, List.drop_left, h.after,
    List.take_left]

theorem next?_eq_some_iff : p.next? accepts = some q ↔ ∃ c, accepts c = true ∧ p.Leads [c] q := by
  obtain ⟨before, after⟩ := p
  cases after with
  | nil =>
      simp only [next?, reduceCtorEq, false_iff, not_exists, not_and]
      intro c _ h
      cases h.after
  | cons c rest =>
      by_cases hc : accepts c = true
      · simp only [next?, hc, if_true, Option.some.injEq]
        constructor
        · rintro rfl
          exact ⟨c, hc, rfl, rfl⟩
        · rintro ⟨d, _, hbefore, hafter⟩
          obtain ⟨before', after'⟩ := q
          obtain ⟨rfl, rfl⟩ := List.cons.inj hafter
          exact congrArg (Place.mk · _) hbefore.symm
      · simp only [next?, hc, Bool.false_eq_true, if_false, reduceCtorEq, false_iff, not_exists,
          not_and]
        intro d hd h
        obtain ⟨rfl, _⟩ := List.cons.inj h.after
        exact hc hd

theorem text_of_back? {width : Nat} {back : Place} (h : p.back? width = some back) :
    back.text = p.text := by
  induction width generalizing p with
  | zero =>
      cases h
      rfl
  | succ width ih =>
      obtain ⟨before, after⟩ := p
      cases before with
      | nil => cases h
      | cons c before =>
          refine (ih (p := ⟨before, c :: after⟩) h).trans ?_
          simp [Place.text]

/-- Some steps of a kind in turn. -/
def Steps (step : Place → Place → Prop) : Nat → Place → Place → Prop
  | 0, p, q => q = p
  | count + 1, p, q => ∃ r, step p r ∧ Steps step count r q

namespace Steps

variable {step step' : Place → Place → Prop} {m n count : Nat}

theorem single (h : step p q) : Steps step 1 p q := ⟨q, h, rfl⟩

theorem append (h : Steps step m p q) (h' : Steps step n q r) : Steps step (m + n) p r := by
  induction m generalizing p with
  | zero =>
      obtain rfl : q = p := h
      rwa [Nat.zero_add]
  | succ m ih =>
      obtain ⟨first, hfirst, hrest⟩ := h
      rw [Nat.add_right_comm]
      exact ⟨first, hfirst, ih hrest⟩

theorem split (h : Steps step (m + n) p r) : ∃ q, Steps step m p q ∧ Steps step n q r := by
  induction m generalizing p with
  | zero => exact ⟨p, rfl, by rwa [Nat.zero_add] at h⟩
  | succ m ih =>
      rw [Nat.add_right_comm] at h
      obtain ⟨first, hfirst, hrest⟩ := h
      obtain ⟨q, hm, hn⟩ := ih hrest
      exact ⟨q, ⟨first, hfirst, hm⟩, hn⟩

/-- Steps that stay in the text do so in turn. -/
theorem text_eq (hstep : ∀ p q, step p q → q.text = p.text) (h : Steps step count p q) :
    q.text = p.text := by
  induction count generalizing p with
  | zero => exact congrArg Place.text h
  | succ count ih =>
      obtain ⟨first, hfirst, hrest⟩ := h
      exact (ih hrest).trans (hstep p first hfirst)

/-- Steps that go forward do so in turn. -/
theorem leads (hstep : ∀ p q, step p q → ∃ text, p.Leads text q) (h : Steps step count p q) :
    ∃ text, p.Leads text q := by
  induction count generalizing p with
  | zero => exact ⟨[], leads_nil.mpr h⟩
  | succ count ih =>
      obtain ⟨first, hfirst, hrest⟩ := h
      obtain ⟨text, htext⟩ := hstep p first hfirst
      obtain ⟨more, hmore⟩ := ih hrest
      exact ⟨text ++ more, htext.trans hmore⟩

/-- Steps that stay where they are can be left out. -/
theorem proper (h : Steps step count p q) :
    ∃ n, n ≤ count ∧ Steps (fun p q => step p q ∧ q ≠ p) n p q := by
  induction count generalizing p with
  | zero => exact ⟨0, Nat.le_refl _, h⟩
  | succ count ih =>
      obtain ⟨first, hfirst, hrest⟩ := h
      obtain ⟨n, hn, hproper⟩ := ih hrest
      by_cases hstays : first = p
      · exact ⟨n, Nat.le_succ_of_le hn, hstays ▸ hproper⟩
      · exact ⟨n + 1, Nat.succ_le_succ hn, first, ⟨hfirst, hstays⟩, hproper⟩

/-- Each step that goes forward and does not stay where it is takes a character. -/
theorem le_remaining (hstep : ∀ p q, step p q → ∃ text, p.Leads text q)
    (h : Steps (fun p q => step p q ∧ q ≠ p) count p q) :
    count + q.after.length ≤ p.after.length := by
  induction count generalizing p with
  | zero =>
      obtain rfl : q = p := h
      exact Nat.le_of_eq (Nat.zero_add _)
  | succ count ih =>
      obtain ⟨first, ⟨hfirst, hmoves⟩, hrest⟩ := h
      obtain ⟨text, htext⟩ := hstep p first hfirst
      have hcount := ih hrest
      have hshorter := htext.lt_of_ne hmoves
      omega

end Steps

/-- The places that are counted are those behind some characters in turn that pass the test. -/
theorem getElem?_through (bound i : Nat) :
    (p.through accepts bound)[i]? = some q ↔
      i ≤ bound ∧ Steps (fun p q => p.next? accepts = some q) i p q := by
  induction bound generalizing p i with
  | zero =>
      cases i with
      | zero => simp [through, Steps, eq_comm]
      | succ i => simp [through]
  | succ bound ih =>
      unfold through
      cases hnext : p.next? accepts with
      | none =>
          cases i with
          | zero => simp [Steps, eq_comm]
          | succ i => simp [Steps, hnext]
      | some next =>
          cases i with
          | zero => simp [Steps, eq_comm]
          | succ i => simp [Steps, hnext, ih]

end Place

end NamedRoutes
