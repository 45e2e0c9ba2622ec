import NamedRoutes.Proofs.Regex.Outline

/-!
Where a sign ends. A character that cannot belong to the sign before completes it, as the end of the
text does, and is then read on its own. After a closing parenthesis no sign is left to be completed.
-/

namespace NamedRoutes.Regex

/-- Whether a character can belong to what has been read of a sign. -/
def Mode.continuedBy : Mode → Char → Bool
  | .plain, _ => false
  | .octal .., c | .longReference .., c => (Reader.octalValue? c).isSome
  | .reference _, c => (Reader.decimalValue? c).isSome
  | .greed .., c => c == '?' || c == '+'
  | .bounds _, c => (Reader.decimalValue? c).isSome || c == ',' || c == '}'
  | _, _ => true

/-- Whether only the next character tells if a sign is complete. -/
def Mode.isOpenEnded : Mode → Bool
  | .octal .. | .reference _ | .longReference .. | .greed .. | .bounds _ => true
  | _ => false

namespace Reader

variable {r s : Reader}

/-- A character that does not belong to the sign before is read after the sign is completed. -/
theorem take_of_settle {c : Char} (h : r.settle = .ok s) (hc : r.mode.continuedBy c = false) :
    r.take c = s.plain c := by
  unfold settle at h
  unfold take
  cases hmode : r.mode with
  | plain =>
      rw [hmode] at h
      cases h
      rfl
  | octal digits value =>
      rw [hmode] at h hc
      have hoctal : octalValue? c = none := by simpa [Mode.continuedBy] using hc
      simp only at h
      simp only [hoctal, h]
      rfl
  | reference first =>
      rw [hmode] at h hc
      have hdecimal : decimalValue? c = none := by simpa [Mode.continuedBy] using hc
      simp only at h
      simp only [hdecimal, h]
      rfl
  | longReference first second =>
      rw [hmode] at h hc
      have hoctal : octalValue? c = none := by simpa [Mode.continuedBy] using hc
      simp only at h
      simp only [hoctal, h]
      rfl
  | greed least most =>
      rw [hmode] at h hc
      cases h
      simp only [Mode.continuedBy, Bool.or_eq_false_iff, beq_eq_false_iff_ne] at hc
      split <;> simp_all
  | bounds read =>
      rw [hmode] at h hc
      cases h
      simp only [Mode.continuedBy, Bool.or_eq_false_iff] at hc
      simp only [hc, Bool.false_and, Bool.or_false, Bool.false_eq_true, if_false]
  | _ =>
      rw [hmode] at hc
      cases hc

theorem foldl_pushChar (text : List Char) (r : Reader) (h : r.mode = .plain) :
    ∃ items, text.foldl pushChar r =
      { r with mode := .plain, top := { r.top with items } } := by
  induction text generalizing r with
  | nil => exact ⟨r.top.items, by rw [← h]; rfl⟩
  | cons c rest ih => exact ih (r.pushChar c) rfl

/-- Completing a sign changes nothing but the current alternative. -/
theorem settle_eq_ok (h : r.settle = .ok s) :
    ∃ mode items, s = { r with mode, top := { r.top with items } } := by
  unfold settle at h
  cases hmode : r.mode with
  | plain =>
      rw [hmode] at h
      cases h
      exact ⟨r.mode, r.top.items, rfl⟩
  | lineRemark escaped =>
      rw [hmode] at h
      cases escaped <;> cases h
      exact ⟨r.mode, r.top.items, rfl⟩
  | octal digits value =>
      rw [hmode] at h
      simp only [pushCode] at h
      split at h
      · cases h
        exact ⟨_, _, rfl⟩
      · cases h
  | reference first =>
      rw [hmode] at h
      exact ⟨_, _, (pushReference_eq_ok r s first h).1⟩
  | longReference first second =>
      rw [hmode] at h
      exact ⟨_, _, (pushReference_eq_ok r s _ h).1⟩
  | greed least most =>
      rw [hmode] at h
      cases h
      unfold repeatLast
      cases r.top.items with
      | nil => exact ⟨.plain, r.top.items, rfl⟩
      | cons item items => exact ⟨_, _, rfl⟩
  | bounds read =>
      rw [hmode] at h
      cases h
      obtain ⟨items, hitems⟩ := foldl_pushChar read.reverse (r.pushChar '{') rfl
      exact ⟨_, items, hitems⟩
  | _ =>
      rw [hmode] at h
      cases h

/-- What a reader has to be for the expression to be complete. -/
theorem finish_eq_ok_iff (r : Reader) (regex : Regex) (count : Nat) :
    r.finish = .ok (regex, count) ↔
      ∃ s, r.settle = .ok s ∧ s.outer = [] ∧ s.top.flags.contradictory = false ∧
        s.tested ≤ s.groups.length ∧ s.pending = none ∧ regex = s.top.body ∧
        count = s.groups.length := by
  unfold finish
  cases r.settle with
  | error fault => simp [bind, Except.bind]
  | ok s =>
      simp only [bind, Except.bind, pure, Except.pure, throw, throwThe, MonadExceptOf.throw,
        Except.ok.injEq, exists_eq_left']
      cases houter : s.outer with
      | cons parent outer => simp
      | nil =>
          cases hflags : s.top.flags.contradictory with
          | true => simp
          | false =>
              by_cases htested : s.groups.length < s.tested
              · have hnot : ¬ s.tested ≤ s.groups.length := by omega
                simp [htested, hnot]
              · have hle : s.tested ≤ s.groups.length := by omega
                cases hpending : s.pending with
                | some fault => simp [htested]
                | none => simp [htested, hle, eq_comm]

theorem push_test_inside (k r : Reader) (test : CharTest) :
    (k.inside r).push (.one test) = k.inside (r.push (.one test)) :=
  k.pushItem_inside r (.single (.one test))

theorem pushChar_inside (k r : Reader) (c : Char) :
    (k.inside r).pushChar c = k.inside (r.pushChar c) := by
  unfold pushChar
  rw [k.flags_inside r]
  exact push_test_inside k r _

theorem foldl_pushChar_inside (k : Reader) (text : List Char) (r : Reader) :
    text.foldl pushChar (k.inside r) = k.inside (text.foldl pushChar r) := by
  induction text generalizing r with
  | nil => rfl
  | cons c rest ih =>
      rw [List.foldl_cons, pushChar_inside, ih]
      rfl

theorem pushCode_inside (k : Reader) (code : Nat) (h : r.pushCode code = .ok s) :
    (k.inside r).pushCode code = .ok (k.inside s) := by
  unfold pushCode at h ⊢
  by_cases hcode : code ≤ 0x10FFFF
  · simp only [hcode, if_true] at h ⊢
    cases h
    rw [k.flags_inside r]
    exact congrArg Except.ok (push_test_inside k r _)
  · simp only [hcode, if_false] at h
    cases h

/-- A sign of a text without groups is completed in the same way inside another text. -/
theorem settle_inside (k : Reader) (hr : r.Poised) (hgroups : r.groups = [])
    (h : r.settle = .ok s) : (k.inside r).settle = .ok (k.inside s) := by
  have hinside : (k.inside r).mode = r.mode := rfl
  unfold settle at h ⊢
  rw [hinside]
  unfold Poised at hr
  cases hmode : r.mode with
  | plain =>
      rw [hmode] at h
      cases h
      rfl
  | lineRemark escaped =>
      rw [hmode] at h
      cases escaped <;> cases h
      rfl
  | octal digits value =>
      rw [hmode] at h
      exact pushCode_inside k value h
  | reference first =>
      rw [hmode] at h
      exact absurd hgroups (groups_ne_nil_of_pushReference h)
  | longReference first second =>
      rw [hmode] at h
      exact absurd hgroups (groups_ne_nil_of_pushReference h)
  | greed least most =>
      rw [hmode] at h hr
      cases h
      exact congrArg Except.ok (k.repeatLast_inside r .greedy least most hr)
  | bounds read =>
      rw [hmode] at h
      cases h
      have habandon : (k.inside r).abandonBounds read = k.inside (r.abandonBounds read) := by
        unfold abandonBounds
        rw [pushChar_inside, foldl_pushChar_inside]
      exact congrArg Except.ok habandon
  | _ =>
      rw [hmode] at h
      cases h

/-- Completing a sign is a script of actions. -/
theorem settle_scripted (h : r.settle = .ok s) : ∃ script, Action.performAll script r = .ok s := by
  have hsingle : ∀ a : Action, a.perform r = .ok s → ∃ script, Action.performAll script r = .ok s :=
    fun a ha => ⟨[a], (Action.performAll_singleton a r).trans ha⟩
  have hscript : ∀ {step : Reader → Except RegexError Reader}, Scripted r.top.flags step →
      step r = .ok s → ∃ script, Action.performAll script r = .ok s :=
    fun ⟨script, hstep⟩ hs => ⟨script, (hstep r rfl).symm.trans hs⟩
  unfold settle at h
  cases hmode : r.mode with
  | plain =>
      rw [hmode] at h
      cases h
      exact ⟨[], rfl⟩
  | lineRemark escaped =>
      rw [hmode] at h
      cases escaped <;> cases h
      exact ⟨[], rfl⟩
  | octal digits value =>
      rw [hmode] at h
      exact hscript (.pushCode value) h
  | reference first =>
      rw [hmode] at h
      exact hsingle (.refer first) h
  | longReference first second =>
      rw [hmode] at h
      exact hsingle (.refer (first * 10 + second)) h
  | greed least most =>
      rw [hmode] at h
      refine hsingle (.repeatLast .greedy) ?_
      simp only [Action.perform, hmode]
      exact h
  | bounds read =>
      rw [hmode] at h
      exact hscript (.abandonBounds read) h
  | _ =>
      rw [hmode] at h
      cases h

theorem numbered_settle (h : r.settle = .ok s) (hr : r.Numbered) : s.Numbered := by
  obtain ⟨script, hscript⟩ := settle_scripted h
  exact performAll_keeps numbered_perform script r s hscript hr

/-- Completing a sign brings no reference to a text without groups. -/
theorem noReference_settle (hr : r.Groupless) (h : r.settle = .ok s) : s.NoReference := by
  obtain ⟨script, hscript⟩ := settle_scripted h
  obtain ⟨mode, items, hs⟩ := settle_eq_ok h
  have hnumberless : s.Numberless := by
    rw [hs]
    exact ⟨hr.numberless.groups, hr.numberless.tested⟩
  exact (groupless_performAll script r s hr hscript hnumberless).reference

theorem plain_parenthesis (r : Reader) : r.plain ')' = r.leave := by
  have hblank : Text.isAsciiBlank (')' : Char).toNat = false := by decide
  have hremark : ((')' : Char) == '#') = false := rfl
  unfold plain
  simp only [hblank, hremark, Bool.and_false, Bool.false_eq_true, if_false]

theorem leave_outline (h : r.leave = .ok s) : s.mode.isOpenEnded = false := by
  obtain ⟨parent, outer, _, rfl⟩ := leave_eq_ok r s h
  rfl

theorem plain_parenthesis_outline (h : r.plain ')' = .ok s) : s.mode.isOpenEnded = false := by
  rw [plain_parenthesis] at h
  exact leave_outline h

theorem setItem_outline {negated : Bool} {items : List SetItem} {left : Option SetItem}
    {item : SetItem} (h : r.setItem negated items left item = .ok s) :
    s.mode.isOpenEnded = false := by
  unfold setItem at h
  split at h
  · cases h
    rfl
  · split at h
    · cases h
      rfl
    · cases h
  · cases h

theorem setStart_parenthesis {negated : Bool} {items : List SetItem}
    (h : r.setStart negated items ')' = .ok s) : s.mode.isOpenEnded = false := by
  have hclose : ((')' : Char) == ']' && !items.isEmpty) = false := rfl
  have hescape : ((')' : Char) == '\\') = false := rfl
  unfold setStart at h
  simp only [hclose, hescape, Bool.false_eq_true, if_false] at h
  exact setItem_outline h

theorem set_parenthesis {negated : Bool} {items : List SetItem} (phase : SetPhase)
    (h : r.set negated items ')' phase = .ok s) : s.mode.isOpenEnded = false := by
  cases phase with
  | start => exact setStart_parenthesis h
  | item => exact setStart_parenthesis h
  | after left => exact setStart_parenthesis h
  | hyphen left => exact setItem_outline h
  | escape left => exact setItem_outline h
  | hex left digits value => cases h
  | octal left digits value =>
      cases left with
      | none => exact setStart_parenthesis h
      | some low =>
          cases low with
          | single low =>
              simp only [set, show octalValue? ')' = none from rfl] at h
              split at h
              · exact setStart_parenthesis h
              · cases h
          | _ => cases h

theorem name_parenthesis {use : NameUse} {read : List Char} (h : r.name use read ')' = .ok s) :
    s.mode.isOpenEnded = false := by
  have hrefer : ∀ number, r.pushReference number = .ok s → s.mode.isOpenEnded = false := by
    intro number hnumber
    rw [(pushReference_eq_ok r s number hnumber).1]
    rfl
  cases use with
  | group =>
      cases h
      rfl
  | reference =>
      have hescape : ((')' : Char) == '\\') = false := rfl
      simp only [name, hescape, bne_self_eq_false, Bool.false_eq_true, if_false] at h
      split at h
      · cases h
      · split at h
        · exact hrefer _ h
        · cases h
  | condition =>
      change (if read.reverse.isEmpty then Except.error RegexError.badName
        else r.condition read.reverse) = .ok s at h
      split at h
      · cases h
      · obtain ⟨number, tested, rfl, _⟩ := condition_eq_ok r s _ h
        rfl

/-- The first of two steps that succeed, and the second. -/
theorem bind_eq_ok {step : Reader → Except RegexError Reader} {first : Except RegexError Reader}
    (h : first >>= step = .ok s) : ∃ t, first = .ok t ∧ step t = .ok s := by
  cases first with
  | error fault => cases h
  | ok t => exact ⟨t, rfl, h⟩

/-- After a closing parenthesis no sign is left to be completed. -/
theorem take_parenthesis (h : r.take ')' = .ok s) : s.mode.isOpenEnded = false := by
  unfold take at h
  cases hmode : r.mode with
  | plain =>
      rw [hmode] at h
      exact plain_parenthesis_outline h
  | lineRemark escaped =>
      rw [hmode] at h
      cases h
      cases escaped <;> rfl
  | remark escaped =>
      rw [hmode] at h
      cases h
      cases escaped <;> rfl
  | escape =>
      rw [hmode] at h
      cases h
      rfl
  | hex digits value =>
      rw [hmode] at h
      cases h
  | octal digits value =>
      rw [hmode] at h
      obtain ⟨t, _, ht⟩ := bind_eq_ok h
      exact plain_parenthesis_outline ht
  | reference first =>
      rw [hmode] at h
      obtain ⟨t, _, ht⟩ := bind_eq_ok h
      exact plain_parenthesis_outline ht
  | longReference first second =>
      rw [hmode] at h
      obtain ⟨t, _, ht⟩ := bind_eq_ok h
      exact plain_parenthesis_outline ht
  | greed least most =>
      rw [hmode] at h
      exact plain_parenthesis_outline h
  | bounds read =>
      rw [hmode] at h
      exact plain_parenthesis_outline h
  | set negated items phase =>
      rw [hmode] at h
      exact set_parenthesis phase h
  | opened =>
      rw [hmode] at h
      exact plain_parenthesis_outline h
  | question =>
      rw [hmode] at h
      cases h
  | named =>
      rw [hmode] at h
      cases h
  | lessThan =>
      rw [hmode] at h
      cases h
  | flags added removed =>
      rw [hmode] at h
      cases removed with
      | none =>
          simp only [readFlags] at h
          split at h
          · cases h
            rfl
          · cases h
      | some removed => cases removed <;> cases h
  | name use read =>
      rw [hmode] at h
      exact name_parenthesis h

end Reader

end NamedRoutes.Regex
