import NamedRoutes.ErrorClass
import NamedRoutes.Proofs.Pattern.OwnMatch

/-!
Which paths are accepted as patterns. A placeholder is checked as one group around its expression.
If every expression that passes this check is one by itself, then whatever is made of them is an
expression, and a path that is not accepted is rejected as a bad pattern. Otherwise some text that
was made of them may turn out to be no expression.
-/

namespace NamedRoutes

open Regex

/-- Whether the check of a placeholder is enough for a text: flags do not contradict each other, and
a text that makes one group is an expression by itself. -/
def Expression.IsPlaceable (text : String) : Prop :=
  Expression.compile ("(" ++ text ++ ")") ≠ .error .contradictoryFlags ∧
    ∀ e, Expression.compile ("(" ++ text ++ ")") = .ok e → e.groups = 1 →
      ∃ own, Expression.compile text = .ok own

theorem Expression.isPlaceable_iff (text : String) : Expression.IsPlaceable text ↔
    (match Expression.compile ("(" ++ text ++ ")") with
      | .error cause => cause != .contradictoryFlags
      | .ok e => e.groups != 1 || (Expression.compile text).isOk) = true := by
  unfold IsPlaceable
  cases Expression.compile ("(" ++ text ++ ")") with
  | error cause => simp
  | ok e =>
      have hok : (∃ own, Expression.compile text = .ok own) ↔
          (Expression.compile text).isOk = true := by
        cases Expression.compile text with
        | error cause => simp [Except.isOk, Except.toBool]
        | ok own => simp [Except.isOk, Except.toBool]
      simp [hok, Decidable.imp_iff_not_or]

instance (text : String) : Decidable (Expression.IsPlaceable text) :=
  decidable_of_iff _ (Expression.isPlaceable_iff text).symm

theorem Expression.compile_of_parse {source : String} {regex : Regex} {count : Nat}
    (h : Regex.parse source.toList = .ok (regex, count)) :
    Expression.compile source = .ok ⟨source, regex, count⟩ := by
  unfold Expression.compile
  rw [h]
  rfl

theorem Expression.IsPlaceable.compile {text : String} (h : Expression.IsPlaceable text)
    (hchecked : Reader.HasOneGroup text.toList) : ∃ own, Expression.compile text = .ok own := by
  obtain ⟨regex, hparse⟩ := hchecked
  have hgroup : ("(" ++ text ++ ")").toList = '(' :: (text.toList ++ [')']) := by simp
  rw [← hgroup] at hparse
  exact h.2 _ (Expression.compile_of_parse hparse) rfl

theorem Expression.IsPlaceable.standalone {text : String} (h : Expression.IsPlaceable text)
    (hchecked : Reader.HasOneGroup text.toList) : ∃ s, Reader.Standalone text.toList s := by
  obtain ⟨own, hown⟩ := h.compile hchecked
  exact Reader.standalone_of_parse hchecked (Expression.compile_eq_ok hown).1

/-- A text that can be read anywhere is an expression between the signs for the start and the end.
-/
theorem Expression.compile_of_reads {source : String} {text : List Char} {count : Nat}
    (h : Reader.Reads text count) (hsource : source.toList = '^' :: (text ++ ['$'])) :
    ∃ e, Expression.compile source = .ok e := by
  obtain ⟨regex, hparse, _⟩ := Reader.parse_of_reads h
  rw [← hsource] at hparse
  exact ⟨_, Expression.compile_of_parse hparse⟩

/-- Whether an error is about a text that is no expression. -/
def Error.IsBadText (e : Error) : Prop :=
  ∃ source cause, e = .badExpression source cause ∧ Expression.compile source = .error cause

namespace RoutePattern

/-- The texts of the expressions of a path, as far as the path has the form of a pattern. -/
def placeholderTexts (path : String) : List String :=
  match Template.parse (Shortcut.expand path) with
  | .ok t => t.placeholders.map (·.1.expression)
  | .error _ => []

theorem placeholderTexts_of_parse {path : String} {t : Template}
    (h : Template.parse (Shortcut.expand path) = .ok t) :
    placeholderTexts path = t.placeholders.map (·.1.expression) := by
  unfold placeholderTexts
  rw [h]

theorem placeholderGroup_error {path : String} {p : Placeholder} {e : Error}
    (h : placeholderGroup path p = .error e) : e.isA .registration = true ∨
      (e.IsBadText ∧ ¬ Expression.IsPlaceable p.expression) := by
  unfold placeholderGroup at h
  cases hcompile : Expression.compile ("(" ++ p.expression ++ ")") with
  | error cause =>
      simp only [hcompile] at h
      cases cause with
      | contradictoryFlags =>
          cases h
          refine Or.inr ⟨⟨_, _, rfl, hcompile⟩, ?_⟩
          exact fun hplaceable => hplaceable.1 hcompile
      | _ =>
          cases h
          exact Or.inl rfl
  | ok expression =>
      simp only [hcompile] at h
      by_cases hone : expression.groups = 1
      · simp [hone] at h
      · simp only [hone, if_false] at h
        cases h
        exact Or.inl rfl

theorem addPlaceholder_error {path : String} {d : Draft} {next : Placeholder × List Char}
    {e : Error} (h : d.addPlaceholder path next = .error e) : e.isA .registration = true ∨
      (e.IsBadText ∧ ¬ Expression.IsPlaceable next.1.expression) := by
  obtain ⟨p, after⟩ := next
  unfold Draft.addPlaceholder at h
  simp only [bind, Except.bind] at h
  cases hgroup : placeholderGroup path p with
  | error cause =>
      rw [hgroup] at h
      cases h
      exact placeholderGroup_error hgroup
  | ok group =>
      rw [hgroup] at h
      unfold Parameter.ofSource at h
      cases hcompile : Expression.compile ("^" ++ group ++ "$") with
      | ok value =>
          simp only [hcompile] at h
          cases h
      | error cause =>
          simp only [hcompile] at h
          cases h
          refine Or.inr ⟨⟨_, _, rfl, hcompile⟩, fun hplaceable => ?_⟩
          obtain ⟨_, htext, hchecked⟩ := placeholderGroup_eq_ok hgroup
          obtain ⟨s, hs⟩ := hplaceable.standalone hchecked
          have hvalue : ("^" ++ group ++ "$").toList =
              '^' :: (Fragment.group p.expression.toList ++ ['$']) := by
            simp [htext]
          obtain ⟨value, hok⟩ := Expression.compile_of_reads hs.readsItem.reads hvalue
          rw [hok] at hcompile
          cases hcompile

theorem foldlM_error {α β : Type} {f : β → α → Except Error β} (items : List α) {start : β}
    {e : Error} (h : items.foldlM f start = .error e) :
    ∃ item ∈ items, ∃ state, f state item = .error e := by
  induction items generalizing start with
  | nil => cases h
  | cons item rest ih =>
      rw [List.foldlM_cons] at h
      cases hfirst : f start item with
      | error cause =>
          rw [hfirst] at h
          cases h
          exact ⟨item, List.mem_cons_self .., start, hfirst⟩
      | ok next =>
          rw [hfirst] at h
          obtain ⟨other, hother, state, hstate⟩ := ih h
          exact ⟨other, List.mem_cons_of_mem _ hother, state, hstate⟩

/-- A path is rejected for itself, unless the check is not enough for one of its placeholders. -/
theorem compile_error {path space : String} {e : Error} (h : compile path space = .error e) :
    e.isA .registration = true ∨
      (e.IsBadText ∧ ¬ ∀ text ∈ placeholderTexts path, Expression.IsPlaceable text) := by
  rcases compile_cases path space with
    ⟨cause, _, herror⟩ | ⟨t, ht, ⟨cause, hdraft, herror⟩ | ⟨d, fragments, hrenders, hexpressions,
      ⟨cause, hcompile, herror⟩ | ⟨p, hp, _⟩⟩⟩
  · rw [herror] at h
    cases h
    exact Or.inl rfl
  · rw [herror] at h
    cases h
    obtain ⟨next, hnext, state, hstate⟩ := foldlM_error _ hdraft
    refine (addPlaceholder_error hstate).imp_right fun ⟨hbad, hnot⟩ => ⟨hbad, fun hplaceable => ?_⟩
    apply hnot
    apply hplaceable
    rw [placeholderTexts_of_parse ht]
    exact List.mem_map_of_mem hnext
  · rw [herror] at h
    cases h
    refine Or.inr ⟨⟨_, _, rfl, hcompile⟩, fun hplaceable => ?_⟩
    -- Otherwise the fragments could be read anywhere, and their text would be an expression.
    have hreads := Fragment.reads_all fragments.reverse fun e he => by
      rw [List.filterMap_reverse, List.mem_reverse] at he
      have hchecked := hrenders.checked e he
      rw [hexpressions, List.mem_reverse] at he
      obtain ⟨next, hnext, rfl⟩ := List.mem_map.mp he
      refine (hplaceable next.1.expression ?_).standalone hchecked
      rw [placeholderTexts_of_parse ht]
      exact List.mem_map_of_mem hnext
    obtain ⟨expression, hok⟩ := Expression.compile_of_reads hreads hrenders.toList_source
    rw [hok] at hcompile
    cases hcompile
  · rw [hp] at h
    cases h

/-- The parameters of a pattern that is accepted so have self-contained expressions. -/
theorem isSelfContained_of_placeable {path space : String} {p : RoutePattern}
    (hplaceable : ∀ text ∈ placeholderTexts path, Expression.IsPlaceable text)
    (h : compile path space = .ok p) : ∀ q ∈ p.parameters, q.IsSelfContained := by
  rcases compile_cases path space with
    ⟨_, _, herror⟩ | ⟨t, ht, ⟨_, _, herror⟩ | ⟨d, fragments, hrenders, hexpressions,
      ⟨_, _, herror⟩ | ⟨p', hp', hpasted⟩⟩⟩
  · rw [herror] at h
    cases h
  · rw [herror] at h
    cases h
  · rw [herror] at h
    cases h
  obtain rfl := Except.ok.inj (hp'.symm.trans h)
  intro q hq
  have hsource := List.mem_map_of_mem (f := fun q : Parameter => q.value.source) hq
  rw [hpasted.values] at hsource
  obtain ⟨e, he, hvalue⟩ := List.mem_map.mp hsource
  have hchecked := hpasted.checked e he
  rw [List.filterMap_reverse, List.mem_reverse, hexpressions, List.mem_reverse] at he
  obtain ⟨next, hnext, rfl⟩ := List.mem_map.mp he
  have htext : next.1.expression ∈ placeholderTexts path := by
    rw [placeholderTexts_of_parse ht]
    exact List.mem_map_of_mem hnext
  obtain ⟨own, hown⟩ := (hplaceable _ htext).compile hchecked
  refine ⟨next.1.expression, own, ?_, hown⟩
  rw [← hvalue, Fragment.valueSource, String.ofList_toList]
  apply String.toList_injective
  simp

end RoutePattern

end NamedRoutes
