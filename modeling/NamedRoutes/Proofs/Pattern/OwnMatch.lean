import NamedRoutes.Proofs.Chunk.Entries
import NamedRoutes.Proofs.Pattern.Fragments

/-!
How a compiled pattern matches by itself. Its text can be read without the signs for the start and
the end, and has one group for each parameter. The expression of a parameter that is an expression
by itself can be pasted anywhere, and so can the text of a pattern with such parameters only.
-/

namespace NamedRoutes

open Regex

/-- Whether the expression of a parameter is one without the parentheses around it. -/
def Parameter.IsSelfContained (p : Parameter) : Prop :=
  ∃ text e, p.value.source = "^(" ++ text ++ ")$" ∧ Expression.compile text = .ok e

namespace Parameter

/-- The text of the expression of a parameter without the parentheses and the signs around it. -/
def expressionText (p : Parameter) : String :=
  .ofList (p.value.source.toList.drop 2).dropLast.dropLast

theorem isSelfContained_iff (p : Parameter) :
    p.IsSelfContained ↔ p.value.source = "^(" ++ p.expressionText ++ ")$" ∧
      (Expression.compile p.expressionText).isOk = true := by
  constructor
  · rintro ⟨text, e, hsource, hcompile⟩
    have htext : p.expressionText = text := by
      apply String.toList_injective
      simp [expressionText, hsource]
    rw [htext, hcompile]
    exact ⟨hsource, rfl⟩
  · rintro ⟨hsource, hok⟩
    cases hcompile : Expression.compile p.expressionText with
    | error cause =>
        rw [hcompile] at hok
        cases hok
    | ok e => exact ⟨_, e, hsource, hcompile⟩

instance (p : Parameter) : Decidable p.IsSelfContained :=
  decidable_of_iff _ p.isSelfContained_iff.symm

/-- The expressions that a parameter can have without one being written out. -/
def stockTexts : List String := Placeholder.defaultExpression ::
    Shortcut.all.map Shortcut.expression

/-- Whether the expression of a parameter is one that someone wrote out. -/
def IsCustom (p : Parameter) : Prop :=
  p.value.source ∉ stockTexts.map fun text => "^(" ++ text ++ ")$"

instance (p : Parameter) : Decidable p.IsCustom := inferInstanceAs (Decidable (¬ _))

theorem stock_compile : ∀ text ∈ stockTexts, (Expression.compile text).isOk = true := by
  decide +kernel

/-- The other expressions are sound by themselves. -/
theorem isSelfContained_of_not_isCustom {p : Parameter} (h : ¬ p.IsCustom) :
    p.IsSelfContained := by
  obtain ⟨text, hmem, hsource⟩ := List.mem_map.mp (Decidable.not_not.mp h)
  have hok := stock_compile text hmem
  cases hcompile : Expression.compile text with
  | error cause =>
      rw [hcompile] at hok
      cases hok
  | ok e => exact ⟨text, e, hsource.symm, hcompile⟩

end Parameter

namespace RoutePattern

def IsCompiled (p : RoutePattern) : Prop := ∃ path space, compile path space = .ok p

theorem IsCompiled.expression {p : RoutePattern} (hp : p.IsCompiled) :
    Expression.compile ("^" ++ p.regex ++ "$") = .ok p.expression := by
  obtain ⟨path, space, hcompile⟩ := hp
  obtain ⟨fragments, hpasted⟩ := pasted_of_compile hcompile
  exact hpasted.expression

/-- Patterns with the same text have the same expression. -/
theorem expression_congr {p q : RoutePattern} (hp : p.IsCompiled) (hq : q.IsCompiled)
    (h : p.regex = q.regex) : p.expression = q.expression := by
  have hexpression := hp.expression
  rw [h, hq.expression] at hexpression
  exact (Except.ok.inj hexpression).symm

/-- The text of a compiled pattern opens a group for each name, wherever it stands. -/
theorem IsCompiled.opens {p : RoutePattern} (hp : p.IsCompiled) :
    Reader.Opens p.regex.toList p.names.length := by
  obtain ⟨path, space, hcompile⟩ := hp
  obtain ⟨fragments, hpasted⟩ := pasted_of_compile hcompile
  have hopens := Fragment.opens_all fragments hpasted.checked
  rwa [← hpasted.text, Fragment.parameterCount, ← hpasted.names] at hopens

theorem IsCompiled.parse {p : RoutePattern} (hp : p.IsCompiled) :
    parse ('^' :: (p.regex.toList ++ ['$'])) = .ok (p.expression.regex, p.expression.groups) := by
  have hparse := (Expression.compile_eq_ok hp.expression).1
  rwa [toList_anchored] at hparse

/-- Whatever the expressions of its parameters are, a pattern has a group for each of them. -/
theorem IsCompiled.groups {p : RoutePattern} (hp : p.IsCompiled) :
    p.expression.groups = p.names.length :=
  hp.opens.groups_eq hp.parse

/-- Patterns with one text have the same number of parameters. -/
theorem length_names_congr {p q : RoutePattern} (hp : p.IsCompiled) (hq : q.IsCompiled)
    (h : p.regex = q.regex) : p.names.length = q.names.length := by
  rw [← hp.groups, ← hq.groups, expression_congr hp hq h]

/-- The text of a pattern, and how it is read by itself. -/
def part {p : RoutePattern} {r : Reader}
    (h : Reader.OwnReading p.regex.toList p.names.length r) : Part :=
  ⟨p.regex.toList, p.names.length, r, h⟩

/-- The text of a pattern that refers to no group can be read by itself, and then matches a path as
the pattern does. -/
theorem exists_ownReading {p : RoutePattern} (hp : p.IsCompiled)
    (hrefers : p.expression.regex.refers = false) :
    ∃ (r : Reader) (h : Reader.OwnReading p.regex.toList p.names.length r),
      ∀ path, (part h).ownMatch? path = p.expression.fullMatch? path := by
  obtain ⟨r, hown, hgroups, hregex⟩ := Reader.ownReading_of_parse hp.opens hp.parse hrefers
  refine ⟨r, hown, fun path => ?_⟩
  unfold Part.ownMatch? Expression.fullMatch? Expression.groupNumbers
  rw [hgroups, fullMatch?_eq, hregex, hown.ending?_anchored]
  rfl

theorem value_inj {text : String} {e : List Char}
    (h : Fragment.valueSource e = "^(" ++ text ++ ")$") : text.toList = e := by
  have htexts := congrArg String.toList h
  simp only [Fragment.valueSource, String.toList_append, String.toList_ofList] at htexts
  have hinner : e ++ [')', '$'] = text.toList ++ [')', '$'] := by simpa using htexts
  exact (List.append_cancel_right hinner).symm

/-- The expressions of self-contained parameters can be read anywhere. -/
theorem Pasted.standalone {p : RoutePattern} {fragments : List Fragment}
    (hpasted : p.Pasted fragments) (h : ∀ q ∈ p.parameters, q.IsSelfContained) :
    ∀ e ∈ fragments.filterMap Fragment.expression?, ∃ s, Reader.Standalone e s := by
  intro e he
  have hvalue : Fragment.valueSource e ∈ p.parameters.map (·.value.source) := by
    rw [hpasted.values]
    exact List.mem_map_of_mem he
  obtain ⟨q, hq, hsource⟩ := List.mem_map.mp hvalue
  obtain ⟨text, expression, htext, hexpression⟩ := h q hq
  obtain rfl := value_inj (hsource.symm.trans htext)
  exact Reader.standalone_of_parse (hpasted.checked _ he) (Expression.compile_eq_ok hexpression).1

/-- The text of a pattern whose parameters have self-contained expressions can be pasted anywhere.
-/
theorem reads_of_selfContained {p : RoutePattern} (hp : p.IsCompiled)
    (h : ∀ q ∈ p.parameters, q.IsSelfContained) :
    Reader.Reads p.regex.toList p.names.length := by
  obtain ⟨path, space, hcompile⟩ := hp
  obtain ⟨fragments, hpasted⟩ := pasted_of_compile hcompile
  have hreads := Fragment.reads_all fragments (hpasted.standalone h)
  rwa [← hpasted.text, Fragment.parameterCount, ← hpasted.names] at hreads

/-- A pattern that can be pasted anywhere refers to no group. -/
theorem refers_of_reads {p : RoutePattern} (hp : p.IsCompiled)
    (h : Reader.Reads p.regex.toList p.names.length) : p.expression.regex.refers = false := by
  obtain ⟨regex, hregex, hrefers⟩ := Reader.parse_of_reads h
  obtain ⟨rfl, _⟩ := Prod.mk.inj (Except.ok.inj (hp.parse.symm.trans hregex))
  exact hrefers

end RoutePattern

end NamedRoutes
