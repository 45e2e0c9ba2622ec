import NamedRoutes.RouteStore

/-!
Where the releases of the engine differ. They run an expression alike unless it has a possessive
loop that goes round by round. So a store none of whose merged expressions has one answers alike in
all releases.
-/

namespace NamedRoutes

section Releases

variable (first second : Regex.Release)

namespace Regex

/-- Whether an expression has a possessive loop whose rounds are more than one character each. -/
def loopsPossessively : Regex → Bool
  | .empty | .never | .one _ | .anchor _ | .backref .. => false
  | .seq first second | .alt first second | .conditional _ first second =>
      first.loopsPossessively || second.loopsPossessively
  | .group body | .capture _ body | .atomic body | .ahead _ body | .behind _ _ body =>
      body.loopsPossessively
  | .repeated greed _ _ body =>
      greed == .possessive && body.test?.isNone || body.loopsPossessively

/-- Without such a loop an expression is run alike in all releases. -/
theorem run_eq_of_release (r : Regex) (h : r.loopsPossessively = false) (looping : Bool) :
    @run first r looping = @run second r looping := by
  induction r generalizing looping with
  | empty | never | one test | anchor a | backref number folding => rfl
  | seq left right ihl ihr =>
      obtain ⟨hl, hr⟩ := Bool.or_eq_false_iff.mp h
      funext t k
      simp only [run, ihl hl, ihr hr]
  | alt left right ihl ihr =>
      obtain ⟨hl, hr⟩ := Bool.or_eq_false_iff.mp h
      funext t k
      simp only [run, ihl hl, ihr hr]
  | conditional number yes no ihy ihn =>
      obtain ⟨hy, hn⟩ := Bool.or_eq_false_iff.mp h
      funext t k
      simp only [run, ihy hy, ihn hn]
  | group body ih => exact ih h looping
  | capture number body ih =>
      funext t k
      simp only [run, ih h]
  | atomic body ih =>
      funext t k
      simp only [run, ih h]
  | ahead negated body ih =>
      funext t k
      simp only [run, ih h]
  | behind negated width body ih =>
      funext t k
      simp only [run, ih h]
  | repeated greed least most body ih =>
      obtain ⟨hloop, hbody⟩ := Bool.or_eq_false_iff.mp h
      funext t k
      cases htest : body.test? with
      | some test => simp only [run, htest]
      | none =>
          cases greed with
          | greedy => simp only [run, htest, ih hbody]
          | lazy => simp only [run, htest, ih hbody]
          | possessive =>
              rw [htest] at hloop
              cases hloop

end Regex

theorem Expression.fullMatch?_eq_of_release {e : Expression} (h : e.regex.loopsPossessively = false)
    (text : String) : @fullMatch? first e text = @fullMatch? second e text := by
  simp only [fullMatch?, Regex.fullMatch?, Regex.run_eq_of_release first second e.regex h]

theorem ChunkedMatcher.search_eq_of_release (method : Method) (path : String) (chunks : List Chunk)
    (h : ∀ chunk ∈ chunks, chunk.expression.regex.loopsPossessively = false) :
    @search first method path chunks = @search second method path chunks := by
  induction chunks with
  | nil => rfl
  | cons chunk rest ih =>
      obtain ⟨hchunk, hrest⟩ := List.forall_mem_cons.mp h
      simp only [search, Expression.fullMatch?_eq_of_release first second hchunk, ih hrest]

/-- A store answers alike in all releases if no merged expression of its patterns has a possessive
loop. -/
theorem RouteStore.match?_eq_of_release (s : RouteStore)
    (h : ∀ out, s.prepared = .ok out → ∀ chunk ∈ out.value.chunks,
      chunk.expression.regex.loopsPossessively = false) (method path : Value) :
    @match? first s method path = @match? second s method path := by
  have htrimmed : ∀ known text, @matchTrimmed first s known text =
      @matchTrimmed second s known text := by
    intro known text
    unfold matchTrimmed
    cases hprepared : s.prepared with
    | error cause => rfl
    | ok out =>
        simp only [bind, Except.bind, ChunkedMatcher.match?,
          ChunkedMatcher.search_eq_of_release first second known text _ (h out hprepared)]
  simp only [match?, htrimmed]

end Releases

/-- In the early releases the loop keeps the letter of a round that fails on what follows it. -/
example : (Expression.compile "(?:a(?!b))*+ab").toOption.map (fun e =>
    ((e.accepts "ab").toOption, (@Expression.accepts .early e "ab").toOption)) =
      some (some true, some false) := by
  decide +kernel

end NamedRoutes
