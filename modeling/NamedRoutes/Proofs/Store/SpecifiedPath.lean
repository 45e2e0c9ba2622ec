import NamedRoutes.Proofs.Pattern.Alternation
import NamedRoutes.Proofs.Store.FixedPaths

/-!
What is built of a pattern whose parameters fill everything between two slashes, whatever their
expressions: the first value that is refused is reported, then values that are left over, and
otherwise the path has the namespace, the words of the pattern and the given values between single
slashes.
-/

namespace NamedRoutes

namespace Route

variable {route : Route} {p : RoutePattern}

theorem target_of_pattern? (hp : route.pattern? = some p) : route.target = .pattern p := by
  unfold pattern? at hp
  split at hp
  · cases hp
  · next htarget =>
      cases hp
      exact htarget

/-- Building a path of a pattern whose segments have single slashes between them. -/
theorem build_alternating (hp : route.pattern? = some p) (h : Segment.Alternating p.segments)
    (values : List (Option Value)) : route.build values =
      match firstRefusal? route.name p.parameters values with
      | some e => .error e
      | none =>
          if p.parameters.length < values.length then
            .error (.tooManyParameters route.name p.parameters.length values.length)
          else .ok (Path.wrap ("/".intercalate (Segment.parts p.segments values))) := by
  have hfill : fill route.name p.segments {} values =
      match firstRefusal? route.name p.parameters values with
      | some e => .error e
      | none => .ok (PathDraft.ended (Segment.parts p.segments values),
          values.drop p.parameters.length) :=
    fill_alternating h [] values
  rw [build, target_of_pattern? hp]
  simp only [hfill]
  cases firstRefusal? route.name p.parameters values with
  | some e => rfl
  | none =>
      by_cases hleft : p.parameters.length < values.length
      · have hunused : (values.drop p.parameters.length).isEmpty = false := by
          rw [List.isEmpty_eq_false_iff]
          exact fun hnil => Nat.not_le_of_lt hleft (List.drop_eq_nil_iff.mp hnil)
        simp [bind, Except.bind, hunused, hleft, throw, throwThe, MonadExceptOf.throw]
      · have hunused : (values.drop p.parameters.length).isEmpty = true := by
          rw [List.isEmpty_iff]
          exact List.drop_eq_nil_of_le (Nat.le_of_not_lt hleft)
        simp [bind, Except.bind, hunused, hleft, PathDraft.path_ended, pure, Except.pure]

end Route

namespace RouteStore

/-- Stories in perhaps some language, of a year and perhaps with a title, which may be any text. -/
def storyPlan : List Operation :=
  let handler : Output := .function (.mk "show" true false none none .arguments)
  [.add ⟨.text "GET", .text "{lang:en|de}?/stories/{year:[0-9]+}/{title:.*}?",
    .text "story", handler⟩, .request (.text "GET") (.text "v/stories/1999")]

end RouteStore

end NamedRoutes
