import NamedRoutes.Proofs.Dispatch.OtherHandlers

/-!
Waiting for deferred handlers. If no function gives a call that has not run, then the waiting
dispatcher ends as the plain one does with functions that are not deferred and have the same bodies.
Only a parameter named `handler` stands in its way: then it calls no function at all.
-/

namespace NamedRoutes

mutual

/-- The function with the same body that is not deferred, and whose outputs have no deferred
functions. -/
def Handler.plain : Handler → Handler
  | .ofBody label named _ refusal failure result =>
      .ofBody label named false refusal failure fun passed => (result passed).plain

def Output.plain : Output → Output
  | .data value => .data value
  | .function h => .function h.plain
  | .branches json html => .branches json.plain html.plain
  | .call h passed => .call h.plain passed

end

mutual

/-- Whether no run of a function gives a call that has not run, and the same holds of the functions
that it gives, if they are called next. -/
def Handler.Settles : Handler → Prop
  | .ofBody _ _ _ _ failure result => ∀ passed, failure passed = none → (result passed).Settles

def Output.Settles : Output → Prop
  | .data _ => True
  | .function h => h.Settles
  | .branches _ html => html.Settles
  | .call _ _ => False

end

/-- What is dispatched without deferred functions. -/
def Dispatched.plain : Dispatched → Dispatched
  | .unanswered => .unanswered
  | .output o => .output o.plain

namespace Handler

variable {h : Handler}

theorem deferred_plain (h : Handler) : h.plain.deferred = false := by
  cases h
  rfl

theorem refusal?_plain (h : Handler) (passed : Arguments) :
    h.plain.refusal? passed = h.refusal? passed := by
  cases h
  rfl

theorem run_plain (h : Handler) (passed : Arguments) :
    h.plain.run passed = (h.run passed).map Output.plain := by
  obtain ⟨_, _, _, _, failure, result⟩ := h
  rw [plain, run, run]
  cases failure passed <;> rfl

/-- A function settles if whatever a run of it gives does. -/
theorem settles_iff : h.Settles ↔ ∀ passed output, h.run passed = .ok output → output.Settles := by
  obtain ⟨_, _, _, _, failure, result⟩ := h
  rw [Settles]
  refine forall_congr' fun passed => ?_
  rw [run]
  cases failure passed with
  | some e => simp
  | none => simp

end Handler

/-- Whether no function that a recipe hands on gives a call that has not run. -/
def Recipe.Settles : Recipe → Prop
  | .data _ | .arguments => True
  | .function h => h.Settles
  | .branches _ html => html.Settles

theorem Recipe.Settles.build {recipe : Recipe} (hsettles : recipe.Settles) {bound : Arguments}
    {output : Output} (hbuild : recipe.build bound = .ok output) : output.Settles := by
  induction recipe generalizing output with
  | data value =>
      cases hbuild
      trivial
  | arguments =>
      cases hbuild
      trivial
  | function h =>
      cases hbuild
      exact hsettles
  | branches json html _ ih =>
      rw [Recipe.build] at hbuild
      cases hjson : json.build bound with
      | error e => simp [hjson, bind, Except.bind] at hbuild
      | ok first =>
      cases hhtml : html.build bound with
      | error e => simp [hjson, hhtml, bind, Except.bind] at hbuild
      | ok second =>
          have hsecond := ih hsettles hhtml
          simp only [hjson, hhtml, bind, Except.bind] at hbuild
          cases second with
          | function h =>
              cases hbuild
              exact hsecond
          | _ => cases hbuild

theorem Handler.run_mk (label : String) (named deferred : Bool) (formals : Option (List Formal))
    (failure : Option String) (result : Recipe) (passed : Arguments) :
    (mk label named deferred formals failure result).run passed =
      result.run formals failure passed := by
  rw [mk, run]
  cases result.run formals failure passed <;> rfl

/-- A described function gives no call that has not run if the functions that it hands on do not. -/
theorem Handler.settles_mk (label : String) (named deferred : Bool) (formals : Option (List Formal))
    (failure : Option String) {result : Recipe} (h : result.Settles) :
    (mk label named deferred formals failure result).Settles := by
  refine settles_iff.mpr fun passed output hrun => ?_
  rw [run_mk, Recipe.run] at hrun
  cases hbound : Formal.bind? formals passed with
  | none => simp [hbound] at hrun
  | some bound =>
      cases failure with
      | some message => simp [hbound] at hrun
      | none => exact h.build (by simpa [hbound] using hrun)

theorem Output.Settles.await {output : Output} (h : output.Settles) :
    output.await = .ok output := by
  cases output with
  | call h passed => cases h
  | _ => rfl

/-- A function that is called and waited for runs once, unless it refuses the arguments. -/
theorem Handler.Settles.invoke {h : Handler} (hsettles : h.Settles) {passed : Arguments}
    (hnames : passed.any (·.1 == "handler") = false) :
    h.invoke passed = match h.refusal? passed with
      | some e => .error e
      | none => h.run passed := by
  unfold Handler.invoke call
  rw [if_neg (by rw [hnames]; decide)]
  cases h.refusal? passed with
  | some e => rfl
  | none =>
      cases h.deferred with
      | true => rfl
      | false =>
          cases hrun : h.run passed with
          | error e => rfl
          | ok output =>
              change output.await = _
              exact (settles_iff.mp hsettles _ _ hrun).await

/-- To call the plain function is to call the function and wait. -/
theorem Handler.Settles.call_plain {h : Handler} (hsettles : h.Settles) {passed : Arguments}
    (hnames : passed.any (·.1 == "handler") = false) :
    h.plain.call passed = (h.invoke passed).map Output.plain := by
  rw [hsettles.invoke hnames, call, refusal?_plain, deferred_plain, run_plain]
  cases h.refusal? passed <;> rfl

/-- What is served of an output without deferred functions. -/
theorem Output.Settles.select_plain {output : Output} (h : output.Settles) (wantsJson : Bool) :
    output.plain.select Handler.call wantsJson =
      (output.select Handler.invoke wantsJson).map Output.plain := by
  cases output with
  | data value => rfl
  | function f => exact Handler.Settles.call_plain h rfl
  | branches json html =>
      cases wantsJson with
      | true => rfl
      | false => exact Handler.Settles.call_plain h rfl
  | call f passed => cases h

namespace RouteMatch

variable {m : RouteMatch}

/-- The handler of a match is served as its plain function is. -/
theorem serve_plain (hsettles : m.route.handler.Settles)
    (hnames : m.parameters.any (·.1 == "handler") = false) (wantsJson : Bool) :
    (m.mapHandler Handler.plain).serve Handler.call wantsJson =
      (m.serve Handler.invoke wantsJson).map Output.plain := by
  have harguments : m.arguments.any (·.1 == "handler") = false := by
    rw [arguments, List.any_map]
    exact hnames
  have hcall := hsettles.call_plain harguments
  unfold serve
  change m.route.handler.plain.call m.arguments >>= _ = _
  rw [hcall]
  cases hinvoke : m.route.handler.invoke m.arguments with
  | error e => rfl
  | ok output =>
      rw [hsettles.invoke harguments] at hinvoke
      cases hrefusal : m.route.handler.refusal? m.arguments with
      | some e => simp [hrefusal] at hinvoke
      | none =>
          rw [hrefusal] at hinvoke
          exact (Handler.settles_iff.mp hsettles _ _ hinvoke).select_plain wantsJson

/-- With a parameter named `handler` no function is called. -/
theorem serve_of_handler (hnames : m.parameters.any (·.1 == "handler") = true) (wantsJson : Bool) :
    m.serve Handler.invoke wantsJson = .error .badArgument := by
  have harguments : m.arguments.any (·.1 == "handler") = true := by
    rw [arguments, List.any_map]
    exact hnames
  unfold serve Handler.invoke
  rw [if_pos harguments]
  rfl

end RouteMatch

namespace RouteStore

def answering? (s : RouteStore) (request : Request) : Option RouteMatch :=
  match s.lookUp request with
  | .ok ⟨.ok found, _, _⟩ => found
  | _ => none

theorem answering?_mapHandlers (s : RouteStore) (f : Handler → Handler) (request : Request) :
    (s.mapHandlers f).answering? request =
      (s.answering? request).map (RouteMatch.mapHandler f) := by
  unfold answering?
  rw [lookUp_mapHandlers]
  cases s.lookUp request with
  | error e => rfl
  | ok outcome =>
      obtain ⟨value, store, events⟩ := outcome
      cases value <;> rfl

theorem lookUp_of_answering? {s : RouteStore} {request : Request} {m : RouteMatch}
    (h : s.answering? request = some m) :
    ∃ store events, s.lookUp request = .ok ⟨.ok (some m), store, events⟩ := by
  unfold answering? at h
  split at h
  · next store events hlookUp => exact ⟨store, events, h ▸ hlookUp⟩
  · cases h

/-- What a search leads to with plain functions. -/
theorem answer_plain (wantsJson : Bool) {found : Except Error (Option RouteMatch)}
    (hfound : ∀ m, found = .ok (some m) →
      m.route.handler.Settles ∧ m.parameters.any (·.1 == "handler") = false) :
    answer Handler.call wantsJson (found.map (Option.map (RouteMatch.mapHandler Handler.plain))) =
      (answer Handler.invoke wantsJson found).map Dispatched.plain := by
  match found with
  | .error cause => rfl
  | .ok none => rfl
  | .ok (some m) =>
      obtain ⟨hsettles, hnames⟩ := hfound m rfl
      have hserve := RouteMatch.serve_plain hsettles hnames wantsJson
      simp only [Except.map, Option.map_some, answer, hserve]
      cases m.serve Handler.invoke wantsJson <;> rfl

theorem dispatchAndWait_of_handler {s : RouteStore} {request : Request} {m : RouteMatch}
    {store : RouteStore} {events : List Event}
    (hlookUp : s.lookUp request = .ok ⟨.ok (some m), store, events⟩)
    (hnames : m.parameters.any (·.1 == "handler") = true) (format : OutputFormat) :
    s.dispatchAndWait format request = .ok ⟨.error .badArgument, store, events⟩ := by
  have hserve := m.serve_of_handler hnames (format.wantsJson request.wantsJson)
  unfold dispatchAndWait
  rw [hlookUp]
  simp only [answer, bind, Except.bind, hserve]
  rfl

def deferredPage : Handler := .mk "page" true true (some []) none (.data (.text "<h1>Post</h1>"))

def deferredPost : Handler :=
  .mk "post" true true none none (.branches .arguments (.function deferredPage))

def postPlan : List Operation :=
  let handler : Output := .function (.mk "show" true false none none .arguments)
  [.add ⟨.text "GET", .text "posts/{id:i}", .text "post", handler⟩,
    .add ⟨.text "POST", .text "hooks/{handler}", .text "hook", handler⟩]

/-- A store for the posts with functions that have to be waited for. -/
def postStore : RouteStore :=
  let start : RouteStore := { space := "", chunkSize := .whole 10 }
  (start.run postPlan).mapHandlers fun _ => deferredPost

end RouteStore

end NamedRoutes
