import NamedRoutes.PathBuilder
import NamedRoutes.Proofs.Pattern.Layout

/-!
Building a path, fragment by fragment. The expression of a pattern and the building of paths decide
each for itself which slash goes with a parameter that is left out. A seam says how the two stand to
each other after some fragments. As long as there is one, the path is what the fragments spell.
-/

namespace NamedRoutes

open Fragment

namespace PathDraft

def text (d : PathDraft) : List Char := d.pieces.reverse.flatMap String.toList

theorem toList_path (d : PathDraft) : d.path.toList = d.text := by
  unfold path text
  rw [String.toList_join]

def addOptional (d : PathDraft) : Option (List Char) → PathDraft
  | some value => d.addValue (.ofList value)
  | none => d.leaveOut

def addFragment (d : PathDraft) (value : Option (List Char)) : Fragment → PathDraft
  | .literal text => d.addLiteral (.ofList text)
  | .required _ | .optional _ => d.addOptional value
  | .afterSlash _ => (d.addLiteral "/").addOptional value
  | .beforeSlash _ => (d.addOptional value).addLiteral "/"

def addFragments (d : PathDraft) : List Fragment → List (Option (List Char)) → PathDraft
  | [], _ => d
  | f :: rest, values =>
      (d.addFragment values.head?.join f).addFragments rest (values.drop (parameterCount [f]))

@[simp] theorem text_addValue (d : PathDraft) (value : List Char) :
    (d.addValue (.ofList value)).text = d.text ++ value := by
  simp [text, addValue]

end PathDraft

/-- How a path in the making stands to what the fragments so far spell. Both are the same text. -/
inductive Seam where
  /-- No slash comes last. -/
  | plain
  /-- A slash comes last that the next parameter would take back, while its fragment could not. -/
  | spent
  /-- The next slash would be dropped, while its fragment would keep it. -/
  | lost
  deriving DecidableEq, Repr

namespace Seam

/-- The seam after a further fragment, whose parameter may be given. There is none if path and
fragments come apart there. -/
def next : Seam → Fragment → Bool → Option Seam
  | s, .literal text, _ =>
      if text = ['/'] then if s = .lost then none else some .spent else some .plain
  | .lost, .required _, _ | .lost, .optional _, _ => some .lost
  | _, .required _, _ | _, .optional _, true => some .plain
  | .plain, .optional _, false => some .lost
  | .spent, .optional _, false => none
  | .plain, .afterSlash _, _ => some .plain
  | .lost, .afterSlash _, false => some .lost
  | _, .afterSlash _, _ => none
  | .lost, .beforeSlash _, true => none
  | _, .beforeSlash _, true => some .spent
  | .spent, .beforeSlash _, false => some .spent
  | _, .beforeSlash _, false => some .plain

def through {α : Type} : Seam → List Fragment → List (Option α) → Option Seam
  | s, [], _ => some s
  | s, f :: rest, values =>
      (s.next f values.head?.join.isSome).bind fun t =>
        through t rest (values.drop (parameterCount [f]))

/-- Whether a path in the making stands to the fragments as a seam says. -/
structure At (s : Seam) (d : PathDraft) : Prop where
  dropped : d.slashDropped = decide (s = .lost)
  slash : d.pieces.head? = some "/" ↔ s = .spent
  last : d.text.getLast? = some '/' → s = .spent

theorem at_start : plain.At {} := ⟨rfl, by simp, by simp [PathDraft.text]⟩

variable {s t : Seam} {d : PathDraft}

theorem At.addValue (h : s.At d) {value : List Char} (hne : value ≠ []) (hslash : '/' ∉ value) :
    (if s = .lost then lost else plain).At (d.addValue (.ofList value)) := by
  have hlast : (d.text ++ value).getLast? ≠ some '/' := by
    rw [List.getLast?_append, List.getLast?_eq_some_getLast hne]
    exact fun heq => hslash (Option.some.inj heq ▸ List.getLast_mem hne)
  have hpiece : String.ofList value ≠ "/" := fun heq => by
    rw [← String.toList_inj, String.toList_ofList] at heq
    exact hslash (heq ▸ List.mem_singleton_self _)
  refine ⟨?_, ?_, ?_⟩
  · change d.slashDropped = _
    rw [h.dropped]
    cases s <;> rfl
  · change some (String.ofList value) = some "/" ↔ _
    refine ⟨fun heq => absurd (Option.some.inj heq) hpiece, fun heq => ?_⟩
    split at heq <;> cases heq
  · rw [PathDraft.text_addValue]
    exact fun heq => absurd heq hlast

theorem At.addWord (h : s.At d) {word : List Char} (hne : word ≠ []) (hslash : '/' ∉ word) :
    plain.At (d.addLiteral (.ofList word)) ∧ (d.addLiteral (.ofList word)).text =
      d.text ++ word := by
  have hpiece : (String.ofList word == "/") = false := beq_false_of_ne fun heq => by
    rw [← String.toList_inj, String.toList_ofList] at heq
    exact hslash (heq ▸ List.mem_singleton_self _)
  have hadd : d.addLiteral (.ofList word) =
      { d.addValue (.ofList word) with slashDropped := false } := by
    unfold PathDraft.addLiteral PathDraft.addValue
    rw [hpiece, Bool.and_false]
    rfl
  have hvalue := h.addValue hne hslash
  rw [hadd]
  refine ⟨⟨rfl, ?_, fun heq => ?_⟩, d.text_addValue word⟩
  · refine hvalue.slash.trans ?_
    cases s <;> simp
  · have hspent := hvalue.last heq
    cases s <;> cases hspent

theorem At.addSlash (h : s.At d) (hs : s ≠ .lost) :
    spent.At (d.addLiteral "/") ∧ (d.addLiteral "/").text = d.text ++ ['/'] := by
  have hadd : d.addLiteral "/" = ⟨"/" :: d.pieces, false⟩ := by
    unfold PathDraft.addLiteral
    rw [h.dropped, decide_eq_false hs]
    rfl
  rw [hadd]
  refine ⟨⟨rfl, by simp, fun _ => rfl⟩, ?_⟩
  simp [PathDraft.text]

theorem At.dropSlash (h : lost.At d) :
    plain.At (d.addLiteral "/") ∧ (d.addLiteral "/").text = d.text := by
  have hadd : d.addLiteral "/" = { d with slashDropped := false } := by
    unfold PathDraft.addLiteral
    rw [h.dropped]
    rfl
  rw [hadd]
  refine ⟨⟨rfl, ?_, fun heq => nomatch h.last heq⟩, rfl⟩
  exact h.slash.trans (by simp)

theorem At.leaveOut (h : s.At d) (hs : s ≠ .spent) :
    lost.At d.leaveOut ∧ d.leaveOut.text = d.text := by
  have hleave : d.leaveOut = { d with slashDropped := true } := by
    unfold PathDraft.leaveOut
    split
    · rename_i pieces hpieces
      exact absurd (h.slash.mp (by rw [hpieces]; rfl)) hs
    · rfl
  rw [hleave]
  refine ⟨⟨rfl, ?_, fun heq => absurd (h.last heq) hs⟩, rfl⟩
  exact h.slash.trans (by simp [hs])

/-- Leaving out a parameter after a slash takes that back. -/
theorem leaveOut_addSlash (h : s.At d) (hs : s ≠ .lost) : (d.addLiteral "/").leaveOut = d := by
  obtain ⟨pieces, dropped⟩ := d
  obtain rfl : dropped = false := h.dropped.trans (decide_eq_false hs)
  rfl

/-- A slash that was taken back comes again. -/
theorem addSlash_leaveOut (h : spent.At d) : d.leaveOut.addLiteral "/" = d := by
  obtain ⟨pieces, dropped⟩ := d
  obtain rfl : dropped = false := h.dropped
  cases pieces with
  | nil => cases h.slash.mpr rfl
  | cons piece rest =>
      obtain rfl : piece = "/" := Option.some.inj (h.slash.mpr rfl)
      rfl

end Seam

namespace Fragment

/-- Whether a fragment is a slash, or has no slash in its text, or no text of its own. -/
def IsClean : Fragment → Prop
  | literal text => text = ['/'] ∨ text ≠ [] ∧ '/' ∉ text
  | _ => True

theorem Takes.length {f : Fragment} {values : List (Option (List Char))} {text : List Char}
    (h : f.Takes values text) : values.length = parameterCount [f] := by
  cases f with
  | literal word => rw [h.1]; rfl
  | required e =>
      obtain ⟨_, _, rfl, _⟩ := h
      rfl
  | _ => rcases h with ⟨rfl, _⟩ | ⟨_, _, rfl, _⟩ <;> rfl

/-- No value has a slash. -/
theorem slash_not_mem_of_admits {e v : List Char} (he : IsStock e) (h : Admits e v) : '/' ∉ v := by
  intro hmem
  have haccepts := h.2 _ hmem
  obtain ⟨text, htext, rfl⟩ := List.mem_map.mp he
  have hall : ∀ text ∈ Parameter.stockTexts, (valueTest text.toList).accepts '/' = false := by
    decide +kernel
  rw [hall text htext] at haccepts
  cases haccepts

end Fragment

namespace Seam

variable {s t : Seam} {d : PathDraft}

theorem At.addText (h : s.At d) {word : List Char} {given : Bool}
    (hclean : word = ['/'] ∨ word ≠ [] ∧ '/' ∉ word)
    (hnext : s.next (.literal word) given = some t) :
    t.At (d.addLiteral (.ofList word)) ∧ (d.addLiteral (.ofList word)).text = d.text ++ word := by
  by_cases hslash : word = ['/']
  · subst hslash
    cases s with
    | lost => cases hnext
    | plain =>
        cases hnext
        exact h.addSlash nofun
    | spent =>
        cases hnext
        exact h.addSlash nofun
  · simp only [next, hslash, if_false] at hnext
    cases hnext
    obtain ⟨hne, hmem⟩ := hclean.resolve_left hslash
    exact h.addWord hne hmem

section Omitted

variable {e : List Char}

theorem At.omit_optional (h : s.At d) (hnext : s.next (.optional e) false = some t) :
    t.At d.leaveOut ∧ d.leaveOut.text = d.text := by
  cases s with
  | spent => cases hnext
  | plain =>
      cases hnext
      exact h.leaveOut nofun
  | lost =>
      cases hnext
      exact h.leaveOut nofun

theorem At.omit_afterSlash (h : s.At d) (hnext : s.next (.afterSlash e) false = some t) :
    t.At (d.addLiteral "/").leaveOut ∧ (d.addLiteral "/").leaveOut.text = d.text := by
  cases s with
  | spent => cases hnext
  | plain =>
      cases hnext
      rw [leaveOut_addSlash h nofun]
      exact ⟨h, rfl⟩
  | lost =>
      cases hnext
      obtain ⟨hdropped, htext⟩ := h.dropSlash
      obtain ⟨hat, htext'⟩ := hdropped.leaveOut nofun
      exact ⟨hat, htext'.trans htext⟩

theorem At.omit_beforeSlash (h : s.At d) (hnext : s.next (.beforeSlash e) false = some t) :
    t.At (d.leaveOut.addLiteral "/") ∧ (d.leaveOut.addLiteral "/").text = d.text := by
  have hdropped : s ≠ .spent → plain.At (d.leaveOut.addLiteral "/") ∧
      (d.leaveOut.addLiteral "/").text = d.text := fun hs => by
    obtain ⟨hleft, htext⟩ := h.leaveOut hs
    obtain ⟨hat, htext'⟩ := hleft.dropSlash
    exact ⟨hat, htext'.trans htext⟩
  cases s with
  | spent =>
      cases hnext
      rw [addSlash_leaveOut h]
      exact ⟨h, rfl⟩
  | plain =>
      cases hnext
      exact hdropped nofun
  | lost =>
      cases hnext
      exact hdropped nofun

end Omitted

section Given

variable {e v : List Char}

theorem At.give (h : s.At d) (hne : v ≠ []) (hslash : '/' ∉ v) (hs : s ≠ .lost) :
    plain.At (d.addValue (.ofList v)) := by
  have hat := h.addValue hne hslash
  rwa [if_neg hs] at hat

theorem At.give_required (h : s.At d) (hne : v ≠ []) (hslash : '/' ∉ v)
    (hnext : s.next (.required e) true = some t) : t.At (d.addValue (.ofList v)) := by
  have hat := h.addValue hne hslash
  cases s <;> cases hnext <;> exact hat

theorem At.give_optional (h : s.At d) (hne : v ≠ []) (hslash : '/' ∉ v)
    (hnext : s.next (.optional e) true = some t) : t.At (d.addValue (.ofList v)) := by
  have hat := h.addValue hne hslash
  cases s <;> cases hnext <;> exact hat

theorem At.give_afterSlash (h : s.At d) (hne : v ≠ []) (hslash : '/' ∉ v)
    (hnext : s.next (.afterSlash e) true = some t) :
    t.At ((d.addLiteral "/").addValue (.ofList v)) ∧
      ((d.addLiteral "/").addValue (.ofList v)).text = d.text ++ '/' :: v := by
  cases s with
  | spent => cases hnext
  | lost => cases hnext
  | plain =>
      cases hnext
      obtain ⟨hat, htext⟩ := h.addSlash nofun
      refine ⟨hat.give hne hslash nofun, ?_⟩
      rw [PathDraft.text_addValue, htext, List.append_assoc]
      rfl

theorem At.give_beforeSlash (h : s.At d) (hne : v ≠ []) (hslash : '/' ∉ v)
    (hnext : s.next (.beforeSlash e) true = some t) :
    t.At ((d.addValue (.ofList v)).addLiteral "/") ∧
      ((d.addValue (.ofList v)).addLiteral "/").text = d.text ++ (v ++ ['/']) := by
  have hdone : s ≠ .lost → spent.At ((d.addValue (.ofList v)).addLiteral "/") ∧
      ((d.addValue (.ofList v)).addLiteral "/").text = d.text ++ (v ++ ['/']) := fun hs => by
    obtain ⟨hat, htext⟩ := (h.give hne hslash hs).addSlash nofun
    exact ⟨hat, by rw [htext, PathDraft.text_addValue, List.append_assoc]⟩
  cases s with
  | lost => cases hnext
  | plain =>
      cases hnext
      exact hdone nofun
  | spent =>
      cases hnext
      exact hdone nofun

end Given

/-- After each fragment, the path in the making is what the fragments have spelled. -/
theorem At.addFragment (h : s.At d) {f : Fragment} (hclean : f.IsClean)
    (hstock : ∀ e, f.expression? = some e → IsStock e) {value : Option (List Char)}
    {values : List (Option (List Char))} {text : List Char} (htakes : f.Takes values text)
    (hvalue : ∀ v, values = [v] → value = v) (hnext : s.next f value.isSome = some t) :
    t.At (d.addFragment value f) ∧ (d.addFragment value f).text = d.text ++ text := by
  have hslash : ∀ {e v : List Char}, f.expression? = some e → Admits e v → '/' ∉ v := fun he hv =>
    slash_not_mem_of_admits (hstock _ he) hv
  cases f with
  | literal word =>
      obtain ⟨rfl, rfl⟩ := htakes
      exact h.addText hclean hnext
  | required e =>
      obtain ⟨v, hv, rfl, rfl⟩ := htakes
      obtain rfl := hvalue _ rfl
      exact ⟨h.give_required hv.1 (hslash rfl hv) hnext, d.text_addValue _⟩
  | optional e =>
      rcases htakes with ⟨rfl, rfl⟩ | ⟨v, hv, rfl, rfl⟩
      · obtain rfl := hvalue _ rfl
        rw [List.append_nil]
        exact h.omit_optional hnext
      · obtain rfl := hvalue _ rfl
        exact ⟨h.give_optional hv.1 (hslash rfl hv) hnext, d.text_addValue _⟩
  | afterSlash e =>
      rcases htakes with ⟨rfl, rfl⟩ | ⟨v, hv, rfl, rfl⟩
      · obtain rfl := hvalue _ rfl
        rw [List.append_nil]
        exact h.omit_afterSlash hnext
      · obtain rfl := hvalue _ rfl
        exact h.give_afterSlash hv.1 (hslash rfl hv) hnext
  | beforeSlash e =>
      rcases htakes with ⟨rfl, rfl⟩ | ⟨v, hv, rfl, rfl⟩
      · obtain rfl := hvalue _ rfl
        rw [List.append_nil]
        exact h.omit_beforeSlash hnext
      · obtain rfl := hvalue _ rfl
        exact h.give_beforeSlash hv.1 (hslash rfl hv) hnext

/-- As long as there is a seam, a path is built of what the fragments spell. -/
theorem At.addFragments {fragments : List Fragment} {values : List (Option (List Char))}
    {text : List Char} (h : s.At d) (hclean : ∀ f ∈ fragments, f.IsClean)
    (hstock : AllStock fragments) (hspells : Spells fragments values text)
    (hthrough : s.through fragments values = some t) :
    t.At (d.addFragments fragments values) ∧
      (d.addFragments fragments values).text = d.text ++ text := by
  induction fragments generalizing s d values text with
  | nil =>
      obtain ⟨rfl, rfl⟩ := hspells
      cases hthrough
      exact ⟨h, (List.append_nil _).symm⟩
  | cons f rest ih =>
      obtain ⟨first, word, more, tail, htakes, hrest, rfl, rfl⟩ := hspells
      obtain ⟨hf, hall⟩ := List.forall_mem_cons.mp hclean
      obtain ⟨u, hnext, hmore⟩ := Option.bind_eq_some_iff.mp hthrough
      have hdrop : (first ++ more).drop (parameterCount [f]) = more := by
        rw [← htakes.length, List.drop_left]
      have hvalue : ∀ v, first = [v] → (first ++ more).head?.join = v := by
        rintro v rfl
        rfl
      rw [hdrop] at hmore
      obtain ⟨hat, htext⟩ := h.addFragment hf (fun e he => hstock.head he) htakes hvalue hnext
      obtain ⟨hdone, htext'⟩ := ih hat hall hstock.tail hrest hmore
      rw [PathDraft.addFragments, hdrop]
      exact ⟨hdone, by rw [htext', htext, List.append_assoc]⟩

end Seam

end NamedRoutes
