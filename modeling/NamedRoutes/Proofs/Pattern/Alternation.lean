import Mathlib.Data.List.Chain
import NamedRoutes.Proofs.Pattern.ComponentPath

/-!
Words and slashes in turn. The pieces of a path never have two words side by side. If parameters
have slashes around them only, every second segment of a pattern is a slash, and the path of the
pattern has its words and its placeholders with one slash between neighbours.
-/

namespace NamedRoutes

/-- Of two neighbours among the pieces of a text, one is a slash. -/
theorem Path.isChain_pieces (text : List Char) :
    (pieces text).IsChain fun a b => a = ['/'] ∨ b = ['/'] := by
  induction text with
  | nil => exact .nil
  | cons c rest ih =>
      by_cases hc : c = '/'
      · subst hc
        exact List.isChain_cons.mpr ⟨fun _ _ => Or.inl rfl, ih⟩
      · rcases pieces_cons_cases hc rest with ⟨piece, more, hword, hpieces, hcons⟩ | ⟨hslash, hcons⟩
        · rw [hpieces, List.isChain_cons] at ih
          rw [hcons, List.isChain_cons]
          exact ⟨fun b hb => Or.inr ((ih.1 b hb).resolve_left hword), ih.2⟩
        · rw [hcons, List.isChain_cons]
          refine ⟨fun b hb => Or.inr ?_, ih⟩
          obtain ⟨more, hmore⟩ := List.head?_eq_some_iff.mp hb
          exact hslash b more hmore

namespace Piece

/-- Whether two pieces are not both words. -/
def Parted (a b : Piece) : Prop := ∀ t, a = .text t → ∀ u, b ≠ .text u

theorem parted_texts (text : List Char) : ((Path.pieces text).map ofText).IsChain Parted := by
  refine (List.isChain_map ofText).mpr ((Path.isChain_pieces text).imp ?_)
  rintro a b (rfl | rfl) t ht u hu
  · cases ht
  · cases hu

/-- A parameter parts the words around it. -/
theorem parted_parameter (e : List Char) (optional : Bool) {pieces : List Piece}
    (h : pieces.IsChain Parted) : (ofExpression e optional :: pieces).IsChain Parted := by
  refine List.isChain_cons.mpr ⟨fun b _ t ht => ?_, h⟩
  cases optional <;> cases ht

/-- What placeholders start with is no word. -/
theorem head?_placeholders (placeholders : List (Placeholder × List Char)) (t : List Char) :
    (placeholders.flatMap fun next =>
      Piece.ofExpression next.1.expression.toList next.1.optional ::
        (Path.pieces next.2).map .ofText).head? ≠ some (.text t) := by
  cases placeholders with
  | nil => exact nofun
  | cons next rest =>
      intro hhead
      have hfirst : ofExpression _ _ = text t := Option.some.inj hhead
      unfold ofExpression at hfirst
      split at hfirst <;> cases hfirst

theorem parted_placeholders (placeholders : List (Placeholder × List Char)) :
    (placeholders.flatMap fun next =>
      .ofExpression next.1.expression.toList next.1.optional ::
        (Path.pieces next.2).map .ofText).IsChain Parted := by
  induction placeholders with
  | nil => exact .nil
  | cons next rest ih =>
      rw [List.flatMap_cons]
      refine List.isChain_append.mpr ⟨parted_parameter _ _ (parted_texts _), ih,
        fun a _ b hb t _ u hu => ?_⟩
      exact head?_placeholders rest u (hu ▸ hb)

theorem parted_template (space : String) (t : Template) : (t.pieces space).IsChain Parted := by
  have hspace : ∀ a ∈ (if space == "" then [] else
      (Path.pieces (space.toList ++ ['/'])).map ofText).getLast?, a = .slash := by
    intro a ha
    split at ha
    · cases ha
    · rw [Path.pieces_append_slash, List.map_append, List.getLast?_append] at ha
      exact (Option.some.inj ha).symm
  refine List.isChain_append.mpr
    ⟨?_, List.isChain_append.mpr ⟨parted_texts _, parted_placeholders _, ?_⟩, ?_⟩
  · split
    · exact .nil
    · exact parted_texts _
  · intro a _ b hb t _ u hu
    exact head?_placeholders _ u (hu ▸ hb)
  · intro a ha b _ t ht
    rw [hspace a ha] at ht
    cases ht

end Piece

namespace Segment

theorem isSlash_iff_piece {s : Segment} : s.isSlash = true ↔ s.piece = .slash := by
  refine ⟨fun hslash => ?_, isSlash_of_piece⟩
  cases s with
  | literal text =>
      obtain rfl := beq_iff_eq.mp hslash
      rfl
  | parameter q => cases hslash

theorem eq_of_isSlash {s : Segment} (h : s.isSlash = true) : s = .literal "/" := by
  cases s with
  | literal text => rw [beq_iff_eq.mp h]
  | parameter q => cases h

theorem piece_literal {text : String} (h : (literal text).isSlash = false) :
    (literal text).piece = .text text.toList := by
  have hne : text.toList ≠ ['/'] := fun hslash =>
    beq_eq_false_iff_ne.mp h (String.toList_inj.mp hslash)
  rw [piece, Piece.ofText, if_neg hne]

/-- Segments that are slashes in turn, with no slash at either end, have single slashes between
them. -/
theorem alternating_of_isChain {segments : List Segment}
    (hturns : segments.IsChain fun a b => a.isSlash ≠ b.isSlash) (hne : segments ≠ [])
    (hfirst : ∀ s ∈ segments.head?, s.isSlash = false)
    (hlast : ∀ s ∈ segments.getLast?, s.isSlash = false) : Alternating segments := by
  match segments with
  | [] => exact absurd rfl hne
  | [s] => exact .last (hfirst s rfl)
  | [s, t] => exact absurd ((hfirst s rfl).trans (hlast t rfl).symm) (List.isChain_pair.mp hturns)
  | s :: t :: u :: rest =>
      have hs := hfirst s rfl
      obtain ⟨hst, hmore⟩ := List.isChain_cons_cons.mp hturns
      obtain ⟨htu, hrest⟩ := List.isChain_cons_cons.mp hmore
      have ht : t.isSlash = true := by
        rw [hs] at hst
        simpa using hst.symm
      have hu : u.isSlash = false := by
        rw [ht] at htu
        simpa using htu.symm
      rw [eq_of_isSlash ht]
      refine .cons hs (alternating_of_isChain hrest (List.cons_ne_nil _ _) ?_ ?_)
      · rintro _ ⟨⟩
        exact hu
      · intro v hv
        exact hlast v (by simpa [List.getLast?_cons] using hv)

end Segment

namespace RoutePattern

variable {p : RoutePattern} {space path : String} {t : Template}

/-- Neighbours among the segments of a pattern with whole parameters are slashes in turn. -/
theorem Assembled.isChain_segments (h : p.Assembled space path t)
    (hproper : Piece.IsProper p.pieces) (hwhole : p.HasWholeParameters) :
    p.segments.IsChain fun a b => a.isSlash ≠ b.isSlash := by
  have hparted := Piece.parted_template space t
  rw [← h.pieces] at hparted
  refine List.isChain_iff_forall_rel_of_append_cons_cons.mpr ?_
  intro a b before after hsegments hsame
  have hpieces : p.pieces = before.map Segment.piece ++ a.piece :: b.piece ::
      after.map Segment.piece := by
    rw [RoutePattern.pieces, hsegments, List.map_append, List.map_cons, List.map_cons]
  have hpair : (a, b) ∈ p.segments.zip p.segments.tail := by
    refine List.mem_iff_getElem?.mpr ⟨before.length, ?_⟩
    simp [hsegments]
  cases ha : a.isSlash with
  | true =>
      refine hproper.single ⟨before.map Segment.piece, after.map Segment.piece, ?_⟩
      rw [ha] at hsame
      rw [hpieces, Segment.isSlash_iff_piece.mp ha, Segment.isSlash_iff_piece.mp hsame.symm]
      simp
  | false =>
      rw [ha] at hsame
      obtain ⟨hfirst, hsecond⟩ := hwhole (a, b) hpair
      cases a with
      | parameter q =>
          rw [hfirst rfl] at hsame
          cases hsame
      | literal text =>
          cases b with
          | parameter q =>
              rw [hsecond rfl] at ha
              cases ha
          | literal other =>
              have hwords := List.isChain_iff_forall_rel_of_append_cons_cons.mp hparted hpieces
              exact hwords _ (Segment.piece_literal ha) _ (Segment.piece_literal hsame.symm)

theorem Assembled.alternating (h : p.Assembled space path t) (hproper : Piece.IsProper p.pieces)
    (hwhole : p.HasWholeParameters) : Segment.Alternating p.segments := by
  refine Segment.alternating_of_isChain (h.isChain_segments hproper hwhole) ?_ ?_ ?_
  · intro hnil
    exact hproper.nonempty (by rw [RoutePattern.pieces, hnil, List.map_nil])
  · intro s hs
    refine Bool.eq_false_iff.mpr fun hslash => hproper.first ?_
    rw [RoutePattern.pieces, List.head?_map, hs, Option.map_some,
      Segment.isSlash_iff_piece.mp hslash]
  · intro s hs
    refine Bool.eq_false_iff.mpr fun hslash => hproper.last ?_
    rw [RoutePattern.pieces, List.getLast?_map, hs, Option.map_some,
      Segment.isSlash_iff_piece.mp hslash]

end RoutePattern

/-- The text of a slot without what follows it. -/
def Slot.mark (slot : Slot) : String := .ofList (Slot.source { slot with after := [] })

theorem Slot.source_eq (slot : Slot) : slot.source = slot.mark.toList ++ slot.after := by
  simp [mark, source]

namespace Piece

/-- The text of some pieces, with texts in place of the parameters. -/
def written : List Piece → List String → List Char
  | [], _ => []
  | .slash :: rest, marks => '/' :: written rest marks
  | .text t :: rest, marks => t ++ written rest marks
  | .required _ :: rest, marks => (marks.headD "").toList ++ written rest marks.tail
  | .optional _ :: rest, marks => (marks.headD "").toList ++ written rest marks.tail

theorem written_parameter (e : List Char) (optional : Bool) (rest : List Piece) (mark : String)
    (marks : List String) :
    written (ofExpression e optional :: rest) (mark :: marks) =
      mark.toList ++ written rest marks := by
  cases optional <;> rfl

theorem written_texts (text : List Char) (rest : List Piece) (marks : List String) :
    written ((Path.pieces text).map ofText ++ rest) marks = text ++ written rest marks := by
  have hpieces : ∀ pieces : List (List Char),
      written (pieces.map ofText ++ rest) marks = pieces.flatten ++ written rest marks := by
    intro pieces
    induction pieces with
    | nil => rfl
    | cons piece more ih =>
        rw [List.map_cons, List.cons_append, List.flatten_cons, List.append_assoc, ← ih, ofText]
        split
        · rename_i hslash
          rw [hslash]
          rfl
        · rfl
  rw [hpieces, Path.flatten_pieces]

theorem written_slots {placeholders : List (Placeholder × List Char)} {slots : List Slot}
    (hafter : placeholders.map (·.2) = slots.map (·.after)) :
    written (placeholders.flatMap fun next =>
      .ofExpression next.1.expression.toList next.1.optional :: (Path.pieces next.2).map .ofText)
        (slots.map Slot.mark) = slots.flatMap Slot.source := by
  induction slots generalizing placeholders with
  | nil =>
      rw [List.map_eq_nil_iff.mp hafter]
      rfl
  | cons slot rest ih =>
      obtain ⟨next, more, rfl, hnext, hmore⟩ := List.map_eq_cons_iff.mp hafter
      rw [List.flatMap_cons, List.cons_append, List.map_cons, written_parameter,
        written_texts, ih hmore, List.flatMap_cons, Slot.source_eq, hnext, List.append_assoc]

end Piece

namespace Segment

/-- With a text for each parameter, a component is one part. -/
theorem exists_part {s : Segment} (hs : s.isSlash = false) {rest : List Segment}
    {marks : List String} (hmarks : marks.length = ((s :: rest).filterMap parameter?).length) :
    ∃ part more, more.length = (rest.filterMap parameter?).length ∧
      (∀ pieces, Piece.written (s.piece :: pieces) marks =
        part.toList ++ Piece.written pieces more) ∧
      parts (s :: rest) (marks.map fun mark => some (.text mark)) =
        part :: parts rest (more.map fun mark => some (.text mark)) := by
  cases s with
  | literal word =>
      refine ⟨word, marks, hmarks, fun pieces => ?_, if_neg (beq_eq_false_iff_ne.mp hs)⟩
      rw [piece_literal hs, Piece.written]
  | parameter q =>
      cases marks with
      | nil => cases hmarks
      | cons mark more =>
          exact ⟨mark, more, Nat.succ.inj hmarks,
            fun pieces => Piece.written_parameter _ _ _ _ _, rfl⟩

/-- Segments with single slashes between them are their parts between slashes. -/
theorem Alternating.written {segments : List Segment} (h : Alternating segments)
    {marks : List String} (hmarks : marks.length = (segments.filterMap parameter?).length) :
    parts segments (marks.map fun mark => some (.text mark)) ≠ [] ∧
      Piece.written (segments.map piece) marks =
        ("/".intercalate (parts segments (marks.map fun mark => some (.text mark)))).toList := by
  induction h generalizing marks with
  | @last s hs =>
      obtain ⟨part, more, _, hwritten, hparts⟩ := exists_part hs hmarks
      have hone : parts [s] (marks.map fun mark => some (.text mark)) = [part] := hparts
      refine ⟨hparts ▸ List.cons_ne_nil _ _, ?_⟩
      rw [hone, List.map_cons, List.map_nil, hwritten, String.intercalate_singleton]
      exact List.append_nil _
  | @cons s rest hs _ ih =>
      obtain ⟨part, more, hmore, hwritten, hparts⟩ := exists_part hs hmarks
      obtain ⟨hne, hrest⟩ := ih hmore
      have hslash : parts (.literal "/" :: rest) (more.map fun mark => some (.text mark)) =
          parts rest (more.map fun mark => some (.text mark)) := rfl
      rw [hslash] at hparts
      refine ⟨hparts ▸ List.cons_ne_nil _ _, ?_⟩
      rw [hparts, List.map_cons, hwritten, String.intercalate_cons_of_ne_nil hne,
        String.toList_append, String.toList_append, ← hrest, List.append_assoc]
      rfl

end Segment

namespace RoutePattern

variable {p : RoutePattern} {space path : String} {t : Template}

/-- The path of a pattern has its words and its placeholders between single slashes. -/
theorem Assembled.exists_marks (h : p.Assembled space path t)
    (halternating : Segment.Alternating p.segments) :
    ∃ slots : List Slot, slots.length = p.parameters.length ∧ p.path =
      "/".intercalate
        (Segment.parts p.segments (slots.map fun slot => some (.text slot.mark))) := by
  obtain ⟨cut, hcut, _, rfl, hcount, _⟩ := Template.parse_eq_ok h.template
  have hsource := (CutPath.source_of_cut _).1 cut hcut
  have hafter := cut.placeholders_after hcount
  have hlength : cut.slots.length = p.parameters.length := by
    have hnames := h.parameterNames.trans h.names
    have hcounts := congrArg List.length hafter
    have hothers := congrArg List.length hnames
    simp only [List.length_map, Template.names] at hcounts hothers
    omega
  refine ⟨cut.slots, hlength, ?_⟩
  have hcounted : (cut.slots.map Slot.mark).length = p.parameters.length :=
    (List.length_map ..).trans hlength
  obtain ⟨_, hmarks⟩ := halternating.written hcounted
  rw [List.map_map] at hmarks
  apply String.toList_inj.mp
  refine Eq.trans ?_ hmarks
  change _ = Piece.written p.pieces _
  rw [h.pieces, Template.pieces, h.path]
  split
  · rw [List.nil_append, Piece.written_texts, Piece.written_slots hafter, ← hsource]
    rfl
  · rw [Piece.written_texts, Piece.written_texts, Piece.written_slots hafter]
    simp [← hsource, CutPath.source]

end RoutePattern

end NamedRoutes
