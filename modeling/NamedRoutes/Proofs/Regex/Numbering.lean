import NamedRoutes.Proofs.Regex.Anchored

/-!
The groups of an expression that was read. Each one that it records or refers to is numbered from
one to their count, so a match closes none beyond. A text that closes all its parentheses has the
groups that it opens wherever it stands, so groups can be counted before texts are pasted together.
-/

namespace NamedRoutes

namespace Regex

/-- Every group that an expression records or refers to is one of those that were counted. -/
theorem numbersWithin_of_parse {text : List Char} {regex : Regex} {count : Nat}
    (h : parse text = .ok (regex, count)) : regex.numbersWithin count := by
  obtain ⟨w, hread, hfinish⟩ := Reader.parse_eq_ok h
  obtain ⟨s, hsettle, _, _, htested, _, rfl, rfl⟩ := (Reader.finish_eq_ok_iff w _ _).mp hfinish
  have hnumbered := Reader.numbered_settle hsettle
    (Reader.sound_readAll text {} w Reader.sound_start hread).numbered
  have hall := (hnumbered.frames _ (List.mem_cons_self ..)).all
  rw [show s.reach = s.groups.length from Nat.max_eq_left htested] at hall
  exact (Frame.body_iff (hereditary_numbersWithin _) s.top).mpr hall

namespace Reader

/-- The sign between alternatives opens nothing. -/
theorem Opens.bar : Opens ['|'] 0 := by
  intro u v hu _ hread
  obtain ⟨w, hstep, hw⟩ := readAll_cons_eq_ok '|' [] u v hread
  cases hw
  have hplain : u.settled.counting.plain '|' = u.settled.counting.nextBranch := by
    unfold plain
    rw [show u.settled.counting.top.flags = {} from hu.flags_settled]
    rfl
  rw [hu.step (by decide) (by decide), hplain] at hstep
  rw [nextBranch_eq_ok _ v hstep]
  obtain ⟨items, hsettled, _⟩ := hu.settled_eq
  refine ⟨.of_plain rfl hu.flags_settled, ?_, hu.flagStack_settled, ?_⟩
  · simp [Begun, endBranch]
  · change u.settled.groups.length = u.groups.length + 0
    rw [hsettled, Nat.add_zero]

/-- An empty group is a group. -/
theorem Opens.marker : Opens ['(', ')'] 1 := HasOneGroup.opens (t := []) ⟨_, rfl⟩

end Reader

end Regex

namespace Expression

theorem numbersWithin_of_compile {source : String} {e : Expression}
    (h : Expression.compile source = .ok e) : e.regex.numbersWithin e.groups :=
  Regex.numbersWithin_of_parse (compile_eq_ok h).1

/-- The group that a match closes last is one of the groups of the expression. -/
theorem lastGroup_le {source : String} {e : Expression} (h : Expression.compile source = .ok e)
    {path : String} {m : Matched} (hmatch : e.fullMatch? path = .ok (some m)) :
    m.lastGroup ≤ e.groups := by
  unfold fullMatch? at hmatch
  rw [Regex.fullMatch?_eq] at hmatch
  cases hending : e.regex.ending? (.start path.toList) with
  | none =>
      rw [hending] at hmatch
      cases hmatch
  | some marks =>
      simp only [hending] at hmatch
      split at hmatch
      · cases hmatch
      · cases hmatch
        exact (Regex.ending?_bound (numbersWithin_of_compile h) rfl hending).lastClosed

end Expression

end NamedRoutes
