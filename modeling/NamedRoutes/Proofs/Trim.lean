import NamedRoutes.Path

/-!
What a trimmed text is: it starts and ends with no margin, and stands somewhere in the whole text.
-/

namespace NamedRoutes

namespace Text

variable {isMargin : Char → Bool} {text : List Char} {c : Char}

theorem head?_trimStart (h : (trimStart isMargin text).head? = some c) : isMargin c = false := by
  have hhead := List.head?_dropWhile_not isMargin text
  unfold trimStart at h
  rw [h] at hhead
  exact hhead

theorem getLast?_trimEnd (h : (trimEnd isMargin text).getLast? = some c) : isMargin c = false := by
  unfold trimEnd at h
  rw [List.getLast?_reverse] at h
  exact head?_trimStart h

theorem trimStart_isLast (isMargin : Char → Bool) (text : List Char) :
    trimStart isMargin text <:+ text := List.dropWhile_suffix isMargin

theorem trimEnd_isFirst (isMargin : Char → Bool) (text : List Char) :
    trimEnd isMargin text <+: text := by
  have hsuffix := List.dropWhile_suffix isMargin (l := text.reverse)
  unfold trimEnd
  rw [← List.reverse_suffix, List.reverse_reverse]
  exact hsuffix

theorem trim_infix (isMargin : Char → Bool) (text : List Char) : trim isMargin text <:+: text :=
  (trimEnd_isFirst isMargin _).isInfix.trans (trimStart_isLast isMargin text).isInfix

/-- A trimmed text ends with no margin. -/
theorem getLast?_trim (h : (trim isMargin text).getLast? = some c) : isMargin c = false :=
  getLast?_trimEnd h

/-- A trimmed text starts with no margin. -/
theorem head?_trim (h : (trim isMargin text).head? = some c) : isMargin c = false := by
  obtain ⟨rest, hrest⟩ := trimEnd_isFirst isMargin (trimStart isMargin text)
  have hstart : (trimStart isMargin text).head? = some c := by
    rw [← hrest, List.head?_append]
    unfold trim at h
    rw [h]
    rfl
  exact head?_trimStart hstart

theorem trimStart_of_head? (h : ∀ c, text.head? = some c → isMargin c = false) :
    trimStart isMargin text = text := by
  cases text with
  | nil => rfl
  | cons c rest => exact List.dropWhile_cons_of_neg (by simp [h c rfl])

theorem trimEnd_of_getLast? (h : ∀ c, text.getLast? = some c → isMargin c = false) :
    trimEnd isMargin text = text := by
  have hstart : trimStart isMargin text.reverse = text.reverse :=
    trimStart_of_head? fun c hc => h c (by rwa [List.head?_reverse] at hc)
  unfold trimStart at hstart
  rw [trimEnd, hstart, List.reverse_reverse]

/-- A margin at the end of a text is cut off. -/
theorem trimEnd_append {isMargin : Char → Bool} {c : Char} (hc : isMargin c = true)
    (text : List Char) :
    trimEnd isMargin (text ++ [c]) = trimEnd isMargin text := by
  simp [trimEnd, hc]

end Text

namespace Path

variable (path : String)

/-- A trimmed path does not start with a slash. -/
theorem head?_trim : (trim path).toList.head? ≠ some '/' := by
  unfold trim
  rw [String.toList_ofList]
  exact fun hhead => absurd (Text.head?_trim hhead) (by decide)

theorem isMargin_of_getLast?_trim {path : String} {c : Char}
    (h : (trim path).toList.getLast? = some c) : isMargin c = false := by
  unfold trim at h
  rw [String.toList_ofList] at h
  exact Text.getLast?_trim h

/-- A trimmed path does not end with a slash. -/
theorem getLast?_trim : (trim path).toList.getLast? ≠ some '/' :=
  fun hlast => absurd (isMargin_of_getLast?_trim hlast) (by decide)

/-- A slash at the end of a text is cut off. -/
theorem trimEnd_slash (text : List Char) :
    Text.trimEnd isMargin (text ++ ['/']) = Text.trimEnd isMargin text :=
  Text.trimEnd_append rfl text

/-- A path that starts and ends with no margin is trimmed. -/
theorem trim_eq_self {path : String} (hfirst : ∀ c, path.toList.head? = some c → isMargin c = false)
    (hlast : ∀ c, path.toList.getLast? = some c → isMargin c = false) : trim path = path := by
  unfold trim Text.trim
  rw [Text.trimStart_of_head? hfirst, Text.trimEnd_of_getLast? hlast, String.ofList_toList]

/-- A path between slashes is trimmed to the path if slashes do not count and the path starts and
ends with what counts. -/
theorem trim_toList_wrap {isMargin : Char → Bool} (hslash : isMargin '/' = true) {path : String}
    (hfirst : ∀ c, path.toList.head? = some c → isMargin c = false)
    (hlast : ∀ c, path.toList.getLast? = some c → isMargin c = false) :
    Text.trim isMargin (wrap path).toList = path.toList := by
  by_cases hempty : path = ""
  · subst hempty
    change Text.trim isMargin ['/'] = []
    simp [Text.trim, Text.trimStart, Text.trimEnd, hslash]
  · have hwrap : (wrap path).toList = '/' :: (path.toList ++ ['/']) := by
      unfold wrap
      rw [if_neg (by simpa using hempty)]
      simp
    have hne : path.toList ≠ [] := fun hnil => hempty (String.toList_eq_nil_iff.mp hnil)
    have hstart : Text.trimStart isMargin (path.toList ++ ['/']) = path.toList ++ ['/'] := by
      refine Text.trimStart_of_head? fun c hc => hfirst c ?_
      rw [List.head?_append, List.head?_eq_some_head hne] at hc
      rw [List.head?_eq_some_head hne]
      exact hc
    have hdrop : Text.trimStart isMargin (wrap path).toList =
        Text.trimStart isMargin (path.toList ++ ['/']) := by
      rw [hwrap]
      simp [Text.trimStart, hslash]
    unfold Text.trim
    rw [hdrop, hstart, Text.trimEnd_append hslash, Text.trimEnd_of_getLast? hlast]

/-- The trimmed form of a path between slashes is the path, if that starts and ends with no margin.
-/
theorem trim_wrap {path : String} (hfirst : ∀ c, path.toList.head? = some c → isMargin c = false)
    (hlast : ∀ c, path.toList.getLast? = some c → isMargin c = false) :
    trim (wrap path) = path := by
  rw [trim, trim_toList_wrap rfl hfirst hlast, String.ofList_toList]

end Path

end NamedRoutes
