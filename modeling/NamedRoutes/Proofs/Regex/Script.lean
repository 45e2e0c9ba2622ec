import NamedRoutes.Regex.Reader

/-!
What reading a character can do. The mode of a reader, the flags in force and the character decide
on a script of a few actions, and the reader performs them. So whatever all actions respect, reading
a text respects, and two readers that differ in their parentheses and groups only perform the same
script.
-/

namespace NamedRoutes.Regex

/-- Whether a reader can come into a mode whatever it has read. It waits for the greed of a
repetition only if there is something to repeat, and it skips remarks only in verbose expressions.
-/
def Mode.isFree : Mode → Bool
  | .greed .. | .lineRemark _ => false
  | _ => true

def Role.isNumberless : Role → Bool
  | .capture _ | .condition _ => false
  | _ => true

/-- One thing that a reader does to what it has read. -/
inductive Action where
  | fail (fault : RegexError)
  | wait (mode : Mode) (h : mode.isFree = true)
  | remark (escaped : Bool)
  | test (question : CharTest)
  | anchor (anchor : Anchor)
  /-- Switches flags of the whole expression on. -/
  | switch (added : List Char)
  | enter (role : Role) (flags : Flags) (h : role.isNumberless = true)
  | capture
  | captureNamed (name : List Char)
  | condition (text : List Char)
  | refer (number : Nat)
  | referNamed (name : List Char)
  | branch
  | leave
  | startRepeat (least : Nat) (most : Option Nat)
  | repeatLast (greed : Greed)

namespace Action

def refers : Action → Bool
  | condition _ | refer _ | referNamed _ => true
  | _ => false

def perform : Action → Reader → Except RegexError Reader
  | fail fault, _ => .error fault
  | wait mode _, r => .ok { r with mode }
  | remark escaped, r =>
      if r.top.flags.verbose then .ok { r with mode := .lineRemark escaped }
      else .error .badExtension
  | test question, r => .ok (r.push (.one question))
  | anchor a, r => .ok (r.push (.anchor a))
  | switch added, r =>
      if r.outer.isEmpty && r.top.branches.isEmpty && r.top.items.isEmpty then
        .ok { r with
          mode := .plain,
          top := { r.top with flags := added.foldl (Flags.switch true) r.top.flags } }
      else .error (.lateFlags (r.position - (added.length + 3)))
  | enter role flags _, r => .ok (r.descend role flags)
  | capture, r => .ok r.enterCapture
  | captureNamed name, r =>
      match r.names.lookup name with
      | some holder =>
          .error (.takenName name (r.groups.length + 1) holder
            (r.position - (name.length + 1)))
      | none => .ok { r.enterCapture with names := (name, r.groups.length + 1) :: r.names }
  | condition text, r => r.condition text
  | refer number, r => r.pushReference number
  | referNamed name, r =>
      match r.names.lookup name with
      | some number => r.pushReference number
      | none => .error .unknownGroup
  | branch, r => r.nextBranch
  | leave, r => r.leave
  | startRepeat least most, r => r.startRepeat least most
  | repeatLast greed, r =>
      match r.mode with
      | .greed least most => .ok (r.repeatLast greed least most)
      | _ => .error .nothingToRepeat

def performAll : List Action → Reader → Except RegexError Reader
  | [], r => .ok r
  | a :: rest, r => a.perform r >>= performAll rest

theorem performAll_append (first second : List Action) (r : Reader) :
    performAll (first ++ second) r = performAll first r >>= performAll second := by
  induction first generalizing r with
  | nil => rfl
  | cons a rest ih =>
      simp only [List.cons_append, performAll, bind, Except.bind]
      cases a.perform r with
      | error fault => rfl
      | ok s => exact ih s

theorem performAll_singleton (a : Action) (r : Reader) : performAll [a] r = a.perform r := by
  simp only [performAll, bind, Except.bind]
  cases a.perform r <;> rfl

end Action

/-- A step of a reader that amounts to one script under the same flags. -/
def Scripted (flags : Flags) (step : Reader → Except RegexError Reader) : Prop :=
  ∃ script, ∀ r : Reader, r.top.flags = flags → step r = Action.performAll script r

namespace Scripted

variable {flags : Flags}

theorem single (a : Action) {step : Reader → Except RegexError Reader}
    (h : ∀ r : Reader, r.top.flags = flags → step r = a.perform r) : Scripted flags step :=
  ⟨[a], fun r hr => (h r hr).trans (Action.performAll_singleton a r).symm⟩

theorem error (fault : RegexError) : Scripted flags fun _ => .error fault :=
  single (.fail fault) fun _ _ => rfl

theorem wait (mode : Mode) (h : mode.isFree = true) :
    Scripted flags fun r => .ok { r with mode } :=
  single (.wait mode h) fun _ _ => rfl

/-- A step after one that keeps the flags. -/
theorem andThen {first second : Reader → Except RegexError Reader} (hfirst : Scripted flags first)
    (hflags : ∀ r s : Reader, first r = .ok s → s.top.flags = r.top.flags)
    (hsecond : Scripted flags second) : Scripted flags fun r => first r >>= second := by
  obtain ⟨script, hscript⟩ := hfirst
  obtain ⟨more, hmore⟩ := hsecond
  refine ⟨script ++ more, fun r hr => ?_⟩
  change first r >>= second = _
  rw [Action.performAll_append, ← hscript r hr]
  cases hstep : first r with
  | error fault => rfl
  | ok s => exact hmore s ((hflags r s hstep).trans hr)

theorem pushCode (code : Nat) : Scripted flags (·.pushCode code) := by
  by_cases hcode : code ≤ 0x10FFFF
  · refine single (.test (.literal code false flags.folding)) fun r hr => ?_
    simp only [Reader.pushCode, hcode, if_true, hr]
    rfl
  · refine single (.fail .badEscape) fun r hr => ?_
    simp only [Reader.pushCode, hcode, if_false]
    rfl

theorem pushChar (c : Char) : Scripted flags fun r => .ok (r.pushChar c) := by
  refine single (.test (.literal c.toNat false flags.folding)) fun r hr => ?_
  simp only [Reader.pushChar, hr]
  rfl

theorem pushSet (negated : Bool) (items : List SetItem) :
    Scripted flags fun r => .ok (r.pushSet negated items) := by
  by_cases hsingle : ∃ code, items.eraseDups = [.single code]
  · obtain ⟨code, hcode⟩ := hsingle
    refine single (.test (.literal code negated flags.folding)) fun r hr => ?_
    simp only [Reader.pushSet, hcode, hr]
    rfl
  · refine single (.test (.set ⟨negated, items.eraseDups, flags.folding, flags.asciiOnly⟩))
      fun r hr => ?_
    unfold Reader.pushSet
    split
    · rename_i code hcode
      exact absurd ⟨code, hcode⟩ hsingle
    · simp only [hr]
      rfl

theorem pushKind (kind : CharKind) (negated : Bool) :
    Scripted flags fun r => .ok (r.pushKind kind negated) :=
  pushSet false [.kind kind negated]

theorem startRepeat (least : Nat) (most : Option Nat) :
    Scripted flags (·.startRepeat least most) :=
  single (.startRepeat least most) fun _ _ => rfl

/-- The script of a character that starts something new. -/
def plainScript (flags : Flags) (c : Char) : List Action :=
  if flags.verbose && Text.isAsciiBlank c.toNat then [.wait .plain rfl]
  else if flags.verbose && c == '#' then [.remark false]
  else match c with
    | '\\' => [.wait .escape rfl]
    | '[' => [.wait (.set false [] .start) rfl]
    | '(' => [.wait .opened rfl]
    | ')' => [.leave]
    | '|' => [.branch]
    | '.' => [.test (.any flags.dotAll)]
    | '^' => [.anchor (Reader.startAnchor flags)]
    | '$' => [.anchor (Reader.endAnchor flags)]
    | '*' => [.startRepeat 0 none]
    | '+' => [.startRepeat 1 none]
    | '?' => [.startRepeat 0 (some 1)]
    | '{' => [.wait (.bounds []) rfl]
    | c => [.test (.literal c.toNat false flags.folding)]

theorem plain (c : Char) : Scripted flags (·.plain c) := by
  refine ⟨plainScript flags c, fun r hr => ?_⟩
  subst hr
  change r.plain c = _
  unfold Reader.plain plainScript
  by_cases hblank : (r.top.flags.verbose && Text.isAsciiBlank c.toNat) = true
  · simp only [hblank, if_true]
    rfl
  by_cases hremark : (r.top.flags.verbose && c == '#') = true
  · have hverbose := (Bool.and_eq_true_iff.mp hremark).1
    rw [if_neg hblank, if_neg hblank, if_pos hremark, if_pos hremark,
      Action.performAll_singleton]
    simp only [Action.perform, hverbose, if_true]
  simp only [hblank, hremark, Bool.false_eq_true, if_false]
  split <;> first | rfl | (simp only [Action.performAll_singleton]; rfl)

theorem pushReference (number : Nat) : Scripted flags (·.pushReference number) :=
  single (.refer number) fun _ _ => rfl

theorem escape (c : Char) : Scripted flags (·.escape c) := by
  unfold Reader.escape
  cases hkind : Reader.kind? c with
  | some kind => exact pushKind kind.1 kind.2
  | none =>
  cases hcontrol : Reader.controlCode? c with
  | some code => exact pushCode code
  | none =>
  cases hhex : Reader.hexDigits? c with
  | some digits => exact wait (.hex digits 0) rfl
  | none =>
  cases hdecimal : Reader.decimalValue? c with
  | some digit =>
      cases digit with
      | zero => exact wait (.octal 2 0) rfl
      | succ digit => exact wait (.reference (digit + 1)) rfl
  | none =>
  by_cases hstart : c = 'A'
  · subst hstart
    exact single (.anchor .textStart) fun _ _ => rfl
  by_cases hend : c = 'Z'
  · subst hend
    exact single (.anchor .textEnd) fun _ _ => rfl
  by_cases hedge : c = 'b'
  · subst hedge
    refine single (.anchor (.wordEdge false flags.asciiOnly)) fun r hr => ?_
    subst hr
    rfl
  by_cases hinside : c = 'B'
  · subst hinside
    refine single (.anchor (.wordEdge true flags.asciiOnly)) fun r hr => ?_
    subst hr
    rfl
  by_cases hletter : Text.isAsciiLetter c.toNat = true
  · refine single (.fail .badEscape) fun r hr => ?_
    simp only [hletter, if_true]
    rfl
  · simp only [hletter, Bool.false_eq_true, if_false]
    exact pushChar c

theorem setItem (negated : Bool) (items : List SetItem) (left : Option SetItem)
    (item : SetItem) : Scripted flags (·.setItem negated items left item) := by
  unfold Reader.setItem
  cases left with
  | none => exact wait (.set negated items (.after item)) rfl
  | some left =>
      by_cases hsingle : ∃ low high, left = .single low ∧ item = .single high
      · obtain ⟨low, high, rfl, rfl⟩ := hsingle
        by_cases horder : low ≤ high
        · simp only [horder, if_true]
          exact wait (.set negated (.range low high :: items) .item) rfl
        · simp only [horder, if_false]
          exact error .badRange
      · cases left <;> cases item <;> first
          | exact error .badRange
          | exact absurd ⟨_, _, rfl, rfl⟩ hsingle

theorem setCode (negated : Bool) (items : List SetItem) (left : Option SetItem) (code : Nat) :
    Scripted flags (·.setCode negated items left code) := by
  unfold Reader.setCode
  by_cases hcode : code ≤ 0x10FFFF
  · simp only [hcode, if_true]
    exact setItem negated items left (.single code)
  · simp only [hcode, if_false]
    exact error .badEscape

theorem setStart (negated : Bool) (items : List SetItem) (c : Char) :
    Scripted flags (·.setStart negated items c) := by
  unfold Reader.setStart
  by_cases hclose : (c == ']' && !items.isEmpty) = true
  · simp only [hclose, if_true]
    exact pushSet negated items.reverse
  by_cases hescape : (c == '\\') = true
  · simp only [hclose, hescape, if_true]
    exact wait (.set negated items (.escape none)) rfl
  · simp only [hclose, hescape, Bool.false_eq_true, if_false]
    exact setItem negated items none (.single c.toNat)

theorem setAfter (negated : Bool) (items : List SetItem) (left : SetItem) (c : Char) :
    Scripted flags (·.setAfter negated items left c) := by
  unfold Reader.setAfter
  by_cases hhyphen : (c == '-') = true
  · simp only [hhyphen, if_true]
    exact wait (.set negated items (.hyphen left)) rfl
  · simp only [hhyphen, Bool.false_eq_true, if_false]
    exact setStart negated (left :: items) c

theorem setHyphen (negated : Bool) (items : List SetItem) (left : SetItem) (c : Char) :
    Scripted flags (·.setHyphen negated items left c) := by
  unfold Reader.setHyphen
  by_cases hclose : (c == ']') = true
  · simp only [hclose, if_true]
    exact pushSet negated _
  by_cases hescape : (c == '\\') = true
  · simp only [hclose, hescape, Bool.false_eq_true, if_false, if_true]
    exact wait (.set negated items (.escape (some left))) rfl
  · simp only [hclose, hescape, Bool.false_eq_true, if_false]
    exact setItem negated items (some left) (.single c.toNat)

theorem setEscape (negated : Bool) (items : List SetItem) (left : Option SetItem) (c : Char) :
    Scripted flags (·.setEscape negated items left c) := by
  unfold Reader.setEscape
  cases hkind : Reader.kind? c with
  | some kind => exact setItem negated items left (.kind kind.1 kind.2)
  | none =>
  cases hcontrol : Reader.controlCode? c with
  | some code => exact setItem negated items left (.single code)
  | none =>
  cases hhex : Reader.hexDigits? c with
  | some digits => exact wait (.set negated items (.hex left digits 0)) rfl
  | none =>
  cases hoctal : Reader.octalValue? c with
  | some digit => exact wait (.set negated items (.octal left 2 digit)) rfl
  | none =>
  by_cases hbell : (c == 'b') = true
  · simp only [hbell, if_true]
    exact setItem negated items left (.single 0x08)
  by_cases hletter :
      (Text.isAsciiLetter c.toNat || (Reader.decimalValue? c).isSome) = true
  · simp only [hbell, hletter, Bool.false_eq_true, if_false, if_true]
    exact error .badEscape
  · simp only [hbell, hletter, Bool.false_eq_true, if_false]
    exact setItem negated items left (.single c.toNat)

theorem set (negated : Bool) (items : List SetItem) (c : Char) (phase : SetPhase) :
    Scripted flags (·.set negated items c phase) := by
  unfold Reader.set
  cases phase with
  | start =>
      by_cases hnegated : (c == '^') = true
      · simp only [hnegated, if_true]
        exact wait (.set true items .item) rfl
      · simp only [hnegated, Bool.false_eq_true, if_false]
        exact setStart negated items c
  | item => exact setStart negated items c
  | after left => exact setAfter negated items left c
  | hyphen left => exact setHyphen negated items left c
  | escape left => exact setEscape negated items left c
  | hex left digits value =>
      cases hhex : Reader.hexValue? c with
      | none => exact error .badEscape
      | some digit =>
          by_cases hlast : digits ≤ 1
          · simp only [hlast, if_true]
            exact setCode negated items left (value * 16 + digit)
          · simp only [hlast, if_false]
            exact wait (.set negated items (.hex left (digits - 1) (value * 16 + digit))) rfl
  | octal left digits value =>
      cases hoctal : Reader.octalValue? c with
      | some digit =>
          by_cases hhuge : 0o377 < value * 8 + digit
          · simp only [hhuge, if_true]
            exact error .badEscape
          by_cases hlast : digits ≤ 1
          · simp only [hhuge, hlast, if_true, if_false]
            exact setCode negated items left (value * 8 + digit)
          · simp only [hhuge, hlast, if_false]
            exact wait (.set negated items (.octal left (digits - 1) (value * 8 + digit))) rfl
      | none =>
          cases left with
          | none => exact setAfter negated items (.single value) c
          | some left =>
              cases left with
              | single low =>
                  by_cases horder : low ≤ value
                  · simp only [horder, if_true]
                    exact setStart negated (.range low value :: items) c
                  · simp only [horder, if_false]
                    exact error .badRange
              | range low high => exact error .badRange
              | kind kind complement => exact error .badRange

theorem name (use : NameUse) (read : List Char) (c : Char) :
    Scripted flags (·.name use read c) := by
  unfold Reader.name
  by_cases hescape : (c == '\\') = true
  · simp only [hescape, if_true]
    exact error .badName
  simp only [hescape, Bool.false_eq_true, if_false]
  cases use with
  | group =>
      by_cases hmore : (c != '>') = true
      · simp only [hmore, if_true]
        exact wait (.name .group (c :: read)) rfl
      by_cases hname : Text.isIdentifier read.reverse = true
      · simp only [hmore, hname, Bool.not_true, Bool.false_eq_true, if_false]
        exact single (.captureNamed read.reverse) fun _ _ => rfl
      · simp only [hmore, hname, Bool.not_false, Bool.false_eq_true, if_false, if_true]
        exact error .badName
  | reference =>
      by_cases hmore : (c != ')') = true
      · simp only [hmore, if_true]
        exact wait (.name .reference (c :: read)) rfl
      by_cases hname : Text.isIdentifier read.reverse = true
      · simp only [hmore, hname, Bool.not_true, Bool.false_eq_true, if_false]
        exact single (.referNamed read.reverse) fun _ _ => rfl
      · simp only [hmore, hname, Bool.not_false, Bool.false_eq_true, if_false, if_true]
        exact error .badName
  | condition =>
      by_cases hmore : (c != ')') = true
      · simp only [hmore, if_true]
        exact wait (.name .condition (c :: read)) rfl
      by_cases hempty : read.reverse.isEmpty = true
      · simp only [hmore, hempty, Bool.false_eq_true, if_false, if_true]
        exact error .badName
      · simp only [hmore, hempty, Bool.false_eq_true, if_false]
        exact single (.condition read.reverse) fun _ _ => rfl

theorem enter (role : Role) (hrole : role.isNumberless = true) :
    Scripted flags fun r => .ok (r.enter role) := by
  refine single (.enter role flags hrole) fun r hr => ?_
  subst hr
  rfl

theorem question (c : Char) : Scripted flags (·.question c) := by
  by_cases hplain : c = ':'
  · subst hplain
    exact enter .plain rfl
  by_cases hatomic : c = '>'
  · subst hatomic
    exact enter .atomic rfl
  by_cases hahead : c = '='
  · subst hahead
    exact enter (.ahead false) rfl
  by_cases hnotAhead : c = '!'
  · subst hnotAhead
    exact enter (.ahead true) rfl
  by_cases hless : c = '<'
  · subst hless
    exact wait .lessThan rfl
  by_cases hnamed : c = 'P'
  · subst hnamed
    exact wait .named rfl
  by_cases hremark : c = '#'
  · subst hremark
    exact wait (.remark false) rfl
  by_cases hcondition : c = '('
  · subst hcondition
    exact wait (.name .condition []) rfl
  by_cases hminus : c = '-'
  · subst hminus
    exact wait (.flags [] (some [])) rfl
  unfold Reader.question
  by_cases hflag : Flags.mayAdd [] c = true
  · simp only [hflag, if_true]
    exact wait (.flags [c] none) rfl
  · simp only [hflag, Bool.false_eq_true, if_false]
    exact error .badExtension

theorem scope (added removed : List Char) :
    Scripted flags fun r =>
      if Flags.mayScope added removed then
        .ok (r.descend .flagged (r.top.flags.within added removed))
      else .error .badFlags := by
  by_cases hscope : Flags.mayScope added removed = true
  · simp only [hscope, if_true]
    refine single (.enter .flagged (flags.within added removed) rfl) fun r hr => ?_
    subst hr
    rfl
  · simp only [hscope, Bool.false_eq_true, if_false]
    exact error .badFlags

theorem readFlags (added : List Char) (removed : Option (List Char)) (c : Char) :
    Scripted flags (·.readFlags added removed c) := by
  cases removed with
  | none =>
      by_cases hclose : c = ')'
      · subst hclose
        exact single (.switch added) fun _ _ => rfl
      by_cases hcolon : c = ':'
      · subst hcolon
        exact scope added []
      by_cases hminus : c = '-'
      · subst hminus
        exact wait (.flags added (some [])) rfl
      unfold Reader.readFlags
      by_cases hadd : Flags.mayAdd added c = true
      · simp only [hadd, if_true]
        exact wait (.flags (c :: added) none) rfl
      · simp only [hadd, Bool.false_eq_true, if_false]
        exact error .badFlags
  | some removed =>
      by_cases hscope : removed ≠ [] ∧ c = ':'
      · obtain ⟨hremoved, rfl⟩ := hscope
        cases removed with
        | nil => exact absurd rfl hremoved
        | cons letter rest => exact scope added (letter :: rest)
      have hread : ∀ r : Reader, r.readFlags added (some removed) c =
          if Flags.mayRemove c then .ok { r with mode := .flags added (some (c :: removed)) }
          else .error .badFlags := by
        intro r
        unfold Reader.readFlags
        split <;> simp_all
      by_cases hremove : Flags.mayRemove c = true
      · refine single (.wait (.flags added (some (c :: removed))) rfl) fun r _ => ?_
        rw [hread, if_pos hremove]
        rfl
      · refine single (.fail .badFlags) fun r _ => ?_
        rw [hread, if_neg hremove]
        rfl

theorem closeBounds (text : List Char) : Scripted flags (·.closeBounds text) := by
  suffices hbounds : ∀ (least : Nat) (most : Option Nat), Scripted flags fun r =>
      if Reader.boundLimit ≤ least || Reader.boundLimit ≤ most.getD 0 then .error .hugeBound
      else if most.getD least < least then .error .badBounds
      else r.startRepeat least most from hbounds _ _
  intro least most
  by_cases hhuge : (Reader.boundLimit ≤ least || Reader.boundLimit ≤ most.getD 0) = true
  · simp only [hhuge, if_true]
    exact error .hugeBound
  by_cases horder : most.getD least < least
  · simp only [hhuge, horder, Bool.false_eq_true, if_true, if_false]
    exact error .badBounds
  · simp only [hhuge, horder, Bool.false_eq_true, if_false]
    exact startRepeat least most

theorem pushChars (text : List Char) :
    Scripted flags fun r => .ok (text.foldl Reader.pushChar r) := by
  induction text with
  | nil => exact ⟨[], fun _ _ => rfl⟩
  | cons c rest ih =>
      refine andThen (pushChar c) ?_ ih
      intro r s hs
      cases hs
      rfl

theorem abandonBounds (read : List Char) :
    Scripted flags fun r => .ok (r.abandonBounds read) :=
  pushChars ('{' :: read.reverse)

end Scripted

/-- A reader that waits for the greed of a repetition has something to repeat, and one that skips a
remark reads a verbose expression. -/
def Reader.Poised (r : Reader) : Prop :=
  match r.mode with
  | .greed .. => r.top.items ≠ []
  | .lineRemark _ => r.top.flags.verbose = true
  | _ => True

namespace Reader

theorem flags_pushCode (r s : Reader) (code : Nat) (h : r.pushCode code = .ok s) :
    s.top.flags = r.top.flags := by
  unfold pushCode at h
  by_cases hcode : code ≤ 0x10FFFF
  · simp only [hcode, if_true] at h
    cases h
    rfl
  · simp only [hcode, if_false] at h
    cases h

theorem pushReference_eq_ok (r s : Reader) (number : Nat)
    (h : r.pushReference number = .ok s) :
    s = r.push (.backref number r.top.flags.folding) ∧ 0 < number ∧ number ≤ r.groups.length := by
  unfold pushReference at h
  by_cases hunknown : r.groups.length < number
  · simp only [hunknown, if_true] at h
    cases h
  by_cases hcomplete : (r.isComplete number && r.mayTest number) = true
  · simp only [hunknown, hcomplete, if_true, if_false] at h
    cases h
    refine ⟨rfl, Nat.pos_of_ne_zero ?_, Nat.le_of_not_lt hunknown⟩
    rintro rfl
    cases (Bool.and_eq_true_iff.mp hcomplete).1
  · simp only [hunknown, hcomplete, Bool.false_eq_true, if_false] at h
    cases h

theorem flags_pushReference (r s : Reader) (number : Nat)
    (h : r.pushReference number = .ok s) : s.top.flags = r.top.flags := by
  rw [(pushReference_eq_ok r s number h).1]
  rfl

theorem flags_repeatLast (r : Reader) (greed : Greed) (least : Nat) (most : Option Nat) :
    (r.repeatLast greed least most).top.flags = r.top.flags := by
  unfold repeatLast
  cases r.top.items <;> rfl

theorem flags_pushChars (text : List Char) (r : Reader) :
    (text.foldl pushChar r).top.flags = r.top.flags := by
  induction text generalizing r with
  | nil => rfl
  | cons c rest ih => exact ih (r.pushChar c)

/-- What a character does to the readers in a mode and under the same flags amounts to one script.
-/
def TakesScript (mode : Mode) (flags : Flags) (c : Char) : Prop :=
  ∃ script, ∀ r : Reader, r.mode = mode → r.top.flags = flags → r.Poised →
    r.take c = Action.performAll script r

namespace TakesScript

variable {mode : Mode} {flags : Flags} {c : Char}

theorem of_step {step : Reader → Except RegexError Reader} (hscripted : Scripted flags step)
    (hstep : ∀ r : Reader, r.mode = mode → r.take c = step r) : TakesScript mode flags c := by
  obtain ⟨script, hscript⟩ := hscripted
  exact ⟨script, fun r hmode hflags _ => (hstep r hmode).trans (hscript r hflags)⟩

theorem of_action (a : Action)
    (h : ∀ r : Reader, r.mode = mode → r.Poised → r.take c = a.perform r) :
    TakesScript mode flags c :=
  ⟨[a], fun r hmode _ hr => (h r hmode hr).trans (Action.performAll_singleton a r).symm⟩

/-- A mode in which reading a character is a step of its own. -/
theorem of_take {step : Reader → Except RegexError Reader} (hscripted : Scripted flags step)
    (hstep : ∀ r : Reader, take { r with mode } c = step { r with mode }) :
    TakesScript mode flags c :=
  of_step hscripted fun r hmode => by
    subst hmode
    exact hstep r

theorem lineRemark (escaped : Bool) : TakesScript (.lineRemark escaped) flags c := by
  -- Only in verbose expressions does a reader come into a remark, so that it can stay there.
  have hremark : ∀ (next : Bool) (r : Reader), r.mode = .lineRemark escaped → r.Poised →
      (Action.remark next).perform r = .ok { r with mode := .lineRemark next } := by
    intro next r hmode hr
    have hverbose : r.top.flags.verbose = true := by simpa [Poised, hmode] using hr
    simp only [Action.perform, hverbose, if_true]
  by_cases hescaped : escaped = true
  · refine of_action (.remark false) fun r hmode hr => ?_
    rw [hremark false r hmode hr]
    unfold take
    simp only [hmode, hescaped, if_true]
  by_cases hend : (c == '\n') = true
  · refine of_step (.wait .plain rfl) fun r hmode => ?_
    unfold take
    simp only [hmode, hescaped, hend, Bool.false_eq_true, if_true, if_false]
  · refine of_action (.remark (c == '\\')) fun r hmode hr => ?_
    rw [hremark _ r hmode hr]
    unfold take
    simp only [hmode, hescaped, hend, Bool.false_eq_true, if_false]

theorem remark (escaped : Bool) : TakesScript (.remark escaped) flags c := by
  refine of_take (.wait (if escaped then .remark false
    else if c == ')' then .plain else .remark (c == '\\')) ?_) fun r => rfl
  split
  · rfl
  · split <;> rfl

theorem hex (digits value : Nat) : TakesScript (.hex digits value) flags c := by
  cases hhex : hexValue? c with
  | none =>
      refine of_step (.error .badEscape) fun r hmode => ?_
      unfold take
      simp only [hmode, hhex]
  | some digit =>
      by_cases hlast : digits ≤ 1
      · refine of_step (.pushCode (value * 16 + digit)) fun r hmode => ?_
        unfold take
        simp only [hmode, hhex, hlast, if_true]
      · refine of_step (.wait (.hex (digits - 1) (value * 16 + digit)) rfl) fun r hmode => ?_
        unfold take
        simp only [hmode, hhex, hlast, if_false]

theorem octal (digits value : Nat) : TakesScript (.octal digits value) flags c := by
  cases hoctal : octalValue? c with
  | none =>
      refine of_step (.andThen (.pushCode value) (flags_pushCode · · value) (.plain c))
        fun r hmode => ?_
      unfold take
      simp only [hmode, hoctal]
  | some digit =>
      by_cases hlast : digits ≤ 1
      · refine of_step (.pushCode (value * 8 + digit)) fun r hmode => ?_
        unfold take
        simp only [hmode, hoctal, hlast, if_true]
      · refine of_step (.wait (.octal (digits - 1) (value * 8 + digit)) rfl) fun r hmode => ?_
        unfold take
        simp only [hmode, hoctal, hlast, if_false]

theorem reference (first : Nat) : TakesScript (.reference first) flags c := by
  cases hdecimal : decimalValue? c with
  | none =>
      refine of_step (.andThen (.pushReference first) (flags_pushReference · · first) (.plain c))
        fun r hmode => ?_
      unfold take
      simp only [hmode, hdecimal]
  | some second =>
      by_cases hshort : (first < 8 && second < 8) = true
      · refine of_step (.wait (.longReference first second) rfl) fun r hmode => ?_
        unfold take
        simp only [hmode, hdecimal, hshort, if_true]
      · refine of_step (.pushReference (first * 10 + second)) fun r hmode => ?_
        unfold take
        simp only [hmode, hdecimal, hshort, Bool.false_eq_true, if_false]

theorem longReference (first second : Nat) : TakesScript (.longReference first second) flags c := by
  cases hoctal : octalValue? c with
  | none =>
      refine of_step (.andThen (.pushReference (first * 10 + second)) (flags_pushReference · · _)
        (.plain c)) fun r hmode => ?_
      unfold take
      simp only [hmode, hoctal]
  | some third =>
      by_cases hhuge : 0o377 < first * 64 + second * 8 + third
      · refine of_step (.error .badEscape) fun r hmode => ?_
        unfold take
        simp only [hmode, hoctal, hhuge, if_true]
      · refine of_step (.pushCode (first * 64 + second * 8 + third)) fun r hmode => ?_
        unfold take
        simp only [hmode, hoctal, hhuge, if_false]

/-- A sign for the greed of a repetition ends it. Any other character is read after a greedy one. -/
theorem greed (least : Nat) (most : Option Nat) : TakesScript (.greed least most) flags c := by
  have hrepeat : ∀ (greed : Greed) (r : Reader), r.mode = .greed least most →
      (Action.repeatLast greed).perform r = .ok (r.repeatLast greed least most) := by
    intro greed r hmode
    simp only [Action.perform, hmode]
  by_cases hlazy : c = '?'
  · subst hlazy
    refine of_action (.repeatLast .lazy) fun r hmode _ => ?_
    rw [hrepeat .lazy r hmode]
    unfold take
    simp only [hmode]
  by_cases hpossessive : c = '+'
  · subst hpossessive
    refine of_action (.repeatLast .possessive) fun r hmode _ => ?_
    rw [hrepeat .possessive r hmode]
    unfold take
    simp only [hmode]
  obtain ⟨script, hscript⟩ := @Scripted.plain flags c
  refine ⟨.repeatLast .greedy :: script, fun r hmode hflags _ => ?_⟩
  rw [Action.performAll, hrepeat .greedy r hmode]
  change _ = Action.performAll script (r.repeatLast .greedy least most)
  rw [← hscript _ ((flags_repeatLast r .greedy least most).trans hflags)]
  unfold take
  simp only [hmode]

/-- Characters that turn out not to be bounds stand for themselves, as does the brace before
them. -/
theorem bounds (read : List Char) : TakesScript (.bounds read) flags c := by
  by_cases hmore : ((decimalValue? c).isSome || (c == ',' && !read.contains ',')) = true
  · refine of_step (.wait (.bounds (c :: read)) rfl) fun r hmode => ?_
    unfold take
    simp only [hmode, hmore, if_true]
  by_cases hclose : (c == '}' && !read.isEmpty) = true
  · refine of_step (.closeBounds read.reverse) fun r hmode => ?_
    unfold take
    simp only [hmode, hmore, hclose, Bool.false_eq_true, if_true, if_false]
  · refine of_step (.andThen (.abandonBounds read) ?_ (.plain c)) fun r hmode => ?_
    · intro r s hs
      cases hs
      exact flags_pushChars read.reverse (r.pushChar '{')
    · unfold take
      simp only [hmode, hmore, hclose, Bool.false_eq_true, if_false]
      rfl

theorem opened : TakesScript .opened flags c := by
  by_cases hquestion : (c == '?') = true
  · refine of_step (.wait .question rfl) fun r hmode => ?_
    unfold take
    simp only [hmode, hquestion, if_true]
  · have hcapture : Scripted flags fun r => .ok r.enterCapture := .single .capture fun _ _ => rfl
    refine of_step (.andThen hcapture ?_ (.plain c)) fun r hmode => ?_
    · intro r s hs
      cases hs
      rfl
    · unfold take
      simp only [hmode, hquestion, Bool.false_eq_true, if_false]
      rfl

theorem named : TakesScript .named flags c := by
  by_cases hgroup : c = '<'
  · subst hgroup
    exact of_take (.wait (.name .group []) rfl) fun r => rfl
  by_cases hreference : c = '='
  · subst hreference
    exact of_take (.wait (.name .reference []) rfl) fun r => rfl
  · refine of_step (.error .badExtension) fun r hmode => ?_
    unfold take
    simp only [hmode]

theorem lessThan : TakesScript .lessThan flags c := by
  by_cases hbehind : c = '='
  · subst hbehind
    exact of_take (.enter (.behind false) rfl) fun r => rfl
  by_cases hnotBehind : c = '!'
  · subst hnotBehind
    exact of_take (.enter (.behind true) rfl) fun r => rfl
  · refine of_step (.error .badExtension) fun r hmode => ?_
    unfold take
    simp only [hmode]

end TakesScript

/-- Readers in one mode and under the same flags perform the same script for a character. -/
theorem take_scripted (mode : Mode) (flags : Flags) (c : Char) : TakesScript mode flags c := by
  cases mode with
  | plain => exact .of_take (.plain c) fun r => rfl
  | lineRemark escaped => exact .lineRemark escaped
  | remark escaped => exact .remark escaped
  | escape => exact .of_take (.escape c) fun r => rfl
  | hex digits value => exact .hex digits value
  | octal digits value => exact .octal digits value
  | reference first => exact .reference first
  | longReference first second => exact .longReference first second
  | greed least most => exact .greed least most
  | bounds read => exact .bounds read
  | set negated items phase => exact .of_take (.set negated items c phase) fun r => rfl
  | opened => exact .opened
  | question => exact .of_take (.question c) fun r => rfl
  | named => exact .named
  | lessThan => exact .lessThan
  | flags added removed => exact .of_take (.readFlags added removed c) fun r => rfl
  | name use read => exact .of_take (.name use read c) fun r => rfl

end Reader

end NamedRoutes.Regex
