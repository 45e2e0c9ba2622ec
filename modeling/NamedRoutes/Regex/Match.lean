import NamedRoutes.Regex.Marks
import NamedRoutes.Regex.Place

/-!
Matching by trying alternatives in order. An expression is run on a thread, which is a place in the
text and a record of the groups passed so far, and hands every way in which it matches to what
follows it until that succeeds. So the first success is the match.

A way that fails leaves something behind: edges of groups, and the place where the latest attempt
set out or ended. The edges are put right at every choice inside the body of a loop, and elsewhere
only as far as groups were entered on the way. The place should not matter, and in most releases of
the engine it does not. In the early ones a possessive loop goes on from there once its last round
has failed.
-/

namespace NamedRoutes

/-- What the releases of the engine differ in. It is inferred, so that only what is said of a
particular release has to name one. -/
class Regex.Release where
  /-- A possessive loop goes on from where its failed last round got to. -/
  strays : Bool

namespace Regex.Release

/-- The releases that keep to the rule, by which a round that fails counts for nothing. -/
instance documented : Release := ⟨false⟩

/-- The early releases, which break it. -/
abbrev early : Release := ⟨true⟩

end Regex.Release

structure Thread where
  place : Place
  marks : Marks
  /-- Where the latest attempt set out or ended. -/
  reached : Place
  deriving DecidableEq, Repr

inductive Attempt where
  | matched (thread : Thread)
  /-- The attempt failed; what it left behind. -/
  | failed (reached : Place) (marks : Marks)
  deriving DecidableEq, Repr

namespace Attempt

/-- The attempt with any failure noted at a place. -/
def failingAt (p : Place) : Attempt → Attempt
  | matched t => matched t
  | failed _ marks => failed p marks

end Attempt

namespace Thread

def start (text : List Char) : Thread := ⟨.start text, {}, .start text⟩

def remaining (t : Thread) : Nat := t.place.after.length

def moveTo (t : Thread) (p : Place) : Thread := { t with place := p }

/-- The thread as it begins or ends an attempt. -/
def setOut (t : Thread) : Thread := { t with reached := t.place }

def fail (t : Thread) : Attempt := .failed t.reached t.marks

def opening (t : Thread) (group : Nat) : Thread :=
  { t with marks := t.marks.opening group t.place.index }

def closing (t : Thread) (group : Nat) : Thread :=
  { t with marks := t.marks.closing group t.place.index }

/-- The thread that takes up another way after one has failed. Inside the body of a loop the whole
record of the groups is restored. -/
def resume (t : Thread) (looping : Bool) (reached : Place) (left : Marks) : Thread :=
  { t with reached, marks := if looping then t.marks else t.marks.afterGivingUp left }

def step? (t : Thread) (accepts : Char → Bool) : Option Thread :=
  (t.place.next? accepts).map t.moveTo

def follow? (folding : Folding) : List Char → Thread → Option Thread
  | [], t => some t
  | c :: rest, t =>
      (t.step? fun d => folding.small d.toNat == folding.small c.toNat).bind (follow? folding rest)

end Thread

/-- What an expression begins with, as far as a look at the next character can rule it out. -/
inductive Lead where
  /-- One letter and no other. -/
  | letter (code : Nat)
  /-- A set whose members are only themselves. -/
  | set (set : CharSet)
  | other
  deriving DecidableEq, Repr

namespace Lead

/-- Whether the text does not go on with the letter that is asked for. -/
def lacksLetter : Lead → Place → Bool
  | letter code, p => (p.next? fun c => c.toNat == code).isNone
  | _, _ => false

/-- Whether the next character rules the expression out. -/
def lacks : Lead → Place → Bool
  | set s, p => (p.next? fun c => s.holds c.toNat).isNone
  | lead, p => lead.lacksLetter p

end Lead

/-- What a test of one character begins with. Letters that are compared without regard to case are
not looked at beforehand. -/
def CharTest.lead : CharTest → Lead
  | .literal code false folding => if folding.isCased code then .other else .letter code
  | .set s => if s.isCased then .other else .set s
  | .literal _ true _ | .any _ => .other

/-- Whether counting the characters that pass a test is an attempt of its own, so that its end is
noted. This holds of tests that compare a letter with several others. -/
def CharTest.countsByAttempt : CharTest → Bool
  | .literal code _ folding =>
      folding.isCased code && (folding.sameLetter (folding.small code)).length > 1
  | .set s => s.isCased
  | .any _ => false

/-- What an expression begins with, or `none` if it consumes nothing and asks nothing. -/
def Regex.lead? : Regex → Option Lead
  | .empty => none
  | .one test => some test.lead
  | .seq first second =>
      match first.lead? with
      | some lead => some lead
      | none => second.lead?
  | .group body => body.lead?
  | _ => some .other

/-- A way of going on from a thread, and what it begins with. -/
structure Rest where
  lead : Lead
  go : Thread → Attempt

namespace Rest

/-- Ends the attempt here. -/
def done : Rest := ⟨.other, fun t => .matched t.setOut⟩

/-- Goes on, but not at once. -/
def later (k : Rest) : Rest := ⟨.other, k.go⟩

/-- Goes on from the first of some places from which that succeeds. Places where the text lacks the
letter that comes next are passed over. -/
def fromPlaces (looping : Bool) (k : Rest) (t : Thread) : List Place → Attempt
  | [] => t.fail
  | p :: rest =>
      if k.lead.lacksLetter p then fromPlaces looping k t rest
      else match k.go (t.moveTo p).setOut with
        | .matched u => .matched u
        | .failed reached marks => fromPlaces looping k (t.resume looping reached marks) rest

end Rest

/-- A step of a match: it hands each of its outcomes in turn to what follows. -/
abbrev Round := Thread → Rest → Attempt

namespace CharTest

/-- Goes on after as few characters as possible, at least after those behind the thread, and at most
after `bound` further ones. -/
def runLazily (test : CharTest) (looping : Bool) (k : Rest) : Nat → Thread → Attempt
  | bound, t =>
      match k.go t.setOut with
      | .matched u => .matched u
      | .failed reached marks =>
          let t := (t.resume looping reached marks).setOut
          match t.step? test.accepts with
          | none => t.fail
          | some u =>
              let u := if test.countsByAttempt then u.setOut else u
              match bound with
              | 0 => u.fail
              | bound + 1 => runLazily test looping k bound u

/-- Repeats a test of one character. The characters that pass it are counted first, up to the limit,
or up to the least number if few are wanted. -/
def runRepeated (test : CharTest) (greed : Greed) (least : Nat) (most : Option Nat)
    (looping : Bool) : Round := fun t k =>
  if t.remaining < least then t.fail
  else
    let bound := most.getD t.remaining
    let places := t.place.through test.accepts (if greed == .lazy then least else bound)
    let last := places.getLastD t.place
    let t := { t with reached := if test.countsByAttempt then last else t.place }
    if places.length ≤ least then t.fail
    else match greed with
      | .greedy => k.fromPlaces looping t (places.drop least).reverse
      | .possessive => k.go (t.moveTo last)
      | .lazy => runLazily test looping k (bound - least) (t.moveTo last)

end CharTest

namespace Round

/-- A round a fixed number of times. -/
def exactly (round : Round) : Nat → Round
  | 0, t, k => k.go t
  | count + 1, t, k =>
      (round t.setOut ⟨.other, fun u => exactly round count u k⟩).failingAt t.place

/-- Goes on after the last round. -/
def leave (t : Thread) (k : Rest) : Attempt := (k.go t.setOut).failingAt t.place

/-- Up to `bound` further rounds, trying another one before going on. `last` is what remained when
the previous round began: no round begins where the previous one did. -/
def greedy (round : Round) : Nat → Option Nat → Round
  | 0, _, t, k => leave t k
  | bound + 1, last, t, k =>
      if last = some t.remaining then leave t k
      else match round t.setOut ⟨.other, fun u => greedy round bound (some t.remaining) u k⟩ with
        | .matched u => .matched u
        | .failed .. => leave t k

/-- Up to `bound` further rounds, going on before trying another one. -/
def lazy (round : Round) (looping : Bool) : Nat → Option Nat → Round
  | bound, last, t, k =>
      match k.go t.setOut with
      | .matched u => .matched u
      | .failed reached marks =>
          let t := (t.resume looping reached marks).setOut
          match bound with
          | 0 => t.fail
          | bound + 1 =>
              if last = some t.remaining then t.fail
              else
                (round t ⟨.other,
                  fun u => lazy round looping bound (some t.remaining) u k⟩).failingAt
                  t.place

/-- A fixed number of rounds, each in the first way in which it succeeds. -/
def exactlyFirst (round : Round) : Nat → Thread → Attempt
  | 0, t => .matched t
  | count + 1, t =>
      match round t .done with
      | .matched u => exactlyFirst round count u
      | .failed reached marks => .failed reached marks

/-- The thread that goes on once a further round of a possessive loop has failed. -/
def passOver [Regex.Release] (t : Thread) (reached : Place) : Thread :=
  match Regex.Release.strays with
  | true => (t.moveTo reached).setOut
  | false => t.setOut

theorem passOver_eq (t : Thread) (reached : Place) : passOver t reached = t.setOut := rfl

/-- Up to `bound` further rounds, each in the first way in which it succeeds, until one consumes
nothing or fails. -/
def possessive [Regex.Release] (round : Round) : Nat → Thread → Thread
  | 0, t => t
  | bound + 1, t =>
      match round t .done with
      | .failed reached _ => passOver t reached
      | .matched u => if u.remaining = t.remaining then u else possessive round bound u

/-- Tests the text from a place on without consuming anything. -/
def look (round : Round) (negated looping : Bool) (p : Place) : Round := fun t k =>
  match round (t.moveTo p).setOut .done, negated with
  | .matched u, false => k.go (u.moveTo t.place)
  | .matched u, true => u.fail
  | .failed reached marks, false => .failed reached marks
  | .failed reached marks, true => k.go (t.resume looping reached marks)

end Round

namespace Regex

/-- How many rounds beyond the required ones a repetition may try. Without a limit one more round
than there are characters is enough, since a round that consumes nothing is the last. -/
def furtherRounds (least : Nat) (most : Option Nat) (t : Thread) : Nat :=
  match most with
  | some limit => limit - least
  | none => t.remaining + 1

/-- What follows the first branch of a condition. It comes at once if there is no other branch. -/
def afterYes (k : Rest) : Regex → Rest
  | .empty => k
  | _ => k.later

/-- Runs an expression, given whether it lies in the body of a loop. The outcome is that of the
first way of matching it from which `k` goes on to a match. -/
def run [Release] : Regex → Bool → Round
  | .empty, _, t, k => k.go t
  | .never, _, t, _ => t.fail
  | .one test, _, t, k =>
      match t.step? test.accepts with
      | some u => k.go u
      | none => t.fail
  | .anchor a, _, t, k => if a.holds t.place then k.go t else t.fail
  | .seq first second, looping, t, k =>
      first.run looping t ⟨second.lead?.getD k.lead, fun u => second.run looping u k⟩
  | .alt first others, looping, t, k =>
      if (first.lead?.getD .other).lacks t.place then others.run looping t k
      else match first.run looping t.setOut k.later with
        | .matched u => .matched u
        | .failed reached marks => others.run looping (t.resume looping reached marks) k
  | .group body, looping, t, k => body.run looping t k
  | .capture number body, looping, t, k =>
      body.run looping (t.opening number) ⟨.other, fun u => k.go (u.closing number)⟩
  | .atomic body, looping, t, k =>
      match body.run looping t.setOut .done with
      | .matched u => k.go u
      | .failed _ marks => .failed t.place marks
  | .ahead negated body, looping, t, k =>
      Round.look (body.run looping) negated looping t.place t k
  | .behind negated width body, looping, t, k =>
      match t.place.back? width with
      | some p => Round.look (body.run looping) negated looping p t k
      | none => if negated then k.go t else t.fail
  | .backref number folding, _, t, k =>
      match (t.marks.text? number t.place.text).bind fun text => t.follow? folding text with
      | some u => k.go u
      | none => t.fail
  | .conditional number yes no, looping, t, k =>
      if (t.marks.span? number).isSome then yes.run looping t (afterYes k no)
      else no.run looping t k
  | .repeated greed least most body, looping, t, k =>
      match body.test?, greed with
      | some test, greed => test.runRepeated greed least most looping t k
      | none, .greedy =>
          Round.exactly (body.run true) least t ⟨.other, fun u =>
            Round.greedy (body.run true) (furtherRounds least most u) none u k⟩
      | none, .lazy =>
          Round.exactly (body.run true) least t ⟨.other, fun u =>
            Round.lazy (body.run true) looping (furtherRounds least most u) none u k⟩
      | none, .possessive =>
          match (Round.exactlyFirst (body.run looping) least t.setOut).failingAt t.place with
          | .matched u => k.go (Round.possessive (body.run looping) (furtherRounds least most u) u)
          | .failed reached marks => .failed reached marks

/-- Accepts a thread that has reached the end of the text. -/
def atEnd : Rest := ⟨.other, fun t => if t.place.after.isEmpty then .matched t else t.fail⟩

/-- The record of the first way in which an expression matches a whole text. -/
def fullMatch? [Release] (r : Regex) (text : List Char) : Option Marks :=
  match r.run false (.start text) atEnd with
  | .matched t => some t.marks
  | .failed .. => none

end Regex

end NamedRoutes
