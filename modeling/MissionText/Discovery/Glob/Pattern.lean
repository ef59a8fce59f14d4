/-
  The patterns that globs are parsed into, and the texts that they match.

  A `Pattern` is a sequence of matchers and groups, each group with its
  alternatives; it is built from the front, so that the last part is on top.

  * `Pattern.matches` reads a text once for every part of the pattern.  It goes
    through the parts from the last to the first and knows for every end of the
    text whether the parts behind match it (`Ends`).
  * `Pattern.nesting` says how deep the parts of a pattern lie in groups,
    alternatives, sequences and repetitions.
-/
import MissionText.Text.Utf8

namespace MissionText.Glob

/-! ## Matchers -/

/-- What a part of a pattern stands for. -/
inductive Matcher where
  | byte (b : UInt8)
  /-- One byte that is not a slash. -/
  | any
  /-- Bytes that are not slashes. -/
  | anyRun
  /-- One byte of some ranges, or of none of them. -/
  | set (negated : Bool) (ranges : List (UInt8 × UInt8))
  /-- Nothing, or directories up to a slash. -/
  | leading
  /-- A slash and anything after it. -/
  | trailing
  /-- A slash, or directories between two slashes. -/
  | between
  /-- Anything. -/
  | everything
  deriving Repr, DecidableEq

/-- For every end of a text, from the text itself to the empty one, whether it
    has some property. -/
abbrev Ends := List Bool

namespace Ends

/-- Only the empty end. -/
def empty (bs : Bytes) : Ends :=
  bs.map (fun _ => false) ++ [true]

/-- The ends with either of two properties. -/
def or (a b : Ends) : Ends := a.zipWith (· || ·) b

/-- The ends that are one byte with the property `p` in front of one of
    `ends`. -/
def one (p : UInt8 → Bool) : Bytes → Ends → Ends
  | b :: bs, _ :: ends => (p b && ends.headD false) :: one p bs ends
  | _, _ => [false]

/-- The ends that are bytes with the property `p` in front of one of `ends`. -/
def many (p : UInt8 → Bool) : Bytes → Ends → Ends
  | b :: bs, e :: ends =>
    let rest := many p bs ends
    (e || (p b && rest.headD false)) :: rest
  | _, ends => ends

end Ends

/-- The byte is a slash. -/
def isSlash (b : UInt8) : Bool := b == '/'.toUInt8

/-- The ends that are one of `ends`, or end so after a slash. -/
def belowEnds (bs : Bytes) (ends : Ends) : Ends :=
  ends.or (Ends.many (fun _ => true) bs (Ends.one isSlash bs ends))

namespace Matcher

/-- The ends of a text that start with what the matcher stands for and go on
    as one of `ends`. -/
def before (m : Matcher) (bs : Bytes) (ends : Ends) : Ends :=
  match m with
  | .byte b => Ends.one (· == b) bs ends
  | .any => Ends.one (!isSlash ·) bs ends
  | .anyRun => Ends.many (!isSlash ·) bs ends
  | .set negated ranges =>
    Ends.one (fun c => (ranges.any fun r => r.1 ≤ c && c ≤ r.2) != negated) bs ends
  | .leading => belowEnds bs ends
  | .trailing => Ends.one isSlash bs (Ends.many (fun _ => true) bs ends)
  | .between => Ends.one isSlash bs (belowEnds bs ends)
  | .everything => Ends.many (fun _ => true) bs ends

/-- How deep a matcher nests: a class counts one and one more if it has
    several ranges, a repetition counts one, and directories count as a group of
    alternatives with a sequence in it. -/
def nesting : Matcher → Nat
  | .byte _ => 0
  | .any => 1
  | .anyRun => 2
  | .set _ ranges => if ranges.length ≤ 1 then 1 else 2
  | .leading => 4
  | .trailing => 1
  | .between => 4
  | .everything => 1

/-- In how many steps of a sequence a matcher is written out. -/
def steps : Matcher → Nat
  | .trailing => 2
  | _ => 1

end Matcher

/-! ## Patterns -/

mutual

/-- A sequence of matchers and groups, the last one on top. -/
inductive Pattern where
  | empty
  | one (init : Pattern) (last : Matcher)
  | group (init : Pattern) (last : Alternatives)
  deriving Repr, DecidableEq

/-- The alternatives of a group, the last one on top.  A group without any
    stands for the empty text. -/
inductive Alternatives where
  | none
  | more (init : Alternatives) (last : Pattern)
  deriving Repr, DecidableEq

end

namespace Alternatives

/-- There are no alternatives. -/
def isNone : Alternatives → Bool
  | none => true
  | more _ _ => false

/-- The number of alternatives. -/
def size : Alternatives → Nat
  | none => 0
  | more init _ => init.size + 1

end Alternatives

namespace Pattern

/-- The pattern has no matchers, in groups neither. -/
def isVoid : Pattern → Bool
  | empty => true
  | one _ _ => false
  | group init last => init.isVoid && last.isNone

/-- The pattern and matchers after it. -/
def append (p : Pattern) (ms : List Matcher) : Pattern := ms.foldl one p

/-- In how many steps of a sequence a pattern is written out. -/
def steps : Pattern → Nat
  | empty => 0
  | one init last => init.steps + last.steps
  | group init last => init.steps + if last.isNone then 0 else 1

end Pattern

/-- The group with one more alternative, unless that has no matchers. -/
def Alternatives.add (a : Alternatives) (p : Pattern) : Alternatives :=
  if p.isVoid then a else .more a p

/-! ## Matching -/

mutual

/-- The ends of a text that start with what the pattern stands for and go on as
    one of `ends`. -/
def Pattern.before (bs : Bytes) (ends : Ends) : Pattern → Ends
  | .empty => ends
  | .one init last => init.before bs (last.before bs ends)
  | .group init last => init.before bs (if last.isNone then ends else last.before bs ends)

/-- The ends of a text that start with what one of the alternatives stands for
    and go on as one of `ends`. -/
def Alternatives.before (bs : Bytes) (ends : Ends) : Alternatives → Ends
  | .none => ends.map fun _ => false
  | .more init last => (init.before bs ends).or (last.before bs ends)

end

/-- The pattern stands for the text. -/
def Pattern.matches (p : Pattern) (bs : Bytes) : Bool :=
  (p.before bs (Ends.empty bs)).headD false

/-! ## Nesting -/

mutual

/-- How deep the parts of a pattern nest, its own sequence not counted. -/
def Pattern.depth : Pattern → Nat
  | .empty => 0
  | .one init last => max init.depth last.nesting
  | .group init last =>
    max init.depth <|
      if last.isNone then 0 else last.depth + if last.size ≤ 1 then 1 else 2

/-- How deep alternatives nest, the sequence that an alternative is included. -/
def Alternatives.depth : Alternatives → Nat
  | .none => 0
  | .more init last => max init.depth (last.depth + if last.steps ≤ 1 then 0 else 1)

end

/-- How deep a pattern nests. -/
def Pattern.nesting (p : Pattern) : Nat := p.depth + 1

end MissionText.Glob
