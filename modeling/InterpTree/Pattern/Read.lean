import InterpTree.Pattern.Group
import InterpTree.Text.Decimal

/-!
Reading patterns. A reader keeps the groups that are open; a bar, a parenthesis and a repetition act
on the innermost of them.
-/

namespace InterpTree

namespace Pattern

/-- How the characters of a pattern are meant. -/
structure Flags where
  /-- The cases of a letter count as one. -/
  folded : Bool := false
  /-- The marks of the start and the end stand for those of a line. -/
  linewise : Bool := false
  /-- A dot stands for a line break, too. -/
  acrossLines : Bool := false
deriving DecidableEq

/-- A group whose end has not been read: the choices before its last bar and the parts after it,
each in reverse, and the flags that hold again after the group. -/
structure OpenGroup where
  choices : List Pattern := []
  parts : List Pattern := []
  flagsAfter : Flags := {}

/-- What has been read of a pattern. -/
structure Reader where
  whole : List Char
  current : OpenGroup := {}
  /-- The groups around the current one, the innermost first. -/
  outer : List OpenGroup := []
  flags : Flags := {}
  /-- The text from the repetition on that was read last, if nothing has been read since. -/
  repetition? : Option (List Char) := none

namespace OpenGroup

def push (g : OpenGroup) (p : Pattern) : OpenGroup := { g with parts := p :: g.parts }

/-- The group after a bar. -/
def bar (g : OpenGroup) : OpenGroup :=
  { g with choices := sequenceOf g.parts.reverse :: g.choices, parts := [] }

/-- All that the group holds. -/
def pattern (g : OpenGroup) : Pattern :=
  g.choices.foldl (fun later earlier => .choice earlier later) (sequenceOf g.parts.reverse)

end OpenGroup

namespace Reader

def push (r : Reader) (p : Pattern) : Reader := { r with current := r.current.push p }

/-- A character that stands for itself. -/
def literal (r : Reader) (n : Nat) : Reader := r.push (.one (.single r.flags.folded n))

def start (r : Reader) (flags : Flags) : Reader :=
  { r with
    current := { flagsAfter := r.flags }
    outer := r.current :: r.outer
    flags }

def finish (r : Reader) : Except Refusal Reader :=
  match r.outer with
  | [] => .error ⟨.groupNotOpened, r.whole⟩
  | g :: outer =>
    .ok { r with current := g.push r.current.pattern, outer, flags := r.current.flagsAfter }

/-- Repeats the last part. The repetition starts at `s` and ends before `rest`; a question mark
after it belongs to it. A repetition cannot be repeated. -/
def repeatLast (r : Reader) (before? : Option (List Char)) (s rest : List Char) (least : Nat)
    (most? : Option Nat) : Except Refusal (Reader × List Char) :=
  let rest := if rest.head? = some '?' then rest.drop 1 else rest
  match before?, r.current.parts with
  | some before, _ => .error ⟨.repeatedTwice, upTo before rest⟩
  | none, [] => .error ⟨.noArgument, upTo s rest⟩
  | none, last :: parts =>
    let p := Pattern.repeated last least most?
    if p.repeatsWithin 1000 then
      let current := { r.current with parts := p :: parts }
      .ok ({ r with current, repetition? := some s }, rest)
    else .error ⟨.badCount, upTo s rest⟩

end Reader

/-- A number without zeros in front. -/
def count? (s : List Char) : Option (Nat × List Char) :=
  let digits := s.takeWhile Char.isDigit
  if digits.length ≠ 1 ∧ digits.head? = some '0' then none
  else (Text.toNat? (Text.ofCharacters digits)).map (·, s.drop digits.length)

/-- The bounds of a repetition between braces, the first of which has been read, and what follows.
-/
def bounds? (s : List Char) : Option (Nat × Option Nat × List Char) := do
  let (least, s) ← count? s
  match s with
  | '\x7d' :: rest => return (least, some least, rest)
  | ',' :: '\x7d' :: rest => return (least, none, rest)
  | ',' :: s =>
    let (most, s) ← count? s
    match s with
    | '\x7d' :: rest => return (least, some most, rest)
    | _ => none
  | _ => none

/-- Flags up to what ends them: a colon, after which a group starts, or a parenthesis. They stand in
the group that starts at `s`; those after a dash are taken away. -/
def flagsOf (s : List Char) (set : Flags) (away seen : Bool) :
    List Char → Except Refusal (Flags × Bool × List Char)
  | [] => .error ⟨.badFlags, s⟩
  | c :: rest =>
    if c = 'i' then flagsOf s { set with folded := !away } away true rest
    else if c = 'm' then flagsOf s { set with linewise := !away } away true rest
    else if c = 's' then flagsOf s { set with acrossLines := !away } away true rest
    else if c = 'U' then flagsOf s set away true rest
    else if c = '-' ∧ !away then flagsOf s set true false rest
    else if (c = ':' ∨ c = ')') ∧ (seen ∨ !away) then .ok (set, c == ':', rest)
    else .error ⟨.badFlags, upTo s rest⟩

/-- What follows the name of a group that starts at `s`. -/
def afterName (s : List Char) : Except Refusal (List Char) :=
  match cutAt ['>'] s with
  | none => .error ⟨.badName, s⟩
  | some (start, rest) =>
    let name := (start.dropWhile (· ≠ '<')).drop 1
    if !name.isEmpty && name.all Place.isWordChar then .ok rest
    else .error ⟨.badName, upTo s rest⟩

namespace Reader

/-- A group that starts with a question mark: it has a name, or flags. -/
def special (r : Reader) (s : List Char) : Except Refusal (Reader × List Char) := do
  match s with
  | '(' :: '?' :: 'P' :: '<' :: _ :: _ | '(' :: '?' :: '<' :: _ :: _ =>
    return (r.start r.flags, ← afterName s)
  | _ =>
    let (flags, opens, rest) ← flagsOf s r.flags false false (s.drop 2)
    return (if opens then r.start flags else { r with flags }, rest)

/-- What a backslash starts. -/
def escaped (r : Reader) (s : List Char) : Except Refusal (Reader × List Char) := do
  match s with
  | '\\' :: 'A' :: rest => return (r.push (.edge .textStart), rest)
  | '\\' :: 'z' :: rest => return (r.push (.edge .textEnd), rest)
  | '\\' :: 'b' :: rest => return (r.push (.edge .word), rest)
  | '\\' :: 'B' :: rest => return (r.push (.edge .notWord), rest)
  | '\\' :: 'Q' :: rest =>
    let (literals, rest) := (cutAt ['\\', 'E'] rest).getD (rest, [])
    return (literals.foldl (fun r c => r.literal c.toNat) r, rest)
  | s =>
    match ← named? r.flags.folded s with
    | some (ranges, rest) => return (r.push (.one ⟨[ranges], false⟩), rest)
    | none =>
      let (n, rest) ← escape s
      return (r.literal n, rest)

/-- Reads one item off a text. A repetition is told what repetition stands right before it. -/
def step (r : Reader) (before? : Option (List Char)) (s : List Char) :
    Except Refusal (Reader × List Char) :=
  match s with
  | [] => .ok (r, [])
  | '(' :: '?' :: _ => r.special s
  | '(' :: rest => .ok (r.start r.flags, rest)
  | '|' :: rest => .ok ({ r with current := r.current.bar }, rest)
  | ')' :: rest => do return (← r.finish, rest)
  | '^' :: rest => .ok (r.push (.edge (if r.flags.linewise then .lineStart else .textStart)), rest)
  | '$' :: rest => .ok (r.push (.edge (if r.flags.linewise then .lineEnd else .textEnd)), rest)
  | '.' :: rest => .ok (r.push (.one (if r.flags.acrossLines then .all else .line)), rest)
  | '[' :: _ => do
    let (g, rest) ← group r.flags.folded s
    return (r.push (.one g), rest)
  | '*' :: rest => r.repeatLast before? s rest 0 none
  | '+' :: rest => r.repeatLast before? s rest 1 none
  | '?' :: rest => r.repeatLast before? s rest 0 (some 1)
  | '\x7b' :: rest =>
    match bounds? rest with
    | none => .ok (r.literal 123, rest)
    | some (least, most?, after) =>
      if 1000 < least ∨ most?.any (fun most => 1000 < most || most < least) then
        .error ⟨.badCount, upTo s after⟩
      else r.repeatLast before? s after least most?
  | '\\' :: _ => r.escaped s
  | c :: rest => .ok (r.literal c.toNat, rest)

/-- Reads a text to its end; `fuel` bounds how many items it has. -/
def run : Nat → Reader → List Char → Except Refusal Reader
  | 0, r, _ => .ok r
  | _, r, [] => .ok r
  | fuel + 1, r, s => do
    let (r, rest) ← { r with repetition? := none }.step r.repetition? s
    run fuel r rest

end Reader

/-- The pattern that a text writes. -/
def ofText (s : List Char) : Except Refusal Pattern := do
  let r ← Reader.run s.length { whole := s } s
  if r.outer.isEmpty then return r.current.pattern else throw ⟨.groupNotClosed, s⟩

end Pattern

end InterpTree
