import InterpTree.Pattern.Named

/-!
Single characters and groups of characters, as patterns write them: escapes, names, and classes
between brackets. What cannot be read is refused with the stretch that is at fault.
-/

namespace InterpTree

namespace Pattern

/-- What is wrong with a text that is no pattern. -/
inductive Flaw
  | noArgument
  | repeatedTwice
  | badCount
  | groupNotClosed
  | groupNotOpened
  | classNotClosed
  | badRange
  | badEscape
  | lastBackslash
  | badFlags
  | badName
deriving DecidableEq

def Flaw.message : Flaw → Text
  | .noArgument => "missing argument to repetition operator"
  | .repeatedTwice => "invalid nested repetition operator"
  | .badCount => "invalid repeat count"
  | .groupNotClosed => "missing closing )"
  | .groupNotOpened => "unexpected )"
  | .classNotClosed => "missing closing ]"
  | .badRange => "invalid character class range"
  | .badEscape => "invalid escape sequence"
  | .lastBackslash => "trailing backslash at end of expression"
  | .badFlags => "invalid or unsupported Perl syntax"
  | .badName => "invalid named capture"

/-- Why a text is no pattern, and which stretch of it is to blame. -/
structure Refusal where
  flaw : Flaw
  stretch : List Char
deriving DecidableEq

def Refusal.message (r : Refusal) : Text :=
  "error parsing regexp: " ++ r.flaw.message ++ ": \x60" ++ Text.ofCharacters r.stretch ++ "\x60"

/-- The stretch of `s` before its end `rest`. -/
def upTo (s rest : List Char) : List Char := s.take (s.length - rest.length)

/-- A text cut at the first place where a mark stands, which belongs to neither side. -/
def cutAt (mark : List Char) : List Char → Option (List Char × List Char)
  | [] => none
  | c :: s =>
    if mark.isPrefixOf (c :: s) then some ([], s.drop (mark.length - 1))
    else (cutAt mark s).map fun (before, after) => (c :: before, after)

/-! ### Escapes -/

/-- The number that at most `count` more digits in base eight make up after `value`. -/
def octal (value : Nat) : Nat → List Char → Nat × List Char
  | 0, s => (value, s)
  | _, [] => (value, [])
  | count + 1, c :: s =>
    match Text.digitIn? 8 c with
    | some d => octal (value * 8 + d) count s
    | none => (value, c :: s)

/-- The code point that digits in base sixteen make up, as far as the brace that closes them. What
cannot be one is refused with what follows its first wrong character. -/
def braced (value : Nat) (started : Bool) : List Char → Except (List Char) (Nat × List Char)
  | [] => .error []
  | c :: s =>
    if c = '\x7d' then if started then .ok (value, s) else .error s
    else
      match Text.digitIn? 16 c with
      | none => .error s
      | some d =>
        if 0x10FFFF < value * 16 + d then .error s else braced (value * 16 + d) true s

/-- The code point of the character that an escape stands for. The escape starts with its
backslash. -/
def escape (s : List Char) : Except Refusal (Nat × List Char) :=
  let refused (rest : List Char) : Except Refusal (Nat × List Char) :=
    .error ⟨.badEscape, upTo s rest⟩
  match s.drop 1 with
  | [] => .error ⟨.lastBackslash, []⟩
  | 'x' :: [] => refused []
  | 'x' :: '\x7b' :: rest =>
    match braced 0 false rest with
    | .ok found => .ok found
    | .error rest => refused rest
  | 'x' :: _ :: [] => refused []
  | 'x' :: c :: d :: rest =>
    match Text.digitIn? 16 c, Text.digitIn? 16 d with
    | some high, some low => .ok (high * 16 + low, rest)
    | _, _ => refused rest
  | 'a' :: rest => .ok (7, rest)
  | 'f' :: rest => .ok (12, rest)
  | 'n' :: rest => .ok (10, rest)
  | 'r' :: rest => .ok (13, rest)
  | 't' :: rest => .ok (9, rest)
  | 'v' :: rest => .ok (11, rest)
  | c :: rest =>
    match Text.digitIn? 8 c with
    | some d =>
      if d = 0 || (rest.head?.any fun c => (Text.digitIn? 8 c).isSome) then .ok (octal d 2 rest)
      else refused rest
    | none => if c.toNat < 128 && !c.isAlphanum then .ok (c.toNat, rest) else refused rest

/-! ### Names -/

/-- A property in an escape, which starts with its backslash. -/
def propertyEscape (folded : Bool) (s : List Char) : Except Refusal (CharRanges × List Char) := do
  let (name, rest) ←
    match s.drop 2 with
    | [] => pure ([], [])
    | '\x7b' :: t =>
      match cutAt ['\x7d'] t with
      | some found => pure found
      | none => throw ⟨.badRange, s⟩
    | c :: rest => pure ([c], rest)
  let inverted := s[1]? == some 'P'
  let (inverted, name) :=
    if name.head? = some '^' then (!inverted, name.drop 1) else (inverted, name)
  match property? name with
  | some ranges => return ({ ranges, folded, negated := inverted }, rest)
  | none => throw ⟨.badRange, upTo s rest⟩

/-- A named group of characters at the start of a text, if there is one. -/
def named? (folded : Bool) (s : List Char) : Except Refusal (Option (CharRanges × List Char)) :=
  match s with
  | '\\' :: 'p' :: _ | '\\' :: 'P' :: _ => do return some (← propertyEscape folded s)
  | '\\' :: c :: rest =>
    .ok ((shortEscape? c).map fun (ranges, negated) => ({ ranges, folded, negated }, rest))
  | _ => .ok none

/-- A class in brackets and colons at the start of a text, if there is one. -/
def class? (folded : Bool) (s : List Char) : Except Refusal (Option (CharRanges × List Char)) :=
  match s with
  | '[' :: ':' :: t =>
    match cutAt [':', ']'] t with
    | none => .ok none
    | some (name, rest) =>
      let (negated, word) :=
        if name.head? = some '^' then (true, name.drop 1) else (false, name)
      match classes.lookup (String.ofList word) with
      | some ranges => .ok (some ({ ranges, folded, negated }, rest))
      | none => .error ⟨.badRange, upTo s rest⟩
  | _ => .ok none

/-! ### Groups between brackets -/

/-- One character of a group, whose text from its bracket on is `whole`. -/
def member (whole s : List Char) : Except Refusal (Nat × List Char) :=
  match s with
  | [] => .error ⟨.classNotClosed, whole⟩
  | '\\' :: _ => escape s
  | c :: rest => .ok (c.toNat, rest)

/-- One character of a group or a range of them. A dash before the end of the group is itself. -/
def range (folded : Bool) (whole s : List Char) : Except Refusal (CharRanges × List Char) := do
  let (low, rest) ← member whole s
  match rest with
  | '-' :: c :: t =>
    if c = ']' then return ({ ranges := [(low, low)], folded }, rest)
    let (high, rest) ← member whole (c :: t)
    if high < low then throw ⟨.badRange, upTo s rest⟩
    return ({ ranges := [(low, high)], folded }, rest)
  | rest => return ({ ranges := [(low, low)], folded }, rest)

/-- One part of a group. -/
def part (folded : Bool) (whole s : List Char) : Except Refusal (CharRanges × List Char) := do
  match ← class? folded s with
  | some found => return found
  | none =>
    match ← named? folded s with
    | some found => return found
    | none => range folded whole s

/-- The parts of a group up to the bracket that closes it; `fuel` bounds how many there are. -/
def parts (folded : Bool) (whole : List Char) :
    Nat → List Char → Except Refusal (List CharRanges × List Char)
  | 0, s => .ok ([], s)
  | fuel + 1, s =>
    match s with
    | ']' :: rest => .ok ([], rest)
    | s => do
      let (first, rest) ← part folded whole s
      let (others, rest) ← parts folded whole fuel rest
      return (first :: others, rest)

/-- A group between brackets. A bracket that closes stands for itself at its start. -/
def group (folded : Bool) (s : List Char) : Except Refusal (CharGroup × List Char) := do
  let inner := s.drop 1
  let negated := inner.head? == some '^'
  let inner := if negated then inner.drop 1 else inner
  let (first, rest) ← part folded s inner
  let (others, rest) ← parts folded s (rest.length + 1) rest
  return (⟨first :: others, negated⟩, rest)

end Pattern

end InterpTree
