import InterpTree.Pattern.Read
import InterpTree.Revision.Token
import InterpTree.Text.Decimal
import InterpTree.Text.Instant

/-!
Revisions. A revision names a commit: by a reference, by steps back from it, by what its message
says, and in more ways that are allowed but lead nowhere. It is read into parts, whose order is
checked after all of them have been read.
-/

namespace InterpTree

namespace Revision

/-- A part of a revision. -/
inductive Part
  | reference (name : Text)
  /-- What a reference was at some time. -/
  | dated
  /-- What a reference was so many changes ago. -/
  | logged
  /-- The branch that a branch follows. -/
  | followed
  /-- The branch that a branch is sent to. -/
  | sent
  /-- The branch of so many checkouts ago. -/
  | left
  /-- So many commits back. -/
  | ancestor (depth : Nat)
  /-- One of the parents of a commit; the zeroth is the commit itself. -/
  | parent (number : Nat)
  /-- The object of some kind that an object leads to. -/
  | object
  /-- The last commit whose message a pattern occurs in, or does not if it is `negated`. -/
  | saying (text : Text) (pattern : Pattern) (negated : Bool)
  /-- The last commit of all whose message a pattern occurs in. -/
  | anySaying
  /-- A path in the commit, which does not matter to which commit it is. -/
  | path
  /-- A path among what is to be committed. -/
  | staged
deriving DecidableEq

/-! ### Parts -/

/-- The number that a token shows; digits beyond ASCII show nothing. -/
def valueOf (cs : List Char) : Nat := (Text.toNat? (Text.ofCharacters cs)).getD 0

/-- A message about some characters, which it puts between quotes. -/
def about (start : Text) (cs : List Char) (finish : Text) : Text :=
  start ++ "\"" ++ Text.ofCharacters cs ++ "\"" ++ finish

/-- The form that dates have: `2006-01-02T15:04:05Z`. -/
def dateLayout : List Instant.Part :=
  Instant.date true ++ [.mark 84, .hour, .mark Text.colon, .minute true, .mark Text.colon,
    .second true, .fraction, .mark 90]

/-- A date as far as the brace that closes it. -/
def date (read : List Char) : List Token → Except Text (Part × List Token)
  | [] | .stop :: _ => .error "missing \"\x7d\" in @\x7b<data>\x7d structure"
  | .mark '\x7d' :: rest =>
    if Instant.fits dateLayout (Text.ofCharacters read) then .ok (.dated, rest)
    else .error (about "wrong date " read " must fit ISO-8601 format : 2006-01-02T15:04:05Z")
  | t :: rest => date (read ++ t.characters) rest

/-- What follows an at sign. -/
def afterAt : List Token → Except Text (Part × List Token)
  | .mark '\x7b' :: ts =>
    match ts with
    | .word ['u'] :: .mark '\x7d' :: rest => .ok (.followed, rest)
    | .word ['u', 'p', 's', 't', 'r', 'e', 'a', 'm'] :: .mark '\x7d' :: rest =>
      .ok (.followed, rest)
    | .word ['p', 'u', 's', 'h'] :: .mark '\x7d' :: rest => .ok (.sent, rest)
    | .number _ :: .mark '\x7d' :: rest => .ok (.logged, rest)
    | .mark '-' :: .number _ :: rest =>
      match rest with
      | .mark '\x7d' :: rest => .ok (.left, rest)
      | _ => .error "missing \"\x7d\" in @\x7b-n\x7d structure"
    | [] => date [] []
    | t :: rest => date t.characters rest
  | rest => .ok (.reference "HEAD", rest)

def afterTilde : List Token → Part × List Token
  | .number cs :: rest => (.ancestor (valueOf cs), rest)
  | rest => (.ancestor 1, rest)

/-- The pattern that some characters write. -/
def patternOf (cs : List Char) : Except Text Pattern :=
  (Pattern.ofText cs).mapError fun refusal =>
    "revision suffix brace component, " ++ refusal.message

def reserved : Text :=
  "revision suffix brace component sequences starting with \"/!\" others than those defined are " ++
  "reserved"

/-- The kinds of objects. -/
def kinds : List (List Char) := ["commit", "tree", "blob", "tag", "object"].map String.toList

/-- What follows an open brace after a caret: a kind of object, or after a slash a pattern, of which
`read` has been read. A word for a kind counts wherever a brace follows it. -/
def afterCaretBrace (started negated : Bool) (read : List Char) :
    List Token → Except Text (Part × List Token)
  | [] =>
    if started then .error "missing \"\x7d\" in ^\x7b<data>\x7d structure"
    else .error (about "" [] " is not a valid revision suffix brace component")
  | t :: rest =>
    if kinds.contains t.characters && rest.head? = some (.mark '\x7d') then
      .ok (.object, rest.drop 1)
    else if read.isEmpty && t = .mark '\x7d' then .ok (.object, rest.drop 1)
    else if read.isEmpty && t = .mark '!' then
      match rest with
      | .mark '!' :: rest => afterCaretBrace true negated ['!'] rest
      | .mark '-' :: rest => afterCaretBrace true true read rest
      | _ => .error reserved
    else if read.isEmpty && t = .mark '/' then afterCaretBrace true negated read rest
    else if !started then
      .error (about "" t.characters " is not a valid revision suffix brace component")
    else if t = .stop then .error "missing \"\x7d\" in ^\x7b<data>\x7d structure"
    else if t = .mark '\x7d' then do
      return (.saying (Text.ofCharacters read) (← patternOf read) negated, rest)
    else afterCaretBrace true negated (read ++ t.characters) rest

def afterCaret : List Token → Except Text (Part × List Token)
  | .mark '\x7b' :: rest => afterCaretBrace false false [] rest
  | .number cs :: rest =>
    if valueOf cs ≤ 2 then .ok (.parent (valueOf cs), rest)
    else .error (about "" cs " found must be 0, 1 or 2 after \"^\"")
  | rest => .ok (.parent 1, rest)

/-- A pattern that goes on to the end. -/
def afterSlash (read : List Char) : List Token → Except Text (Part × List Token)
  | [] => do
    let _ ← patternOf read
    return (.anySaying, [])
  | .stop :: rest => do
    let _ ← patternOf read
    return (.anySaying, .stop :: rest)
  | .mark '!' :: .mark '!' :: rest => afterSlash (read ++ ['!']) rest
  | .mark '!' :: .mark '-' :: rest =>
    afterSlash (if read.isEmpty then [] else read ++ ['!', '-']) rest
  | t :: rest =>
    if read.isEmpty && t = .mark '!' then .error reserved
    else afterSlash (read ++ t.characters) rest

/-- What follows the next stop. -/
def afterStop (ts : List Token) : List Token := (ts.dropWhile (· ≠ .stop)).drop 1

/-- What follows a colon: a pattern, or a path that may have a stage before it. -/
def afterColon : List Token → Except Text (Part × List Token)
  | .mark '/' :: rest => afterSlash [] rest
  | .number _ :: .mark ':' :: rest => .ok (.staged, afterStop rest)
  | _ :: rest => .ok (.path, afterStop rest)
  | [] => .ok (.path, [])

/-- Why a token must not follow what has been read of a reference, which is in reverse. The
reference ends before the token if this is `final`. -/
def misplaced? (read : List Char) (last? : Option Token) (t : Token) (final : Bool) : Option Text :=
  let isBarred :=
    match t with
    | .blank _ | .control _ => true
    | .mark c => ['\\', '?', '*', '['].contains c
    | _ => false
  let isDot (t? : Option Token) : Bool := t? = some (.mark '.')
  let isSlash (t? : Option Token) : Bool := t? = some (.mark '/')
  if isBarred then some (about "must not contains " t.characters "")
  else if (isDot t || isSlash t) && read.isEmpty then
    some (about "must not start with " t.characters "")
  else if isSlash last? && final then some "must not end with \"/\""
  else if isDot last? && final then some "must not end with \".\""
  else if isDot t && isSlash last? then some "must not contains \"/.\""
  else if isDot t && isDot last? then some "must not contains \"..\""
  else if isSlash t && isSlash last? then some "must not contains consecutively \"/\""
  else if (isSlash t || final) && ".lock".toList.reverse.isPrefixOf read then
    some "cannot end with .lock"
  else none

/-- Whether a token ends a reference. -/
def Token.endsReference (t : Token) : Bool :=
  t = .stop || [Token.mark '@', .mark ':', .mark '~', .mark '^'].contains t

/-- A reference, of which `read` has been read, in reverse and with the token `last?` at its end. -/
def reference (read : List Char) (last? : Option Token) :
    List Token → Except Text (Part × List Token)
  | [] =>
    match misplaced? read last? .stop true with
    | some reason => .error reason
    | none => .ok (.reference (Text.ofCharacters read.reverse), [])
  | t :: rest =>
    match misplaced? read last? t t.endsReference with
    | some reason => .error reason
    | none =>
      if t.endsReference then .ok (.reference (Text.ofCharacters read.reverse), t :: rest)
      else reference (t.characters.reverseAux read) (some t) rest

/-- The parts that tokens make up, as far as a stop; `fuel` bounds how many there are. -/
def parts : Nat → List Token → Except Text (List Part)
  | 0, _ | _, [] | _, .stop :: _ => .ok []
  | fuel + 1, t :: ts => do
    let (p, rest) ←
      match t with
      | .mark '@' => afterAt ts
      | .mark '~' => pure (afterTilde ts)
      | .mark '^' => afterCaret ts
      | .mark ':' => afterColon ts
      | _ => reference [] none (t :: ts)
    return p :: (← parts fuel rest)

/-! ### Their order -/

/-- Why parts in this order are no revision. In all there are `count` parts, and `named` tells
whether a reference came first. -/
def disorder? (count : Nat) (named : Bool) : List Part → Option Text
  | [] => none
  | p :: rest =>
    let alone := count = 1
    let withName := alone ∨ (named ∧ count = 2)
    let sign (mark forms : Text) : Text :=
      "\"" ++ mark ++ "\" statement is not valid, could be : " ++ forms
    match p with
    | .reference _ =>
      if rest.length + 1 = count then disorder? count true rest
      else some "reference must be defined once at the beginning"
    | .dated =>
      if withName then none
      else some (sign "@" "<refname>@\x7b<ISO-8601 date>\x7d, @\x7b<ISO-8601 date>\x7d")
    | .logged =>
      if withName then none else some (sign "@" "<refname>@\x7b<n>\x7d, @\x7b<n>\x7d")
    | .followed =>
      if withName then none
      else
        some (sign "@" ("<refname>@\x7bupstream\x7d, @\x7bupstream\x7d, " ++
          "<refname>@\x7bu\x7d, @\x7bu\x7d"))
    | .sent =>
      if withName then none else some (sign "@" "<refname>@\x7bpush\x7d, @\x7bpush\x7d")
    | .left => if alone then none else some (sign "@" "@\x7b-<n>\x7d")
    | .ancestor _ | .parent _ | .saying _ _ _ =>
      if named then disorder? count named rest
      else some "\"~\" or \"^\" statement must have a reference defined at the beginning"
    | .object => disorder? count named rest
    | .anySaying => if alone then none else some (sign ":" ":/<regexp>")
    | .path => if alone ∨ (rest = [] ∧ named) then none else some (sign ":" "<revision>:<path>")
    | .staged => if alone then none else some (sign ":" ":<n>:<path>")

/-- How many bytes of a revision count. -/
def maxLength : Nat := 131072

/-- The parts of a revision, in order. -/
def ofText (s : Text) : Except Text (List Part) :=
  let refused (reason : Text) : Text := "Revision invalid : " ++ reason
  let ts := tokens (Text.characters (s.take maxLength))
  match parts (ts.length + 1) ts with
  | .error reason => .error (refused reason)
  | .ok ps =>
    match disorder? ps.length false ps with
    | some reason => .error (refused reason)
    | none => .ok ps

end Revision

end InterpTree
