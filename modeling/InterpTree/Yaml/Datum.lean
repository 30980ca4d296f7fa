import InterpTree.Text.Instant

/-!
What a scalar of a document stands for. A plain word may be nothing, a truth, a number or an
instant; a quoted one is a text. A tag says what a scalar has to stand for.
-/

namespace InterpTree

namespace Yaml

open Text

/-- What a scalar stands for. -/
inductive Datum
  | null
  | bool (b : Bool)
  | int (i : Int)
  | real (r : Binary64)
  | instant
  | text (t : Text)
  /-- The key under which other mappings are taken in. Anywhere else it is a text. -/
  | merge
deriving DecidableEq

namespace Datum

/-- The text of the key under which other mappings are taken in. -/
def mergeWord : Text := "<<"

/-- The words that stand for something else than themselves. -/
def words : List (Text × Datum) :=
  let not : Datum := .real .nan
  let positive : Datum := .real (.infinite false)
  let negative : Datum := .real (.infinite true)
  [("", .null), ("~", .null), ("null", .null), ("Null", .null), ("NULL", .null),
    ("true", .bool true), ("True", .bool true), ("TRUE", .bool true),
    ("false", .bool false), ("False", .bool false), ("FALSE", .bool false),
    (".nan", not), (".NaN", not), (".NAN", not),
    (".inf", positive), (".Inf", positive), (".INF", positive),
    ("+.inf", positive), ("+.Inf", positive), ("+.INF", positive),
    ("-.inf", negative), ("-.Inf", negative), ("-.INF", negative)]

/-- The forms of an instant. -/
def instants : List (List Instant.Part) :=
  let zoned (mark : UInt8) : List Instant.Part :=
    Instant.date false ++ [.mark mark] ++ Instant.time false ++ [.zone]
  [zoned 84, zoned 116, Instant.date false ++ [.spaces] ++ Instant.time false, Instant.date false]

/-- Whether a text is an instant. -/
def isInstant (s : Text) : Bool := instants.any fun layout => Instant.fits layout s

/-- An integer that fits a word of 64 bits. The word may be an unsigned one if there is no sign. -/
def word? (s : Text) : Option Int :=
  match s with
  | [] => none
  | c :: _ =>
    let bound := if c = dash || c = 43 then maxWord + 1 else Int.ofNat wordCount
    (integer? s).filter fun i => minWord ≤ i && i < bound

/-- An integer in base two or eight with its sign inside. -/
def innerSigned? (s : Text) : Option Int :=
  match s with
  | 48 :: c :: rest =>
    if c = 98 then (signed? (digitsIn 2) rest).filter fun i => minWord ≤ i && i ≤ maxWord
    else if c = 111 then (signed? (digitsIn 8) rest).filter fun i => minWord ≤ i && i ≤ maxWord
    else none
  | _ => none

/-- A number. Its underscores do not count. -/
def number? (s : Text) : Option Datum :=
  let s := withoutUnderscores s
  match word? s with
  | some i => some (.int i)
  | none =>
    match real? s with
    | some r => some (.real r)
    | none => (innerSigned? s).map .int

/-- What a plain scalar stands for. -/
def ofPlain (s : Text) : Datum :=
  match words.lookup s with
  | some d => d
  | none =>
    match s with
    | [] => .null
    | c :: _ =>
      if c = dot then
        if underscoresFit s then ((real? (withoutUnderscores s)).map .real).getD (.text s)
        else .text s
      else if !(isDigit c || c = dash || c = 43) then .text s
      else if isInstant s then .instant
      else (number? s).getD (.text s)

/-! ### Tags -/

/-- What a tag wants. -/
inductive Tag
  /-- Whatever the form of the scalar tells. -/
  | none
  | text
  | bool
  | int
  | real
  | null
  | instant
  /-- Bytes, as a text in base 64. -/
  | bytes
  | merge
  /-- Any other tag; its scalars are texts. -/
  | other
deriving DecidableEq

/-- The beginning of the tags that every document knows. -/
def coreTag : Text := "tag:yaml.org,2002:"

namespace Tag

/-- The names of the tags that want something. -/
def names : List (Text × Tag) :=
  [("str", .text), ("bool", .bool), ("int", .int), ("float", .real), ("null", .null),
    ("timestamp", .instant), ("binary", .bytes), ("merge", .merge)]

/-- The tag that a text names. A tag of nothing but its mark says nothing. -/
def ofText (t : Text) : Tag :=
  let named (name : Text) : Tag := (names.lookup name).getD .other
  if t.isEmpty || t == ofString "!" then .none
  else if coreTag.isPrefixOf t then named (t.drop coreTag.length)
  else if (ofString "!!").isPrefixOf t then named (t.drop 2)
  else .other

end Tag

/-- The value of a digit in base 64. -/
def digit64? (c : UInt8) : Option Nat :=
  if 65 ≤ c ∧ c ≤ 90 then some (c.toNat - 65)
  else if 97 ≤ c ∧ c ≤ 122 then some (c.toNat - 71)
  else if 48 ≤ c ∧ c ≤ 57 then some (c.toNat + 4)
  else if c = 43 then some 62
  else if c = slash then some 63
  else Option.none

/-- The bytes that digits in base 64 stand for, four digits for three bytes. -/
def bytes64? : Text → Option Text
  | [] => some []
  | a :: b :: c :: d :: rest => do
    let high := (← digit64? a) * 64 + (← digit64? b)
    if c = 61 && d = 61 && rest.isEmpty then return [(high / 16).toUInt8]
    let high := high * 64 + (← digit64? c)
    if d = 61 && rest.isEmpty then return [(high / 1024).toUInt8, (high / 4).toUInt8]
    let high := high * 64 + (← digit64? d)
    return (high / 65536).toUInt8 :: (high / 256).toUInt8 :: high.toUInt8 :: (← bytes64? rest)
  | _ => Option.none

/-- What a scalar stands for, unless that is not what its tag wants. An integer may do as a number
of any kind. -/
def ofScalar? (tag : Tag) (plain : Bool) (s : Text) : Option Datum :=
  let own : Datum := ofPlain s
  match tag with
  | .none =>
    if !plain then some (.text s) else if s = mergeWord then some .merge else some own
  | .text => some (.text s)
  | .other => some (.text s)
  | .merge => some (if s = mergeWord then .merge else .text s)
  | .bytes =>
    (bytes64? (s.filter fun c => c ≠ newline && c ≠ carriageReturn)).map .text
  | .null => if own = .null then some own else Option.none
  | .instant => if own = .instant then some own else Option.none
  | .bool =>
    match own with
    | .bool b => some (.bool b)
    | _ => Option.none
  | .int =>
    match own with
    | .int i => some (.int i)
    | _ => Option.none
  | .real =>
    match own with
    | .real r => some (.real r)
    | .int i =>
      if i ≤ maxWord then
        (Magnitude.ofNat? i.natAbs).map fun m => .real (.finite (decide (i < 0)) m)
      else Option.none
    | _ => Option.none

end Datum

end Yaml

end InterpTree
