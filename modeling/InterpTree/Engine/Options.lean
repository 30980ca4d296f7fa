import InterpTree.Text.Rune
import InterpTree.Fault
import InterpTree.Text.Quoted
import InterpTree.Text.Decimal

/-!
The options of a subcommand: leading words that start with a dash, some of which take the word after
them as their value. Options end at a double dash, or before the first word that is none.
-/

namespace InterpTree

/-- An option that a subcommand accepts. -/
structure OptionSpec where
  name : Text
  takesValue : Bool := false

/-- The options found, in order, with the values of those that take one. -/
structure Options where
  found : List (Text × Option Text) := []

namespace Options

def has (name : Text) (o : Options) : Bool := o.found.any fun entry => entry.1 == name

/-- The value of an option; the last one counts. -/
def value? (name : Text) (o : Options) : Option Text :=
  o.found.reverse.findSome? fun entry => if entry.1 == name then entry.2 else none

/-- Words as a choice: `a, b, or c`. -/
def oneOf (names : List Text) : Text :=
  match names.reverse with
  | [] => []
  | [a] => a
  | [b, a] => a ++ " or " ++ b
  | last :: before => Text.join ", " before.reverse ++ ", or " ++ last

def unknown (word : Text) (specs : List OptionSpec) : Fault :=
  .of .invalidArgument
    ("bad option " ++ Text.quoted word ++ ": must be " ++
      oneOf (Text.sorted (specs.map OptionSpec.name)))

/-- Whether a word is an option, if it stands where options may. -/
def isOption (word : Text) : Bool := 2 ≤ word.length && word.head? == some Text.dash

/-- Takes the options off a list of words. -/
def parse (specs : List OptionSpec) : List Text → Except Fault (Options × List Text)
  | [] => .ok ({}, [])
  | word :: rest =>
    if word == Text.ofString "--" then .ok ({}, rest)
    else if !isOption word then .ok ({}, word :: rest)
    else
      match specs.find? fun spec => spec.name == word with
      | none => .error (unknown word specs)
      | some spec =>
        if spec.takesValue then
          match rest with
          | [] => .error (.of .invalidArgument ("value for " ++ Text.quoted word ++ " missing"))
          | value :: rest => do
            let (more, rest) ← parse specs rest
            return (⟨(word, some value) :: more.found⟩, rest)
        else do
          let (more, rest) ← parse specs rest
          return (⟨(word, none) :: more.found⟩, rest)

end Options

namespace Text

/-- The truth that a word stands for. -/
def toBool (s : Text) : Except Fault Bool :=
  let word := lower (trim s)
  if [("1" : Text), "true", "yes", "on"].contains word then .ok true
  else if [("0" : Text), "false", "no", "off"].contains word then .ok false
  else .error (.of .invalidArgument ("expected boolean value but got " ++ quoted s))

/-- The integer that a word stands for. -/
def toInt (s : Text) : Except Fault Int :=
  match toInt? (trim s) with
  | some i => .ok i
  | none => .error (.of .invalidArgument ("expected integer but got " ++ quoted s))

/-- The natural number that a word stands for. -/
def toWord (s : Text) : Except Fault Nat :=
  match toWord? (trim s) with
  | some n => .ok n
  | none => .error (.of .invalidArgument ("expected unsigned integer but got " ++ quoted s))

/-- The priority that a word stands for. -/
def toPriority (s : Text) : Except Fault Int :=
  let word := lower s
  if word == ofString "low" then .ok (-1)
  else if word == ofString "normal" then .ok 0
  else if word == ofString "high" then .ok 1
  else
    .error (.of .invalidArgument
      ("bad priority " ++ quoted s ++ ": must be high, low, or normal"))

end Text

end InterpTree
