import InterpTree.Engine.Run

/-!
The interactive loop. It reads lines until they make a complete script, runs the script in the root,
shows its value, and serves what is due by then.
-/

namespace InterpTree

namespace Shell

/-- Writes to the standard output stream. -/
def print (t : Text) : Act Unit :=
  modify (World.modifyHost fun h => { h with stdout := h.stdout ++ t })

/-- Writes a line to the standard output stream. -/
def printLine (t : Text) : Act Unit := print (t ++ [Text.newline])

/-- A line of an input, or a part of one that is too long. -/
structure Line where
  text : Text
  isPart : Bool := false
deriving DecidableEq

/-- How long a line may be. -/
def lineBound : Nat := 4096

/-- The lines of an input; `fuel` bounds how many there are. A line break may have a carriage return
before it, and the last line need not end in one. Of a line that reaches the bound, so much comes as
a part by itself; a carriage return at its end goes with what follows. -/
def linesUpTo : Nat → Text → List Line
  | 0, _ => []
  | fuel + 1, input =>
    let start := input.take lineBound
    match Text.cutFirst Text.newline start with
    | some (line, _) =>
      let text := if line.getLast? = some Text.carriageReturn then line.dropLast else line
      ⟨text, false⟩ :: linesUpTo fuel (input.drop (line.length + 1))
    | none =>
      if start.isEmpty then []
      else if start.length < lineBound then [⟨start, false⟩]
      else
        let text := if start.getLast? = some Text.carriageReturn then start.dropLast else start
        ⟨text, true⟩ :: linesUpTo fuel (input.drop text.length)

/-- The lines of an input. -/
def linesOf (input : Text) : List Line := linesUpTo (input.length + 1) input

/-- What the loop has to remember besides the tree: what it reported, and the scripts it ran. -/
structure Dialogue where
  messages : Text := []
  history : List Text := []
deriving DecidableEq

namespace Dialogue

/-- How many scripts are remembered. -/
def memory : Nat := 1000

/-- The last of some scripts, as many as are remembered. -/
def latest (scripts : List Text) : List Text := scripts.drop (scripts.length - memory)

/-- The history with one more script, on one line. One that repeats the last is left out. -/
def remember (script : Text) (d : Dialogue) : Dialogue :=
  let line := script.map fun c => if c = Text.newline then Text.space else c
  if d.history.getLast? = some line then d else { d with history := latest (d.history ++ [line]) }

/-- A dialogue that remembers what was saved before, up to a line that is too long or not
well-formed. -/
def ofSaved (saved : Text) : Dialogue :=
  let lines := (linesOf saved).takeWhile fun line => !line.isPart && Text.wellFormed line.text
  { history := latest (lines.map Line.text) }

/-- Reports something. -/
def report (tag message : Text) (d : Dialogue) : Dialogue :=
  { d with messages := d.messages ++ tag ++ ": " ++ message ++ [Text.newline] }

/-- The history as it is saved. -/
def saved (d : Dialogue) : Text := d.history.flatMap fun line => line ++ [Text.newline]

end Dialogue

/-- The lines `pending` of a script with one more line. -/
def continued (pending line : Text) : Text :=
  if pending.isEmpty then line else pending ++ [Text.newline] ++ line

/-- Whether a script goes on on the next line. -/
def isIncomplete (script : Text) : Bool :=
  match Script.parse script with
  | .ok _ => false
  | .error e => e.isIncomplete

/-- Runs one script of the dialogue. A cancellation does not outlive it. -/
def respond (e : Engine) (script : Text) (d : Dialogue) : Act Dialogue := do
  if (Text.trim script).isEmpty then return d
  let d := d.remember script
  let result ← e.evaluate (some .background) World.root script
  let d := if result.isError then d.report "ERROR" result.trace else d
  if !result.isError && !result.value.isEmpty then printLine result.value
  Act.modifyNode World.root fun n => { n with cancel := (n.cancel.reset true).2 }
  match ← e.serviceEvents (some .background) World.root .standard with
  | (_, .ok ()) => return d
  | (_, .error f) => return d.report "WARNING" f.text

/-- The dialogue over some lines, after the lines `pending` of a script that goes on. -/
def converse (e : Engine) : List Line → Text → Dialogue → Act Dialogue
  | [], pending, d => do
    print (if pending.isEmpty then "% " else "> ")
    printLine []
    return d
  | line :: rest, pending, d => do
    print (if pending.isEmpty then "% " else "> ")
    let script := continued pending line.text
    if isIncomplete script then converse e rest script d
    else converse e rest [] (← respond e script d)

/-- What could stand in place of a line, given the names of the commands: the line with its last
word completed. -/
def completions (names : List Text) (line : Text) : List Text :=
  let isBreak (c : UInt8) : Bool :=
    c = Text.space || c = Text.tab || c = Text.openBracket || c = Text.semicolon
  let word := (line.reverse.takeWhile fun c => !isBreak c).reverse
  if word.isEmpty then []
  else (names.filter word.isPrefixOf).map fun name => Text.upTo line word ++ name

end Shell

end InterpTree
