import InterpTree.Config.Load
import InterpTree.Repository

/-!
The arguments of the command-line tool: a verb, flags before and after it, and what the verb works
on.
-/

namespace InterpTree

namespace Shell

/-- The verbs. -/
inductive Verb
  /-- No verb at all. -/
  | none
  | run
  | repl
  | tree
  | version
  | help
  | completion
  | completionFor (shell : Text)
  /-- What a shell asks to complete the words after it. It is meant for no one else. -/
  | complete
deriving DecidableEq

/-- A flag; a switch needs no value. -/
structure Flag where
  name : Text
  isSwitch : Bool
deriving DecidableEq

namespace Verb

def name : Verb → Text
  | .none => "hive"
  | .run => "run"
  | .repl => "repl"
  | .tree => "tree"
  | .version => "version"
  | .help => "help"
  | .completion => "completion"
  | .completionFor shell => shell
  | .complete => "__complete"

/-- All names that a verb goes by. -/
def names (v : Verb) : List Text :=
  v.name :: if v = .complete then [("__completeNoDesc" : Text)] else []

/-- The verb with all that comes before it. -/
def title : Verb → Text
  | .none => "hive"
  | .completionFor shell => "hive completion " ++ shell
  | v => "hive " ++ v.name

/-- The verbs that may follow a verb. -/
def following : Verb → List Verb
  | .none => [.run, .repl, .tree, .version, .help, .completion, .complete]
  | .completion =>
    [.completionFor "bash", .completionFor "zsh", .completionFor "fish",
      .completionFor "powershell"]
  | _ => []

/-- Whether the verb does something by itself. -/
def isRunnable : Verb → Bool
  | .none | .completion => false
  | _ => true

/-- The flags of a verb, those that all verbs have included. -/
def flags (v : Verb) : List Flag :=
  let own : List Flag :=
    match v with
    | .run =>
      [⟨"git", false⟩, ⟨"rev", false⟩, ⟨"path", false⟩, ⟨"service", true⟩, ⟨"dedicated", true⟩]
    | .completionFor _ => [⟨"no-descriptions", true⟩]
    | _ => []
  own ++ [⟨"config", false⟩, ⟨"log-level", false⟩, ⟨"manifest", false⟩, ⟨"watch", true⟩]

/-- Whether an argument is a flag whose value is the next argument. A flag that nobody knows counts
as one. -/
def takesNext (v : Verb) (arg : Text) : Bool :=
  match arg with
  | 45 :: 45 :: name =>
    !arg.contains 61 && !(v.flags.any fun f => f.name == name && f.isSwitch)
  | 45 :: rest => rest.length = 1 && rest ≠ [61]
  | _ => false

/-- The arguments that are neither flags nor their values. -/
def plainArguments (v : Verb) : List Text → List Text
  | [] => []
  | arg :: rest =>
    if arg == Text.ofString "--" then []
    else if v.takesNext arg then
      match rest with
      | _ :: next :: more => v.plainArguments (next :: more)
      | _ => []
    else if arg.isEmpty || arg.head? = some Text.dash then v.plainArguments rest
    else arg :: v.plainArguments rest

/-- The arguments without the first plain one that is `name`. -/
def without (v : Verb) (name : Text) : List Text → List Text
  | [] => []
  | arg :: rest =>
    if arg == Text.ofString "--" then arg :: rest
    else if v.takesNext arg then
      match rest with
      | value :: more => arg :: value :: v.without name more
      | [] => [arg]
    else if arg == name then rest
    else arg :: v.without name rest

/-- The verb that arguments after the verb `v` ask for, and the arguments left. No more than two
verbs follow each other. -/
def find (v : Verb) (args : List Text) : Nat → Verb × List Text
  | 0 => (v, args)
  | depth + 1 =>
    match (v.plainArguments args).head? with
    | .none => (v, args)
    | .some name =>
      match v.following.find? fun next => next.names.contains name with
      | .none => (v, args)
      | .some next => next.find (v.without name args) depth

end Verb

/-! ### Unknown verbs -/

/-- One more row of the table of edit distances, for the byte `c`. -/
def nextRow (c : UInt8) (left : Nat) : Text → List Nat → List Nat
  | b :: t, diagonal :: above :: row =>
    let here := if b = c then diagonal else min (min above left) diagonal + 1
    here :: nextRow c here t (above :: row)
  | _, _ => []

/-- How many bytes have to be put in, taken out or replaced to make one text into the other. -/
def editDistance (s t : Text) : Nat :=
  let first := List.range (t.length + 1)
  let last := s.foldl (fun row c =>
    let left := row.head?.getD 0 + 1
    left :: nextRow c left t row) first
  last.getLast?.getD 0

/-- The verbs that somebody may have meant. -/
def meant (typed : Text) : List Text :=
  let typed := typed.lower
  ([Verb.run, .repl, .tree, .version, .completion].map Verb.name).filter fun name =>
    editDistance typed name ≤ 2 || typed.isPrefixOf name

def unknownVerb (typed : Text) : Text :=
  let suggestions :=
    match meant typed with
    | [] => []
    | names => "\n\nDid you mean this?\n" ++ names.flatMap fun name => ("\t" ++ name ++ "\n" : Text)
  "unknown command " ++ Text.quoted typed ++ " for \"hive\"" ++ suggestions

/-! ### Flags -/

/-- Flags with their values, the last one first, and the other arguments. -/
structure Parsed where
  values : List (Text × Text) := []
  arguments : List Text := []

/-- What an argument is by itself. -/
inductive Reading
  | argument
  /-- Everything after it is an argument. -/
  | last
  | flags (values : List (Text × Text))
  /-- The next argument is the value of a flag. -/
  | valueFor (flag : Text)

/-- A byte between single quotes. -/
def quotedByte (c : UInt8) : Text :=
  let inner : Text :=
    if c = 39 then "\\'"
    else if c = Text.quoteMark then [c]
    else Text.quoteRune (Text.ofCodePoint c.toNat)
  "'" ++ inner ++ "'"

/-- How a byte that stands for no flag is shown: a character by itself, and of one beyond ASCII the
first byte of its UTF-8 form. -/
def shownShorthand (c : UInt8) : Text := quotedByte ((Text.ofCodePoint c.toNat).head?.getD c)

/-- A flag that is true or false, with its value. -/
def switchValue (shown name value : Text) : Except Text (Text × Text) :=
  if value.isEmpty || (Config.truthOf? value).isNone then
    .error ("invalid argument " ++ Text.quoted value ++ " for " ++ Text.quoted shown ++
      " flag: strconv.ParseBool: parsing " ++ Text.quoted value ++ ": invalid syntax")
  else .ok (name, if Config.truthOf? value = some true then "true" else "false")

/-- How messages name a flag. -/
def shownFlag (name : Text) : Text :=
  if name == Text.ofString "help" then "-h, --help" else "--" ++ name

/-- Flags of one letter each, of which there is only `h`. What starts like a flag of a test does not
count. -/
def readShort : Text → Except Text (List (Text × Text))
  | [] => .ok []
  | c :: more =>
    if (Text.ofString "test.").isPrefixOf (c :: more) then .ok []
    else if c ≠ 104 then
      .error ("unknown shorthand flag: " ++ shownShorthand c ++ " in -" ++ (c :: more))
    else
      match more with
      | 61 :: b :: value => do return [← switchValue (shownFlag "help") "help" (b :: value)]
      | more => do return ("help", "true") :: (← readShort more)

/-- A flag written as a word. -/
def readLong (flags : List Flag) (arg name : Text) : Except Text Reading := do
  if name.head?.any fun c => c = Text.dash || c = 61 then
    throw ("bad flag syntax: " ++ arg)
  let (name, value) :=
    match Text.cutFirst 61 name with
    | some (name, value) => (name, some value)
    | none => (name, none)
  match flags.find? fun f => f.name == name with
  | none => throw ("unknown flag: --" ++ name)
  | some flag =>
    match value with
    | some value =>
      if flag.isSwitch then return .flags [← switchValue (shownFlag name) name value]
      else return .flags [(name, value)]
    | none => return if flag.isSwitch then .flags [(name, "true")] else .valueFor name

/-- What an argument is. -/
def readArgument (flags : List Flag) (arg : Text) : Except Text Reading :=
  match arg with
  | [45, 45] => .ok .last
  | 45 :: 45 :: name => readLong flags arg name
  | 45 :: c :: shorts => do return .flags (← readShort (c :: shorts))
  | _ => .ok .argument

/-- The flags and other arguments of a verb. -/
def parseFlags (flags : List Flag) : List Text → Except Text Parsed
  | [] => .ok {}
  | arg :: rest => do
    match ← readArgument flags arg with
    | .argument =>
      let p ← parseFlags flags rest
      return { p with arguments := arg :: p.arguments }
    | .last => return { arguments := rest }
    | .flags values =>
      let p ← parseFlags flags rest
      return { p with values := p.values ++ values.reverse }
    | .valueFor name =>
      match rest with
      | [] => throw ("flag needs an argument: " ++ arg)
      | value :: rest =>
        let p ← parseFlags flags rest
        return { p with values := p.values ++ [(name, value)] }

/-! ### Command lines -/

/-- A script to run: a file or a source in a repository, and how scheduled scripts are served
afterwards. -/
structure Job where
  file : Text := []
  source : GitSource := {}
  service : Bool := false
  dedicated : Bool := false
deriving DecidableEq

/-- What a command line asks for. -/
inductive Task
  /-- Nothing that the tree is needed for. -/
  | idle
  | version
  /-- Nothing, once the tree is set up. -/
  | setup
  | run (job : Job)
  | repl
  | tree
deriving DecidableEq

/-- A command line: the configuration file, settings made by flags, and the task. -/
structure CommandLine where
  configPath : Text := []
  settings : List (Text × Yaml) := []
  task : Task

namespace Parsed

/-- The value of a flag that was given last. -/
def value? (p : Parsed) (name : Text) : Option Text := p.values.lookup name

def value (p : Parsed) (name : Text) : Text := (p.value? name).getD []

def isOn (p : Parsed) (name : Text) : Bool := p.value? name == some (Text.ofString "true")

/-- The settings that flags make. -/
def settings (p : Parsed) : List (Text × Yaml) :=
  let setting (flag key : Text) (make : Text → Yaml) : List (Text × Yaml) :=
    ((p.value? flag).map fun v => (key, make v)).toList
  setting "log-level" "log.level" .ofText ++ setting "manifest" "manifest" .ofText ++
    setting "watch" "watch" .ofPlain

def job (p : Parsed) : Job :=
  { file := p.arguments.head?.getD []
    source := { url := p.value "git", revision := p.value "rev", path := p.value "path" }
    service := p.isOn "service"
    dedicated := p.isOn "dedicated" }

end Parsed

/-- The task of a verb, unless it has too many arguments. -/
def Verb.task (v : Verb) (p : Parsed) : Except Text Task :=
  let alone (task : Task) : Except Text Task :=
    match p.arguments with
    | [] => .ok task
    | arg :: _ =>
      .error ("unknown command " ++ Text.quoted arg ++ " for " ++ Text.quoted v.title)
  match v with
  | .none | .completion => .ok .idle
  | .help => .ok .setup
  | .complete =>
    if p.arguments.isEmpty then .error "requires at least 1 arg(s), only received 0"
    else .ok .setup
  | .completionFor _ => alone .setup
  | .version => alone .version
  | .repl => alone .repl
  | .tree => alone .tree
  | .run =>
    if 1 < p.arguments.length then
      .error ("accepts at most 1 arg(s), received " ++ Text.ofNat p.arguments.length)
    else .ok (.run p.job)

/-- Reads a command line. Whoever asks for help gets it whatever else is wrong after the flags. The
words to complete are not looked into. -/
def CommandLine.parse (args : List Text) : Except Text CommandLine := do
  let (verb, rest) := Verb.none.find args 2
  match verb, verb.plainArguments rest with
  | .none, typed :: _ => throw (unknownVerb typed)
  | _, _ => pure ()
  let p ←
    if verb = .complete then pure { arguments := rest }
    else parseFlags (verb.flags ++ [⟨"help", true⟩]) rest
  let task ← if p.isOn "help" then pure .idle else verb.task p
  return { configPath := p.value "config", settings := p.settings, task }

end Shell

end InterpTree
