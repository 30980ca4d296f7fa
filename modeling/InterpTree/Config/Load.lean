import InterpTree.Config
import InterpTree.Files
import InterpTree.Yaml.Read

/-!
Loading a configuration. A setting comes from the command line, the environment, a file or the
defaults; the first of these that has it counts. Names in the file may be in any case, and a value
of another kind is converted where that makes sense: `"3"` is a number and `1` is true.
-/

namespace InterpTree

/-- Why a configuration cannot be loaded. -/
inductive ConfigError
  /-- The file cannot be read, or is no mapping. -/
  | unreadable
  /-- A setting is of the wrong kind. -/
  | undecodable
  | invalid (defect : Text)
deriving DecidableEq

def ConfigError.text : ConfigError → Text
  | .unreadable => "failed to load config file"
  | .undecodable => "failed to unmarshal config"
  | .invalid defect => "config validation failed: " ++ defect

namespace Config

open Yaml

/-! ### Conversions -/

/-- A text; numbers and truths count as their texts. -/
def text? (y : Yaml) : Option Text := do
  match ← y.datum? with
  | .null => return []
  | .bool b => return Text.ofBool b
  | .int i => return Text.ofInt i
  | .real r => return r.text
  | .text t => return t
  | _ => none

/-- An integer as a text, in the base that its start tells; nothing at all is zero. -/
def integerOf? (t : Text) : Option Int :=
  if t.isEmpty then some 0
  else if !Text.underscoresFit t then none
  else
    (Text.integer? (Text.withoutUnderscores t)).filter fun i => minWord ≤ i && i ≤ maxWord

/-- An integer. -/
def int? (y : Yaml) : Option Int := do
  match ← y.datum? with
  | .null => return 0
  | .bool b => return if b then 1 else 0
  | .int i => return wrap64 i
  | .real r => return r.toWord
  | .text t => integerOf? t
  | _ => none

/-- The truth that a word stands for; nothing at all is false. -/
def truthOf? (t : Text) : Option Bool :=
  if [("1" : Text), "t", "T", "TRUE", "true", "True"].contains t then some true
  else if [("" : Text), "0", "f", "F", "FALSE", "false", "False"].contains t then some false
  else none

/-- A truth. A number is true unless it is zero. -/
def bool? (y : Yaml) : Option Bool := do
  match ← y.datum? with
  | .null => return false
  | .bool b => return b
  | .int i => return i ≠ 0
  | .real r => return !r.isZero
  | .text t => truthOf? t
  | _ => none

/-- A span of time; a bare number counts nanoseconds. -/
def span? (y : Yaml) : Option Int := do
  match ← y.datum? with
  | .text t => Duration.ofText? t
  | _ => int? y

/-! ### Sources -/

/-- Where settings come from: flags by key, variables by name, and the entries of a file. -/
structure Sources where
  flags : List (Text × Yaml) := []
  environment : List (Text × Text) := []
  file : List (Text × Yaml) := []

/-- The value of a name in any case. -/
def lookup? (entries : List (Text × Yaml)) (name : Text) : Option Yaml :=
  (entries.find? fun e => e.1.lower == name).map Prod.snd

/-- The settings that nobody has to make, by section and name. -/
def defaults : List ((Text × Text) × Yaml) :=
  [(("log", "level"), .ofText "info"), (("log", "format"), .ofText "text"),
    (("log", "output"), .ofText "stderr"), (("log", "max_size"), .ofPlain "100"),
    (("log", "max_backups"), .ofPlain "3"), (("log", "max_age"), .ofPlain "28"),
    (("log", "compress"), .ofPlain "false"), (("log", "caller"), .ofPlain "false"),
    (("limits", "timeout"), .ofPlain "0"), (("limits", "finally_timeout"), .ofPlain "0"),
    (("limits", "ready_limit"), .ofPlain "0"),
    (("limits", "recursion_limit"), .ofPlain (Text.ofInt Limits.standard.recursionLimit)),
    (("limits", "sleep_time"), .ofPlain (Text.ofInt Limits.standard.sleepTime)),
    (("limits", "result_limit"), .ofPlain "0"),
    (("service", "dedicated"), .ofPlain "false"), (("service", "wait"), .ofPlain "true"),
    (("service", "limit"), .ofPlain "0"), (("service", "stop_on_error"), .ofPlain "true"),
    (("", "manifest"), .ofText ""), (("", "watch"), .ofPlain "false"),
    (("", "workdir"), .ofText ".")]

namespace Sources

/-- The key of a setting. -/
def keyOf (section_ name : Text) : Text :=
  if section_.isEmpty then name else section_ ++ [Text.dot] ++ name

/-- An upper case letter for each lower case one, and an underscore for each dot. -/
def variableByte (c : UInt8) : UInt8 :=
  if c = Text.dot then Text.underscore else if 97 ≤ c && c ≤ 122 then c - 32 else c

/-- The variable of the environment that makes a setting; an empty one does not count. -/
def fromEnvironment? (s : Sources) (key : Text) : Option Text :=
  (s.environment.lookup ("HIVE_" ++ key.map variableByte : Text)).filter fun v => !v.isEmpty

/-- What the file says about a setting, also if that is nothing. -/
def mentioned? (s : Sources) (section_ name : Text) : Option Yaml :=
  match lookup? s.file (keyOf section_ name) with
  | some y => some y
  | none =>
    if section_.isEmpty then none
    else ((lookup? s.file section_).bind entries?).bind fun entries => lookup? entries name

/-- Whether the file leaves a whole section out by name. Then nothing but the defaults counts. -/
def isVoided (s : Sources) (section_ : Text) : Bool :=
  !section_.isEmpty && (lookup? s.file section_).any isNull

/-- What counts for a setting. A variable named like a section hides what the file and the defaults
say about its settings, and a variable makes no setting that nobody knows of. -/
def find? (s : Sources) (section_ name : Text) : Option Yaml :=
  let key := keyOf section_ name
  let standard := defaults.lookup (section_, name)
  let mentioned := s.mentioned? section_ name
  match s.flags.lookup key with
  | some y => some y
  | none =>
    if s.isVoided section_ then standard
    else
      let known := standard.isSome || mentioned.isSome
      match (s.fromEnvironment? key).filter fun _ => known with
      | some value => some (.ofText value)
      | none =>
        if !section_.isEmpty && (s.fromEnvironment? section_).isSome then none
        else
          match mentioned.filter fun y => !isNull y with
          | some y => some y
          | none => standard

/-- A setting of a kind; one that is nowhere is the default of its kind. -/
def get? {α : Type} [Inhabited α] (s : Sources) (section_ name : Text) (read : Yaml → Option α) :
    Option α :=
  match s.find? section_ name with
  | none => some default
  | some y => read y

/-- Whether the file has a mapping for a section, if it has anything. -/
def hasSection (s : Sources) (section_ : Text) : Bool :=
  match lookup? s.file section_ with
  | none => true
  | some y => (entries? y).isSome || (isNull y && (s.fromEnvironment? section_).isNone)

/-- The configuration that some sources make. -/
def config? (s : Sources) : Option Config := do
  if ([("log" : Text), "limits", "service"].any fun name => !s.hasSection name) then none
  return {
    log := {
      level := ← s.get? "log" "level" text?
      format := ← s.get? "log" "format" text?
      output := ← s.get? "log" "output" text?
      filePath := ← s.get? "log" "file_path" text?
      maxSize := ← s.get? "log" "max_size" int?
      maxBackups := ← s.get? "log" "max_backups" int?
      maxAge := ← s.get? "log" "max_age" int?
      compress := ← s.get? "log" "compress" bool?
      caller := ← s.get? "log" "caller" bool? }
    limits := {
      timeout := ← s.get? "limits" "timeout" span?
      finallyTimeout := ← s.get? "limits" "finally_timeout" span?
      readyLimit := ← s.get? "limits" "ready_limit" int?
      recursionLimit := ← s.get? "limits" "recursion_limit" int?
      sleepTime := ← s.get? "limits" "sleep_time" span?
      resultLimit := ← s.get? "limits" "result_limit" int? }
    service := {
      dedicated := ← s.get? "service" "dedicated" bool?
      wait := ← s.get? "service" "wait" bool?
      limit := ← s.get? "service" "limit" int?
      stopOnError := ← s.get? "service" "stop_on_error" bool? }
    manifest := ← s.get? "" "manifest" text?
    watch := ← s.get? "" "watch" bool?
    workdir := ← s.get? "" "workdir" text? }

end Sources

/-! ### Files -/

/-- The names that a configuration file may have, in the order of looking. -/
def fileNames : List Text :=
  [("json" : Text), "toml", "yaml", "yml", "properties", "props", "prop", "hcl", "tfvars", "dotenv",
    "env", "ini"].map (fun ending => ("hive." ++ ending : Text)) ++ [("hive" : Text)]

/-- The configuration file that is found if none is given. -/
def findFile? (files : FileTable) : Option Text :=
  let paths := [(".": Text), "configs"].flatMap fun directory =>
    fileNames.map (FilePath.below directory)
  paths.find? fun path => (files.find? path).any Option.isSome

/-- The entries of a configuration file, which is a mapping or empty. -/
def fileEntries? (content : Text) : Option (List (Text × Yaml)) :=
  match Yaml.read content with
  | none => none
  | some none => some []
  | some (some y) => if y.isNull then some [] else if y.isDecodable then y.entries? else none

/-- Loads the configuration from the file that is given or found, and checks it. Also gives the path
of that file, empty if there is none. -/
def load (flags : List (Text × Yaml)) (environment : List (Text × Text)) (files : FileTable)
    (given : Text) : Except ConfigError (Config × Text) := do
  let path := if given.isEmpty then (findFile? files).getD [] else given
  let file ←
    if path.isEmpty then pure []
    else
      match (files.readFile path path).toOption.bind fileEntries? with
      | some entries => pure entries
      | none => throw .unreadable
  match ({ flags, environment, file } : Sources).config? with
  | none => throw .undecodable
  | some c =>
    match c.defect? with
    | some defect => throw (.invalid defect)
    | none => return (c, path)

end Config

end InterpTree
