import InterpTree.Limits
import InterpTree.Log
import InterpTree.Service
import InterpTree.Text.Quoted
import InterpTree.Text.Rune

/-!
The configuration of the command-line tool: where its log goes, the limits that interpreters start
with, how scheduled scripts are served, and which manifest builds the tree.
-/

namespace InterpTree

/-- The level that a word names, in any case. -/
def Level.ofText? (word : Text) : Option Level :=
  let word := word.lower
  if word == Text.ofString "warn" then some .warning
  else Level.all.find? fun l => l.name == word

/-- Where log records go and how they are written. -/
structure LogConfig where
  level : Text := []
  format : Text := []
  output : Text := []
  filePath : Text := []
  maxSize : Int := 0
  maxBackups : Int := 0
  maxAge : Int := 0
  compress : Bool := false
  caller : Bool := false
deriving DecidableEq

/-- How scheduled scripts are served. -/
structure ServiceConfig where
  dedicated : Bool := false
  wait : Bool := false
  limit : Int := 0
  stopOnError : Bool := false
deriving DecidableEq

/-- What a service loop is asked to do. -/
def ServiceConfig.options (s : ServiceConfig) : ServiceOptions :=
  { ServiceOptions.standard with wait := s.wait, limit := s.limit, stopOnError := s.stopOnError }

structure Config where
  log : LogConfig := {}
  limits : Limits := {}
  service : ServiceConfig := {}
  manifest : Text := []
  watch : Bool := false
  workdir : Text := []
deriving DecidableEq

namespace LogConfig

/-- What is wrong with the log section. -/
def defect? (c : LogConfig) : Option Text :=
  let format := c.format.lower
  let output := c.output.lower
  if (Level.ofText? c.level).isNone then
    some ("log.level: not a valid logrus Level: " ++ Text.quoted c.level)
  else if format != Text.ofString "json" && format != Text.ofString "text" then
    some ("log.format: unsupported format " ++ Text.quoted c.format)
  else if output == Text.ofString "file" then
    if c.filePath.isEmpty then some "log.file_path is required when log.output is file" else none
  else if output != Text.ofString "stdout" && output != Text.ofString "stderr" then
    some ("log.output: unsupported output " ++ Text.quoted c.output)
  else none

end LogConfig

namespace Config

/-- The first thing that is wrong with a configuration. -/
def defect? (c : Config) : Option Text :=
  match c.log.defect? with
  | some defect => some defect
  | none =>
    if c.limits.anyNegative then some "limits must not be negative"
    else if c.service.limit < 0 then some "service.limit must not be negative"
    else if c.watch && c.manifest.isEmpty then some "watch requires a manifest"
    else none

end Config

/-! ### The logger -/

/-- How log records are written. -/
inductive LogFormat
  | json
  | text
deriving DecidableEq

/-- Where log records go. -/
inductive LogOutput
  | stdout
  | stderr
  | file (path : Text)
  /-- To a file and to the standard error stream. -/
  | fileAndStderr (path : Text)
deriving DecidableEq

/-- A logger as its configuration makes it. -/
structure Logger where
  level : Level
  format : LogFormat
  output : LogOutput
  caller : Bool
deriving DecidableEq

namespace Logger

def formatOf (c : LogConfig) : Except Fault LogFormat :=
  let format := c.format.lower
  if format == Text.ofString "json" then .ok .json
  else if format.isEmpty || format == Text.ofString "text" then .ok .text
  else
    .error (.noted "failed to set log formatter" (.saying ("unsupported log format: " ++ c.format)))

/-- The debug level also shows on the standard error stream what goes to a file. -/
def outputOf (c : LogConfig) : Except Fault LogOutput :=
  let output := c.output.lower
  let refuse (message : Text) : Except Fault LogOutput :=
    .error (.noted "failed to set log output" (.saying message))
  if output == Text.ofString "stdout" then .ok .stdout
  else if output.isEmpty || output == Text.ofString "stderr" then .ok .stderr
  else if output == Text.ofString "file" then
    if c.filePath.isEmpty then refuse "file path is required when output is file"
    else if Level.ofText? c.level = some .debug then .ok (.fileAndStderr c.filePath)
    else .ok (.file c.filePath)
  else refuse ("unsupported log output: " ++ c.output)

/-- The logger of a configuration. A level that is none falls back to `info`. -/
def ofConfig (c : LogConfig) : Except Fault Logger := do
  let format ← formatOf c
  let output ← outputOf c
  return { level := (Level.ofText? c.level).getD .info, format, output, caller := c.caller }

end Logger

end InterpTree
