import InterpTree.Manifest.Apply
import InterpTree.Shell.Arguments
import InterpTree.Shell.Dialogue
import InterpTree.Shell.Sketch
import InterpTree.Surroundings

/-!
Running a command line: the configuration is loaded, a tree is planted and built as the manifest
says, and then the task is done in its root.
-/

namespace InterpTree

namespace Shell

/-- The line that tells the version. -/
def versionLine : Text := "hive v0.1.0"

/-- What a command line came to: what it printed and reported, the scripts to remember, why it
failed, and the files afterwards. -/
structure Outcome where
  stdout : Text := []
  dialogue : Dialogue := {}
  fault : Option Fault := none
  files : FileTable := {}

/-- The result of a computation that may be refused. -/
def attempt {α : Type} (r : Except Fault α) : Attempt α := ExceptT.mk (pure r)

/-- What is ready for log records: a file for them, if they go to one, and the files once there is
room for it. -/
def makeLogRoom (c : LogConfig) (files : FileTable) : Except Fault (Option Text × FileTable) := do
  let logger ← Logger.ofConfig c
  let room (path : Text) : Except Fault (Option Text × FileTable) :=
    match files.makeRoom path with
    | (.ok (), files) => .ok (some path, files)
    | (.error reason, _) =>
      .error (.noted "failed to set log output"
        (.noted "failed to create log directory" (.saying reason)))
  match logger.output with
  | .stdout | .stderr => return (none, files)
  | .file path | .fileAndStderr path => room path

/-- The tree that a configuration asks for, before its manifest is applied. Scripts reach the files
below the working directory that is configured. Records are kept only for a file. -/
def plant (s : Surroundings) (c : Config) (configPath : Text) : Except Fault World := do
  let (logFile, table) ← makeLogRoom c.log s.files
  let logLevel := logFile.bind fun _ => Level.ofText? c.log.level
  let w ← (World.plant { limits := c.limits }
    { files := some { root := .host c.workdir, table }, logLevel, logFile }).mapError
    (Fault.noted "failed to create interpreter tree")
  if configPath.isEmpty then return w
  else return w.log .debug "configuration loaded" [field "config" configPath]

/-- Builds the tree as the manifest says, if there is one. -/
def build (e : Engine) (s : Surroundings) (c : Config) : Attempt Unit := do
  if !c.manifest.isEmpty then
    let m ← attempt (s.manifest c.manifest)
    m.apply e (some .background) World.root

/-- The name and the text of the script that a job is about. -/
def Job.script (j : Job) (s : Surroundings) : Except Fault (Text × Text) :=
  if !j.source.url.isEmpty then
    if !j.file.isEmpty then .error (.saying "run: give either a file or --git, not both")
    else do return (j.source.name, ← j.source.fetch (s.checkout j.source.url))
  else if !j.file.isEmpty then do
    return (j.file, ← (s.read j.file j.file).mapError (Fault.noted "run"))
  else .error (.saying "run: a script file or --git is required")

/-- Serves what the script of a job has scheduled, as far as anybody asked for that. -/
def Job.serve (j : Job) (e : Engine) (c : ServiceConfig) : Attempt Unit := do
  if j.dedicated || c.dedicated then
    Attempt.op (Op.serviceDedicated World.root c.options)
    e.waitWorker World.root
  else if j.service then
    match ← e.serviceEvents (some .background) World.root c.options with
    | (_, .ok ()) => pure ()
    | (_, .error f) => if f.isContextEnded then pure () else throw f

/-- The files as a world leaves them. -/
def filesAfter (s : Surroundings) (w : World) : FileTable :=
  (w.host.files.map FileStore.table).getD s.files

/-- The surroundings as they are by now. -/
def currently (s : Surroundings) : Act Surroundings := do
  return { s with files := filesAfter s (← get) }

/-- Runs the script of a job and prints its value. -/
def Job.perform (j : Job) (e : Engine) (s : Surroundings) (c : Config) : Attempt Unit := do
  let (name, script) ← attempt (j.script (← currently s))
  modifyThe World (World.log .debug "evaluating script" [field "script" name])
  let result ← e.evaluate (some .background) World.root script
  if result.isError then
    throw (.saying (result.annotate ("(file " ++ Text.quoted name ++ ")")).trace)
  if result.status = .ok && !result.value.isEmpty then printLine result.value
  j.serve e c.service

/-- Saves what is to be remembered of a dialogue, if it can be saved. -/
def saveHistory (s : Surroundings) (d : Dialogue) : Act Unit :=
  let save (t : FileTable) : FileTable := ((t.placeFile s.historyPath d.saved).toOption).getD t
  modify (World.modifyHost fun h =>
    { h with files := h.files.map fun store => { store with table := save store.table } })

/-- The interactive loop over some input. It remembers the scripts of earlier loops. -/
def dialogue (e : Engine) (s : Surroundings) (input : Text) : Act Dialogue := do
  let d ← converse e (linesOf input) [] (.ofSaved (← currently s).history)
  saveHistory s d
  return d

/-- Does a task in a tree that is set up. The interactive loop reads `input`. -/
def Task.perform (e : Engine) (s : Surroundings) (c : Config) (input : Text) :
    Task → Attempt Dialogue
  | .idle | .version | .setup => return {}
  | .run job => do
    job.perform e s c
    return {}
  | .repl => dialogue e s input
  | .tree => do
    let sketch ← Attempt.op (Op.sketch World.root [])
    print sketch.draw
    return {}

/-- The value that an action came to in a tree, and the world afterwards; or what is left to tell if
it came to none. -/
def conclude {α : Type} (s : Surroundings) (act : Attempt α) (w : World) :
    Except Outcome (α × World) :=
  let failed (f : Fault) (w : World) : Outcome :=
    { stdout := w.host.stdout, fault := some f, files := filesAfter s w }
  match act.run w with
  | .ok (.ok a) w => .ok (a, w)
  | .ok (.error f) w => .error (failed f w.close)
  | .error (.crash message) w => .error (failed (.saying ("panic: " ++ message)) w)
  | .error .exhausted w | .error (.overtaken _) w => .error (failed (.saying "exhausted") w)

/-- The tree that a command line asks for, and its configuration. -/
def setUp (e : Engine) (s : Surroundings) (line : CommandLine) :
    Except Outcome (Config × World) := do
  let refused (f : Fault) : Outcome := { fault := some f, files := s.files }
  let (c, path) ← (Config.load line.settings s.environment s.files line.configPath).mapError
    fun reason => refused (.saying reason.text)
  let w ← (plant s c path).mapError refused
  let ((), w) ← conclude s (build e s c) w
  return (c, w)

/-- Sets the tree up, does a task in it, and tears it down. -/
def inTree (e : Engine) (s : Surroundings) (line : CommandLine) (input : Text) : Outcome :=
  let result : Except Outcome Outcome := do
    let (c, w) ← setUp e s line
    let (dialogue, w) ← conclude s (line.task.perform e s c input) w
    let w := w.close
    return { stdout := w.host.stdout, dialogue, files := filesAfter s w }
  match result with
  | .ok outcome => outcome
  | .error outcome => outcome

/-- Runs a command line, with `input` as the standard input stream. -/
def execute (e : Engine) (s : Surroundings) (args : List Text) (input : Text) : Outcome :=
  match CommandLine.parse args with
  | .error message => { fault := some (.saying message), files := s.files }
  | .ok line =>
    match line.task with
    | .idle => { files := s.files }
    | .version => { stdout := versionLine ++ [Text.newline], files := s.files }
    | _ => inTree e s line input

end Shell

end InterpTree
