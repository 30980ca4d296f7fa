import InterpTree.Shell.Launch

/-!
The command-line tool. It takes the environment and the files below the working directory as they
are, runs the command line, and writes back the files that changed. Repositories of the host are not
looked into.
-/

namespace InterpTree

namespace Shell

/-- A text as a string, if it is one. -/
def toString? (t : Text) : Option String := String.fromUTF8? ⟨t.toArray⟩

/-- Writes a text to a stream. -/
def emit (out : IO.FS.Stream) (t : Text) : IO Unit := do
  out.write ⟨t.toArray⟩
  out.flush

/-- The names of the variables that make settings. -/
def variableNames : List Text :=
  let keys := Config.defaults.map fun d => Config.Sources.keyOf d.1.1 d.1.2
  (keys ++ [("log.file_path" : Text), "log", "limits", "service"]).map fun key =>
    ("HIVE_" ++ key.map Config.Sources.variableByte : Text)

/-- The environment as far as it matters. -/
def environment : IO (List (Text × Text)) :=
  variableNames.filterMapM fun name => do
    match toString? name with
    | none => return none
    | some variableName => return (← IO.getEnv variableName).map fun v => (name, Text.ofString v)

/-- The files below the working directory, those of version control apart. -/
def filesBelow (s : Surroundings) : IO Surroundings := do
  let root ← IO.FS.realPath "."
  let found ← root.walkDir fun path => return path.fileName != some ".git"
  let mut s := s
  for path in found do
    if !(← path.isDir) then
      let relative := (path.toString.drop (s.directory.length + 1)).toString
      s := s.write (Text.ofString relative) (← IO.FS.readBinFile path).toList
  return s

/-- Writes back the files that a run has changed. -/
def writeBack (before after : FileTable) : IO Unit := do
  for (path, content) in after.entries do
    match toString? path, toString? (FilePath.directory path), content with
    | some file, some directory, some content =>
      if before.find? path != some (some content) then
        IO.FS.createDirAll directory
        IO.FS.writeBinFile file ⟨content.toArray⟩
    | _, _, _ => pure ()
  for (path, content) in before.entries do
    if content.isSome && (after.find? path).isNone then
      (toString? path).forM fun file => IO.FS.removeFile file

/-- Ends a run: shows what it printed, and why it failed. -/
def conclusion (s : Surroundings) (o : Outcome) : IO UInt32 := do
  emit (← IO.getStdout) o.stdout
  writeBack s.files o.files
  match o.fault with
  | none => return 0
  | some f =>
    emit (← IO.getStderr) (f.text ++ [Text.newline])
    return 1

/-- The lines that are typed next, or none at the end of the input. -/
def typed : IO (List Line) := do
  return linesOf (Text.ofString (← (← IO.getStdin).getLine))

/-- The interactive loop over the lines `typedAhead` and those that are still to be typed. -/
partial def talk (e : Engine) (pending : Text) (typedAhead : List Line) (d : Dialogue) (w : World) :
    IO (Dialogue × World) := do
  let out ← IO.getStdout
  emit out (if pending.isEmpty then "% " else "> ")
  let lines ← if typedAhead.isEmpty then typed else pure typedAhead
  match lines with
  | [] =>
    emit out [Text.newline]
    return (d, w)
  | line :: rest =>
    let script := continued pending line.text
    if isIncomplete script then talk e script rest d w
    else
      match respond e script { d with messages := [] } w with
      | .ok d w =>
        emit out (w.host.stdout ++ d.messages)
        talk e [] rest d (w.modifyHost fun h => { h with stdout := [] })
      | .error _ w => return (d, w)

/-- The surroundings with the home directory and what is remembered there. -/
def atHome (s : Surroundings) : IO Surroundings := do
  match ← IO.getEnv "HOME" with
  | none => return s
  | some home =>
    let s := { s with home := Text.ofString home }
    match ← (IO.FS.readBinFile (home ++ "/.hive_history")).toBaseIO with
    | .ok saved => return s.write s.historyPath saved.toList
    | .error _ => return s

end Shell

end InterpTree

open InterpTree Shell in
/-- Runs the command line. -/
def main (args : List String) : IO UInt32 := do
  let directory := Text.ofString (← IO.FS.realPath ".").toString
  let s ← atHome (← filesBelow { directory, environment := ← environment })
  let args := args.map Text.ofString
  let e := Engine.standard
  match CommandLine.parse args with
  | .ok { task := .repl, settings, configPath } =>
    match setUp e s { task := .repl, settings, configPath } with
    | .error o => conclusion s o
    | .ok (_, w) =>
      emit (← IO.getStdout) w.host.stdout
      let w := w.modifyHost fun h => { h with stdout := [] }
      let (d, w) ← talk e [] [] (.ofSaved s.history) w
      let w :=
        match saveHistory s d w with
        | .ok () w => w
        | .error _ w => w
      conclusion s { files := filesAfter s w.close }
  | _ => conclusion s (execute e s args [])
