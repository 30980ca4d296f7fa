import InterpTree.Limits
import InterpTree.Text.Quoted
import InterpTree.Yaml.Read

/-!
Manifests. A manifest describes interpreters to be made below a root: how far each is trusted, what
it may reach and which scripts prepare it. It is written in YAML, with known fields only.
-/

namespace InterpTree

/-- An alias to install: `command` of the interpreter at `target`, with `args` in front. -/
structure AliasSpec where
  name : Text := []
  target : Text := []
  command : Text := []
  args : List Text := []
deriving DecidableEq

/-- A policy to install, on evaluation or on hidden commands. -/
structure GuardSpec where
  type : Text := []
  token : Nat := 0
  script : Text := []
  evaluate : Bool := false
deriving DecidableEq

/-- An interpreter to make. -/
structure InterpreterSpec where
  path : Text := []
  safe : Bool := false
  standard : Bool := false
  /-- Populate with the full profile even if the interpreter is safe. -/
  fullCommands : Bool := false
  /-- Do not populate. -/
  noCommands : Bool := false
  trusted : Bool := false
  readOnly : Bool := false
  immutable : Bool := false
  limits : Limits.Override := {}
  hide : List Text := []
  expose : List Text := []
  aliases : List AliasSpec := []
  policies : List GuardSpec := []
  scripts : List Text := []
  watchdog : Bool := false
deriving DecidableEq

/-- Limits for every interpreter, and the interpreters in the order of making. -/
structure Manifest where
  limits : Limits.Override := {}
  interpreters : List InterpreterSpec := []
deriving DecidableEq

/-! ### Decoding

As for other values, `none` is a node of the wrong shape and `some none` is one left out. -/

open Yaml

def Limits.Override.decode? (y : Yaml) : Option (Option Limits.Override) := do
  match ← y.fields? ["timeout", "finallyTimeout", "readyLimit", "recursionLimit", "sleepTime",
    "resultLimit"] with
  | none => return none
  | some entries =>
    return some
      { timeout := ← field? entries "timeout" span?
        finallyTimeout := ← field? entries "finallyTimeout" span?
        readyLimit := ← field? entries "readyLimit" int?
        recursionLimit := ← field? entries "recursionLimit" int?
        sleepTime := ← field? entries "sleepTime" span?
        resultLimit := ← field? entries "resultLimit" int? }

def AliasSpec.decode? (y : Yaml) : Option (Option AliasSpec) := do
  match ← y.fields? ["name", "target", "command", "args"] with
  | none => return none
  | some entries =>
    return some
      { name := (← field? entries "name" text?).getD []
        target := (← field? entries "target" text?).getD []
        command := (← field? entries "command" text?).getD []
        args := ← listField? entries "args" text? }

def GuardSpec.decode? (y : Yaml) : Option (Option GuardSpec) := do
  match ← y.fields? ["type", "token", "script", "evaluate"] with
  | none => return none
  | some entries =>
    return some
      { type := (← field? entries "type" text?).getD []
        token := (← field? entries "token" word?).getD 0
        script := (← field? entries "script" text?).getD []
        evaluate := (← field? entries "evaluate" bool?).getD false }

def InterpreterSpec.decode? (y : Yaml) : Option (Option InterpreterSpec) := do
  match ← y.fields? ["path", "safe", "standard", "unsafeInitialize", "noInitialize", "trusted",
    "readonly", "immutable", "limits", "hide", "expose", "aliases", "policies", "scripts",
    "watchdog"] with
  | none => return none
  | some entries =>
    let flag (name : Text) : Option Bool := (field? entries name bool?).map (·.getD false)
    return some
      { path := (← field? entries "path" text?).getD []
        safe := ← flag "safe"
        standard := ← flag "standard"
        fullCommands := ← flag "unsafeInitialize"
        noCommands := ← flag "noInitialize"
        trusted := ← flag "trusted"
        readOnly := ← flag "readonly"
        immutable := ← flag "immutable"
        limits := (← field? entries "limits" Limits.Override.decode?).getD {}
        hide := ← listField? entries "hide" text?
        expose := ← listField? entries "expose" text?
        aliases := ← listField? entries "aliases" AliasSpec.decode?
        policies := ← listField? entries "policies" GuardSpec.decode?
        scripts := ← listField? entries "scripts" text?
        watchdog := ← flag "watchdog" }

namespace Manifest

def decode? (y : Yaml) : Option (Option Manifest) := do
  match ← y.fields? ["limits", "interpreters"] with
  | none => return none
  | some entries =>
    return some
      { limits := (← field? entries "limits" Limits.Override.decode?).getD {}
        interpreters := ← listField? entries "interpreters" InterpreterSpec.decode? }

/-! ### Validity -/

/-- What is wrong with the interpreter at place `i`, whose path is already trimmed, after those with
the paths `seen`. -/
def defect? (seen : List Text) (i : Nat) (spec : InterpreterSpec) : Option Text :=
  let place : Text := "interpreters[" ++ Text.ofNat i ++ "]"
  if spec.path.isEmpty then some (place ++ ": path is required")
  else if seen.contains spec.path then
    some (place ++ ": duplicate path " ++ Text.quoted spec.path)
  else
    match spec.aliases.findIdx? fun a => a.name.isEmpty || a.command.isEmpty with
    | some j =>
      some (place ++ ".aliases[" ++ Text.ofNat j ++ "]: name and command are required")
    | none =>
      (spec.policies.findIdx? fun p => p.type.isEmpty && p.token = 0).map fun j =>
        place ++ ".policies[" ++ Text.ofNat j ++ "]: type or token is required"

/-- The interpreters from place `i` on with their paths trimmed, or the first defect. -/
def checkFrom (seen : List Text) (i : Nat) :
    List InterpreterSpec → Except Fault (List InterpreterSpec)
  | [] => .ok []
  | spec :: rest => do
    let spec := { spec with path := Text.trim spec.path }
    match defect? seen i spec with
    | some message => throw (.saying message)
    | none => return spec :: (← checkFrom (spec.path :: seen) (i + 1) rest)

/-- The manifest with trimmed paths, if it is in order. -/
def checked (m : Manifest) : Except Fault Manifest := do
  return { m with interpreters := ← checkFrom [] 0 m.interpreters }

/-- Reads a manifest. An empty document is an empty manifest. -/
def ofText (s : Text) : Except Fault Manifest :=
  match Yaml.read s with
  | none => .error .undecodable
  | some none => .ok {}
  | some (some y) =>
    match decode? y with
    | none => .error .undecodable
    | some m => (m.getD {}).checked

/-- The paths of the interpreters. -/
def paths (m : Manifest) : List Text := m.interpreters.map InterpreterSpec.path

end Manifest

end InterpTree
