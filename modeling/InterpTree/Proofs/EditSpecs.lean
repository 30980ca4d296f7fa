import InterpTree.Proofs.Ends
import InterpTree.Proofs.Tables
import InterpTree.Tree.Aliases
import InterpTree.Tree.Settings

/-!
What edits do. An edit looks at everything that may be in its way before it writes, so that it is
refused and leaves the node as it was, or does what is said of it here. Of an edit that is not refused
this says which checks it has passed, too.
-/

namespace InterpTree

namespace Edit

variable {α : Type} {edit : Edit α} {n m : Node}

theorem outcome_eq_ok_iff {a : α} : edit.outcome n = .ok (a, m) ↔ edit n = .ok a m := by
  unfold outcome
  cases edit n with
  | ok b k => simp
  | error f k => simp

/-- What holds of an edit holds of its outcome if that is a refusal. -/
theorem of_outcome_error {Q : Except Fault α → Node → Prop} {f : Fault} (h : Ends edit n Q)
    (refused : edit.outcome n = .error f) : ∃ m, Q (.error f) m := by
  unfold outcome at refused
  unfold Ends at h
  split at refused
  · cases refused
  · rename_i result
    rw [result] at h
    exact ⟨_, Except.error.inj refused ▸ h⟩

/-- An edit that is not refused comes to its outcome. -/
theorem settles_outcome (h : Spares edit n) :
    Settles edit n fun r m => ∃ a, r = .ok a ∧ edit.outcome n = .ok (a, m) := by
  unfold Spares Settles Ends at h
  unfold Settles Ends outcome
  cases result : edit n with
  | ok a m => exact .inr ⟨a, rfl, rfl⟩
  | error f m =>
    rw [result] at h
    exact h.imp_right fun done => nomatch done

/-- What holds of the outcome of an edit that was not refused. -/
theorem of_outcome {Q : Except Fault α → Node → Prop} {a : α} (h : Settles edit n Q)
    (done : edit.outcome n = .ok (a, m)) : Q (.ok a) m :=
  h.of_ok (outcome_eq_ok_iff.mp done)

end Edit

namespace Node

variable {n m n' : Node} {path name newName : Text}

/-! ### Commands that go -/

/-- A command that may not be removed stays. With any other the alias goes that it is the shim of. -/
theorem eraseCommand_eq (name : Text) (c : Command) (n : Node) :
    n.eraseCommand name c =
      if c.flags.noRemove then
        .error (.of .permissionDenied ("cannot remove command " ++ Text.quoted name))
      else
        .ok { n with
          commands := n.commands.eraseVisible name
          aliases :=
            match c.alias? with
            | none => n.aliases
            | some a => n.aliases.filter fun b => b.source != a.source } := by
  unfold eraseCommand Edit.eraseCommand
  cases c.flags.noRemove <;> cases c.alias? <;> rfl

/-- What is left when a visible command was erased: also the alias of a shim is gone. -/
theorem of_eraseCommand {c : Command} (h : n.eraseCommand name c = .ok n') :
    n' = { n with
      commands := n.commands.eraseVisible name
      aliases := n.aliases.filter fun b => c.alias?.map Alias.source != some b.source } := by
  rw [eraseCommand_eq] at h
  split at h
  · cases h
  · obtain rfl := Except.ok.inj h
    cases c.alias? with
    | none =>
      congr 1
      exact (List.filter_eq_self.mpr fun _ _ => rfl).symm
    | some a =>
      congr 1
      refine List.filter_congr fun b _ => Bool.eq_iff_iff.mpr ?_
      simp only [Option.map_some, bne_iff_ne, ne_eq, Option.some.injEq]
      exact ⟨Ne.symm, Ne.symm⟩

theorem spares_eraseCommand (name : Text) (c : Command) (n : Node) :
    Spares (Edit.eraseCommand name c) n := by
  refine .require fun _ => .of_ends ?_
  cases c.alias? <;> rfl

/-- `m` is `n` without what visibly went by a name. -/
def Clears (name : Text) (n m : Node) : Prop :=
  (n.commands.visible? name = none ∧ m = n) ∨
    ∃ old, n.commands.visible? name = some old ∧ n.eraseCommand name old = .ok m

theorem settles_clear (blame : Command → Fault → Fault) (n : Node) :
    Settles (Edit.clear name blame) n fun r m => r = .ok () ∧ n.Clears name m := by
  refine .get ?_
  cases visible : n.commands.visible? name with
  | none => exact .of_ends ⟨rfl, .inl ⟨visible, rfl⟩⟩
  | some old =>
    refine .tryCatch ((Edit.settles_outcome (spares_eraseCommand name old n)).weaken fun r m => ?_)
      fun _ _ failed => nomatch failed.1
    rintro ⟨_, rfl, erased⟩
    exact ⟨rfl, .inr ⟨old, visible, by rw [eraseCommand, erased]; rfl⟩⟩

theorem settles_removeCommand (name : Text) (n : Node) :
    Settles (Edit.removeCommand name) n fun r m => r = .ok () ∧ n.trust.readOnly = false ∧
      ∃ c, n.commands.visible? name = some c ∧ n.eraseCommand name c = .ok m := by
  refine .get (.require fun writable => ?_)
  have writable : n.trust.readOnly = false := by simpa using writable
  cases visible : n.commands.visible? name with
  | none => exact .throw _
  | some c =>
    refine (Edit.settles_outcome (spares_eraseCommand name c n)).weaken fun r m => ?_
    rintro ⟨_, rfl, erased⟩
    exact ⟨rfl, writable, c, rfl, by rw [eraseCommand, erased]; rfl⟩

/-! ### Commands that come -/

theorem settles_define (spec : CommandSpec) (n : Node) :
    Settles (Edit.define spec) n fun r m => ∃ c action k, r = .ok c ∧ spec.name ≠ [] ∧
      n.dead = false ∧ n.trust.readOnly = false ∧ spec.action = some action ∧
      n.commands.hidden? spec.name = none ∧ n.Clears spec.name k ∧
      k.putCommand spec action = (c, m) := by
  refine .require fun named => ?_
  cases does : spec.action with
  | none => exact .throw _
  | some action =>
    refine .get (.require fun alive => .require fun writable => .require fun free =>
      .bind (settles_clear _ n) (fun _ k cleared => ?_) fun _ _ failed => nomatch failed.1)
    exact ⟨_, action, k, rfl, by simpa using named, by simpa using alive, by simpa using writable,
      rfl, by simpa using free, cleared.2, rfl⟩

theorem spares_define (spec : CommandSpec) (n : Node) : Spares (Edit.define spec) n := by
  refine (settles_define spec n).weaken fun r m => ?_
  rintro ⟨c, action, k, rfl, -⟩
  rfl

section
variable {spec : CommandSpec} {c : Command}

/-- What a definition comes down to: the name is cleared, and the new command put at the end. -/
theorem of_define (h : n.define spec = .ok (c, n')) :
    ∃ action m, spec.action = some action ∧ n.commands.hidden? spec.name = none ∧
      Clears spec.name n m ∧ m.putCommand spec action = (c, n') := by
  obtain ⟨_, action, m, same, -, -, -, does, free, clears, put⟩ :=
    Edit.of_outcome (settles_define spec n) h
  obtain rfl := Except.ok.inj same
  exact ⟨action, m, does, free, clears, put⟩

/-- Only the commands of a node that is not read-only are defined anew. -/
theorem writable_of_define (h : n.define spec = .ok (c, n')) : n.trust.readOnly = false := by
  obtain ⟨_, _, _, -, -, -, writable, -⟩ := Edit.of_outcome (settles_define spec n) h
  exact writable

/-- A node that is dead gets no commands. -/
theorem alive_of_define (h : n.define spec = .ok (c, n')) : n.dead = false := by
  obtain ⟨_, _, _, -, -, alive, -⟩ := Edit.of_outcome (settles_define spec n) h
  exact alive

/-- Every command has a name. -/
theorem named_of_define (h : n.define spec = .ok (c, n')) : spec.name ≠ [] := by
  obtain ⟨_, _, _, -, named, -⟩ := Edit.of_outcome (settles_define spec n) h
  exact named

end

/-! ### Commands that are hidden and exposed -/

/-- A visible command of the node may be hidden under a name. -/
structure MayHide (name newName : Text) (n : Node) : Prop where
  writable : n.trust.readOnly = false
  there : (n.commands.visible? name).isSome = true
  free : n.commands.hidden? newName = none
  apart : newName ≠ name → n.commands.visible? newName = none

/-- A hidden command of the node may be exposed under a name. -/
structure MayExpose (name newName : Text) (n : Node) : Prop where
  writable : n.trust.readOnly = false
  there : (n.commands.hidden? name).isSome = true
  free : n.commands.visible? newName = none
  apart : newName ≠ name → n.commands.hidden? newName = none

theorem settles_hide (path name newName : Text) (n : Node) :
    Settles (Edit.hide path name newName) n fun r m =>
      r = .ok () ∧ n.MayHide name newName ∧
        m = { n with commands := n.commands.hide name newName } := by
  refine .get (.require fun writable => .require fun there => .require fun free =>
    .require fun apart => .of_ends ⟨rfl, ⟨by simpa using writable, there, by simpa using free, ?_⟩, rfl⟩)
  exact fun renamed => by simpa [renamed] using apart

theorem settles_expose (path name newName : Text) (n : Node) :
    Settles (Edit.expose path name newName) n fun r m =>
      r = .ok () ∧ n.MayExpose name newName ∧
        m = { n with commands := n.commands.expose name newName } := by
  refine .get (.require fun writable => .require fun there => .require fun free =>
    .require fun apart => .of_ends ⟨rfl, ⟨by simpa using writable, there, by simpa using free, ?_⟩, rfl⟩)
  exact fun renamed => by simpa [renamed] using apart

/-! ### Aliases -/

theorem settles_defineAlias (path : Text) (make : Nat → Alias) (n : Node) :
    Settles (Edit.defineAlias path make) n fun r m => ∃ a k, r = .ok a ∧ n.trust.readOnly = false ∧
      n.alias? (make 0).source = none ∧ n.commands.hidden? (make 0).source = none ∧
      n.Clears (make 0).source k ∧ k.putAlias (make 0).source make = (a, m) := by
  refine .get (.require fun writable => .require fun unused => .require fun free =>
    .bind (settles_clear _ n) (fun _ k cleared => ?_) fun _ _ failed => nomatch failed.1)
  exact ⟨_, k, rfl, by simpa using writable, by simpa using unused, by simpa using free, cleared.2, rfl⟩

theorem spares_defineAlias (path : Text) (make : Nat → Alias) (n : Node) :
    Spares (Edit.defineAlias path make) n := by
  refine (settles_defineAlias path make n).weaken fun r m => ?_
  rintro ⟨a, k, rfl, -⟩
  rfl

section
variable {make : Nat → Alias} {a : Alias}

/-- What making an alias comes down to: its name is cleared, and its shim put at the end. -/
theorem of_defineAlias (h : n.defineAlias path make = .ok (a, n')) :
    ∃ m c, n.alias? (make 0).source = none ∧ n.commands.hidden? (make 0).source = none ∧
      Clears (make 0).source n m ∧ a = make (m.seq + 1) ∧ c.alias? = some a ∧
      c.seq = m.seq + 1 ∧ n' = { m with
        seq := m.seq + 1
        commands := m.commands ++ [{ name := (make 0).source, command := c }]
        aliases := m.aliases ++ [a] } := by
  obtain ⟨_, m, same, -, unused, free, clears, put⟩ :=
    Edit.of_outcome (settles_defineAlias path make n) h
  obtain rfl := Except.ok.inj same
  obtain ⟨rfl, rfl⟩ := Prod.mk.inj put
  exact ⟨m, _, unused, free, clears, rfl, rfl, rfl, rfl⟩

end

/-- The node without an alias of a name and without its shim, wherever that is. -/
def dropAlias (name : Text) (a : Alias) (n : Node) : Node :=
  { n with
    aliases := n.aliases.filter fun b => b.source != name
    commands := n.commands.eraseShims a }

theorem settles_eraseAlias (path name : Text) (n : Node) :
    Settles (Edit.eraseAlias path name) n fun r m => r = .ok () ∧ n.trust.readOnly = false ∧
      ∃ a, n.alias? name = some a ∧ m = n.dropAlias name a := by
  refine .get (.require fun writable => ?_)
  cases registered : n.alias? name with
  | none => exact .throw _
  | some a => exact .of_ends ⟨rfl, by simpa using writable, a, rfl, rfl⟩

/-! ### The controller -/

theorem control_eq (f : Cancellation → Except Fault Cancellation) (n : Node) :
    Edit.control f n =
      match f n.cancel with
      | .ok c => .ok () { n with cancel := c }
      | .error refusal => .error refusal n := by
  change (Op.lift (f n.cancel) >>= fun c => modify fun n => { n with cancel := c } : Edit Unit) n = _
  cases f n.cancel <;> rfl

theorem settles_control (f : Cancellation → Except Fault Cancellation) (n : Node) :
    Settles (Edit.control f) n fun r m =>
      ∃ c, f n.cancel = .ok c ∧ r = .ok () ∧ m = { n with cancel := c } := by
  refine .get (.lift fun c made => .of_ends ?_)
  exact ⟨c, made, rfl, rfl⟩

end Node

end InterpTree
