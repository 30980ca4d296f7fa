import InterpTree.Proofs.Forwarding
import InterpTree.Proofs.Hosting

/-!
Commands that are called without a context. Scripts are evaluated in the context of their node then,
and the ensemble takes that as well; but the commands that wait use the context as it is, and crash
where it is missing.
-/

namespace InterpTree

namespace Call

def within (context : Context) (call : Call) : Call := { call with context := some context }

/-- The call in the context of its node. -/
def owning (call : Call) : Call := call.within (.ofNode call.node)

/-- The arguments of `after` that let it sleep. -/
def sleeps (call : Call) : Bool :=
  match call.args with
  | [word] => ((Text.toInt? word).filter (0 ≤ ·)).isSome
  | _ => false

/-- The arguments of `spin` that let it poll. -/
def polls (call : Call) : Bool :=
  match call.args with
  | [] => true
  | [word] => (Text.toInt? word).isSome
  | _ => false

end Call

namespace World

/-- The node has been canceled: its next checkpoint fails. -/
def isCanceled (w : World) (id : NodeId) : Bool := (w.node? id).any fun n => n.cancel.isCanceled

/-- The commands that wait use the context of their call. One that polls only does so where no
cancellation is met at once. -/
def NeedsContext (w : World) (call : Call) : Action → Prop
  | .builtin .after => call.sleeps = true
  | .builtin .spin => call.polls = true ∧ w.isCanceled call.node = false
  | _ => False

theorem checkpoint_eq (w : World) (id : NodeId) :
    ∃ met v, Act.checkpoint id w = .ok met v ∧ met.isSome = w.isCanceled id := by
  unfold Act.checkpoint isCanceled
  rw [Act.bind_of_ok (Act.get_apply w)]
  cases w.node? id with
  | none => exact ⟨none, w, rfl, rfl⟩
  | some n =>
    dsimp only
    split
    · rename_i idle
      exact ⟨none, w, rfl, by simp [Cancellation.isCanceled, idle]⟩
    · rename_i posted
      refine ⟨_, _, rfl, ?_⟩
      unfold Cancellation.checkpoint Cancellation.isCanceled
      cases state : n.cancel.state with
      | idle => exact absurd state posted
      | pending => simp [state]
      | consumed => cases unwinds : n.cancel.reason.unwind <;> simp [state, unwinds]

end World

namespace Engine

/-- The engine evaluates a script without a context in that of the node. -/
def Supplies (e : Engine) : Prop :=
  ∀ id script, e.evaluate none id script = e.evaluate (some (.ofNode id)) id script

/-- A command of the host does the same in the context of the node. -/
def Hosting.MakesDo (hosting : Hosting) (call : Call) : Action → Prop
  | .host a => ∀ e : Engine, e.Supplies → hosting e call a = hosting e call.owning a
  | _ => True

variable {e : Engine} (supplies : e.Supplies)

include supplies

theorem substitute_own (id : NodeId) (text : Text) :
    e.substitute none id text = e.substitute (some (.ofNode id)) id text := by
  unfold substitute
  induction Script.pieces text with
  | nil => rfl
  | cons piece rest ih =>
    unfold substitutePieces
    rw [ih]
    cases piece with
    | bracketed source =>
      dsimp only
      rw [supplies]
    | plain bytes => rfl
    | reference name => rfl
    | unclosed => rfl

end Engine

namespace Call

variable {e : Engine} {call : Call} {w : World}

theorem unsetAll_owning : call.unsetAll = call.owning.unsetAll := by
  funext strict names
  induction names with
  | nil => rfl
  | cons name rest ih =>
    unfold unsetAll
    rw [ih]
    rfl

theorem unset_owning : call.unset = call.owning.unset := by
  unfold unset
  rw [unsetAll_owning]
  rfl

theorem bindParams_owning : call.bindParams = call.owning.bindParams := by
  funext params args
  induction params generalizing args with
  | nil => cases args <;> rfl
  | cons param params ih =>
    cases args with
    | nil => rfl
    | cons arg args =>
      unfold bindParams
      rw [ih]
      rfl

section

variable (supplies : e.Supplies) (missing : call.context = none)

include supplies missing

theorem evaluate_owning : call.evaluate e = call.owning.evaluate e := by
  funext script
  unfold evaluate
  rw [missing]
  exact supplies _ _

theorem eval_owning : call.eval e = call.owning.eval e := by
  unfold eval
  rw [evaluate_owning supplies missing]
  rfl

theorem catching_owning : call.catching e = call.owning.catching e := by
  unfold catching catchScript
  rw [evaluate_owning supplies missing]
  rfl

theorem repeatBody_owning (body : Text) (turns : Nat) (left : Option Nat) :
    call.repeatBody e body turns left = call.owning.repeatBody e body turns left := by
  induction turns generalizing left with
  | zero => rcases left with _ | _ | left <;> rfl
  | succ turns ih =>
    -- Where no turn is left the body does not matter.
    by_cases done : left = some 0
    · rw [done]
      rfl
    · unfold repeatBody
      rw [evaluate_owning supplies missing]
      simp only [ih]

theorem repeating_owning : call.repeating e = call.owning.repeating e := by
  unfold repeating
  simp only [repeatBody_owning supplies missing]
  rfl

theorem branches_owning (words : List Text) : call.branches e words = call.owning.branches e words := by
  induction words using Call.branches.induct with
  | case1 condition body rest ih =>
    unfold branches
    rw [missing, Engine.substitute_own supplies, evaluate_owning supplies missing]
    refine bind_congr fun value => ?_
    split
    · rfl
    · split
      · rfl
      · rfl
      · split
        · rfl
        · split
          · exact ih
          · rfl
  | case2 words other =>
    unfold branches
    split
    · exact absurd rfl (other _ _ _)
    · rfl

theorem procedure_owning (name : Text) (params : List Text) (body : Text) :
    call.procedure e name params body = call.owning.procedure e name params body := by
  unfold procedure
  rw [evaluate_owning supplies missing, bindParams_owning]
  rfl

theorem source_owning : call.source e = call.owning.source e := by
  unfold source
  rw [evaluate_owning supplies missing]
  rfl

end

@[simp] theorem owning_args (call : Call) : call.owning.args = call.args := rfl

theorem after_owning (awake : call.sleeps = false) : call.after e = call.owning.after e := by
  unfold after
  rw [owning_args]
  cases given : call.args with
  | nil => rfl
  | cons first rest =>
    dsimp only
    split
    · rfl
    · split
      · rfl
      · split
        · rfl
        · rename_i ms span
          cases rest with
          | nil => simp [sleeps, given, span] at awake
          | cons word rest => rfl

theorem after_crash (missing : call.context = none) (sleeps : call.sleeps = true) :
    call.after e w = .error (.crash missingContext) w := by
  unfold Call.sleeps at sleeps
  split at sleeps
  · rename_i word given
    obtain ⟨ms, span⟩ := Option.isSome_iff_exists.mp sleeps
    -- A number is none of the words for which `after` does something else.
    have other (name : Text) (unread : Text.toInt? name = none) : (word == name) = false := by
      by_contra named
      obtain rfl : word = name := by simpa using named
      rw [unread] at span
      cases span
    unfold after
    simp only [given, other _ (show Text.toInt? (Text.ofString "info") = none by decide),
      other _ (show Text.toInt? (Text.ofString "cancel") = none by decide), span, sleep, missing]
    rfl
  · cases sleeps

theorem spinUntil_of_missing (missing : call.context = none) (deadline : Option Int) :
    call.spinUntil e deadline w = (do
      match ← Act.checkpoint call.node with
      | some reason => return .fail (.canceled reason)
      | none => Act.crash missingContext : Act Completion) w := by
  unfold spinUntil
  rw [missing]
  rfl

/-- Where a cancellation is met at once, polling ends before the context is looked at. -/
theorem spinUntil_owning (missing : call.context = none) (canceled : w.isCanceled call.node = true)
    (turns : 0 < e.turns) (deadline : Option Int) :
    call.spinUntil e deadline w = call.owning.spinUntil e deadline w := by
  obtain ⟨met, v, checked, isSome⟩ := w.checkpoint_eq call.node
  rw [canceled] at isSome
  obtain ⟨reason, rfl⟩ := Option.isSome_iff_exists.mp isSome
  obtain ⟨turns, more⟩ : ∃ k, e.turns = k + 1 := ⟨e.turns - 1, by omega⟩
  obtain ⟨pause, own⟩ : ∃ pause, call.owning.spinUntil e deadline w =
      call.owning.spinTurns e (.ofNode call.node) deadline pause e.turns w := ⟨_, rfl⟩
  rw [spinUntil_of_missing missing, Act.bind_of_ok checked, own, more]
  show _ = (Act.checkpoint call.node >>= _) w
  rw [Act.bind_of_ok checked]

theorem spin_owning (missing : call.context = none)
    (free : call.polls = true → w.isCanceled call.node = true) (turns : 0 < e.turns) :
    call.spin e w = call.owning.spin e w := by
  unfold spin
  rw [owning_args]
  cases given : call.args with
  | nil => exact spinUntil_owning missing (free (by simp [polls, given])) turns none
  | cons word rest =>
    cases rest with
    | nil =>
      dsimp only
      cases span : Text.toInt? word with
      | none => rfl
      | some ms => exact spinUntil_owning missing (free (by simp [polls, given, span])) turns _
    | cons word rest => rfl

theorem spinUntil_crash (missing : call.context = none) (going : w.isCanceled call.node = false)
    (deadline : Option Int) : ∃ v, call.spinUntil e deadline w = .error (.crash missingContext) v := by
  obtain ⟨met, v, checked, isSome⟩ := w.checkpoint_eq call.node
  rw [going] at isSome
  obtain rfl : met = none := by simpa using isSome
  refine ⟨v, ?_⟩
  rw [spinUntil_of_missing missing, Act.bind_of_ok checked]
  rfl

theorem spin_crash (missing : call.context = none) (polls : call.polls = true)
    (going : w.isCanceled call.node = false) :
    ∃ v, call.spin e w = .error (.crash missingContext) v := by
  unfold Call.polls at polls
  unfold spin
  split at polls
  · rename_i given
    rw [given]
    exact spinUntil_crash missing going none
  · rename_i word given
    obtain ⟨ms, span⟩ := Option.isSome_iff_exists.mp polls
    simp only [given, span]
    exact spinUntil_crash missing going _
  · cases polls

end Call

namespace Engine

variable {hosting : Hosting} {e : Engine} {call : Call} {action : Action} {w : World}

/-- What a command does without a context that it does not need is what it does in that of its
node. -/
theorem stepHosted_owning (supplies : e.Supplies) (missing : call.context = none)
    (turns : 0 < e.turns) (plain : ∀ a, action ≠ .forward a) (free : ¬ w.NeedsContext call action)
    (makes : hosting.MakesDo call action) :
    stepHosted hosting e (.perform call action) w =
      stepHosted hosting e (.perform call.owning action) w := by
  cases action with
  | builtin b =>
    show call.builtin e b w = call.owning.builtin e b w
    cases b with
    | unset => exact congrFun Call.unset_owning w
    | eval => exact congrFun (Call.eval_owning supplies missing) w
    | catching => exact congrFun (Call.catching_owning supplies missing) w
    | repeating => exact congrFun (Call.repeating_owning supplies missing) w
    | conditional => exact congrFun (Call.branches_owning supplies missing _) w
    | source => exact congrFun (Call.source_owning supplies missing) w
    | after => exact congrFun (Call.after_owning (by simpa [World.NeedsContext] using free)) w
    | spin =>
      refine Call.spin_owning missing (fun polls => ?_) turns
      simpa [World.NeedsContext, polls] using free
    | policyInfo =>
      show call.policyInfo w = call.owning.policyInfo w
      unfold Call.policyInfo
      rw [missing]
      rfl
    | _ => rfl
  | ensemble =>
    show Control.dispatch e call w = Control.dispatch e call.owning w
    have same (name : Text) : Control.Invocation.of call name = .of call.owning name := by
      unfold Control.Invocation.of
      rw [missing]
      rfl
    unfold Control.dispatch Control.Subcommand.apply
    simp only [same]
    rfl
  | procedure name params body => exact congrFun (Call.procedure_owning supplies missing ..) w
  | forward a => exact absurd rfl (plain a)
  | host a => exact congrFun (makes e supplies) w

theorem stepHosted_crash (missing : call.context = none) (needs : w.NeedsContext call action) :
    ∃ v, stepHosted hosting e (.perform call action) w = .error (.crash missingContext) v := by
  cases action with
  | builtin b =>
    cases b with
    | after => exact ⟨w, Call.after_crash missing needs⟩
    | spin => exact Call.spin_crash missing needs.1 needs.2
    | _ => cases needs
  | _ => cases needs

end Engine

end InterpTree
