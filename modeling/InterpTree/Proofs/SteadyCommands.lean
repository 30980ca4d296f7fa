import InterpTree.Proofs.RelayedCalls
import InterpTree.Proofs.SteadyEngine
import InterpTree.Proofs.Subcommands

/-!
Runs that do not crash. A command crashes the host by itself only if it is one of the host's, or if it
uses a context that is missing; and every script runs in a context. So a call that has one goes on
until a command of the host crashes.
-/

namespace InterpTree

open Act

namespace Call

variable {e : Engine} (calm : e.IsCalm) {call : Call}

include calm

theorem isSteady_evaluate (script : Text) : IsSteady (call.evaluate e script) :=
  Engine.isSteady_evaluate calm _ _ _

theorem isSteady_eval : IsSteady (call.eval e) := by
  unfold eval
  split
  · simp
  · exact isSteady_evaluate calm _

theorem isSteady_catchScript (script : Text) (name : Option Text) :
    IsSteady (call.catchScript e script name) := by
  refine (isSteady_evaluate calm _).bind fun result => ?_
  split
  · simp
  · split
    · exact isSteady_pure _
    · exact (isSteady_setVar _ _).bind fun _ => by simp

theorem isSteady_catching : IsSteady (call.catching e) := by
  unfold catching
  split
  · exact isSteady_catchScript calm _ _
  · exact isSteady_catchScript calm _ _
  · simp

theorem isSteady_repeatBody (body : Text) (turns : Nat) (left : Option Nat) :
    IsSteady (call.repeatBody e body turns left) := by
  -- The loop is over, or may not turn any more, or turns and goes on.
  induction turns, left using Call.repeatBody.induct with
  | case1 turns =>
    unfold repeatBody
    simp
  | case2 left more =>
    unfold repeatBody
    split
    · simp
    · simp
    · contradiction
  | case3 turns left more ih =>
    unfold repeatBody
    split
    · simp
    · contradiction
    · rename_i again _
      cases again
      refine (isSteady_evaluate calm _).bind fun result => ?_
      split
      · exact ih
      · exact ih
      · simp
      · simp

theorem isSteady_repeating : IsSteady (call.repeating e) := by
  unfold repeating
  split
  · split
    · simp
    · exact isSteady_repeatBody calm _ _ _
  · simp

theorem isSteady_branches (words : List Text) : IsSteady (call.branches e words) := by
  induction words using Call.branches.induct with
  | case1 condition body rest ih =>
    unfold branches
    refine (Engine.isSteady_substitute calm _ _ _).bind fun value => ?_
    split
    · simp
    · split
      · simp
      · exact isSteady_evaluate calm _
      · split
        · simp
        · split
          · exact ih
          · split
            · split
              · exact isSteady_evaluate calm _
              · simp
            · simp
  | case2 words other =>
    unfold branches
    split
    · exact absurd rfl (other _ _ _)
    · simp

omit calm in
theorem isSteady_take (params : List Text) : IsSteady (call.take params) := by
  refine (isSteady_bindParams _ _).bind fun _ => ?_
  split
  · exact isSteady_setVar _ _
  · simp

theorem isSteady_procedure (name : Text) (params : List Text) (body : Text) :
    IsSteady (call.procedure e name params body) := by
  rw [Engine.procedure_eq]
  split
  · exact (isSteady_take _).bind fun _ => (isSteady_evaluate calm _).bind fun _ => by simp
  · simp

theorem isSteady_sleep (given : call.context.isSome = true) (span : Int) :
    IsSteady (call.sleep e span) := by
  unfold sleep
  split
  · rename_i missing
    rw [missing] at given
    cases given
  · refine isSteady_get.bind fun w => (Engine.isSteady_waitUntil calm _ _).bind fun _ =>
      isSteady_get.bind fun v => ?_
    split
    · simp
    · refine (isSteady_checkpoint _).bind fun met => ?_
      split
      · simp
      · simp

theorem isSteady_after (given : call.context.isSome = true) : IsSteady (call.after e) := by
  unfold after
  split
  · simp
  · split
    · exact (isSteady_ofNode _ _).bind fun _ => by simp
    · split
      · split
        · exact (isSteady_modifyNode _ _).bind fun _ => by simp
        · simp
      · split
        · simp
        · dsimp only
          split
          · exact isSteady_sleep calm given _
          · exact (isSteady_modifyGet _).bind fun _ => by simp

theorem isSteady_spinTurns (context : Context) (deadline : Option Int) (pause : Int) (turns : Nat) :
    IsSteady (call.spinTurns e context deadline pause turns) := by
  induction turns with
  | zero => exact isSteady_exhausted
  | succ turns ih =>
    refine (isSteady_checkpoint _).bind fun met => ?_
    split
    · simp
    · refine isSteady_get.bind fun w => ?_
      split
      · simp
      · split
        · simp
        · exact (Engine.isSteady_waitUntil calm _ _).bind fun _ => ih

theorem isSteady_spinUntil (given : call.context.isSome = true) (deadline : Option Int) :
    IsSteady (call.spinUntil e deadline) := by
  refine (isSteady_ofNode _ _).bind fun pause => ?_
  split
  · exact isSteady_spinTurns calm _ _ _ _
  · rename_i missing
    rw [missing] at given
    cases given

theorem isSteady_spin (given : call.context.isSome = true) : IsSteady (call.spin e) := by
  unfold spin
  split
  · exact isSteady_spinUntil calm given _
  · split
    · simp
    · exact isSteady_get.bind fun w => isSteady_spinUntil calm given _
  · simp

theorem isSteady_source : IsSteady (call.source e) := by
  unfold source
  split
  · refine isSteady_get.bind fun w => ?_
    split
    · simp
    · split
      · simp
      · exact (isSteady_evaluate calm _).bind fun _ => by simp
  · simp

theorem isSteady_builtin (given : call.context.isSome = true) (b : Builtin) :
    IsSteady (call.builtin e b) := by
  cases b with
  | set => exact isSteady_set
  | unset => exact isSteady_unset
  | incr => exact isSteady_incr
  | list | listLength | listIndex | raise | leaveLoop | nextTurn | string => exact isSteady_pure _
  | puts => exact isSteady_puts
  | eval => exact isSteady_eval calm
  | catching => exact isSteady_catching calm
  | repeating => exact isSteady_repeating calm
  | conditional => exact isSteady_branches calm _
  | proc => exact isSteady_proc
  | info => exact isSteady_info
  | after => exact isSteady_after calm given
  | spin => exact isSteady_spin calm given
  | policyInfo => exact isSteady_policyInfo
  | file => exact isSteady_file
  | source => exact isSteady_source calm
  | exit => exact isSteady_exit

end Call

namespace Engine

variable {e : Engine} (calm : e.IsCalm) {call : Call}

include calm

theorem isSteady_service (i : Control.Invocation) (words : List Text) :
    (Control.service e i words).IsSteady := by
  refine (isSteady_attempt _).bind fun asked => ?_
  split
  · simp
  · exact isSteady_perform _
  · refine (isSteady_serviceEvents calm _ _ _).bind fun result => ?_
    split
    · simp
    · simp

omit calm in
theorem isSteady_settled {pace : Pace} {x : Act Completion} (steady : x.IsSteady) :
    (pace.settled x).IsSteady := by
  cases pace with
  | patient => exact steady
  | timely =>
    refine steady.bind fun _ => isSteady_get.bind fun w => ?_
    split <;> simp

/-- A subcommand that runs no scripts is an operation, and operations are refused at worst. -/
theorem isSteady_dispatch : (Control.dispatch e call).IsSteady := by
  unfold Control.dispatch
  split
  · simp
  · split
    · simp
    · rename_i s found
      unfold Control.Subcommand.apply
      split
      · simp
      · rcases Control.Subcommand.runs_or_isPlain (List.mem_of_find?_eq_some found) with
          ⟨-, run⟩ | ⟨-, run⟩ | ⟨-, run⟩ | ⟨f, run, -⟩
        · rw [run]
          exact isSteady_evaluateIn calm _ _ _ _
        · rw [run]
          unfold Control.invokeHidden
          split
          · simp
          · simp
          · exact isSteady_invokeHidden calm _ _ _ _ _ _
        · rw [run]
          exact isSteady_service calm _ _
        · rcases run with run | run
          · rw [run]
            exact isSteady_perform _
          · rw [run]
            exact isSteady_settled (isSteady_perform _)

theorem isSteady_forward (given : call.context.isSome = true) (a : Alias) :
    (e.forward call a).IsSteady := by
  obtain ⟨context, same⟩ := Option.isSome_iff_exists.mp given
  refine isSteady_get.bind fun w => ?_
  split
  · simp
  · refine (isSteady_ofNode _ _).bind fun limits => ?_
    dsimp only
    split
    · simp
    · rw [same]
      refine (isSteady_inFrame _ _ _ (isSteady_invoke calm _ _ _ _)).bind fun result => ?_
      split
      · simp
      · simp

/-- A command of the host may crash it; no other command does, where there is a context. -/
theorem isSteady_stepHosted {hosting : Hosting} (steady : hosting.IsSteady) {r : Request}
    (given : r.HasContext) : (stepHosted hosting e r).IsSteady := by
  cases r with
  | evaluate context id script => exact isSteady_runEvaluate calm _ _ _
  | perform call action =>
    cases action with
    | builtin b => exact Call.isSteady_builtin calm given b
    | ensemble => exact isSteady_dispatch calm
    | procedure name params body => exact Call.isSteady_procedure calm _ _ _
    | forward a => exact isSteady_forward calm given a
    | host action => exact steady e calm call action given

omit calm in
/-- Where no command of the host crashes, nothing that has a context does. -/
theorem isCalm_hosted {hosting : Hosting} (steady : hosting.IsSteady) (pace : Pace) (fuel : Nat) :
    (hosted hosting pace fuel).IsCalm := by
  induction fuel with
  | zero => exact fun r given => isSteady_exhausted
  | succ fuel ih => exact fun r given => isSteady_stepHosted ih steady given

end Engine

end InterpTree
