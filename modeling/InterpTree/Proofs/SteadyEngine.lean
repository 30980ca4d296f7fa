import InterpTree.Proofs.Answers
import InterpTree.Proofs.Hosting
import InterpTree.Proofs.Steadiness
import InterpTree.Proofs.Vetting

/-!
What an engine adds to actions that do not crash. Scripts run in a context in any case, and policies are
asked and events served in one, so it is up to the commands whether the host crashes.
-/

namespace InterpTree

open Act

/-- Scripts run in a context in any case, and commands may be called without one. -/
def Request.HasContext : Request → Prop
  | .evaluate .. => True
  | .perform call _ => call.context.isSome = true

/-- No guard of the host crashes. -/
def HostGuards.IsSteady (hosts : HostGuards) : Prop :=
  ∀ p case guard, hosts p case = some guard → Act.IsSteady guard

namespace Engine

/-- The engine answers requests that have a context, and does not crash. -/
def IsCalm (e : Engine) : Prop := ∀ r, r.HasContext → (e.call r).IsSteady

/-- No command of the host crashes where there is a context, on an engine that does not. -/
def Hosting.IsSteady (hosting : Hosting) : Prop :=
  ∀ e : Engine, e.IsCalm → ∀ call action, call.context.isSome = true →
    Act.IsSteady (hosting e call action)

/-! ### Scripts -/

variable {e : Engine} (calm : e.IsCalm)

include calm

theorem isSteady_evaluate (context : Option Context) (id : NodeId) (script : Text) :
    (e.evaluate context id script).IsSteady := calm _ trivial

theorem isSteady_invoke (context : Context) (id : NodeId) (name : Text) (args : List Text) :
    (e.invoke (some context) id name args).IsSteady := by
  refine isSteady_get.bind fun w => ?_
  split
  · simp
  · exact calm (.perform _ _) rfl

theorem isSteady_substitutePiece (context : Option Context) (id : NodeId) (piece : Script.Piece) :
    (e.substitutePiece context id piece).IsSteady := by
  cases piece with
  | plain bytes => exact isSteady_pure _
  | reference name =>
    refine (isSteady_ofNode _ _).bind fun value => ?_
    split
    · simp
    · simp
  | bracketed source => exact (isSteady_evaluate calm _ _ _).bind fun _ => isSteady_pure _
  | unclosed => exact isSteady_pure _

theorem isSteady_substitutePieces (context : Option Context) (id : NodeId)
    (pieces : List Script.Piece) : (e.substitutePieces context id pieces).IsSteady := by
  induction pieces with
  | nil => exact isSteady_pure _
  | cons piece rest ih =>
    rw [substitutePieces_cons]
    refine (isSteady_substitutePiece calm _ _ _).bind fun value => ?_
    split
    · simp
    · exact ih.bind fun _ => by simp

theorem isSteady_substitute (context : Option Context) (id : NodeId) (text : Text) :
    (e.substitute context id text).IsSteady := isSteady_substitutePieces calm _ _ _

theorem isSteady_substituteWord (context : Option Context) (id : NodeId) (word : Script.Word) :
    (e.substituteWord context id word).IsSteady := by
  unfold substituteWord
  split
  · simp
  · exact isSteady_substitute calm _ _ _

theorem isSteady_substituteWords (context : Option Context) (id : NodeId)
    (words : List Script.Word) : (e.substituteWords context id words).IsSteady := by
  induction words with
  | nil => exact isSteady_pure _
  | cons word rest ih =>
    rw [substituteWords_cons]
    refine (isSteady_substituteWord calm _ _ _).bind fun value => ?_
    split
    · simp
    · exact ih.bind fun _ => by simp

theorem isSteady_runCommands (context : Context) (id : NodeId) (last : Completion)
    (commands : List Script.Command) : (e.runCommands context id last commands).IsSteady := by
  induction commands generalizing last with
  | nil => exact isSteady_pure _
  | cons command rest ih =>
    refine (isSteady_modify _).bind fun _ => (isSteady_checkpoint _).bind fun reason => ?_
    split
    · simp
    · refine isSteady_get.bind fun w => ?_
      split
      · simp
      · refine (isSteady_substituteWords calm _ _ _).bind fun words => ?_
        split
        · simp
        · exact ih _
        · refine (isSteady_invoke calm _ _ _ _).bind fun result => ?_
          split
          · exact ih _
          · simp

theorem isSteady_runScript (context : Context) (id : NodeId) (script : Text) :
    (e.runScript context id script).IsSteady := by
  refine (isSteady_ofNode _ _).bind fun limits => ?_
  dsimp only
  split
  · simp
  · split
    · simp
    · exact isSteady_runCommands calm _ _ _ _

theorem isSteady_runEvaluate (context : Option Context) (id : NodeId) (script : Text) :
    (e.runEvaluate context id script).IsSteady := by
  refine isSteady_get.bind fun w => ?_
  split
  · simp
  · split
    · simp
    · split
      · simp
      · refine (isSteady_modifyNode _ _).bind fun _ => IsSteady.ensuring ?_
        exact (isSteady_runScript calm _ _ _).bind fun result =>
          (isSteady_ofNode _ _).bind fun _ => by simp

/-! ### Guarded operations -/

omit calm in
/-- The guards that policies name do not crash. -/
theorem isSteady_named : Policy.named.IsSteady := by
  intro p case guard guarded
  obtain ⟨g, -, rfl⟩ := Option.map_eq_some_iff.mp guarded
  cases g <;> exact isSteady_pure _

omit calm in
theorem isSteady_inFrame {α : Type} {x : Act α} (id : NodeId) (name : Text) (flags : Nat)
    (h : x.IsSteady) : (inFrame id name flags x).IsSteady := by
  refine isSteady_get.bind fun w => ?_
  split
  · exact h
  · exact (isSteady_modifyNode _ _).bind fun _ => h.ensuring

section

variable {hosts : HostGuards} (steady : hosts.IsSteady)

include steady

theorem isSteady_decideWith (context : Context) (p : Policy) (case : PolicyCase) :
    (e.decideWith hosts (some context) p case).IsSteady := by
  unfold decideWith
  split
  · rename_i guard guarded
    refine (steady p case guard guarded).bind fun decided => ?_
    split
    · simp
    · exact (isSteady_log _ _ _ _).bind fun _ => by simp
  · unfold decide
    dsimp only
    split
    · simp
    · refine (isSteady_evaluate calm _ _ _).bind fun result => ?_
      split
      · exact (isSteady_log _ _ _ _).bind fun _ => by simp
      · simp

theorem isSteady_askWith (context : Context) (case : PolicyCase) (policies : List Policy) :
    (e.askWith hosts (some context) case policies).IsSteady := by
  induction policies with
  | nil => exact isSteady_pure _
  | cons p rest ih =>
    refine isSteady_get.bind fun w => ?_
    split
    · exact ih
    · refine (isSteady_decideWith calm steady _ _ _).bind fun decision =>
        (isSteady_log _ _ _ _).bind fun _ => ?_
      split
      · simp
      · exact ih

theorem isSteady_evaluateInWith (context : Context) (caller : NodeId) (path script : Text) :
    (e.evaluateInWith hosts (some context) caller path script).IsSteady := by
  refine isSteady_get.bind fun w => ?_
  split
  · simp
  · rename_i target resolved
    have evaluates : (e.evaluateVetted (some context) caller target path script none).IsSteady := by
      refine (isSteady_inFrame _ _ _ (isSteady_evaluate calm _ _ _)).bind fun result => ?_
      split
      · simp
      · simp
    split
    · exact (isSteady_pure _).bind fun refusal => by
        cases refusal with
        | some f => exact isSteady_pure _
        | none => exact evaluates
    · exact (isSteady_ofNode _ _).bind fun policies =>
        (isSteady_askWith calm steady _ _ _).bind fun refusal => by
          cases refusal with
          | some f => exact isSteady_pure _
          | none => exact evaluates

theorem isSteady_invokeHiddenWith (context : Context) (caller : NodeId) (path name : Text)
    (args : List Text) (global : Bool) :
    (e.invokeHiddenWith hosts (some context) caller path name args global).IsSteady := by
  refine (isSteady_attempt _).bind fun target => ?_
  split
  · simp
  · refine (isSteady_ofNode _ _).bind fun command => ?_
    split
    · simp
    · refine (isSteady_ofNode _ _).bind fun policies =>
        (isSteady_askWith calm steady _ _ _).bind fun refusal => ?_
      split
      · simp
      · exact isSteady_inFrame _ _ _ (calm (.perform _ _) rfl)

end

theorem isSteady_evaluateIn (context : Context) (caller : NodeId) (path script : Text) :
    (e.evaluateIn (some context) caller path script).IsSteady := by
  rw [← evaluateInWith_named]
  exact isSteady_evaluateInWith calm isSteady_named _ _ _ _

theorem isSteady_invokeHidden (context : Context) (caller : NodeId) (path name : Text)
    (args : List Text) (global : Bool) :
    (e.invokeHidden (some context) caller path name args global).IsSteady := by
  rw [← invokeHiddenWith_named]
  exact isSteady_invokeHiddenWith calm isSteady_named _ _ _ _ _ _

/-! ### Service loops and waiting -/

omit calm in
theorem isSteady_noteEvent (id : NodeId) (options : ServiceOptions) :
    (noteEvent id options).IsSteady := by
  refine isSteady_get.bind fun w => ?_
  split
  · exact (isSteady_ofNode _ _).bind fun _ => isSteady_modify _
  · simp

theorem isSteady_reportBackground (context : Context) (id : NodeId) (work : Text) (f : Fault) :
    (e.reportBackground (some context) id work f).IsSteady := by
  refine isSteady_get.bind fun w => ?_
  split
  · simp
  · split
    · simp
    · split
      · simp
      · refine (isSteady_invoke calm _ _ _ _).bind fun result => ?_
        split
        · simp
        · simp

theorem isSteady_serveEvent (context : Context) (id : NodeId) (options : ServiceOptions)
    (report : ServiceReport) (event : Event) :
    (e.serveEvent context id options report event).IsSteady := by
  refine (isSteady_evaluate calm _ _ _).bind fun result =>
    (isSteady_noteEvent _ _).bind fun _ => ?_
  split
  · simp
  · split
    · exact (isSteady_reportBackground calm _ _ _ _).bind fun _ => by simp
    · exact (isSteady_log _ _ _ _).bind fun _ => by simp

theorem isSteady_serviceTurn (context : Context) (id : NodeId) (options : ServiceOptions)
    (report : ServiceReport) : (e.serviceTurn context id options report).IsSteady := by
  refine (isSteady_modify _).bind fun _ => isSteady_get.bind fun w => ?_
  split
  · simp
  -- Only the last case serves an event; in all others the turn is over at once.
  · repeat' split
    all_goals first
      | exact isSteady_pure _
      | exact (isSteady_modifyNode _ _).bind fun _ => isSteady_serveEvent calm _ _ _ _ _

omit calm in
theorem isSteady_workDone (id : NodeId) : (workDone id).IsSteady := by
  refine (isSteady_modifyNode _ _).bind fun _ => isSteady_get.bind fun w => ?_
  split
  · simp
  · exact (isSteady_modifyNode _ _).bind fun _ => isSteady_modify _

theorem isSteady_workFailed (id : NodeId) (work : Text) (f : Fault) :
    (e.workFailed id work f).IsSteady := by
  unfold workFailed
  split
  · simp
  · exact isSteady_reportBackground calm _ _ _ _

/-- A worker catches what its work crashes with. -/
theorem isSteady_runItem (id : NodeId) (work : Text) (job : ServiceJob) :
    (e.runItem id work job).IsSteady := by
  refine (isSteady_modifyNode _ _).bind fun _ => isSteady_guarded.bind fun progress => ?_
  split
  · refine (isSteady_modifyNode _ _).bind fun _ => isSteady_get.bind fun w => ?_
    split
    · exact (isSteady_modify _).bind fun _ => isSteady_workDone _
    · simp
  · refine (isSteady_modify _).bind fun _ => (isSteady_modify _).bind fun _ => ?_
    split
    · exact (isSteady_pure ()).bind fun _ => isSteady_workDone id
    · exact (isSteady_workFailed calm _ _ _).bind fun _ => isSteady_workDone _
  · exact (isSteady_modify _).bind fun _ => (isSteady_workFailed calm _ _ _).bind fun _ =>
      isSteady_workDone _

theorem isSteady_work (id : NodeId) : (e.work id).IsSteady := by
  refine isSteady_get.bind fun w => ?_
  split
  · simp
  · split
    · exact isSteady_runItem calm _ _ _
    · split
      · simp
      · exact (isSteady_modifyNode _ _).bind fun _ => isSteady_runItem calm _ _ _

theorem isSteady_happenBefore (deadline : Option Int) (activity : Activity) :
    (e.happenBefore deadline activity).IsSteady := by
  have steady : (e.happen activity).IsSteady := by
    cases activity with
    | look id => exact isSteady_modify _
    | work id => exact isSteady_work calm id
  intro w m v ends
  unfold happenBefore at ends
  split at ends
  · cases ends
  · cases ends
  · rename_i stopped
    cases ends
    exact steady _ _ _ stopped

omit calm in
theorem isSteady_sleepUntil (instant : Option Int) : (e.sleepUntil instant).IsSteady := by
  have asleep : (elapse instant).IsSteady := by
    cases instant with
    | none => exact isSteady_exhausted
    | some instant => exact isSteady_modify _
  refine isSteady_get.bind fun w => ?_
  split
  · refine IsSteady.bind ?_ fun _ => asleep
    unfold Pace.oversleep
    split
    · exact isSteady_pure _
    · exact isSteady_overtaken _
  · exact asleep

theorem isSteady_waitTurns (deadline : Option Int) (roused : World → Bool) (turns : Nat) :
    (e.waitTurns deadline roused turns).IsSteady := by
  induction turns with
  | zero => exact isSteady_exhausted
  | succ turns ih =>
    refine isSteady_get.bind fun w => ?_
    split
    · simp
    · split
      · exact isSteady_sleepUntil _
      · split
        · simp
        · exact (isSteady_sleepUntil _).bind fun _ =>
            (isSteady_happenBefore calm _ _).bind fun _ => ih

theorem isSteady_waitUntil (deadline : Int) (roused : World → Bool) :
    (e.waitUntil deadline roused).IsSteady := by
  refine isSteady_get.bind fun w => ?_
  split
  · simp
  · exact isSteady_waitTurns calm _ _ _

theorem isSteady_serviceTurns (context : Context) (id : NodeId) (options : ServiceOptions)
    (turns : Nat) (report : ServiceReport) :
    (e.serviceTurns context id options turns report).IsSteady := by
  induction turns generalizing report with
  | zero => exact isSteady_exhausted
  | succ turns ih =>
    refine (isSteady_serviceTurn calm _ _ _ _).bind fun turn => ?_
    split
    · exact ih _
    · simp
    · refine (isSteady_waitUntil calm _ _).bind fun _ => isSteady_get.bind fun w => ?_
      split
      · exact (isSteady_modifyNode _ _).bind fun _ => ih _
      · exact (isSteady_pure ()).bind fun _ => ih _

theorem isSteady_serviceEvents (context : Option Context) (id : NodeId) (options : ServiceOptions) :
    (e.serviceEvents context id options).IsSteady := by
  refine isSteady_get.bind fun w => ?_
  split
  · simp
  · split
    · simp
    · split
      · simp
      · exact (isSteady_serviceTurns calm _ _ _ _ _).ensuring

end Engine

end InterpTree
