import InterpTree.Proofs.Hosting
import InterpTree.Proofs.Runs

/-!
Whole runs keep to every lawful regime, whatever commands the host has, provided that these do. The
induction is on the fuel of a run; what one step keeps to is said command by command elsewhere.
-/

namespace InterpTree

namespace Regime

variable {R : Regime} {e e' : Engine} {w : World} {hosting : Engine.Hosting}

/-- The commands of the host keep to the regime where the requests that they make do. -/
def Abides (R : Regime) (hosting : Engine.Hosting) : Prop :=
  ∀ {e e' : Engine}, R.Twins e e' → ∀ {call : Call} {action : HostAction}, R.zone call.node →
    R.admits call.hidden (.host action) →
      ∀ w, R.Keeps (hosting e call action) (hosting e' call action) w

namespace Lawful

variable (law : R.Lawful) (twins : R.Twins e e')

include law

theorem abides_hostAction : R.Abides fun _ => Engine.hostAction := by
  intro e e' _ call action _ _ w
  cases action with
  | echo | fail | failUnexplained | complete => exact law.pure _
  | crash message => exact law.crash _
  | describe => exact keeps_ofNode fun _ => law.pure _

include twins

/-- One request, provided that those that it makes itself are answered alike. -/
theorem stepHosted (abides : R.Abides hosting) (r : Request) (may : R.May r) (permitted : R.permits r w) :
    R.Keeps (Engine.stepHosted hosting e r) (Engine.stepHosted hosting e' r) w := by
  cases r with
  | evaluate context id script => exact law.runEvaluate twins context may script permitted
  | perform call action =>
    obtain ⟨inside, admitted⟩ := may
    cases action with
    | builtin b => exact law.builtin twins inside admitted
    | ensemble => exact law.dispatch twins inside permitted
    | procedure name params body => exact law.procedure twins inside name params body
    | forward a => exact law.forwardCall twins inside admitted permitted
    | host action => exact abides twins inside admitted w

theorem step (r : Request) (may : R.May r) (permitted : R.permits r w) :
    R.Keeps (Engine.step e r) (Engine.step e' r) w := by
  simpa only [Engine.stepHosted_hostAction] using
    law.stepHosted twins law.abides_hostAction r may permitted

end Lawful

end Regime

namespace Engine

/-- Answers a request as `run` does, but gives up before the first request that `stops`. -/
def runUntil (pace : Pace) (stops : Request → World → Bool) : Nat → Request → Act Completion
  | 0, _ => throw .exhausted
  | fuel + 1, request => do
    if stops request (← get) then throw .exhausted
    else step ⟨fuel, runUntil pace stops fuel, pace⟩ request

/-- The same where the commands of the host are others. -/
def runHostedUntil (hosting : Hosting) (pace : Pace) (stops : Request → World → Bool) :
    Nat → Request → Act Completion
  | 0, _ => throw .exhausted
  | fuel + 1, request => do
    if stops request (← get) then throw .exhausted
    else stepHosted hosting ⟨fuel, runHostedUntil hosting pace stops fuel, pace⟩ request

variable {pace : Pace} {stops : Request → World → Bool}

theorem runHostedUntil_hostAction :
    runHostedUntil (fun _ => hostAction) pace stops = runUntil pace stops := by
  funext fuel
  induction fuel with
  | zero => rfl
  | succ fuel ih =>
    funext request
    rw [runHostedUntil, runUntil, ih, stepHosted_hostAction]

/-- Where no request stops it, a run is not given up. -/
theorem runHostedUntil_never (hosting : Hosting) (pace : Pace) :
    runHostedUntil hosting pace (fun _ _ => false) = runHosted hosting pace := by
  funext fuel
  induction fuel with
  | zero => rfl
  | succ fuel ih =>
    funext request
    rw [runHosted, ← ih]
    rfl

theorem runUntil_never (pace : Pace) (fuel : Nat) :
    runUntil pace (fun _ _ => false) fuel = run pace fuel := by
  rw [← runHostedUntil_hostAction, runHostedUntil_never, runHosted_hostAction]

end Engine

namespace Regime

variable {R : Regime} {pace : Pace} (stops stops' : Request → World → Bool)

/-- Runs that are given up before whatever the regime does not permit keep to it, wherever else they
are given up. The earlier of two such runs tracks the later. -/
theorem Lawful.runHostedUntil (law : R.Lawful) {hosting : Engine.Hosting} (abides : R.Abides hosting)
    (paces : R.Paces pace)
    (same : ∀ r w, R.inv w → R.May r → R.Comes r w → stops r w = stops' r w ∨
      stops r w = true ∧ R.onward w w)
    (permits : ∀ r w, R.inv w → R.May r → stops' r w = false → R.permits r w)
    (barred : ∀ r w, R.closed r.node → ¬ R.permits r w → stops r w = true ∧ stops' r w = true)
    (denies : ∀ p context case w fuel, R.denier p → case.name = ("eval" : Text) → R.closed case.target →
      Ends (Engine.decide ⟨fuel, Engine.runHostedUntil hosting pace stops' fuel, pace⟩ context p case)
        w fun r _ => ∀ d, r = .ok d → d = .denied)
    (fuel : Nat) (r : Request) (w : World) (meets : R.Meets r w) :
    R.Keeps (Engine.runHostedUntil hosting pace stops fuel r)
      (Engine.runHostedUntil hosting pace stops' fuel r) w := by
  -- One step of a run is lawful for any two engines that are twins, and by induction these are.
  induction fuel generalizing r w with
  | zero => exact law.exhausted
  | succ fuel ih =>
    have twins : R.Twins ⟨fuel, Engine.runHostedUntil hosting pace stops fuel, pace⟩
        ⟨fuel, Engine.runHostedUntil hosting pace stops' fuel, pace⟩ :=
      ⟨rfl, ih, fun p context case w => denies p context case w fuel, rfl, paces⟩
    refine keeps_get fun inv => ?_
    rcases meets with ⟨may, comes⟩ | ⟨closed, unpermitted⟩
    · cases stopped' : stops' r w with
      | true =>
        have stopped : stops r w = true := (same r w inv may comes).elim (·.trans stopped') And.left
        rw [if_pos stopped]
        exact law.exhausted
      | false =>
        have answered := law.stepHosted twins abides r may (permits r w inv may stopped')
        rcases same r w inv may comes with agree | ⟨stopped, onward⟩
        · rw [agree.trans stopped']
          exact answered
        · rw [if_pos stopped]
          exact fun inv => ⟨(answered inv).ends, .inr ⟨w, rfl,
            (answered inv).ends.mono fun _ v done => law.onward_reaches onward done.1⟩⟩
    · obtain ⟨stopped, stopped'⟩ := barred r w closed unpermitted
      rw [if_pos stopped, if_pos stopped']
      exact law.exhausted

theorem Lawful.runUntil (law : R.Lawful) (paces : R.Paces pace)
    (same : ∀ r w, R.inv w → R.May r → R.Comes r w → stops r w = stops' r w ∨
      stops r w = true ∧ R.onward w w)
    (permits : ∀ r w, R.inv w → R.May r → stops' r w = false → R.permits r w)
    (barred : ∀ r w, R.closed r.node → ¬ R.permits r w → stops r w = true ∧ stops' r w = true)
    (denies : ∀ p context case w fuel, R.denier p → case.name = ("eval" : Text) →
      R.closed case.target →
        Ends (Engine.decide ⟨fuel, Engine.runUntil pace stops' fuel, pace⟩ context p case) w
          fun r _ => ∀ d, r = .ok d → d = .denied)
    (fuel : Nat) (r : Request) (w : World) (meets : R.Meets r w) :
    R.Keeps (Engine.runUntil pace stops fuel r) (Engine.runUntil pace stops' fuel r) w := by
  simp only [← Engine.runHostedUntil_hostAction] at denies ⊢
  exact law.runHostedUntil stops stops' law.abides_hostAction paces same permits barred denies fuel r w
    meets

end Regime

end InterpTree
