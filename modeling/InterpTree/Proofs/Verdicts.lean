import InterpTree.Proofs.Hosting
import InterpTree.Proofs.Leveling
import InterpTree.Proofs.Moments

/-!
What policies come to. Those that guard an operation are asked one after the other, as the tree stands
by then, and the first that denies settles it. A guard of the host is any action here, so that nothing
is said of what guards do but that they leave frames and evaluations as they find them, unless a worker
is overtaken meanwhile; the guards that a policy can name are cases of it.
-/

namespace InterpTree

/-- The guards leave frames and evaluations as they find them, unless a worker is overtaken. -/
def HostGuards.Tidy (pace : Pace) (hosts : HostGuards) : Prop :=
  ∀ p case guard, hosts p case = some guard → ∀ w : World, w.IsNumbered →
    Ends guard w (Reached (fun v => pace = .timely ∧ v.IsNumbered ∧ w.nodes.size ≤ v.nodes.size)
      fun v => v.IsNumbered ∧ World.Relevels pace w v)

theorem Policy.tidy_named (pace : Pace) : HostGuards.Tidy pace Policy.named := by
  intro p case guard guarded w numbered
  obtain ⟨g, -, rfl⟩ := Option.map_eq_some_iff.mp guarded
  cases g <;> exact ⟨numbered, .refl w⟩

namespace Engine

/-! ### Asking -/

section

variable (e : Engine) (hosts : HostGuards) (context : Option Context) (case : PolicyCase)

/-- A policy decides, and leaves a world. A guard that fails denies, and so does a script that ends in
an error. -/
inductive Decides (p : Policy) (w : World) : Decision → World → Prop
  | host {guard : Act (Except Text Decision)} {d : Decision} {v : World}
      (guarded : hosts p case = some guard) (decided : guard w = .ok (.ok d) v) : Decides p w d v
  | failing {guard : Act (Except Text Decision)} {message : Text} {v : World}
      (guarded : hosts p case = some guard) (failed : guard w = .ok (.error message) v) :
      Decides p w .denied (v.logNode .warning p.owner "policy guard failed"
        [field "error" message, field "policy" p.name])
  | silent (unguarded : hosts p case = none) (unscripted : p.script = []) :
      Decides p w .undecided w
  | script {c : Context} {result : Completion} {v : World} (unguarded : hosts p case = none)
      (scripted : p.script ≠ []) (given : context = some c)
      (ended : e.evaluate (some { c with deciding := some case }) p.owner p.script w = .ok result v)
      (well : result.isError = false) : Decides p w (.ofText result.value) v
  | erring {c : Context} {result : Completion} {v : World} (unguarded : hosts p case = none)
      (scripted : p.script ≠ []) (given : context = some c)
      (ended : e.evaluate (some { c with deciding := some case }) p.owner p.script w = .ok result v)
      (error : result.isError = true) :
      Decides p w .denied (v.logNode .warning p.owner result.trace [field "policy" p.name])

/-- What policies come to. -/
inductive Verdict
  | granted
  | denied (p : Policy)
  | stopped (stop : Stop)

/-- Policies are asked in order, each in the world that those before it have left. One whose owner is
gone by then is passed over, and after a denial no other is asked. -/
inductive Asks : List Policy → World → Verdict → World → Prop
  | granted {w : World} : Asks [] w .granted w
  | skipped {p : Policy} {rest : List Policy} {w v : World} {verdict : Verdict}
      (gone : w.live? p.owner = none) (later : Asks rest w verdict v) : Asks (p :: rest) w verdict v
  | passed {p : Policy} {rest : List Policy} {w u v : World} {d : Decision} {verdict : Verdict}
      (there : w.live? p.owner ≠ none) (decides : e.Decides hosts context case p w d u)
      (passing : d ≠ .denied)
      (later : Asks rest (u.logNode .debug p.owner "policy checked"
        [field "policy" p.name, field "decision" d.name, field "command" case.name]) verdict v) :
      Asks (p :: rest) w verdict v
  | denied {p : Policy} {rest : List Policy} {w u : World}
      (there : w.live? p.owner ≠ none) (decides : e.Decides hosts context case p w .denied u) :
      Asks (p :: rest) w (.denied p) (u.logNode .debug p.owner "policy checked"
        [field "policy" p.name, field "decision" Decision.denied.name, field "command" case.name])
  | stopped {p : Policy} {rest : List Policy} {w u : World} {stop : Stop}
      (there : w.live? p.owner ≠ none)
      (stops : e.decideWith hosts context p case w = .error stop u) :
      Asks (p :: rest) w (.stopped stop) u

/-- What the one who asks gets. -/
def Verdict.outcome (v : World) : Verdict → EStateM.Result Stop World (Option Fault)
  | .granted => .ok none v
  | .denied p => .ok (some (.of .permissionDenied
      ("permission denied: " ++ p.name ++ " denied " ++ Text.quoted case.name))) v
  | .stopped stop => .error stop v

/-- While policies were asked no worker was overtaken. -/
def Verdict.OvertakesNone (w v : World) : Verdict → Prop
  | .stopped (.overtaken _) => False
  | _ => ∀ i, v.IsUnfinished i → w.IsUnfinished i

/-- How a guarded operation goes on: it is begun once all have let it pass, and otherwise not. -/
def Verdict.Rules (operation begun : Act Completion) (w v : World) : Verdict → Prop
  | .granted => operation w = begun v
  | .denied p => operation w = .ok (.fail (.of .permissionDenied
      ("permission denied: " ++ p.name ++ " denied " ++ Text.quoted case.name))) v
  | .stopped stop => operation w = .error stop v

end

variable {e : Engine} {hosts : HostGuards} {context : Option Context} {case : PolicyCase}
  {p : Policy} {policies : List Policy} {w v : World} {verdict : Verdict}

theorem decides_of_ok {d : Decision} (result : e.decideWith hosts context p case w = .ok d v) :
    e.Decides hosts context case p w d v := by
  unfold decideWith at result
  cases guarded : hosts p case with
  | some guard =>
    rw [guarded] at result
    simp only [bind, EStateM.bind] at result
    cases outcome : guard w with
    | error stop u =>
      rw [outcome] at result
      cases result
    | ok decided u =>
      rw [outcome] at result
      cases decided with
      | ok d' =>
        cases result
        exact .host guarded outcome
      | error message =>
        cases result
        exact .failing guarded outcome
  | none =>
    rw [guarded] at result
    unfold decide at result
    by_cases unscripted : p.script = []
    · simp only [unscripted, List.isEmpty_nil, if_true] at result
      cases result
      exact .silent guarded unscripted
    · have isEmpty : p.script.isEmpty = false := by simpa using unscripted
      simp only [isEmpty, Bool.false_eq_true, if_false] at result
      cases context with
      | none => cases result
      | some c =>
        simp only [bind, EStateM.bind] at result
        cases outcome :
            e.evaluate (some { c with deciding := some case }) p.owner p.script w with
        | error stop u =>
          rw [outcome] at result
          cases result
        | ok ended u =>
          rw [outcome] at result
          cases error : ended.isError with
          | true =>
            simp only [error, if_true] at result
            cases result
            exact .erring guarded unscripted rfl outcome error
          | false =>
            simp only [error, Bool.false_eq_true, if_false] at result
            cases result
            exact .script guarded unscripted rfl outcome error

/-- Policies that are asked come to a verdict. -/
theorem exists_asks (e : Engine) (hosts : HostGuards) (context : Option Context) (case : PolicyCase)
    (policies : List Policy) (w : World) :
    ∃ verdict v, e.Asks hosts context case policies w verdict v ∧
      e.askWith hosts context case policies w = verdict.outcome case v := by
  induction policies generalizing w with
  | nil => exact ⟨.granted, w, .granted, rfl⟩
  | cons p rest ih =>
    unfold askWith
    simp only [bind, EStateM.bind, Act.get_apply]
    cases there : w.live? p.owner with
    | none =>
      obtain ⟨verdict, v, asks, outcome⟩ := ih w
      exact ⟨verdict, v, .skipped there asks, outcome⟩
    | some owner =>
      have there : w.live? p.owner ≠ none := by simp [there]
      simp only [Option.isNone_some, Bool.false_eq_true, if_false, EStateM.bind]
      cases decided : e.decideWith hosts context p case w with
      | error stop u => exact ⟨.stopped stop, u, .stopped there decided, rfl⟩
      | ok d u =>
        have decides := decides_of_ok decided
        by_cases denied : d = .denied
        · subst denied
          exact ⟨.denied p, _, .denied there decides, rfl⟩
        · obtain ⟨verdict, v, asks, outcome⟩ := ih (u.logNode .debug p.owner "policy checked"
            [field "policy" p.name, field "decision" d.name, field "command" case.name])
          refine ⟨verdict, v, .passed there decides denied asks, ?_⟩
          simp only [denied, if_false]
          exact outcome

/-! ### Frames -/

section

variable {pace : Pace} (twins : (Regime.restoring pace).Twins e e) (tidy : hosts.Tidy pace)

include twins tidy

theorem keeps_decideWith :
    (Regime.restoring pace).Keeps
      (e.decideWith hosts context p case) (e.decideWith hosts context p case) w := by
  have law := World.lawful_restoring pace
  unfold decideWith
  cases guarded : hosts p case with
  | some guard =>
    have kept : (Regime.restoring pace).Keeps guard guard w := fun inv => .refl ((tidy p case guard guarded w inv.1).mono fun _ _ done =>
      ⟨done.imp (fun strayed => ⟨strayed.1, strayed.2.1, .zero _, strayed.2.2⟩)
        fun led => ⟨⟨led.1, .zero _, trivial⟩, led.2⟩, fun _ _ => trivial⟩)
    refine law.bind kept fun decided v => ?_
    cases decided with
    | ok d => exact law.pure _
    | error message => exact law.bind (law.log _ _ _ _) fun _ _ => law.pure _
  | none =>
    exact law.decide twins context _ case (.inr fun _ _ _ => .inl ⟨trivial, trivial⟩)

theorem keeps_askWith (context : Option Context) (case : PolicyCase) (policies : List Policy)
    (w : World) :
    (Regime.restoring pace).Keeps (e.askWith hosts context case policies)
      (e.askWith hosts context case policies) w := by
  have law := World.lawful_restoring pace
  induction policies generalizing w with
  | nil => exact law.pure _
  | cons p rest ih =>
    unfold askWith
    refine Regime.keeps_get fun _ => ?_
    split
    · exact ih w
    · refine law.bind (keeps_decideWith twins tidy) fun decision v =>
        law.bind (law.log _ _ _ _) fun _ u => ?_
      split
      · exact law.pure _
      · exact ih u

end

/-! ### Operations -/

/-- Goes on to an operation once it has been asked about, unless that is refused. -/
def unlessRefused (asking : Act (Option Fault)) (operation : Act Completion) : Act Completion := do
  match ← asking with
  | some f => return .fail f
  | none => operation

theorem rules_unlessRefused {asking : Act (Option Fault)} (operation : Act Completion)
    (asked : asking w = verdict.outcome case v) :
    verdict.Rules case (unlessRefused asking operation) operation w v := by
  unfold unlessRefused
  cases verdict <;> simp only [Verdict.Rules, bind, EStateM.bind, asked, Verdict.outcome]
  rfl

section

variable {caller target : NodeId} {k n : Node} {c : Command} {path name script : Text}

theorem invokeHiddenWith_eq (asks : w.node? caller = some k) (trusted : k.trust.safe = false)
    (resolved : w.resolve? caller path = some target) (found : w.node? target = some n)
    (hidden : n.commands.hidden? name = some c) (args : List Text) (global : Bool) :
    e.invokeHiddenWith hosts context caller path name args global w =
      unlessRefused (e.askWith hosts context { caller, target, name, args }
          (n.policies.filter fun p => p.guardsCommand c))
        (inFrame target ("invokehidden " ++ name)
          (FrameFlags.hidden + if global then FrameFlags.atGlobal else 0)
          (e.call (.perform { context, node := target, name, args, hidden := true } c.action))) w := by
  have entitled : Act.attempt (do
      Op.requirePrivilege caller "invoke hidden commands"
      Op.resolve caller path) w = .ok (.ok target) w := by
    simp only [Act.attempt, Op.bind_of_ok (Op.requirePrivilege_ok asks trusted _),
      Op.resolve_ok resolved]
  unfold invokeHiddenWith unlessRefused
  rw [Act.bind_of_ok entitled]
  dsimp only
  rw [Act.bind_of_ok (Act.ofNode_of_node? found _), hidden]
  exact Act.bind_of_ok (Act.ofNode_of_node? found _)

theorem evaluateInWith_eq (resolved : w.resolve? caller path = some target)
    (other : target ≠ caller) (found : w.node? target = some n) :
    e.evaluateInWith hosts context caller path script w =
      unlessRefused (e.askWith hosts context { caller, target, name := "eval", script }
          (n.policies.filter Policy.guardsEvaluation))
        (do
          let result ← inFrame target "eval" FrameFlags.evaluate (e.evaluate context target script)
          if result.isError then
            return result.annotate ("(in interp eval " ++ Text.quoted path ++ ")")
          else return result) w := by
  unfold evaluateInWith unlessRefused
  rw [Act.bind_of_ok (Act.get_apply w), resolved]
  simp only [other, if_false, ne_eq, not_false_eq_true, decide_true, Bool.and_true]
  exact Act.bind_of_ok (Act.ofNode_of_node? found _)

end

end Engine

/-- An operation comes after the policies: they are asked and come to a verdict, which leaves the
frames as they were unless a worker is overtaken, and the operation begins or not as the verdict
says. -/
def Engine.IsGuarded (e : Engine) (hosts : HostGuards) (context : Option Context) (case : PolicyCase)
    (policies : List Policy) (operation begun : Act Completion) (w : World) : Prop :=
  ∃ verdict v, e.Asks hosts context case policies w verdict v ∧
    ((e.pace = .timely → verdict.OvertakesNone w v) → w.Restores v) ∧
    verdict.Rules case operation begun w v

namespace World

variable {w : World} {hosts : HostGuards} {caller target : NodeId} {n : Node} {path : Text}

/-- A child of the root with a hidden command and three policies on it: a script that lets it pass, a
guard that fails, and another script. -/
def patrolled : Moment where
  past := [.tree (.create root [] "t" {}), .hide root "t" "set" [],
    .addPolicy root "t" { type := "*", script := "set asked first" },
    .addPolicy root "t" { type := "set", guard := some (.fail "asleep") }]
  deed := .addPolicy root "t" { type := "*", script := "set asked last" }

end World

end InterpTree
