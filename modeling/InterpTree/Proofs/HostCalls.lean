import InterpTree.Proofs.Destinations
import InterpTree.Proofs.Hearings
import InterpTree.Proofs.SteadyCommands

/-!
What hosts call on a tree without a context. Main statement: a call crashes the host if it leads to a
command that waits, or is asked about by the script of a policy; any other ends as in the context of
the node that it acts in. The host has any commands and any guards of its own.
-/

namespace InterpTree

/-! ### Calls of hosts -/

/-- Who calls hidden commands may call this one of the node at a path. -/
structure World.Reveals (w : World) (caller : NodeId) (path name : Text) (target : NodeId) (n : Node)
    (c : Command) : Prop where
  entitled : ∃ k, w.node? caller = some k ∧ k.trust.safe = false
  resolved : w.resolve? caller path = some target
  found : w.node? target = some n
  hidden : n.commands.hidden? name = some c

theorem World.Reveals.unique {w : World} {caller target target' : NodeId} {path name : Text}
    {n n' : Node} {c c' : Command} (first : w.Reveals caller path name target n c)
    (second : w.Reveals caller path name target' n' c') : target = target' ∧ n = n' ∧ c = c' := by
  obtain rfl := Option.some.inj (first.resolved.symm.trans second.resolved)
  obtain rfl := Option.some.inj (first.found.symm.trans second.found)
  obtain rfl := Option.some.inj (first.hidden.symm.trans second.hidden)
  exact ⟨rfl, rfl, rfl⟩

/-- What hosts call on a node. They may do so without a context. -/
inductive HostCall
  | evaluate (id : NodeId) (script : Text)
  | evaluateIn (caller : NodeId) (path script : Text)
  | invoke (id : NodeId) (name : Text) (args : List Text)
  | invokeHidden (caller : NodeId) (path name : Text) (args : List Text) (global : Bool)
  | service (id : NodeId) (options : ServiceOptions)

namespace HostCall

/-- What the host gets. -/
def Answer : HostCall → Type
  | service _ _ => ServiceReport × Except Fault Unit
  | _ => Completion

def act (e : Engine) (hosts : HostGuards) (context : Option Context) : (q : HostCall) → Act q.Answer
  | evaluate id script => e.evaluate context id script
  | evaluateIn caller path script => e.evaluateInWith hosts context caller path script
  | invoke id name args => e.invoke context id name args
  | invokeHidden caller path name args global =>
    e.invokeHiddenWith hosts context caller path name args global
  | service id options => e.serviceEvents context id options

/-- The call of a command that the host makes without a context. -/
def bare (id : NodeId) (name : Text) (args : List Text) (hidden : Bool := false) : Call :=
  { context := none, node := id, name, args, hidden }

/-- The frame in which a hidden command is called. -/
def flags (global : Bool) : Nat := FrameFlags.hidden + if global then FrameFlags.atGlobal else 0

/-- The command that is performed in the end where the host calls one, the world in which the call
begins, and the hops that lead from there. A hidden command is only performed if the policies on it
grant that, and in the world that they leave. -/
inductive Performs (hosts : HostGuards) (w : World) :
    HostCall → World → List Hop → Call → Action → Prop
  | invoke {id : NodeId} {name : Text} {args : List Text} {c : Command} {hops : List Hop}
      {last : Call} {final : Action} (there : w.called? (bare id name args) = some c)
      (performs : w.Performs (bare id name args) c.action hops last final) :
      Performs hosts w (.invoke id name args) w hops last final
  | invokeHidden {caller target : NodeId} {path name : Text} {args : List Text} {global : Bool}
      {n : Node} {c : Command} {v : World} {hops : List Hop} {last : Call} {final : Action}
      (reveals : w.Reveals caller path name target n c)
      (granted : hosts.hear { caller, target, name, args }
        (n.policies.filter fun p => p.guardsCommand c) w = .ok .granted v)
      (performs : (v.inside target ("invokehidden " ++ name) (flags global)).Performs
        (bare target name args true) c.action hops last final) :
      Performs hosts w (.invokeHidden caller path name args global)
        (v.inside target ("invokehidden " ++ name) (flags global)) hops last final

/-- What wants a context: a command that waits, and a guard script. -/
inductive Wants (hosts : HostGuards) (w : World) : HostCall → Prop
  | command {q : HostCall} {u : World} {hops : List Hop} {last : Call} {final : Action}
      (performs : q.Performs hosts w u hops last final) (needs : u.NeedsContext last final) :
      Wants hosts w q
  | evaluateIn {caller target : NodeId} {path script : Text} {n : Node} {v : World}
      (resolved : w.resolve? caller path = some target) (other : target ≠ caller)
      (found : w.node? target = some n)
      (stuck : hosts.hear { caller, target, name := "eval", script }
        (n.policies.filter Policy.guardsEvaluation) w = .ok .stuck v) :
      Wants hosts w (.evaluateIn caller path script)
  | invokeHidden {caller target : NodeId} {path name : Text} {args : List Text} {global : Bool}
      {n : Node} {c : Command} {v : World} (reveals : w.Reveals caller path name target n c)
      (stuck : hosts.hear { caller, target, name, args }
        (n.policies.filter fun p => p.guardsCommand c) w = .ok .stuck v) :
      Wants hosts w (.invokeHidden caller path name args global)

/-- The node where a call leads. -/
inductive ActsIn (hosts : HostGuards) (w : World) : HostCall → NodeId → Prop
  | evaluate {id : NodeId} {script : Text} : ActsIn hosts w (.evaluate id script) id
  | evaluateIn {caller target : NodeId} {path script : Text}
      (resolved : w.resolve? caller path = some target) :
      ActsIn hosts w (.evaluateIn caller path script) target
  | service {id : NodeId} {options : ServiceOptions} : ActsIn hosts w (.service id options) id
  | command {q : HostCall} {u : World} {hops : List Hop} {last : Call} {final : Action}
      (performs : q.Performs hosts w u hops last final) : ActsIn hosts w q last.node

end HostCall

theorem World.exists_node?_inside {w : World} {id : NodeId} (name : Text) (flags : Nat)
    (there : ∃ n, w.node? id = some n) : ∃ n, (w.inside id name flags).node? id = some n := by
  obtain ⟨n, found⟩ := there
  unfold inside
  rw [found]
  exact ⟨_, node?_modifyNode_same _ found⟩

namespace Engine

variable {hosts : HostGuards} {e : Engine} {w v : World} {caller target id : NodeId}
  {path name script : Text} {args : List Text} {global : Bool} {n : Node} {c : Command}

theorem invokeHiddenWith_of_reveals (context : Option Context)
    (reveals : w.Reveals caller path name target n c) :
    e.invokeHiddenWith hosts context caller path name args global w =
      unlessRefused (e.askWith hosts context { caller, target, name, args }
          (n.policies.filter fun p => p.guardsCommand c))
        (inFrame target ("invokehidden " ++ name) (HostCall.flags global)
          (e.call (.perform { context, node := target, name, args, hidden := true } c.action))) w := by
  obtain ⟨⟨k, asks, trusted⟩, resolved, found, hidden⟩ := reveals
  exact invokeHiddenWith_eq asks trusted resolved found hidden args global

/-- Where nothing is revealed the context does not matter. -/
theorem invokeHiddenWith_of_hidden
    (hidden : ∀ target n c, ¬ w.Reveals caller path name target n c) (a b : Option Context) :
    e.invokeHiddenWith hosts a caller path name args global w =
      e.invokeHiddenWith hosts b caller path name args global w := by
  unfold invokeHiddenWith
  refine Act.bind_congr_ok fun asked u came => ?_
  cases asked with
  | error f => rfl
  | ok target =>
    obtain ⟨rfl, entitled, resolved⟩ := Act.privileged_of_ok came
    obtain ⟨k, asks, trusted⟩ := Option.any_eq_true _ _ |>.mp entitled
    refine Act.bind_congr_ok fun command v looked => ?_
    cases command with
    | none => rfl
    | some c =>
      cases found : u.node? target with
      | none =>
        simp only [Act.ofNode, bind, EStateM.bind, Act.get_apply, found] at looked
        cases looked
      | some n =>
        rw [Act.ofNode_of_node? found] at looked
        have revealed := (EStateM.Result.ok.inj looked).1
        exact absurd ⟨⟨k, asks, by simpa using trusted⟩, resolved, found, revealed⟩ (hidden target n c)

theorem inFrame_congr {α : Type} {x y : Act α} {flags : Nat}
    (same : x (w.inside id name flags) = y (w.inside id name flags)) :
    inFrame id name flags x w = inFrame id name flags y w := by
  unfold inFrame
  unfold World.inside at same
  rw [Act.bind_of_ok (Act.get_apply w), Act.bind_of_ok (Act.get_apply w)]
  cases found : w.node? id with
  | none =>
    rw [found] at same
    exact same
  | some n =>
    rw [found] at same
    show Act.ensuring _ x (w.framed id name flags n) = Act.ensuring _ y (w.framed id name flags n)
    unfold Act.ensuring
    dsimp only at same
    rw [same]

theorem inFrame_crash {α : Type} {x : Act α} {flags : Nat} {m : Text}
    (crashed : x (w.inside id name flags) = .error (.crash m) v) :
    ∃ u, inFrame id name flags x w = .error (.crash m) u := by
  unfold inFrame
  unfold World.inside at crashed
  rw [Act.bind_of_ok (Act.get_apply w)]
  cases found : w.node? id with
  | none =>
    rw [found] at crashed
    exact ⟨v, crashed⟩
  | some n =>
    rw [found] at crashed
    show ∃ u, Act.ensuring _ x (w.framed id name flags n) = _
    unfold Act.ensuring
    dsimp only at crashed
    rw [crashed]
    exact ⟨_, rfl⟩

/-- An evaluation in another node uses no context of its own but that of the node. -/
theorem evaluateInWith_own (supplies : e.Supplies) (resolved : w.resolve? caller path = some target)
    (heard : ∀ n v, target ≠ caller → w.node? target = some n →
      hosts.hear { caller, target, name := "eval", script }
        (n.policies.filter Policy.guardsEvaluation) w ≠ .ok .stuck v) :
    e.evaluateInWith hosts none caller path script w =
      e.evaluateInWith hosts (some (.ofNode target)) caller path script w := by
  by_cases here : target = caller
  · unfold evaluateInWith
    rw [Act.bind_of_ok (Act.get_apply w), Act.bind_of_ok (Act.get_apply w), resolved]
    dsimp only
    rw [supplies, if_pos here, if_pos here]
  · cases found : w.node? target with
    | some n =>
      rw [evaluateInWith_eq resolved here found, evaluateInWith_eq resolved here found, supplies]
      exact unlessRefused_of_heard (fun v => heard n v here found) fun _ _ => rfl
    | none =>
      -- A node that is not there has no policies to ask.
      have unguarded : Act.ofNode target (fun n => n.policies.filter Policy.guardsEvaluation) w =
          .ok [] w := by
        simp only [Act.ofNode, bind, EStateM.bind, Act.get_apply, found]
        rfl
      unfold evaluateInWith
      rw [Act.bind_of_ok (Act.get_apply w), Act.bind_of_ok (Act.get_apply w), resolved]
      dsimp only
      rw [supplies, if_neg here, if_neg here, Act.bind_of_ok unguarded, Act.bind_of_ok unguarded]
      rfl

end Engine

namespace HostCall

open Engine

variable {hosting : Hosting} {hosts : HostGuards} {w u : World} {q : HostCall} {hops : List Hop}
  {last : Call} {final : Action} {context : Context}

theorem Performs.unique {u' : World} {hops' : List Hop} {last' : Call} {final' : Action}
    (first : q.Performs hosts w u hops last final)
    (second : q.Performs hosts w u' hops' last' final') :
    u = u' ∧ hops = hops' ∧ last = last' ∧ final = final' := by
  cases first with
  | invoke there performs =>
    cases second with
    | invoke there' performs' =>
      obtain rfl := Option.some.inj (there.symm.trans there')
      exact ⟨rfl, performs.unique performs'⟩
  | invokeHidden reveals granted performs =>
    cases second with
    | invokeHidden reveals' granted' performs' =>
      obtain ⟨rfl, rfl, rfl⟩ := reveals.unique reveals'
      obtain ⟨-, rfl⟩ := EStateM.Result.ok.inj (granted.symm.trans granted')
      exact ⟨rfl, performs.unique performs'⟩

theorem ActsIn.unique {id id' : NodeId} (first : q.ActsIn hosts w id)
    (second : q.ActsIn hosts w id') : id = id' := by
  cases first with
  | evaluate =>
    cases second with
    | evaluate => rfl
    | command performs => cases performs
  | service =>
    cases second with
    | service => rfl
    | command performs => cases performs
  | evaluateIn resolved =>
    cases second with
    | evaluateIn resolved' => exact Option.some.inj (resolved.symm.trans resolved')
    | command performs => cases performs
  | command performs =>
    cases second with
    | command performs' => rw [(performs.unique performs').2.2.1]
    | _ => cases performs

/-- A call that performs a command that needs no context wants none. -/
theorem Performs.not_wants (performs : q.Performs hosts w u hops last final)
    (free : ¬ u.NeedsContext last final) : ¬ q.Wants hosts w := by
  intro wants
  cases wants with
  | command performs' needs =>
    obtain ⟨rfl, -, rfl, rfl⟩ := performs.unique performs'
    exact free needs
  | evaluateIn => cases performs
  | invokeHidden reveals stuck =>
    cases performs with
    | invokeHidden reveals' granted =>
      obtain ⟨rfl, rfl, rfl⟩ := reveals.unique reveals'
      cases granted.symm.trans stuck

/-- Every call has a context that is its own. -/
theorem exists_own (hosts : HostGuards) (w : World) (q : HostCall) :
    ∃ context : Context, ∀ id, q.ActsIn hosts w id → context = .ofNode id := by
  by_cases acts : ∃ id, q.ActsIn hosts w id
  · obtain ⟨id, acts⟩ := acts
    exact ⟨.ofNode id, fun id' acts' => congrArg _ (acts.unique acts')⟩
  · exact ⟨.background, fun id acts' => absurd ⟨id, acts'⟩ acts⟩

/-- Every call makes do with so many hops. -/
theorem exists_enough (hosts : HostGuards) (w : World) (q : HostCall) :
    ∃ k, ∀ u hops last final, q.Performs hosts w u hops last final → hops.length + 2 ≤ k := by
  by_cases leads : ∃ u hops last final, q.Performs hosts w u hops last final
  · obtain ⟨u, hops, last, final, performs⟩ := leads
    refine ⟨hops.length + 2, fun u' hops' last' final' performs' => ?_⟩
    obtain ⟨-, rfl, -⟩ := performs.unique performs'
    exact Nat.le_refl _
  · exact ⟨0, fun u hops last final performs => absurd ⟨u, hops, last, final, performs⟩ leads⟩

/-- A call that wants a context crashes without one. -/
theorem act_crash (hosting : Hosting) (wants : q.Wants hosts w) (pace : Pace) :
    ∃ k, ∀ fuel, k ≤ fuel → ∃ m ∈ [missingContext, orphaned], ∃ v,
      q.act (hosted hosting pace fuel) hosts none w = .error (.crash m) v := by
  cases wants with
  | @command q u hops last final performs needs =>
    refine ⟨hops.length + 1, fun fuel enough => ⟨missingContext, by simp, ?_⟩⟩
    cases performs with
    | @invoke id name args c _ _ _ there performs =>
      show ∃ v, (hosted hosting pace fuel).invoke none id name args w = _
      have called := invoke_of_called? (hosted hosting pace fuel) (bare id name args) rfl there
      obtain ⟨v, crashed⟩ := call_crash hosting pace rfl performs needs enough
      exact ⟨v, called.trans crashed⟩
    | @invokeHidden caller target path name args global n c v _ _ _ reveals granted performs =>
      obtain ⟨u, crashed⟩ := call_crash hosting pace rfl performs needs enough
      obtain ⟨u', stopped⟩ := inFrame_crash crashed
      exact ⟨u', (invokeHiddenWith_of_reveals none reveals).trans
        ((unlessRefused_of_granted granted none _).trans stopped)⟩
  | evaluateIn resolved other found stuck =>
    exact ⟨0, fun fuel _ => ⟨orphaned, by simp, _,
      (evaluateInWith_eq resolved other found).trans (unlessRefused_crash stuck _)⟩⟩
  | invokeHidden reveals stuck =>
    exact ⟨0, fun fuel _ => ⟨orphaned, by simp, _,
      (invokeHiddenWith_of_reveals none reveals).trans (unlessRefused_crash stuck _)⟩⟩

/-- A call that wants no context is the call in the context of the node where it leads. -/
theorem act_own (keep : hosts.KeepNodes) (free : ¬ q.Wants hosts w)
    (makes : ∀ u hops last final, q.Performs hosts w u hops last final → hosting.MakesDo last final)
    (own : ∀ id, q.ActsIn hosts w id → context = .ofNode id) (pace : Pace) :
    ∃ k, ∀ fuel, k ≤ fuel → q.act (hosted hosting pace fuel) hosts none w =
      q.act (hosted hosting pace fuel) hosts (some context) w := by
  obtain ⟨k, enough⟩ := exists_enough hosts w q
  refine ⟨k, fun fuel more => ?_⟩
  have leads (u : World) (hops : List Hop) (last : Call) (final : Action)
      (performs : q.Performs hosts w u hops last final) :
      ¬ u.NeedsContext last final ∧ hosting.MakesDo last final ∧ context = .ofNode last.node ∧
        hops.length + 2 ≤ fuel :=
    ⟨fun needs => free (.command performs needs), makes u hops last final performs,
      own _ (.command performs), (enough u hops last final performs).trans more⟩
  cases q with
  | evaluate id script =>
    obtain rfl := own id .evaluate
    exact congrFun (supplies_hosted hosting pace fuel id script) w
  | service id options =>
    obtain rfl := own id .service
    rfl
  | evaluateIn caller path script =>
    show (hosted hosting pace fuel).evaluateInWith hosts none caller path script w =
      (hosted hosting pace fuel).evaluateInWith hosts (some context) caller path script w
    cases resolved : w.resolve? caller path with
    | none =>
      unfold Engine.evaluateInWith
      rw [Act.bind_of_ok (Act.get_apply w), Act.bind_of_ok (Act.get_apply w), resolved]
    | some target =>
      obtain rfl := own target (.evaluateIn resolved)
      exact evaluateInWith_own (supplies_hosted hosting pace fuel) resolved
        fun n v other found stuck => free (.evaluateIn resolved other found stuck)
  | invoke id name args =>
    refine invoke_within (bare id name args) rfl fun c there => ?_
    obtain ⟨n, found⟩ := World.exists_of_called? there
    exact call_within rfl found fun hops last final performs =>
      leads w hops last final (.invoke there performs)
  | invokeHidden caller path name args global =>
    show (hosted hosting pace fuel).invokeHiddenWith hosts none caller path name args global w =
      (hosted hosting pace fuel).invokeHiddenWith hosts (some context) caller path name args global w
    by_cases revealed : ∃ target n c, w.Reveals caller path name target n c
    · obtain ⟨target, n, c, reveals⟩ := revealed
      rw [invokeHiddenWith_of_reveals none reveals, invokeHiddenWith_of_reveals _ reveals]
      refine unlessRefused_of_heard (fun v stuck => free (.invokeHidden reveals stuck))
        fun v granted => inFrame_congr ?_
      obtain ⟨m, found⟩ := World.exists_node?_inside ("invokehidden " ++ name) (flags global)
        (node?_of_hear keep granted reveals.found)
      exact call_within rfl found fun hops last final performs =>
        leads _ hops last final (.invokeHidden reveals granted performs)
    · exact invokeHiddenWith_of_hidden (fun target n c reveals => revealed ⟨target, n, c, reveals⟩) _ _

theorem isSteady_act {e : Engine} (calm : e.IsCalm) (steady : hosts.IsSteady) (context : Context)
    (q : HostCall) : (q.act e hosts (some context)).IsSteady := by
  cases q with
  | evaluate id script => exact isSteady_evaluate calm _ _ _
  | evaluateIn caller path script => exact isSteady_evaluateInWith calm steady _ _ _ _
  | invoke id name args => exact isSteady_invoke calm _ _ _ _
  | invokeHidden caller path name args global =>
    exact isSteady_invokeHiddenWith calm steady _ _ _ _ _ _
  | service id options => exact isSteady_serviceEvents calm _ _ _

/-- A call without a context that wants one, because it leads to a command that waits or is asked about
by a guard script, crashes the host. Any other does the same as in the context of the node where it
leads, if a command of the host that it leads to does; and where no command and no guard of the host
crashes, it does not crash. This holds whatever commands and guards the host has. -/
theorem missing_context_is_own (hosting : Hosting) (hosts : HostGuards) (keep : hosts.KeepNodes)
    (w : World) (q : HostCall) (context : Context)
    (own : ∀ id, q.ActsIn hosts w id → context = .ofNode id) (pace : Pace) :
    (∃ k, ∀ fuel, k ≤ fuel →
      (q.Wants hosts w → ∃ m ∈ [missingContext, orphaned], ∃ v,
        q.act (hosted hosting pace fuel) hosts none w = .error (.crash m) v) ∧
      (¬ q.Wants hosts w →
        (∀ u hops last final, q.Performs hosts w u hops last final → hosting.MakesDo last final) →
        q.act (hosted hosting pace fuel) hosts none w =
          q.act (hosted hosting pace fuel) hosts (some context) w ∧
        (hosting.IsSteady → hosts.IsSteady → ∀ m v,
          q.act (hosted hosting pace fuel) hosts none w ≠ .error (.crash m) v))) ∧
    runHosted (fun _ => hostAction) pace = run pace ∧
    (∀ (e : Engine) context, e.invokeHiddenWith Policy.named context = e.invokeHidden context ∧
      e.evaluateInWith Policy.named context = e.evaluateIn context) := by
  refine ⟨?_, runHosted_hostAction, fun _ _ => ⟨invokeHiddenWith_named, evaluateInWith_named⟩⟩
  by_cases wants : q.Wants hosts w
  · obtain ⟨k, crashes⟩ := act_crash hosting wants pace
    exact ⟨k, fun fuel enough => ⟨fun _ => crashes fuel enough, fun free => absurd wants free⟩⟩
  by_cases makes : ∀ u hops last final, q.Performs hosts w u hops last final →
      hosting.MakesDo last final
  · obtain ⟨k, same⟩ := act_own keep wants makes own pace
    refine ⟨k, fun fuel enough => ⟨fun wants' => absurd wants' wants, fun _ _ =>
      ⟨same fuel enough, fun steady guarded m v => ?_⟩⟩⟩
    rw [same fuel enough]
    exact isSteady_act (isCalm_hosted steady pace fuel) guarded context q w m v
  · exact ⟨0, fun fuel _ => ⟨fun wants' => absurd wants' wants, fun _ makes' => absurd makes' makes⟩⟩

end HostCall

namespace World

open Engine (Hosting hosted)

/-- A child of the root with two hidden commands. A guard of the host lets pass the first, and a script
decides on the second. -/
def staffed : Moment where
  past := [.tree (.create root [] "t" {}), .hide root "t" "set" [], .hide root "t" "puts" [],
    .addPolicy root "t" { type := "set", guard := some (.decide .approved) }]
  deed := .addPolicy root "t" { type := "puts", script := "list yes" }

/-- Every command of the host gives back its arguments. -/
def echoing : Hosting := fun _ call _ => return .ok (Text.words call.args)

/-- Without a context the root cannot sleep, and cannot call the second hidden command, but the
first. -/
theorem missing_context_is_own_staffed :
    (∀ q ∈ [HostCall.invoke root "after" ["1"], .invokeHidden root "t" "puts" ["x"] false],
      ∃ k, ∀ fuel, k ≤ fuel → ∃ m ∈ [missingContext, orphaned], ∃ v,
        q.act (hosted echoing .timely fuel) Policy.named none (staffed.world .timely 20 sapling) =
          .error (.crash m) v) ∧
    ∃ k, ∀ fuel, k ≤ fuel →
      (HostCall.invokeHidden root "t" "set" ["x", "1"] false).act (hosted echoing .timely fuel)
          Policy.named none (staffed.world .timely 20 sapling) =
        (HostCall.invokeHidden root "t" "set" ["x", "1"] false).act (hosted echoing .timely fuel)
          Policy.named (some (.ofNode 2)) (staffed.world .timely 20 sapling) ∧
      ∀ m v, (HostCall.invokeHidden root "t" "set" ["x", "1"] false).act
        (hosted echoing .timely fuel) Policy.named none (staffed.world .timely 20 sapling) ≠
          .error (.crash m) v := by
  have entitled : ((staffed.world .timely 20 sapling).node? root).any
      (fun k => k.trust.safe = false) = true := by decide +kernel
  have resolved : (staffed.world .timely 20 sapling).resolve? root "t" = some 2 := by decide +kernel
  have after : ((staffed.world .timely 20 sapling).called? (HostCall.bare root "after" ["1"])).any
      (fun c => c.action = .builtin .after) = true := by decide +kernel
  have set : ((staffed.world .timely 20 sapling).node? 2).any (fun n =>
      (n.commands.hidden? "set").any fun c => c.action = .builtin .set ∧
        Ends (HostGuards.hear Policy.named ⟨root, 2, "set", ["x", "1"], []⟩
          (n.policies.filter fun p => p.guardsCommand c)) (staffed.world .timely 20 sapling)
          fun r _ => r.toOption = some .granted) = true := by decide +kernel
  have puts : ((staffed.world .timely 20 sapling).node? 2).any (fun n =>
      (n.commands.hidden? "puts").any fun c =>
        Ends (HostGuards.hear Policy.named ⟨root, 2, "puts", ["x"], []⟩
          (n.policies.filter fun p => p.guardsCommand c)) (staffed.world .timely 20 sapling)
          fun r _ => r.toOption = some .stuck) = true := by decide +kernel
  obtain ⟨k, asks, trusted⟩ := Option.any_eq_true _ _ |>.mp entitled
  have entitled : ∃ k, (staffed.world .timely 20 sapling).node? root = some k ∧
      k.trust.safe = false := ⟨k, asks, of_decide_eq_true trusted⟩
  constructor
  · intro q called
    have wants : q.Wants Policy.named (staffed.world .timely 20 sapling) := by
      simp only [List.mem_cons, List.not_mem_nil, or_false] at called
      rcases called with rfl | rfl
      · obtain ⟨c, there, isAfter⟩ := Option.any_eq_true _ _ |>.mp after
        refine .command (.invoke there (.here fun a => ?_)) ?_
        · rw [of_decide_eq_true isAfter]
          exact nofun
        · rw [of_decide_eq_true isAfter]
          show (HostCall.bare root "after" ["1"]).sleeps = true
          decide
      · obtain ⟨n, found, puts⟩ := Option.any_eq_true _ _ |>.mp puts
        obtain ⟨c, hidden, stuck⟩ := Option.any_eq_true _ _ |>.mp puts
        obtain ⟨v, stuck⟩ := Engine.heard_of_ends (of_decide_eq_true stuck)
        exact .invokeHidden ⟨entitled, resolved, found, hidden⟩ stuck
    obtain ⟨context, own⟩ := HostCall.exists_own Policy.named (staffed.world .timely 20 sapling) q
    obtain ⟨⟨k, ends⟩, -⟩ := HostCall.missing_context_is_own echoing Policy.named
      Policy.keepNodes_named (staffed.world .timely 20 sapling) q context own .timely
    exact ⟨k, fun fuel enough => (ends fuel enough).1 wants⟩
  · obtain ⟨n, found, set⟩ := Option.any_eq_true _ _ |>.mp set
    obtain ⟨c, hidden, set⟩ := Option.any_eq_true _ _ |>.mp set
    obtain ⟨isSet, granted⟩ := of_decide_eq_true set
    obtain ⟨v, granted⟩ := Engine.heard_of_ends granted
    have performs : (HostCall.invokeHidden root "t" "set" ["x", "1"] false).Performs Policy.named
        (staffed.world .timely 20 sapling) _ [] (HostCall.bare 2 "set" ["x", "1"] true) c.action :=
      .invokeHidden ⟨entitled, resolved, found, hidden⟩ granted (.here (by rw [isSet]; exact nofun))
    have free := performs.not_wants (by rw [isSet]; exact id)
    obtain ⟨⟨k, ends⟩, -⟩ := HostCall.missing_context_is_own echoing Policy.named
      Policy.keepNodes_named (staffed.world .timely 20 sapling)
      (.invokeHidden root "t" "set" ["x", "1"] false) (.ofNode 2)
      (fun id acts => congrArg _ (HostCall.ActsIn.unique (.command performs) acts)) .timely
    refine ⟨k, fun fuel enough => ?_⟩
    obtain ⟨same, steady⟩ := (ends fuel enough).2 free fun u hops last final performs' => by
      obtain ⟨-, -, rfl, rfl⟩ := performs.unique performs'
      rw [isSet]
      trivial
    exact ⟨same, steady (fun _ _ _ _ _ => Act.isSteady_pure _) Engine.isSteady_named⟩

end World

end InterpTree
