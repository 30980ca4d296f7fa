import InterpTree.Proofs.Lawfulness

/-!
The evaluation of scripts keeps to every lawful regime, and so do the guarded operations by which
scripts run in other interpreters.
-/

namespace InterpTree

namespace Regime

variable {R : Regime} {e e' : Engine} {w : World} {id : NodeId}

theorem Twins.evaluate (twins : R.Twins e e') (context : Option Context) (inside : R.zone id)
    (script : Text) : R.Keeps (e.evaluate context id script) (e'.evaluate context id script) w :=
  twins.call _ _ (.inl ⟨inside, trivial⟩)

namespace Lawful

variable (law : R.Lawful) (twins : R.Twins e e')

include law

/-- The evaluator meets a posted cancellation. -/
theorem checkpoint (inside : R.zone id) : R.Keeps (Act.checkpoint id) (Act.checkpoint id) w := by
  refine keeps_get fun inv => ?_
  split
  · exact law.pure _
  · rename_i n found
    split
    · exact law.pure _
    · refine law.bind (keeps_modify fun inv => law.leads_stir inv (.inl inside) fun m here => ?_)
        fun _ v => law.pure _
      obtain rfl : n = m := Option.some.inj (found.symm.trans here)
      exact .of_cancel (Cancellation.lasts_checkpoint _) (Cancellation.limits_checkpoint _)

/-- What follows a value, unless there is a reason to stop. -/
theorem unlessStopped {α : Type} {x x' : Act (Except Completion α)} (value : Except Completion Text)
    (add : Text → α → α) (h : R.Keeps x x' w) :
    R.Keeps
      (match value with
        | .error stopped => return .error stopped
        | .ok value => return (← x).map (add value))
      (match value with
        | .error stopped => return .error stopped
        | .ok value => return (← x').map (add value)) w := by
  cases value with
  | error stopped => exact law.pure _
  | ok value => exact law.bind h fun _ _ => law.pure _

/-- What is done unless a policy refuses it. -/
theorem unlessRefused {x x' : Act Completion} (refusal : Option Fault) (h : R.Keeps x x' w) :
    R.Keeps
      (match refusal with
        | some f => return .fail f
        | none => x)
      (match refusal with
        | some f => return .fail f
        | none => x') w := by
  cases refusal with
  | some f => exact law.pure _
  | none => exact h

include twins

/-- The visible command of a name. -/
theorem invoke (context : Option Context) (near : R.Near id) (name : Text) (args : List Text) :
    R.Keeps (e.invoke context id name args) (e'.invoke context id name args) w := by
  refine keeps_get fun inv => ?_
  split
  · exact law.pure _
  · rename_i c found
    obtain ⟨n, foundN, visible⟩ := Option.bind_eq_some_iff.mp found
    refine twins.call _ _ (near.imp (fun inside => ?_) fun closed => ⟨closed, law.barred closed⟩)
    obtain ⟨admitted, comes⟩ := law.visible inv inside foundN visible
    exact ⟨⟨inside, admitted⟩, fun _ => comes⟩

theorem substitutePieces (context : Option Context) (inside : R.zone id)
    (pieces : List Script.Piece) :
    R.Keeps (e.substitutePieces context id pieces) (e'.substitutePieces context id pieces) w := by
  induction pieces generalizing w with
  | nil => exact law.pure _
  | cons piece rest ih =>
    unfold Engine.substitutePieces
    cases piece with
    | plain bytes => exact law.unlessStopped (.ok bytes) _ ih
    | reference name =>
      refine keeps_ofNode fun _ => ?_
      split
      · exact law.unlessStopped (.ok _) _ ih
      · exact law.unlessStopped (.error _) (fun value => (value ++ ·)) ih
    | bracketed source =>
      exact law.bind (twins.evaluate context inside source) fun result v =>
        law.unlessStopped _ _ ih
    | unclosed => exact law.unlessStopped (.error _) (fun value => (value ++ ·)) ih

theorem substitute (context : Option Context) (inside : R.zone id) (s : Text) :
    R.Keeps (e.substitute context id s) (e'.substitute context id s) w :=
  law.substitutePieces twins context inside _

theorem substituteWords (context : Option Context) (inside : R.zone id)
    (words : List Script.Word) :
    R.Keeps (e.substituteWords context id words) (e'.substituteWords context id words) w := by
  induction words generalizing w with
  | nil => exact law.pure _
  | cons word rest ih =>
    unfold Engine.substituteWords
    by_cases braced : word.form = .braced
    · simp only [braced, if_true]
      exact law.unlessStopped (.ok _) _ ih
    · simp only [braced, if_false]
      exact law.bind (law.substitute twins context inside word.text) fun value v =>
        law.unlessStopped value _ ih

/-- Commands one after the other. -/
theorem runCommands (context : Context) (inside : R.zone id) (commands : List Script.Command)
    (last : Completion) :
    R.Keeps (e.runCommands context id last commands) (e'.runCommands context id last commands) w := by
  induction commands generalizing last w with
  | nil => exact law.pure _
  | cons command rest ih =>
    unfold Engine.runCommands
    refine law.bind (keeps_modify fun inv => law.leads_pass inv) fun _ v =>
      law.bind (law.checkpoint inside) fun met u => ?_
    split
    · exact law.pure _
    · refine keeps_get fun _ => ?_
      split
      · exact law.pure _
      · refine law.bind (law.substituteWords twins _ inside _) fun words u => ?_
        split
        · exact law.pure _
        · exact ih _
        · refine law.bind (law.invoke twins _ (.inl inside) _ _) fun result u => ?_
          split
          · exact ih _
          · exact law.pure _

theorem runScript (context : Context) (inside : R.zone id) (script : Text) :
    R.Keeps (e.runScript context id script) (e'.runScript context id script) w := by
  refine keeps_ofNode fun _ => ?_
  dsimp only
  split
  · exact law.pure _
  · split
    · exact law.pure _
    · exact law.runCommands twins context inside _ _

omit twins in
/-- An evaluation is refused, or its script runs between entering and leaving. -/
theorem tracks_entered {S P : World → Prop} (context : Option Context) (script : Text)
    (h : Tracks R.onward (e.runScript (context.getD (.ofNode id)) id script)
      (e'.runScript (context.getD (.ofNode id)) id script)
      (w.modifyNode id fun n => { n with cancel := n.cancel.enter w.clock })
      (Reached S P)) :
    Tracks R.onward (e.runEvaluate context id script) (e'.runEvaluate context id script) w
      (Reached S fun v =>
        v = w ∨ ∃ u, P u ∧ v = u.modifyNode id fun n => { n with cancel := n.cancel.exit }) := by
  refine .after ?_
  change Tracks _ _ _ w _
  split
  · exact .refl (.inl rfl)
  · split
    · exact .refl (.inl rfl)
    · split
      · exact .refl (.inl rfl)
      · refine .after ((law.tracks_ensuring ?_ (h.bind_pure fun result v => ⟨_, rfl⟩)).mono
          fun _ _ done => done.mono .inr)
        exact World.tidies_modifyNode fun _ => rfl

/-- An evaluation that is refused, or entered and left again. -/
theorem tracks_runEvaluate (context : Option Context) (inside : R.zone id) (script : Text)
    (entered : R.inv (w.modifyNode id fun n => { n with cancel := n.cancel.enter w.clock })) :
    Tracks R.onward (e.runEvaluate context id script) (e'.runEvaluate context id script) w
      (Reached (R.strays (w.modifyNode id fun n => { n with cancel := n.cancel.enter w.clock }))
        fun v => v = w ∨
        ∃ u, R.Leads (w.modifyNode id fun n => { n with cancel := n.cancel.enter w.clock }) u ∧
          v = u.modifyNode id fun n => { n with cancel := n.cancel.exit }) :=
  law.tracks_entered context script
    ((law.runScript twins _ inside script entered).mono fun _ _ done => done.1)

/-- An evaluation in a node of the zone. -/
theorem runEvaluate (context : Option Context) (inside : R.zone id) (script : Text)
    (permitted : R.permits (.evaluate context id script) w) :
    R.Keeps (e.runEvaluate context id script) (e'.runEvaluate context id script) w := by
  intro inv
  have entered : R.inv (w.modifyNode id fun n => { n with cancel := n.cancel.enter w.clock }) := by
    cases found : w.node? id with
    | none =>
      rw [World.modifyNode_of_none _ found]
      exact inv
    | some n => exact law.enter inv inside found permitted
  refine (law.tracks_runEvaluate twins context inside script entered).mono
    fun _ v ended => ⟨ended.imp (law.strays_entered inv inside) ?_, fun _ _ => trivial⟩
  rintro (rfl | ⟨u, led, rfl⟩)
  · exact law.leads_refl inv
  · exact law.exit inv inside led

/-- What a policy decides, by a script in the node that owns it if by one. -/
theorem decide (context : Option Context) (p : Policy) (case : PolicyCase) (asks : R.Asks p) :
    R.Keeps (e.decide context p case) (e'.decide context p case) w := by
  unfold Engine.decide
  split
  · exact law.pure _
  · exact law.bind (law.log _ _ _ _) fun _ v => law.pure _
  · rename_i unguarded
    split
    · exact law.pure _
    · rename_i scripted
      have meets := asks.resolve_left (by simp [Policy.isSilent, unguarded, scripted])
      split
      · exact law.crash _
      · refine law.bind (twins.call _ _ (meets _ _ w)) fun result v => ?_
        split
        · exact law.bind (law.log _ _ _ _) fun _ v => law.pure _
        · exact law.pure _

theorem askPolicies (context : Option Context) (case : PolicyCase) (policies : List Policy)
    (asks : ∀ p ∈ policies, R.Asks p) :
    R.Keeps (e.askPolicies context case policies) (e'.askPolicies context case policies) w := by
  induction policies generalizing w with
  | nil => exact law.pure _
  | cons p rest ih =>
    have later := fun q mem => asks q (List.mem_cons_of_mem p mem)
    unfold Engine.askPolicies
    refine keeps_get fun _ => ?_
    split
    · exact ih later
    · refine law.bind (law.decide twins _ p case (asks p List.mem_cons_self)) fun decision v =>
        law.bind (law.log _ _ _ _) fun _ v => ?_
      split
      · exact law.pure _
      · exact ih later

/-- Only without its owner a policy that lets nothing pass lets something pass. -/
theorem ends_askPolicies (context : Option Context) {case : PolicyCase}
    (evaluates : case.name = ("eval" : Text))
    (closed : R.closed case.target) {policies : List Policy} (asks : ∀ p ∈ policies, R.Asks p)
    {p : Policy} (mem : p ∈ policies) (denier : R.denier p) (inv : R.inv w) :
    Ends (e'.askPolicies context case policies) w fun r v =>
      r = .ok none → v.live? p.owner = none := by
  induction policies generalizing w with
  | nil => cases mem
  | cons q rest ih =>
    have later := fun q' mem => asks q' (List.mem_cons_of_mem q mem)
    have asked (u : World) (inv : R.inv u) :=
      law.askPolicies (w := u) twins context case rest later inv
    unfold Engine.askPolicies
    refine Ends.bind_iff.mpr (Ends.get_iff.mpr ?_)
    dsimp only
    split
    · rename_i gone
      rcases List.mem_cons.mp mem with rfl | mem
      · have ends := (asked w inv).ends
        refine ends.mono fun r v done none => ?_
        subst none
        exact law.gone denier inv done.1.2 (by simpa using gone)
      · exact ih later mem inv
    · have decided := (law.decide (w := w) twins context q case (asks q List.mem_cons_self) inv).ends
      have logged (d : Decision) (v : World) (inv : R.inv v) := (law.log (w := v) .debug q.owner
        "policy checked" [field "policy" q.name, field "decision" d.name, field "command" case.name]
        inv).ends
      have failed (stop : Stop) (v : World) :
          (Except.error stop : Except Stop (Option Fault)) = .ok none → v.live? p.owner = none := nofun
      rcases List.mem_cons.mp mem with rfl | mem
      · refine Ends.bind (decided.and (twins.denies p context case w denier evaluates closed))
          (fun d v done => ?_) fun stop v _ => failed stop v
        obtain rfl := done.2 d rfl
        exact Ends.bind (logged _ v done.1.1.1) (fun _ u _ => nofun) fun stop u _ => failed stop u
      · refine Ends.bind decided (fun d v done => ?_) fun stop v _ => failed stop v
        refine Ends.bind (logged d v done.1.1) (fun _ u noted => ?_) fun stop u _ => failed stop u
        split
        · exact nofun
        · exact ih later mem noted.1.1

omit twins in
/-- An action inside a frame, which is pushed and popped again. -/
theorem tracks_inFrame {α : Type} {x y : Act α} (name : Text) (flags : Nat)
    (bare : w.node? id = none → R.inv w)
    (pushed : ∀ n, w.node? id = some n → R.inv (w.framed id name flags n))
    (strays : ∀ n v, w.node? id = some n → R.strays (w.framed id name flags n) v → R.strays w v)
    (h : ∀ v, w.Tidies v → R.Keeps x y v) :
    Tracks R.onward (Engine.inFrame id name flags x) (Engine.inFrame id name flags y) w
      (Reached (R.strays w) fun v => w.node? id = none ∧ R.Leads w v ∨ ∃ n u, w.node? id = some n ∧
        R.Leads (w.framed id name flags n) u ∧ v = u.unframed id name flags n) := by
  refine .after ?_
  change Tracks _ _ _ w _
  split
  · rename_i none
    exact (h w (.refl World.composes_tidies w) (bare none)).mono fun _ v done =>
      done.1.mono fun led => .inl ⟨none, led⟩
  · rename_i n found
    have inside := (h _ (World.tidies_framed id name flags n w) (pushed n found)).mono
      fun _ _ done => done.1
    refine .after ((law.tracks_ensuring ?_ inside).mono fun _ v done =>
      done.imp (strays n v found) fun ⟨u, led, same⟩ => .inr ⟨n, u, found, led, same⟩)
    exact World.tidies_modifyNode fun _ => rfl

omit twins in
/-- An action inside a frame. -/
theorem inFrame {α : Type} {x y : Act α} (near : R.Near id) (name : Text) (flags : Nat)
    (forwards : FrameFlags.isAlias flags = true →
      ∃ call a, call.node = id ∧ R.permits (.perform call (.forward a)) w)
    (h : ∀ v, w.Tidies v → R.Keeps x y v) :
    R.Keeps (Engine.inFrame id name flags x) (Engine.inFrame id name flags y) w := by
  intro inv
  refine (law.tracks_inFrame name flags (fun _ => inv) (fun n found => ?_)
    (fun n v => law.strays_pushed inv near) h).mono fun _ v ended => ⟨ended.mono ?_, fun _ _ => trivial⟩
  · exact law.push inv near found forwards
  · rintro (⟨-, led⟩ | ⟨n, u, found, led, rfl⟩)
    · exact led
    · exact law.pop inv near found led

omit twins in
/-- The policies of a node that paths lead to may be asked. -/
theorem mayAsk (inv : R.inv w) (near : R.Near id) (f : Policy → Bool) :
    ∀ p ∈ ((w.node? id).map fun n => n.policies.filter f).getD default, R.Asks p := by
  intro p mem
  cases found : w.node? id with
  | none =>
    rw [found] at mem
    cases mem
  | some n =>
    rw [found] at mem
    exact law.asks inv near found p (List.mem_filter.mp mem).1

/-- A script for another node. In one that is closed a policy refuses it. -/
theorem evaluateIn (context : Option Context) {caller : NodeId} (inside : R.zone caller)
    (path script : Text) (shielded : ∀ t, R.closed t → R.inv w → R.Shields w t) :
    R.Keeps (e.evaluateIn context caller path script) (e'.evaluateIn context caller path script)
      w := by
  refine keeps_get fun inv => ?_
  split
  · exact law.pure _
  · rename_i target resolved
    have near := law.resolve inv inside resolved
    have evaluated (v : World)
        (meets : ∀ u, v.Tidies u → R.Meets (.evaluate context target script) u) : R.Keeps
        (do
          let result ← Engine.inFrame target "eval" FrameFlags.evaluate
            (e.evaluate context target script)
          if result.isError && target ≠ caller then
            return result.annotate ("(in interp eval " ++ Text.quoted path ++ ")")
          else return result)
        (do
          let result ← Engine.inFrame target "eval" FrameFlags.evaluate
            (e'.evaluate context target script)
          if result.isError && target ≠ caller then
            return result.annotate ("(in interp eval " ++ Text.quoted path ++ ")")
          else return result) v := by
      refine law.bind (law.inFrame near _ _ nofun fun u tidied =>
        twins.call _ _ (meets u tidied)) fun result u => ?_
      split <;> exact law.pure _
    split
    · rename_i same
      subst same
      exact law.unlessRefused none (evaluated w fun _ _ => .inl ⟨inside, trivial⟩)
    · refine keeps_ofNode fun inv => ?_
      have asks := law.mayAsk inv near Policy.guardsEvaluation
      have asked := law.askPolicies (w := w) twins context
        { caller, target, name := "eval", script } _ asks
      rcases near with below | closed
      · exact law.bind asked fun refusal v =>
          law.unlessRefused refusal (evaluated v fun _ _ => .inl ⟨below, trivial⟩)
      · obtain ⟨n, found, -⟩ := World.alive_of_resolve? (law.numbered inv) resolved
        obtain ⟨p, mem, guards, denier, without⟩ := shielded target closed inv n found
        refine law.gives_bind (P := fun refusal v => refusal = none → v.live? p.owner = none)
          (fun inv => ?_) fun refusal v asked gone => ?_
        · -- The denier is among the policies asked, so only its owner's going lets the script pass.
          have listed : p ∈ ((w.node? target).map fun n =>
              n.policies.filter Policy.guardsEvaluation).getD default := by
            rw [found]
            exact List.mem_filter.mpr ⟨mem, guards⟩
          refine ⟨((asked inv).ends.and
            (law.ends_askPolicies twins context rfl closed asks listed denier inv)).mono ?_,
            (asked inv).same⟩
          rintro r v ⟨done, gone⟩
          exact ⟨done.1, fun a same none => gone (by rw [same, none])⟩
        · cases refusal with
          | some f => exact law.pure _
          | none =>
            exact evaluated v fun u tidied => .inr
              ⟨closed, without u context script (tidied.live?_none (gone rfl))⟩

theorem invokeHidden (context : Option Context) {caller : NodeId} (inside : R.zone caller)
    (path name : Text) (args : List Text) (global : Bool) :
    R.Keeps (e.invokeHidden context caller path name args global)
      (e'.invokeHidden context caller path name args global) w := by
  intro inv
  refine keeps_attempt ((Op.reads_requirePrivilege _).bind fun _ => Op.reads_resolve _ _)
    (fun target resolved => ?_) (fun fault => law.pure _) inv
  have settled : Settles (do
      Op.requirePrivilege caller "invoke hidden commands"
      Op.resolve caller path) w fun r v =>
        ∀ target, r = .ok target → (∃ c, w.node? caller = some c ∧ c.trust.safe = false) ∧
          w.resolve? caller path = some target := by
    refine .requirePrivilege fun c asker trusted => .of_ends (Op.ends_resolve.mpr ⟨?_, nofun⟩)
    rintro target resolved _ ⟨⟩
    exact ⟨⟨c, asker, trusted⟩, resolved⟩
  obtain ⟨⟨c, asker, trusted⟩, resolved⟩ := settled.of_ok resolved target rfl
  have near := law.resolve inv inside resolved
  refine keeps_ofNode fun inv => ?_
  split
  · exact law.pure _
  · rename_i command found
    have meets (u : World) :
        R.Meets (.perform { context, node := target, name, args, hidden := true } command.action) u := by
      refine near.imp (fun below => ⟨⟨below, ?_⟩, nofun⟩) fun closed => ⟨closed, law.barred closed⟩
      cases there : w.node? target with
      | none =>
        rw [there] at found
        cases found
      | some n =>
        rw [there] at found
        exact law.hidden inv inside asker trusted below there found
    refine keeps_ofNode fun inv => law.bind (law.askPolicies twins _ _ _ ?_) fun refusal v => ?_
    · exact law.mayAsk inv near _
    · split
      · exact law.pure _
      · refine law.inFrame near _ _ (fun forwards => ?_) fun u _ => twins.call _ _ (meets u)
        cases global <;> cases forwards

end Lawful

end Regime

end InterpTree
