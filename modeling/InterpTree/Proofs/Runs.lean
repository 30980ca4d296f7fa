import InterpTree.Proofs.Loops

/-!
Whole runs keep to every lawful regime. Each command does, provided that what it asks others to run
does; so the induction is on the fuel of a run.
-/

namespace InterpTree

namespace Regime

variable {R : Regime} {e e' : Engine} {w : World} {call : Call}

namespace Lawful

variable (law : R.Lawful) (twins : R.Twins e e')

include law

section

variable (inside : R.zone call.node)

include inside

theorem setVar (name value : Text) : R.Keeps (call.setVar name value) (call.setVar name value) w :=
  keeps_modify fun inv => law.leads_stir inv (.inl inside) fun _ _ => .of_rest rfl

theorem set : R.Keeps call.set call.set w := by
  unfold Call.set
  split
  · refine keeps_ofNode fun _ => ?_
    split <;> exact law.pure _
  · exact law.bind (law.setVar inside _ _) fun _ v => law.pure _
  · exact law.pure _

theorem unsetAll (strict : Bool) (names : List Text) :
    R.Keeps (call.unsetAll strict names) (call.unsetAll strict names) w := by
  induction names generalizing w with
  | nil => exact law.pure _
  | cons name rest ih =>
    refine keeps_ofNode fun _ => ?_
    refine law.bind (keeps_modify fun inv => law.leads_stir inv (.inl inside) fun _ _ => .of_rest rfl)
      fun _ v => ?_
    split
    · exact law.pure _
    · exact ih

theorem unset : R.Keeps call.unset call.unset w := by
  unfold Call.unset
  split
  · exact law.unsetAll inside _ _
  · split <;> exact law.unsetAll inside _ _

theorem addTo (name : Text) (amount : Int) :
    R.Keeps (call.addTo name amount) (call.addTo name amount) w := by
  refine keeps_ofNode fun _ => ?_
  dsimp only
  split
  · exact law.pure _
  · exact law.bind (law.setVar inside _ _) fun _ v => law.pure _

theorem incr : R.Keeps call.incr call.incr w := by
  unfold Call.incr
  split
  · exact law.addTo inside _ _
  · split
    · exact law.pure _
    · exact law.addTo inside _ _
  · exact law.pure _

omit inside in
theorem write (text : Text) : R.Keeps (Call.write text) (Call.write text) w := by
  refine keeps_get fun _ => ?_
  split
  · exact law.pure _
  · exact law.bind (keeps_modify fun inv => law.rests inv ⟨rfl, rfl, rfl, .inl ⟨rfl, rfl⟩⟩)
      fun _ v => law.pure _

omit inside in
theorem puts : R.Keeps call.puts call.puts w := by
  unfold Call.puts
  split
  · exact law.write _
  · split
    · exact law.write _
    · exact law.pure _
  · exact law.pure _

/-- Defining a procedure. -/
theorem proc : R.Keeps call.proc call.proc w := by
  unfold Call.proc
  split
  · split
    · exact law.pure _
    · refine keeps_perform fun inv => ?_
      refine .bind (Settles.leaves (P := R.Leads w) (Op.settles_replace fun n _ =>
        Edit.settles_outcome (n.spares_define _)) (law.leads_refl inv) ?_) (fun _ _ led => led)
          fun _ _ led => led
      rintro r v ⟨n, m, found, ⟨c, -, defined⟩, rfl⟩
      exact law.defines inv inside found rfl defined
  · exact law.pure _

theorem bindParams (params args : List Text) :
    R.Keeps (call.bindParams params args) (call.bindParams params args) w := by
  induction params generalizing args w with
  | nil => cases args <;> exact law.pure _
  | cons param params ih =>
    cases args with
    | nil => exact law.pure _
    | cons arg args => exact law.bind (law.setVar inside _ _) fun _ v => ih _

omit inside in
theorem info : R.Keeps call.info call.info w := by
  unfold Call.info
  split
  · exact law.pure _
  · dsimp only
    split
    · exact keeps_ofNode fun _ => law.pure _
    · split
      · split
        · exact keeps_ofNode fun _ => law.pure _
        · exact law.pure _
      · repeat' split
        all_goals first | exact keeps_ofNode fun _ => law.pure _ | exact law.pure _

include twins

theorem eval : R.Keeps (call.eval e) (call.eval e') w := by
  unfold Call.eval
  split
  · exact law.pure _
  · exact twins.evaluate _ inside _

theorem catchScript (script : Text) (name : Option Text) :
    R.Keeps (call.catchScript e script name) (call.catchScript e' script name) w := by
  refine law.bind (twins.evaluate _ inside _) fun result v => ?_
  split
  · exact law.pure _
  · split
    · exact law.pure _
    · exact law.bind (law.setVar inside _ _) fun _ v => law.pure _

theorem catching : R.Keeps (call.catching e) (call.catching e') w := by
  unfold Call.catching
  split
  · exact law.catchScript twins inside _ _
  · exact law.catchScript twins inside _ _
  · exact law.pure _

theorem repeatBody (body : Text) (turns : Nat) (left : Option Nat) :
    R.Keeps (call.repeatBody e body turns left) (call.repeatBody e' body turns left) w := by
  induction turns, left using Call.repeatBody.induct generalizing w with
  | case1 turns =>
    unfold Call.repeatBody
    exact law.pure _
  | case2 left more =>
    unfold Call.repeatBody
    split
    · exact law.pure _
    · exact law.exhausted
    · contradiction
  | case3 turns left more ih =>
    unfold Call.repeatBody
    split
    · exact law.pure _
    · contradiction
    · rename_i again _
      cases again
      refine law.bind (twins.evaluate _ inside _) fun result v => ?_
      split
      · exact ih
      · exact ih
      · exact law.pure _
      · exact law.pure _

theorem repeating : R.Keeps (call.repeating e) (call.repeating e') w := by
  unfold Call.repeating
  split
  · split
    · exact law.pure _
    · rw [twins.turns]
      exact law.repeatBody twins inside _ _ _
  · exact law.pure _

theorem branches (words : List Text) :
    R.Keeps (call.branches e words) (call.branches e' words) w := by
  induction words using Call.branches.induct generalizing w with
  | case1 condition body rest ih =>
    unfold Call.branches
    refine law.bind (law.substitute twins _ inside _) fun value v => ?_
    split
    · exact law.pure _
    · split
      · exact law.pure _
      · exact twins.evaluate _ inside _
      · split
        · exact law.pure _
        · split
          · exact ih
          · split
            · split
              · exact twins.evaluate _ inside _
              · exact law.pure _
            · exact law.pure _
  | case2 words other =>
    unfold Call.branches
    split
    · exact absurd rfl (other _ _ _)
    · exact law.pure _

theorem procedureBody (name body : Text) : R.Keeps
    (do
      let result ← call.evaluate e body
      match result.status with
      | .leave | .next =>
        return .failWith ("invoked " ++ Text.quoted result.status.name ++ " outside of a loop")
      | .error => return result.annotate ("(procedure " ++ Text.quoted name ++ " line 1)")
      | _ => return result)
    (do
      let result ← call.evaluate e' body
      match result.status with
      | .leave | .next =>
        return .failWith ("invoked " ++ Text.quoted result.status.name ++ " outside of a loop")
      | .error => return result.annotate ("(procedure " ++ Text.quoted name ++ " line 1)")
      | _ => return result) w := by
  refine law.bind (twins.evaluate _ inside _) fun result v => ?_
  split <;> exact law.pure _

/-- A procedure runs its body in the node that it is called in. -/
theorem procedure (name : Text) (params : List Text) (body : Text) :
    R.Keeps (call.procedure e name params body) (call.procedure e' name params body) w := by
  unfold Call.procedure
  dsimp only
  split
  · split
    · exact law.pure _
    · exact law.bind (law.bindParams inside _ _) fun _ v =>
        law.bind (law.setVar inside _ _) fun _ v => law.procedureBody twins inside name body
  · split
    · exact law.pure _
    · exact law.bind (law.bindParams inside _ _) fun _ v =>
        law.procedureBody twins inside name body

theorem sleep (span : Int) : R.Keeps (call.sleep e span) (call.sleep e' span) w := by
  unfold Call.sleep
  split
  · exact law.crash _
  · refine keeps_get fun _ => law.bind (law.waitUntil twins _ _) fun _ v => keeps_get fun _ => ?_
    split
    · exact law.pure _
    · refine law.bind (law.checkpoint inside) fun met u => ?_
      split <;> exact law.pure _

theorem after : R.Keeps (call.after e) (call.after e') w := by
  unfold Call.after
  split
  · exact law.pure _
  · split
    · exact keeps_ofNode fun _ => law.pure _
    · split
      · split
        · exact law.bind (keeps_modify fun inv => law.leads_stir inv (.inl inside) fun _ _ =>
            .of_queue (Schedule.leads_withdraw _ _)) fun _ v => law.pure _
        · exact law.pure _
      · split
        · exact law.pure _
        · dsimp only
          split
          · exact law.sleep twins inside _
          · refine law.bind (fun inv => .refl ⟨law.stirs inv (.inl inside) ?_, fun _ _ => trivial⟩)
              fun event v => law.pure _
            exact World.changes_enqueue call.node none _ false _ _ w

theorem spinTurns (context : Context) (deadline : Option Int) (pause : Int) (turns : Nat) :
    R.Keeps (call.spinTurns e context deadline pause turns)
      (call.spinTurns e' context deadline pause turns) w := by
  induction turns generalizing w with
  | zero => exact law.exhausted
  | succ turns ih =>
    refine law.bind (law.checkpoint inside) fun met u => ?_
    split
    · exact law.pure _
    · refine keeps_get fun _ => ?_
      split
      · exact law.pure _
      · split
        · exact law.pure _
        · exact law.bind (law.waitUntil twins _ _) fun _ v => ih

theorem spinUntil (deadline : Option Int) :
    R.Keeps (call.spinUntil e deadline) (call.spinUntil e' deadline) w := by
  refine keeps_ofNode fun _ => ?_
  split
  · rw [twins.turns]
    exact law.spinTurns twins inside _ _ _ _
  · refine law.bind (law.checkpoint inside) fun met u => ?_
    split
    · exact law.pure _
    · exact law.crash _

theorem spin : R.Keeps (call.spin e) (call.spin e') w := by
  unfold Call.spin
  split
  · exact law.spinUntil twins inside _
  · split
    · exact law.pure _
    · exact keeps_get fun _ => law.spinUntil twins inside _
  · exact law.pure _

omit inside twins in
theorem policyInfo : R.Keeps call.policyInfo call.policyInfo w := by
  unfold Call.policyInfo
  split
  · exact law.pure _
  · refine keeps_ofNode fun _ => keeps_ofNode fun _ => ?_
    split <;> exact law.pure _

omit inside twins in
/-- Where scripts may use files, files may change. -/
theorem storeFiles {hidden : Bool} (admitted : R.admits hidden (.builtin .file)) (verb name : Text)
    (change : Except Text Unit × FileStore) :
    R.Keeps (Call.storeFiles verb name change) (Call.storeFiles verb name change) w := by
  refine law.bind (keeps_modify fun inv => law.host _ inv (.inl admitted)) fun _ v => ?_
  split <;> exact law.pure _

omit inside twins in
theorem file {hidden : Bool} (admitted : R.admits hidden (.builtin .file)) :
    R.Keeps call.file call.file w := by
  refine keeps_get fun _ => ?_
  split
  · exact law.pure _
  · split
    · split
      · exact law.pure _
      · split
        · split <;> exact law.pure _
        · split
          · split
            · exact law.storeFiles admitted _ _ _
            · exact law.pure _
          · split
            · exact law.storeFiles admitted _ _ _
            · exact law.pure _
    · exact law.pure _

theorem source : R.Keeps (call.source e) (call.source e') w := by
  unfold Call.source
  split
  · refine keeps_get fun _ => ?_
    split
    · exact law.pure _
    · split
      · exact law.pure _
      · exact law.bind (twins.evaluate _ inside _) fun result v => law.pure _
  · exact law.pure _

omit inside twins in
theorem exitWith {hidden : Bool} (admitted : R.admits hidden (.builtin .exit)) (code : Int) :
    R.Keeps (Call.exitWith code) (Call.exitWith code) w := by
  refine keeps_get fun _ => ?_
  split
  · exact law.bind (keeps_modify fun inv => law.host _ inv (.inr admitted)) fun _ v => law.pure _
  · exact law.pure _

omit inside twins in
theorem exits {hidden : Bool} (admitted : R.admits hidden (.builtin .exit)) :
    R.Keeps call.exit call.exit w := by
  unfold Call.exit
  split
  · exact law.exitWith admitted _
  · split
    · exact law.pure _
    · exact law.exitWith admitted _
  · exact law.pure _

/-- The commands of the script language. -/
theorem builtin {b : Builtin} (admitted : R.admits call.hidden (.builtin b)) :
    R.Keeps (call.builtin e b) (call.builtin e' b) w := by
  cases b with
  | set => exact law.set inside
  | unset => exact law.unset inside
  | incr => exact law.incr inside
  | list | listLength | listIndex | raise | leaveLoop | nextTurn | string => exact law.pure _
  | puts => exact law.puts
  | eval => exact law.eval twins inside
  | catching => exact law.catching twins inside
  | repeating => exact law.repeating twins inside
  | conditional => exact law.branches twins inside _
  | proc => exact law.proc inside
  | info => exact law.info
  | after => exact law.after twins inside
  | spin => exact law.spin twins inside
  | policyInfo => exact law.policyInfo
  | file => exact law.file admitted
  | source => exact law.source twins inside
  | exit => exact law.exits admitted

/-- A service loop, which is handed to a worker or which the caller waits for. -/
theorem service {name : Text} (named : name = "service") {words : List Text}
    (permitted : R.permits (.perform call .ensemble) w) (args : call.args = name :: words) :
    R.Keeps (Control.service e (.of call name) words) (Control.service e' (.of call name) words)
      w := by
  refine keeps_attempt Control.reads_serviceWords (fun asked answer => ?_) fun f => law.pure _
  obtain ⟨target, options, apart⟩ := asked
  cases apart with
  | true =>
    refine keeps_perform fun inv => (Control.does_dedicate named answer).mono fun _ v did => ?_
    exact law.does inv inside permitted args did
  | false =>
    intro inv
    obtain ⟨path, resolved⟩ := Control.resolved_of_serviceWords answer
    subst named
    have below := (law.resolve inv inside resolved).resolve_right
      (law.attends inv inside permitted args answer)
    refine law.bind (law.serviceEvents twins _ below options ?_) (fun result v => ?_) inv
    · intro n found alive filled
      exact law.serve inv inside permitted args answer found alive filled
    · split <;> exact law.pure _

/-- A subcommand of the command that controls the tree. -/
theorem subcommand {s : Control.Subcommand} (mem : s ∈ Control.subcommands) {words : List Text}
    (permitted : R.permits (.perform call .ensemble) w) (args : call.args = s.name :: words) :
    R.Keeps (s.run e (.of call s.name) words) (s.run e' (.of call s.name) words) w := by
  rcases Control.Subcommand.runs_or_isPlain mem with ⟨-, run⟩ | ⟨-, run⟩ | ⟨named, run⟩ |
    ⟨f, run, does⟩
  any_goals rw [run]
  · exact law.evaluateIn twins _ inside _ _ fun t closed inv =>
      law.shields inv inside permitted closed
  · unfold Control.invokeHidden
    split
    · exact law.pure _
    · exact law.pure _
    · exact law.invokeHidden twins _ inside _ _ _ _
  · exact law.service twins inside named permitted args
  · have performed : R.Keeps (Act.perform (f (.of call s.name) words))
        (Act.perform (f (.of call s.name) words)) w := by
      refine keeps_perform fun inv => ?_
      refine (does (.of call s.name) words w rfl (law.numbered inv)).mono fun _ v did => ?_
      exact law.does inv inside permitted args did
    rcases run with run | run
    · rw [run]
      exact performed
    · rw [run]
      unfold Control.releasing
      rw [twins.pace]
      exact law.settled performed

theorem dispatch (permitted : R.permits (.perform call .ensemble) w) :
    R.Keeps (Control.dispatch e call) (Control.dispatch e' call) w := by
  unfold Control.dispatch
  split
  · exact law.pure _
  · rename_i name words args
    split
    · exact law.pure _
    · rename_i s found
      have named := List.find?_some found
      have named : s.name = name := by simpa using named
      unfold Control.Subcommand.apply
      split
      · exact law.pure _
      · exact law.subcommand twins inside (List.mem_of_find?_eq_some found) permitted
          (named ▸ args)

omit inside in
/-- A call that an alias forwards: it is refused, or runs inside a frame of its node. -/
theorem tracks_forwardCall {a : Alias}
    (near : ∀ t, w.resolve? World.root a.targetPath = some t → R.Near t)
    (bare : w.node? call.node = none → R.inv w)
    (pushed : ∀ n, w.node? call.node = some n →
      (0 < n.cancel.limits.recursionLimit → n.frames.depth < n.cancel.limits.recursionLimit) →
      R.inv (w.framed call.node ("alias " ++ a.source)
        (FrameFlags.restricted + FrameFlags.viaAlias) n))
    (strays : ∀ n v, w.node? call.node = some n →
      R.strays (w.framed call.node ("alias " ++ a.source)
        (FrameFlags.restricted + FrameFlags.viaAlias) n) v → R.strays w v) :
    Tracks R.onward (e.forward call a) (e'.forward call a) w (Reached (R.strays w) fun v =>
      v = w ∨ w.node? call.node = none ∧ R.Leads w v ∨ ∃ n u, w.node? call.node = some n ∧
        R.Leads (w.framed call.node ("alias " ++ a.source)
          (FrameFlags.restricted + FrameFlags.viaAlias) n) u ∧
        v = u.unframed call.node ("alias " ++ a.source)
          (FrameFlags.restricted + FrameFlags.viaAlias) n) := by
  refine .after ?_
  change Tracks _ _ _ w _
  split
  · exact .refl (.inl rfl)
  · rename_i target resolved
    refine .after ?_
    change Tracks _ _ _ w _
    dsimp only
    split
    · exact .refl (.inl rfl)
    · rename_i shallow
      refine .bind_pure (.mono (law.tracks_inFrame _ _ bare (fun n found => ?_) strays fun v _ =>
        law.invoke twins _ (near target resolved) _ _) fun _ v ended => ended.mono .inr)
        fun result v => ?_
      · refine pushed n found fun limited => ?_
        simpa [found, limited] using shallow
      · split <;> exact ⟨_, rfl⟩

/-- A call that an alias forwards. -/
theorem forwardCall {a : Alias} (admitted : R.admits call.hidden (.forward a))
    (permitted : R.permits (.perform call (.forward a)) w) :
    R.Keeps (e.forward call a) (e'.forward call a) w := by
  intro inv
  refine (law.tracks_forwardCall twins (fun t resolved => law.forward inv admitted resolved)
    (fun _ => inv) (fun n found _ => ?_) fun n v => law.strays_pushed inv (.inl inside)).mono
    fun _ v ended => ⟨ended.mono ?_, fun _ _ => trivial⟩
  · exact law.push inv (.inl inside) found fun _ => ⟨call, a, rfl, permitted⟩
  · rintro (rfl | ⟨-, led⟩ | ⟨n, u, found, led, rfl⟩)
    · exact law.leads_refl inv
    · exact led
    · exact law.pop inv (.inl inside) found led

end

end Lawful

end Regime

end InterpTree
