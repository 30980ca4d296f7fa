import InterpTree.Proofs.RelayedScripts

/-!
Errors of calls: of procedures, through aliases and of the ensemble. With them, every request hands on
an error as `Relays` says.
-/

namespace InterpTree

namespace Engine

variable {e : Engine} {context : Option Context} {id : NodeId} {w v : World} {c : Completion}

/-! ### Calls -/

/-- What a procedure makes of the completion of its body. -/
def leaveProcedure (name : Text) (c : Completion) : Completion :=
  match c.status with
  | .leave | .next =>
    .failWith ("invoked " ++ Text.quoted c.status.name ++ " outside of a loop")
  | .error => c.annotate ("(procedure " ++ Text.quoted name ++ " line 1)")
  | _ => c

theorem procedure_eq (call : Call) (name : Text) (params : List Text) (body : Text) :
    call.procedure e name params body =
      if call.Fits params then do
        call.take params
        return leaveProcedure name (← call.evaluate e body)
      else return .wrongArgs (Text.trim (name ++ " " ++ Text.words params)) := by
  have misfits : (call.args.length < (Call.fixedParams params).length ||
      (!Call.isVariadic params && (Call.fixedParams params).length < call.args.length)) = true ↔
      ¬ call.Fits params := by
    unfold Call.Fits
    cases Call.isVariadic params with
    | true => simp
    | false =>
      simp
      omega
  unfold Call.procedure
  dsimp only
  rw [← Call.isVariadic, ← Call.fixedParams]
  by_cases fits : call.Fits params
  · rw [if_pos fits, if_neg (fun h => misfits.mp h fits)]
    unfold Call.take
    simp only [bind_assoc]
    refine bind_congr fun _ => ?_
    cases Call.isVariadic params with
    | true =>
      refine bind_congr fun _ => bind_congr fun result => ?_
      unfold leaveProcedure
      cases result.status <;> rfl
    | false =>
      refine bind_congr fun result => ?_
      unfold leaveProcedure
      cases result.status <;> rfl
  · rw [if_neg fits, if_pos (misfits.mpr fits)]

theorem leaveProcedure_of_error {name : Text} {r : Completion} (error : r.isError = true) :
    leaveProcedure name r = r.relayed ["(procedure " ++ Text.quoted name ++ " line 1)"] := by
  simp [leaveProcedure, Completion.status_of_isError error, Completion.annotate, Completion.relayed]

theorem answers_forward_iff {h : Hop} {target : NodeId}
    (resolved : w.resolve? World.root h.shim.targetPath = some target) :
    Act.Answers (e.forward h.call h.shim) w c ↔
      w.isFull h.call.node = true ∧ tooDeep = c ∨ w.isFull h.call.node = false ∧ ∃ r u,
        inFrame h.call.node ("alias " ++ h.shim.source) (FrameFlags.restricted + FrameFlags.viaAlias)
          (e.invoke h.call.context target h.shim.targetName h.args) w = .ok r u ∧
        (if r.isError then r.relayed [h.line] else r) = c := by
  have full : w.isFull h.call.node = (0 < (((w.node? h.call.node).map fun n =>
        (n.cancel.limits.recursionLimit, n.frames.depth)).getD default).1 &&
      (((w.node? h.call.node).map fun n =>
        (n.cancel.limits.recursionLimit, n.frames.depth)).getD default).1 ≤
      (((w.node? h.call.node).map fun n =>
        (n.cancel.limits.recursionLimit, n.frames.depth)).getD default).2) := by
    unfold World.isFull
    cases w.node? h.call.node <;> rfl
  unfold forward
  rw [Act.answers_get_iff, resolved]
  dsimp only
  rw [Act.answers_ofNode_iff, ← full]
  cases w.isFull h.call.node with
  | true => simp
  | false =>
    simp only [Bool.false_eq_true, if_false, false_and, true_and, false_or]
    rw [Act.answers_bind_iff]
    refine exists_congr fun r => exists_congr fun u => and_congr Iff.rfl ?_
    cases r.isError <;> exact Act.answers_pure_iff

theorem dispatch_of_find {call : Call} {name : Text} {words : List Text} {s : Control.Subcommand}
    (named : call.args = name :: words)
    (found : (Control.subcommands.find? fun s => s.name == name) = some s) (least : s.least = 2)
    (most : s.most = none) (enough : 2 ≤ words.length) :
    Control.dispatch e call = s.run e (.of call s.name) words :=
  Control.dispatch_of_find named found (least ▸ enough) (by rw [most]; rfl)

theorem dispatch_of_few {call : Call} {name : Text} {words : List Text} {s : Control.Subcommand}
    (named : call.args = name :: words)
    (found : (Control.subcommands.find? fun s => s.name == name) = some s)
    (few : words.length < s.least) :
    Control.dispatch e call =
      pure (.fail (Control.wrongArgs (call.name ++ " " ++ s.name ++ " " ++ s.usage))) := by
  unfold Control.dispatch
  rw [named]
  dsimp only
  rw [found]
  simp [Control.Subcommand.apply, few]

section

variable {caller target : NodeId} {path name script : Text} {args : List Text}

theorem answers_evaluateIn_iff (resolved : w.resolve? caller path = some target) :
    Act.Answers (e.evaluateIn context caller path script) w c ↔ ∃ refusal u,
      (if target = caller then pure none
        else e.vet context { caller, target, name := "eval", script } Policy.guardsEvaluation) w =
          .ok refusal u ∧
      ((∃ f, refusal = some f ∧ Completion.fail f = c) ∨ refusal = none ∧ ∃ r v,
        inFrame target "eval" FrameFlags.evaluate (e.evaluate context target script) u = .ok r v ∧
        (if r.isError then r.relayed (if target = caller then []
          else ["(in interp eval " ++ Text.quoted path ++ ")"]) else r) = c) := by
  rw [Act.answers_congr (e.evaluateIn_eq_vetted context script resolved), Act.answers_bind_iff]
  refine exists_congr fun refusal => exists_congr fun u => and_congr Iff.rfl ?_
  cases refusal with
  | some f => simp [evaluateVetted]
  | none =>
    simp only [reduceCtorEq, false_and, exists_false, true_and, false_or, evaluateVetted]
    rw [Act.answers_bind_iff]
    refine exists_congr fun r => exists_congr fun v => and_congr Iff.rfl ?_
    cases error : r.isError with
    | false => simp
    | true =>
      by_cases here : target = caller
      · simp [here]
      · simp [here, Completion.annotate, Completion.relayed]

theorem answers_invokeHidden_iff {global : Bool}
    (entitled : (w.node? caller).any (fun n => !n.trust.safe) = true)
    (resolved : w.resolve? caller path = some target) {command : Command}
    (hidden : ((w.node? target).bind fun n => n.commands.hidden? name) = some command) :
    Act.Answers (e.invokeHidden context caller path name args global) w c ↔ ∃ refusal u,
      e.vet context { caller, target, name, args } (fun p => p.guardsCommand command) w =
        .ok refusal u ∧
      ((∃ f, refusal = some f ∧ Completion.fail f = c) ∨ refusal = none ∧
        Act.Answers (e.call (.perform { context, node := target, name, args, hidden := true }
          command.action)) (u.inside target ("invokehidden " ++ name)
            (FrameFlags.hidden + if global then FrameFlags.atGlobal else 0)) c) := by
  obtain ⟨k, asks, trusted⟩ := Option.any_eq_true _ _ |>.mp entitled
  have entitled : Act.attempt (do
      Op.requirePrivilege caller "invoke hidden commands"
      Op.resolve caller path) w = .ok (.ok target) w := by
    simp only [Act.attempt, Op.bind_of_ok (Op.requirePrivilege_ok asks (by simpa using trusted) _),
      Op.resolve_ok resolved]
  have looked : Act.ofNode target (fun n => n.commands.hidden? name) w = .ok (some command) w := by
    cases found : w.node? target with
    | none => simp [found] at hidden
    | some n =>
      rw [found, Option.bind_some] at hidden
      rw [Act.ofNode_of_node? found, hidden]
  unfold invokeHidden
  rw [Act.answers_congr (Act.bind_of_ok entitled)]
  dsimp only
  rw [Act.answers_congr (Act.bind_of_ok looked)]
  dsimp only
  rw [← bind_assoc]
  change Act.Answers (e.vet context { caller, target, name, args } _ >>= _) w c ↔ _
  rw [Act.answers_bind_iff]
  refine exists_congr fun refusal => exists_congr fun u => and_congr Iff.rfl ?_
  cases refusal with
  | some f => simp
  | none => simp

end

/-! ### One level -/

section

variable {outer inner : Request} {lines : List Text} {u : World}

/-- A request that is answered as the one that it hands on. -/
theorem Relays.answers {r : Completion} (relays : e.Relays outer w inner v lines)
    (bottom : e.call inner v = .ok r u) (error : r.isError = true) :
    Act.Answers (step e outer) w (r.relayed lines) := by
  have unwell := Completion.status_ne_ok_of_isError error
  -- In each case the request goes on up to the inner one, whose error ends it.
  cases relays with
  | @brackets context id script source w t v command reaches brackets =>
    refine reaches.answers error ⟨u, ?_⟩
    unfold callCommand
    rw [Act.bind_of_ok (brackets.stops bottom unwell)]
    dsimp only
    rw [leaveCommand_of_error error]
    rfl
  | @command context id script name args w t v command c reaches substituted called =>
    refine reaches.answers error ⟨u, ?_⟩
    unfold callCommand
    rw [Act.bind_of_ok substituted]
    dsimp only
    rw [Act.bind_of_ok ((invoke_of_called? e _ rfl called).trans bottom), leaveCommand_of_error error]
    rfl
  | @eval call w some =>
    refine ⟨u, ?_⟩
    change call.eval e w = _
    unfold Call.eval
    rw [if_neg (by simpa using some), Completion.relayed_nil]
    exact bottom
  | @source call name script files w named mounted read =>
    change Act.Answers (call.source e) w _
    unfold Call.source
    rw [named]
    dsimp only
    rw [Act.answers_get_iff, mounted]
    dsimp only
    rw [read]
    dsimp only
    refine Act.answers_bind_iff.mpr ⟨r, u, bottom, ?_⟩
    rw [if_pos error]
    exact Act.answers_pure_iff.mpr rfl
  | @repeating call count body i turns w v named number left able turned =>
    change Act.Answers (call.repeating e) w _
    rw [Completion.relayed_nil]
    exact turned.answers named number left able bottom error
  | @branch call script w v tries =>
    change Act.Answers (call.branches e call.args) w _
    rw [Completion.relayed_nil]
    exact tries.answers bottom error
  | @procedure call name body params w v fits bound =>
    change Act.Answers (call.procedure e name params body) w _
    rw [procedure_eq, if_pos fits]
    refine Act.answers_bind_iff.mpr ⟨(), v, bound, Act.answers_bind_iff.mpr ⟨r, u, bottom, ?_⟩⟩
    rw [leaveProcedure_of_error error]
    exact Act.answers_pure_iff.mpr rfl
  | @forward h target c w resolved room called =>
    change Act.Answers (e.forward h.call h.shim) w _
    have came : Act.Answers (e.invoke h.call.context target h.shim.targetName h.args)
        (w.inside h.call.node ("alias " ++ h.shim.source)
          (FrameFlags.restricted + FrameFlags.viaAlias)) r :=
      ⟨u, (invoke_of_called? e (h.onward target) rfl called).trans bottom⟩
    obtain ⟨u', came⟩ := answers_inFrame_iff.mpr came
    exact (answers_forward_iff resolved).mpr (.inr ⟨room, r, u', came, if_pos error⟩)
  | @evaluation call words target w t named enough resolved vetted =>
    change Act.Answers (Control.dispatch e call) w _
    rw [dispatch_of_find named rfl rfl rfl enough]
    refine (answers_evaluateIn_iff resolved).mpr ⟨none, t, ?_, .inr ⟨rfl, ?_⟩⟩
    · obtain ⟨here, rfl⟩ | ⟨away, vetted⟩ := vetted
      · rw [if_pos here]
        rfl
      · rw [if_neg away]
        exact vetted
    · obtain ⟨u', came⟩ := answers_inFrame_iff.mpr ⟨u, bottom⟩
      exact ⟨r, u', came, if_pos error⟩
  | @hidden call words args options name target c w t named enough parsed entitled resolved hidden
      vetted =>
    change Act.Answers (Control.dispatch e call) w _
    rw [dispatch_of_find named rfl rfl rfl enough, Completion.relayed_nil]
    dsimp only
    unfold Control.invokeHidden
    rw [parsed]
    exact (answers_invokeHidden_iff entitled resolved hidden).mpr
      ⟨none, t, vetted, .inr ⟨rfl, u, bottom⟩⟩

end

end Engine

end InterpTree
