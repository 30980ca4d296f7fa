import InterpTree.Proofs.Refusals
import InterpTree.Proofs.Vetting

/-!
What a dead node asks for. No path starts from it, so that whatever it asks for is refused, and nothing
is evaluated, called or serviced in it.
-/

namespace InterpTree

namespace World

variable {w : World} {i : NodeId} {n : Node}

/-- No path starts from a node that is dead. -/
theorem resolve?_of_dead (found : w.node? i = some n) (dead : n.dead = true) (path : Text) :
    w.resolve? i path = none := by
  by_contra some
  obtain ⟨t, resolved⟩ := Option.ne_none_iff_exists'.mp some
  obtain ⟨k, there, alive⟩ := exists_of_resolve? resolved
  obtain rfl := Option.some.inj (found.symm.trans there)
  rw [dead] at alive
  cases alive

end World

namespace Op

variable {α β : Type} {w : World} {i : NodeId}

/-- The operation is refused and leaves the world as it is. -/
def Refuses (x : Op α) (w : World) : Prop := ∃ f, x w = .error f w

/-- What never settles on anything is refused. -/
theorem Refuses.of_settles {x : Op α} (h : Settles x w fun _ _ => False) : Refuses x w := by
  unfold Settles Ends at h
  cases result : x w with
  | ok a v =>
    rw [result] at h
    obtain ⟨-, f, same⟩ | never := h
    · cases same
    · exact never.elim
  | error f v =>
    rw [result] at h
    obtain ⟨rfl, -⟩ | never := h
    · exact ⟨f, result⟩
    · exact never.elim

theorem Refuses.bind {x : Op α} {f : α → Op β} (h : Refuses x w) : Refuses (x >>= f) w := by
  obtain ⟨fault, refused⟩ := h
  exact ⟨fault, by simp only [Bind.bind, EStateM.bind, refused]⟩

theorem Refuses.discard {x : Op α} (h : Refuses x w) : Refuses (discard x) w :=
  h.bind (f := fun _ => pure ())

/-! Where no path starts from a node, whatever it asks for is refused. -/

section

variable (stuck : ∀ path, w.resolve? i path = none)

include stuck

theorem settles_stuck {path : Text} {f : NodeId → Op α} :
    Settles (resolve i path >>= f) w fun _ _ => False :=
  .resolve fun _ resolved => by
    rw [stuck path] at resolved
    cases resolved

theorem refuses_create (populate : World → Node → Except Fault Node) (path name : Text)
    (options : CreateOptions) : Refuses (createBy populate i path name options) w :=
  .of_settles <| .require fun _ => .node fun _ _ => .require fun _ => .require fun _ =>
    settles_stuck stuck

theorem refuses_delete (worker : Option NodeId) (path : Text) : Refuses (delete worker i path) w :=
  .of_settles <| settles_stuck stuck

theorem refuses_shareInterp (path source : Text) : Refuses (shareInterp i path source) w :=
  .of_settles <| .requirePrivilege fun _ _ _ => settles_stuck stuck

theorem refuses_disposeShared (worker : Option NodeId) (path : Text) :
    Refuses (disposeShared worker i path) w :=
  .of_settles <| .requirePrivilege fun _ _ _ => settles_stuck stuck

theorem refuses_hide (path name newName : Text) : Refuses (hide i path name newName) w :=
  .of_settles <| .requirePrivilege fun _ _ _ => settles_stuck stuck

theorem refuses_expose (path name newName : Text) : Refuses (expose i path name newName) w :=
  .of_settles <| .requirePrivilege fun _ _ _ => settles_stuck stuck

theorem refuses_queryAlias (path name : Text) : Refuses (queryAlias i path name) w :=
  .of_settles <| settles_stuck stuck

theorem refuses_defineAlias (path name targetPath targetName : Text) (bound : List Text) :
    Refuses (defineAlias i path name targetPath targetName bound) w :=
  .of_settles <| .requirePrivilege fun _ _ _ => .require fun _ => settles_stuck stuck

theorem refuses_deleteAlias (path name : Text) : Refuses (deleteAlias i path name) w :=
  .of_settles <| .requirePrivilege fun _ _ _ => settles_stuck stuck

theorem refuses_aliasByShape (path name : Text) (rest : List Text) :
    Refuses (aliasByShape i path name rest) w := by
  unfold aliasByShape
  split
  · exact (refuses_queryAlias stuck path name).bind
  · exact (refuses_deleteAlias stuck path name).bind
  · refine .of_settles (.get ?_)
    split
    · exact .throw _
    · rename_i resolved
      rw [stuck] at resolved
      cases resolved
  · exact (refuses_defineAlias stuck path name _ _ _).bind
  · exact .of_settles (.throw _)

theorem refuses_addPolicy (path : Text) (spec : PolicySpec) : Refuses (addPolicy i path spec) w :=
  .of_settles <| .requirePrivilege fun _ _ _ => .require fun _ => settles_stuck stuck

theorem refuses_removePolicy (path name : Text) : Refuses (removePolicy i path name) w :=
  .of_settles <| .requirePrivilege fun _ _ _ => settles_stuck stuck

theorem refuses_changeTrust (path : Text) (c : TrustChange) : Refuses (c.run i path) w :=
  .of_settles <| c.settles_run.weaken fun _ _ done => by
    obtain ⟨-, target, n, takes⟩ := done
    have resolved := takes.resolved
    rw [stuck path] at resolved
    cases resolved

theorem refuses_shareObject (path name : Text) : Refuses (shareObject i path name) w :=
  .of_settles <| .requirePrivilege fun _ _ _ => settles_stuck stuck

end

end Op

namespace Operation

/-- The node that asks for the operation. The limits of a node are left out: they are those of its
controller, which outlives it. -/
def asker? : Operation → Option NodeId
  | create _ caller _ _ _ | delete _ caller _ | shareInterp caller _ _ | disposeShared _ caller _
  | hide caller _ _ _ | expose caller _ _ _ | aliasByShape caller _ _ _
  | defineAlias caller _ _ _ _ _ | deleteAlias caller _ _ | addPolicy caller _ _
  | removePolicy caller _ _ | changeTrust caller _ _ => some caller
  | defineCommand id _ | removeCommand id _ | addObject id _ _ | setBackgroundError id _ => some id
  | setLimits _ _ | setLimit _ _ _ => none

variable {w : World} {i : NodeId} {n : Node}

/-- Nothing that a dead node asks for is done, once nothing is registered in it. -/
theorem refuses_run (found : w.node? i = some n) (dead : n.dead = true) (bare : n.IsBare)
    (o : Operation) (asks : o.asker? = some i) : Op.Refuses o.run w := by
  have stuck := World.resolve?_of_dead found dead
  have updates {α : Type} {edit : Edit α} {Q : Except Fault α → Node → Prop}
      (settles : Settles edit n Q) (fails : ∀ r m, ¬ Q r m) : Op.Refuses (Op.updateNode i edit) w := by
    have settled : Settles (Op.updateNode i edit) w _ :=
      Op.settles_updateNode (Q := fun _ => Q) fun k here => by
        obtain rfl := Option.some.inj (found.symm.trans here)
        exact settles
    exact .of_settles (settled.weaken fun _ _ ⟨_, m, done, _⟩ => fails _ m done)
  have living {k : Node} (here : w.node? i = some k) (alive : (!k.dead) = true) : False := by
    obtain rfl := Option.some.inj (found.symm.trans here)
    simp [dead] at alive
  cases o with
  | setLimits | setLimit => cases asks
  | create populate caller path name options =>
    cases asks
    exact (Op.refuses_create stuck populate path name options).discard
  | delete worker caller path =>
    cases asks
    exact Op.refuses_delete stuck worker path
  | shareInterp caller path source =>
    cases asks
    exact (Op.refuses_shareInterp stuck path source).discard
  | disposeShared worker caller path =>
    cases asks
    exact Op.refuses_disposeShared stuck worker path
  | hide caller path name newName =>
    cases asks
    exact Op.refuses_hide stuck path name newName
  | expose caller path name newName =>
    cases asks
    exact Op.refuses_expose stuck path name newName
  | aliasByShape caller path name rest =>
    cases asks
    exact (Op.refuses_aliasByShape stuck path name rest).discard
  | defineAlias caller path name targetPath targetName bound =>
    cases asks
    exact (Op.refuses_defineAlias stuck path name targetPath targetName bound).discard
  | deleteAlias caller path name =>
    cases asks
    exact Op.refuses_deleteAlias stuck path name
  | addPolicy caller path spec =>
    cases asks
    exact (Op.refuses_addPolicy stuck path spec).discard
  | removePolicy caller path name =>
    cases asks
    exact Op.refuses_removePolicy stuck path name
  | changeTrust caller path c =>
    cases asks
    exact Op.refuses_changeTrust stuck path c
  | defineCommand id spec =>
    cases asks
    refine (updates (n.settles_define spec) fun r m done => ?_).discard
    obtain ⟨_, _, _, -, -, alive, -⟩ := done
    rw [alive] at dead
    cases dead
  | removeCommand id name =>
    cases asks
    have missing : n.commands.visible? name = none := by
      rw [bare.commands]
      rfl
    refine updates (n.settles_removeCommand name) fun r m done => ?_
    obtain ⟨-, -, c, visible, -⟩ := done
    rw [missing] at visible
    cases visible
  | addObject id name value =>
    cases asks
    exact .discard (.of_settles <| .require fun _ => .node fun _ here => .require fun alive =>
      (living here alive).elim)
  | setBackgroundError id handler =>
    cases asks
    exact .of_settles <| .node fun _ here => .require fun alive => (living here alive).elim

end Operation

namespace Engine

variable {w : World} {i : NodeId} {n : Node} (e : Engine) (context : Option Context)

/-- The call fails at once and leaves the world as it is. -/
def Fails (x : Act Completion) (w : World) : Prop := ∃ f, x w = .ok (.fail f) w

theorem fails_runEvaluate (found : w.node? i = some n) (dead : n.dead = true) (script : Text) :
    Fails (e.runEvaluate context i script) w := by
  refine ⟨.noInterpreter n.path, ?_⟩
  unfold runEvaluate
  rw [Act.bind_of_ok (Act.get_apply w)]
  simp only [found, dead, if_true]
  rfl

theorem fails_invoke (found : w.node? i = some n) (bare : n.IsBare) (name : Text) (args : List Text) :
    Fails (e.invoke context i name args) w := by
  have missing : (w.node? i).bind (fun n => n.commands.visible? name) = none := by
    rw [found, Option.bind_some, bare.commands]
    rfl
  refine ⟨.of .notFound ("invalid command name " ++ Text.quoted name), ?_⟩
  unfold invoke
  rw [Act.bind_of_ok (Act.get_apply w)]
  simp only [missing]
  rfl

theorem fails_evaluateIn (stuck : ∀ path, w.resolve? i path = none) (path script : Text) :
    Fails (e.evaluateIn context i path script) w :=
  ⟨.noInterpreter path, e.evaluateIn_of_unresolved context script (stuck path)⟩

theorem fails_invokeHidden (stuck : ∀ path, w.resolve? i path = none) (path name : Text)
    (args : List Text) (global : Bool) :
    Fails (e.invokeHidden context i path name args global) w := by
  obtain ⟨f, refused⟩ : Op.Refuses (do
      Op.requirePrivilege i "invoke hidden commands"
      Op.resolve i path) w := by
    refine .of_settles (.requirePrivilege fun _ _ _ => Op.ends_resolve.mpr ⟨fun t resolved => ?_,
      fun _ => .inl ⟨rfl, _, rfl⟩⟩)
    rw [stuck path] at resolved
    cases resolved
  have attempted : Act.attempt (do
      Op.requirePrivilege i "invoke hidden commands"
      Op.resolve i path) w = .ok (.error f) w := by
    simp only [Act.attempt, refused]
  exact ⟨f, Act.bind_of_ok attempted⟩

theorem fails_serviceEvents (found : w.node? i = some n) (dead : n.dead = true)
    (options : ServiceOptions) :
    ∃ f, e.serviceEvents context i options w = .ok ({}, .error f) w := by
  refine ⟨.noInterpreter n.path, ?_⟩
  unfold serviceEvents
  rw [Act.bind_of_ok (Act.get_apply w)]
  simp only [found, dead, if_true]
  rfl

end Engine

end InterpTree
