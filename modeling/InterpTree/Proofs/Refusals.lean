import InterpTree.Proofs.Moments
import InterpTree.Tree.Aliases
import InterpTree.Tree.Objects
import InterpTree.Tree.Policies
import InterpTree.Tree.Settings

/-!
Refusals. Operations look at everything that may be in their way before they change anything; only a
node that cannot be populated was made already, and it is never part of the tree. So an operation
that is refused changes nothing.
-/

namespace InterpTree

/-- What a host may ask of a tree, of its tables, its objects and its settings. A new node is made by
any `populate`. -/
inductive Operation
  | create (populate : World → Node → Except Fault Node) (caller : NodeId) (path name : Text)
    (options : CreateOptions)
  | delete (worker : Option NodeId) (caller : NodeId) (path : Text)
  | shareInterp (caller : NodeId) (path source : Text)
  | disposeShared (worker : Option NodeId) (caller : NodeId) (path : Text)
  | defineCommand (id : NodeId) (spec : CommandSpec)
  | removeCommand (id : NodeId) (name : Text)
  | hide (caller : NodeId) (path name newName : Text)
  | expose (caller : NodeId) (path name newName : Text)
  | aliasByShape (caller : NodeId) (path name : Text) (rest : List Text)
  | defineAlias (caller : NodeId) (path name targetPath targetName : Text) (bound : List Text)
  | deleteAlias (caller : NodeId) (path name : Text)
  | addPolicy (caller : NodeId) (path : Text) (spec : PolicySpec)
  | removePolicy (caller : NodeId) (path name : Text)
  | changeTrust (caller : NodeId) (path : Text) (c : TrustChange)
  | addObject (id : NodeId) (name : Text) (value : HostValue)
  | setBackgroundError (id : NodeId) (handler : List Text)
  | setLimits (id : NodeId) (limits : Limits)
  | setLimit (id : NodeId) (field : Limits.Field) (v : Int)

namespace Operation

/-- Asks for the operation. -/
def run : Operation → Op Unit
  | create populate caller path name options => discard (Op.createBy populate caller path name options)
  | delete worker caller path => Op.delete worker caller path
  | shareInterp caller path source => discard (Op.shareInterp caller path source)
  | disposeShared worker caller path => Op.disposeShared worker caller path
  | defineCommand id spec => discard (Op.defineCommand id spec)
  | removeCommand id name => Op.removeCommand id name
  | hide caller path name newName => Op.hide caller path name newName
  | expose caller path name newName => Op.expose caller path name newName
  | aliasByShape caller path name rest => discard (Op.aliasByShape caller path name rest)
  | defineAlias caller path name targetPath targetName bound =>
    discard (Op.defineAlias caller path name targetPath targetName bound)
  | deleteAlias caller path name => Op.deleteAlias caller path name
  | addPolicy caller path spec => discard (Op.addPolicy caller path spec)
  | removePolicy caller path name => Op.removePolicy caller path name
  | changeTrust caller path c => c.run caller path
  | addObject id name value => discard (Op.addObject id name value)
  | setBackgroundError id handler => Op.setBackgroundError id handler
  | setLimits id limits => Op.setLimits id limits
  | setLimit id field v => Op.setLimit id field v

def isCreate : Operation → Bool
  | create .. => true
  | _ => false

end Operation

namespace World

variable {w v : World}

/-- Every node is as it was, and the same nodes are part of the tree; the objects and the settings are
the same, and no time has passed. At most one number was given to a node that is no part of the
tree. -/
structure Retains (w v : World) : Prop where
  nodes : ∀ i n, w.node? i = some n → v.node? i = some n
  arena : ∀ i, v.attached? i = w.attached? i
  numbers : v.nodes.size ≤ w.nodes.size + 1
  still : w.Still v

theorem Retains.refl (w : World) : w.Retains w := ⟨fun _ _ h => h, fun _ => rfl, by omega, .refl w⟩

/-- One node more makes no difference to the tree that it is no part of. -/
theorem Gains.retains {m : Node} (h : Gains m w v) (detached : m.attached = false) : w.Retains v where
  nodes _ _ found := h.old found
  arena i := by
    unfold attached?
    rw [h.node]
    split
    · rename_i new
      have none : w.node? i = none := by
        by_contra some
        obtain ⟨n, found⟩ := Option.ne_none_iff_exists'.1 some
        have := le_size_of_node? found
        omega
      simp [none, detached]
    · rfl
  numbers := Nat.le_of_eq h.size
  still := h.still

/-- What could not be introduced makes no difference. -/
theorem retains_introduceBy {populate : Node → Except Fault Node} {name path : Text}
    {parent : NodeId} {trust : Trust} {f : Fault}
    (h : (w.introduceBy populate name parent path trust).1 = .error f) :
    w.Retains (w.introduceBy populate name parent path trust).2 := by
  unfold introduceBy at h ⊢
  dsimp only at h ⊢
  split at h
  · cases h
  · rename_i populated
    rw [if_neg populated]
    generalize populate _ = made at h ⊢
    cases made with
    | ok n => cases h
    | error f' =>
      dsimp only
      obtain ⟨m, strips, -, gains⟩ := gains_spoiled
        (.fresh (w.nodes.size + 1) name parent path trust w.settings.limits w.clock) w
      refine gains.retains (Bool.eq_false_iff.2 fun attached => ?_)
      cases strips.attached attached

end World

namespace Op

variable {α : Type} {w : World} {id caller : NodeId} {path name : Text}

/-- What an edit spares is spared in the tree. -/
theorem spares_updateNode {edit : Edit α} (h : ∀ n, Spares edit n) : Spares (updateNode id edit) w :=
  (settles_updateNode fun n _ => h n).weaken fun _ _ ⟨_, _, done, _⟩ => done

/-! What has looked at everything changes the world without being refused any more. -/

theorem spares_delete (worker : Option NodeId) : Spares (delete worker caller path) w := by
  refine .resolve fun _ _ => .node fun _ _ => .require fun _ => .get (.require fun _ =>
    .resolve fun _ _ => .node fun _ _ => ?_)
  split
  · exact .throw _
  · refine .require fun _ => .require fun _ => .of_ends ?_
    simp only [Ends.bind_iff, ends_change]
    split <;> rfl

theorem spares_shareInterp (source : Text) : Spares (shareInterp caller path source) w :=
  .requirePrivilege fun _ _ _ => .resolve fun _ _ => .node fun _ _ => .resolve fun _ _ =>
    .node fun _ _ => .require fun _ => .get (.require fun _ => .require fun _ => .of_ends rfl)

theorem spares_disposeShared (worker : Option NodeId) :
    Spares (disposeShared worker caller path) w := by
  refine .requirePrivilege fun _ _ _ => .resolve fun _ _ => .node fun _ _ => .get (.require fun _ =>
    .require fun _ => .of_ends ?_)
  simp only [Ends.bind_iff, ends_change, Ends.get_iff]
  split <;> rfl

theorem spares_hide (newName : Text) : Spares (hide caller path name newName) w :=
  .requirePrivilege fun _ _ _ => .resolve fun _ _ => spares_updateNode fun n =>
    (n.settles_hide path name _).weaken fun _ _ done => done.1 ▸ rfl

theorem spares_expose (newName : Text) : Spares (expose caller path name newName) w :=
  .requirePrivilege fun _ _ _ => .resolve fun _ _ => spares_updateNode fun n =>
    (n.settles_expose path name _).weaken fun _ _ done => done.1 ▸ rfl

theorem spares_queryAlias : Spares (queryAlias caller path name) w := by
  refine .resolve fun _ _ => .node fun _ _ => ?_
  split
  · exact .of_ends rfl
  · exact .throw _

theorem spares_defineAlias (targetPath targetName : Text) (bound : List Text) :
    Spares (defineAlias caller path name targetPath targetName bound) w := by
  refine .requirePrivilege fun _ _ _ => .require fun _ => .resolve fun _ _ => .get ?_
  split
  · exact .throw _
  · exact .node fun _ _ => .bind (spares_updateNode fun n => n.spares_defineAlias path _)
      (fun _ _ _ => rfl) fun _ _ failed => failed

theorem spares_deleteAlias : Spares (deleteAlias caller path name) w :=
  .requirePrivilege fun _ _ _ => .resolve fun _ _ => spares_updateNode fun n =>
    (n.settles_eraseAlias path name).weaken fun _ _ done => done.1 ▸ rfl

theorem spares_updateCancel (f : Cancellation → Except Fault Cancellation) :
    Spares (updateCancel id f) w :=
  (settles_updateCancel f).weaken fun _ _ ⟨_, _, _, done, _⟩ => done ▸ rfl

theorem spares_aliasByShape (rest : List Text) :
    Spares (aliasByShape caller path name rest) w := by
  have done {α : Type} {x : Op α} {f : α → Option Alias} (h : Spares x w) :
      Spares (do return f (← x)) w := Settles.bind h (fun _ _ _ => rfl) fun _ _ failed => failed
  unfold aliasByShape
  split
  · exact done spares_queryAlias
  · exact done spares_deleteAlias
  · refine .get ?_
    split
    · exact .throw _
    · exact done spares_deleteAlias
  · exact done (spares_defineAlias _ _ _)
  · exact .throw _

theorem spares_addPolicy (spec : PolicySpec) : Spares (addPolicy caller path spec) w :=
  .requirePrivilege fun _ _ _ => .require fun _ => .resolve fun _ _ => .node fun _ _ => .of_ends rfl

theorem spares_removePolicy : Spares (removePolicy caller path name) w :=
  .requirePrivilege fun _ _ _ => .resolve fun _ _ => .node fun _ _ => .require fun _ => .of_ends rfl

theorem spares_addObject (value : HostValue) : Spares (addObject id name value) w :=
  .require fun _ => .node fun _ _ => .require fun _ => .require fun _ => .get (.of_ends rfl)

theorem spares_setBackgroundError (handler : List Text) :
    Spares (setBackgroundError id handler) w :=
  .node fun _ _ => .require fun _ => .of_ends rfl

/-- Where a creation is refused, a node may have been made that is not part of the tree. -/
theorem settles_createBy (populate : World → Node → Except Fault Node) (options : CreateOptions) :
    Settles (createBy populate caller path name options) w fun r v =>
      ∀ f, r = .error f → w.Retains v := by
  refine .require fun _ => .node fun _ _ => .require fun _ => .require fun _ => .resolve fun _ _ =>
    .node fun p _ => .require fun _ => .get (.of_ends ?_)
  rw [Ends.bind_iff, Ends.set_iff]
  dsimp only
  split
  · rename_i refused
    exact fun _ _ => World.retains_introduceBy refused
  · exact fun _ failed => nomatch failed

end Op

namespace Operation

variable {w : World} {o : Operation}

/-- An operation that creates nothing is refused and leaves the world as it was, or it succeeds. -/
theorem spares_run (o : Operation) (creates : o.isCreate = false) : Spares o.run w := by
  cases o with
  | create => cases creates
  | delete worker caller path => exact Op.spares_delete worker
  | shareInterp caller path source => exact (Op.spares_shareInterp source).discard
  | disposeShared worker caller path => exact Op.spares_disposeShared worker
  | defineCommand id spec => exact (Op.spares_updateNode fun n => n.spares_define spec).discard
  | removeCommand id name =>
    exact Op.spares_updateNode fun n =>
      (n.settles_removeCommand name).weaken fun _ _ done => done.1 ▸ rfl
  | hide caller path name newName => exact Op.spares_hide newName
  | expose caller path name newName => exact Op.spares_expose newName
  | aliasByShape caller path name rest => exact (Op.spares_aliasByShape rest).discard
  | defineAlias caller path name targetPath targetName bound =>
    exact (Op.spares_defineAlias targetPath targetName bound).discard
  | deleteAlias caller path name => exact Op.spares_deleteAlias
  | addPolicy caller path spec => exact (Op.spares_addPolicy spec).discard
  | removePolicy caller path name => exact Op.spares_removePolicy
  | changeTrust caller path c => exact c.settles_run.weaken fun _ _ done => done.1 ▸ rfl
  | addObject id name value => exact (Op.spares_addObject value).discard
  | setBackgroundError id handler => exact Op.spares_setBackgroundError handler
  | setLimits id limits => exact Op.spares_updateCancel _
  | setLimit id field v => exact Op.spares_updateCancel _

/-- An operation that is refused changes nothing. -/
theorem refused_retains (o : Operation) (w : World) :
    Ends o.run w fun r v => ∀ f, r = .error f → w.Retains v ∧ (o.isCreate = false → v = w) := by
  cases creates : o.isCreate with
  | false =>
    have spares : Settles o.run w fun r _ => r.isOk = true := o.spares_run creates
    refine Ends.mono spares fun r v settled f refused => ?_
    subst refused
    obtain ⟨rfl, -⟩ | done := settled
    · exact ⟨.refl v, fun _ => rfl⟩
    · cases done
  | true =>
    cases o with
    | create populate caller path name options =>
      refine .bind (Op.settles_createBy populate options) (fun _ _ _ _ failed => nomatch failed)
        fun f v settled _ _ => ⟨?_, nofun⟩
      obtain ⟨rfl, -⟩ | retains := settled
      · exact .refl v
      · exact retains f rfl
    | _ => cases creates

/-- A child that nobody can populate. -/
def spoiled : Operation := .create (fun _ _ => .error (.saying "no commands today")) World.root [] "c" {}

/-- The end of the root. -/
def uprooting : Operation := .delete none World.root []

/-- The child that cannot be populated has taken a number, and the root cannot be deleted. -/
theorem refused_retains_spoiled :
    (Ends spoiled.run World.sapling fun r v => ∀ f, r = .error f →
      World.sapling.Retains v ∧ (spoiled.isCreate = false → v = World.sapling)) ∧
    (Ends spoiled.run World.sapling fun r v => r.isOk = false ∧ v.nodes.size = 2 ∧
      (v.node? 2).any Node.released = true ∧ (v.attached? 2).isNone = true) ∧
    (Ends uprooting.run World.sapling fun r v => ∀ f, r = .error f →
      World.sapling.Retains v ∧ (uprooting.isCreate = false → v = World.sapling)) ∧
    Ends uprooting.run World.sapling fun r _ => r.isOk = false :=
  ⟨refused_retains spoiled World.sapling, by decide +kernel, refused_retains uprooting World.sapling,
    by decide +kernel⟩

end Operation

end InterpTree
