import InterpTree.Proofs.Growth

/-!
Changes of trust. The five operations on the trust of a node are one: `TrustChange.run` says which
operation makes a change, `TrustChange.amend` what it makes of the node. What is true of one node
that an operation replaces is told by `World.Amends`.
-/

namespace InterpTree

namespace World

variable {w v : World} {i : NodeId} {n m : Node}

/-- Node `i`, which was `n`, is `m` now. No other node is different. -/
structure Amends (i : NodeId) (n m : Node) (w v : World) : Prop where
  found : w.node? i = some n
  nodes : v.nodes = (w.modifyNode i fun _ => m).nodes
  still : Still w v

/-- A change of one node. -/
theorem amends_modifyNode (found : w.node? i = some n) {f : Node → Node} (made : f n = m) :
    Amends i n m w (w.modifyNode i f) := by
  refine ⟨found, Array.ext_getElem? fun j => ?_, .modifyNode i f w⟩
  rw [← node?_succ, ← node?_succ, node?_modifyNode, node?_modifyNode]
  split
  · rename_i here
    rw [here, found, Option.map_some, Option.map_some, made]
  · rfl

theorem Amends.node? (h : Amends i n m w v) : v.node? i = some m := by
  rw [node?_congr h.nodes]
  exact node?_modifyNode_same _ h.found

theorem Amends.node?_ne (h : Amends i n m w v) {j : NodeId} (other : j ≠ i) :
    v.node? j = w.node? j :=
  (node?_congr h.nodes j).trans (node?_modifyNode_ne _ other)

theorem Amends.each {P : NodeId → Node → Node → Prop} (c : Composes P) (h : Amends i n m w v)
    (change : P i n m) : Each P w v := by
  have each : Each P w (w.modifyNode i fun _ => m) := .modifyNode c _ fun k found => by
    obtain rfl : n = k := Option.some.inj (h.found.symm.trans found)
    exact change
  exact each.trans c (.of_nodes_eq c h.nodes)

theorem Amends.logNode (h : Amends i n m w v) (level : Level) (id : Nat) (message : Text)
    (fields : List (Text × Text)) : Amends i n m w (v.logNode level id message fields) :=
  ⟨h.found, (nodes_logNode level id message fields v).trans h.nodes,
    h.still.trans (.logNode level id message fields v)⟩

end World

namespace Op

open World

variable {α : Type} {w : World} {id caller : NodeId} {path : Text}

/-- An edit that leaves the node as it was when it is refused leaves the tree as it was. -/
theorem settles_replace {edit : Edit α} {Q : Node → Except Fault α → Node → Prop}
    (h : ∀ n, w.node? id = some n → Settles edit n (Q n)) :
    Settles (updateNode id edit) w fun r v =>
      ∃ n m, w.node? id = some n ∧ Q n r m ∧ v = w.modifyNode id fun _ => m := by
  refine .node fun n found => ?_
  have settled := h n found
  unfold Settles Ends at settled
  cases result : edit n with
  | ok a m =>
    rw [result] at settled
    obtain ⟨-, _, failed⟩ | done := settled
    · cases failed
    · exact .of_ends ⟨n, m, found, done, rfl⟩
  | error f m =>
    rw [result] at settled
    obtain ⟨rfl, -⟩ | done := settled
    · exact .inl ⟨World.modifyNode_self found, f, rfl⟩
    · exact .of_ends ⟨n, m, found, done, rfl⟩

theorem settles_updateNode {edit : Edit α} {Q : Node → Except Fault α → Node → Prop}
    (h : ∀ n, w.node? id = some n → Settles edit n (Q n)) :
    Settles (updateNode id edit) w fun r v => ∃ n m, Q n r m ∧ Amends id n m w v := by
  refine (settles_replace h).weaken fun r v => ?_
  rintro ⟨n, m, found, done, rfl⟩
  exact ⟨n, m, done, found, rfl, .modifyNode id _ w⟩

theorem updateNode_ok {edit : Edit α} {a : α} {n m : Node} (found : w.node? id = some n)
    (made : edit n = .ok a m) : updateNode id edit w = .ok a (w.modifyNode id fun _ => m) := by
  rw [updateNode, bind_of_ok (node_ok found), made]
  rfl

theorem updateNode_error {edit : Edit α} {f : Fault} {n : Node} (found : w.node? id = some n)
    (refused : edit n = .error f n) : updateNode id edit w = .error f w := by
  rw [updateNode, bind_of_ok (node_ok found), refused]
  exact congrArg (EStateM.Result.error f) (World.modifyNode_self found)

/-- A step on the controller of a node. -/
theorem settles_updateCancel (f : Cancellation → Except Fault Cancellation) :
    Settles (updateCancel id f) w fun r v =>
      ∃ n c, f n.cancel = .ok c ∧ r = .ok () ∧ Amends id n { n with cancel := c } w v := by
  refine (settles_updateNode fun n _ => n.settles_control f).weaken fun r v => ?_
  rintro ⟨n, _, ⟨c, made, done, rfl⟩, amends⟩
  exact ⟨n, c, made, done, amends⟩

/-- Trust is changed for a caller that is not safe, in a node that is not immutable. -/
theorem settles_changeTrust {action : Text} {edit : Edit Unit}
    {Q : Node → Except Fault Unit → Node → Prop} (h : ∀ n, Settles edit n (Q n))
    (succeeds : ∀ n f m, ¬ Q n (.error f) m) :
    Settles (changeTrust caller path action edit) w fun r v =>
      (∃ c, w.node? caller = some c ∧ c.trust.safe = false) ∧
        ∃ target n m, w.resolve? caller path = some target ∧ n.trust.immutable = false ∧
          Q n (.ok ()) m ∧ r = .ok target ∧ Amends target n m w v := by
  refine .requirePrivilege fun c asker trusted => .resolve fun target resolved => ?_
  refine .bind (settles_updateNode (Q := fun n r m => n.trust.immutable = false ∧ Q n r m)
    fun n _ => .get (.require fun mutable => (h n).weaken fun r m done =>
      ⟨by simpa using mutable, done⟩)) (fun a v h => ?_) fun e v h => ?_
  · obtain ⟨n, m, ⟨mutable, done⟩, amends⟩ := h
    exact ⟨⟨c, asker, trusted⟩, target, n, m, resolved, mutable, done, rfl, amends⟩
  · obtain ⟨n, m, ⟨-, failed⟩, -⟩ := h
    exact absurd failed (succeeds n e m)

end Op

/-- A change of the trust of a node. -/
inductive TrustChange
  | safe (on : Bool)
  | standard (on : Bool)
  | trusted
  | readOnly (on : Bool)
  | immutable (on : Bool)
deriving DecidableEq

namespace TrustChange

variable {c : TrustChange} {n m : Node} {w : World} {caller : NodeId} {path : Text}

/-- The operation that makes the change on the node at a path. -/
def run (caller : NodeId) (path : Text) : TrustChange → Op Unit
  | safe on => Op.makeSafe caller path on
  | standard on => Op.makeStandard caller path on
  | trusted => Op.markTrusted caller path
  | readOnly on => Op.setReadOnly caller path on
  | immutable on => Op.setImmutable caller path on

/-- Marks are not set twice, nor taken back where they are not set. -/
def isDue (t : Trust) : TrustChange → Bool
  | safe on => t.safe != on
  | standard on => t.standard != on
  | trusted => !t.trusted
  | readOnly _ => true
  | immutable _ => true

/-- What the change makes of a node. -/
def amend (n : Node) : TrustChange → Node
  | safe on => n.remark .safe on
  | standard on => n.remark .standard on
  | trusted => { n with trust := { n.trust with trusted := true } }
  | readOnly on => { n with trust := { n.trust with readOnly := on } }
  | immutable on => { n with trust := { n.trust with immutable := on } }

theorem same_amend (n : Node) (c : TrustChange) :
    c.amend n = { n with trust := (c.amend n).trust, commands := (c.amend n).commands } := by
  cases c <;> rfl

/-- The world after the change, also if it was refused. -/
def apply (caller : NodeId) (path : Text) (c : TrustChange) (w : World) : World :=
  match c.run caller path w with
  | .ok _ v => v
  | .error _ v => v

/-- How the operation names what it does to callers that it refuses. -/
def action : TrustChange → Text
  | safe _ => "modify safety"
  | standard _ => "modify standardization"
  | trusted => "mark trusted"
  | readOnly _ => "modify read-only state"
  | immutable _ => "modify immutability"

/-- How the change is made on a node. -/
def act : TrustChange → Edit Unit
  | safe on => Edit.markSafe on
  | standard on => Edit.markStandard on
  | trusted => Edit.markTrusted
  | readOnly on => Edit.setReadOnly on
  | immutable on => Edit.setImmutable on

/-- What is noted of the change. -/
def note (target : NodeId) : TrustChange → World → World
  | safe on =>
    World.logNode .info target "interpreter safety changed" [field "safe" (flagField on)]
  | trusted => World.logNode .info target "interpreter marked trusted" []
  | standard _ | readOnly _ | immutable _ => id

theorem run_eq (c : TrustChange) :
    c.run caller path = (do
      let target ← Op.changeTrust caller path c.action c.act
      Op.change (c.note target)) := by
  cases c <;> rfl

/-- A change that is due is made, and any other is refused. -/
theorem ends_act (c : TrustChange) (n : Node) :
    Ends c.act n fun r m => if c.isDue n.trust then r = .ok () ∧ m = c.amend n
      else m = n ∧ ∃ f, r = .error f := by
  have checked {x : Edit Unit} {due : Bool} {f : Fault} (done : Ends x n fun r m => r = .ok () ∧ m = c.amend n) :
      Ends (Op.require due f >>= fun _ => x) n fun r m => if due then r = .ok () ∧ m = c.amend n
        else m = n ∧ ∃ f, r = .error f := by
    cases due with
    | true => exact done
    | false => exact ⟨rfl, f, rfl⟩
  cases c with
  | safe on | standard on | trusted => exact checked ⟨rfl, rfl⟩
  | readOnly on | immutable on => exact ⟨rfl, rfl⟩

theorem settles_act (c : TrustChange) (n : Node) :
    Settles c.act n fun r m => r = .ok () ∧ c.isDue n.trust = true ∧ m = c.amend n := by
  refine (c.ends_act n).mono fun r m ending => ?_
  split at ending
  · rename_i due
    exact .inr ⟨ending.1, due, ending.2⟩
  · exact .inl ending

theorem nodes_note (c : TrustChange) (target : NodeId) (w : World) :
    (c.note target w).nodes = w.nodes := by
  cases c with
  | safe on | trusted => exact World.nodes_logNode _ _ _ _ w
  | standard on | readOnly on | immutable on => rfl

theorem still_note (c : TrustChange) (target : NodeId) (w : World) : w.Still (c.note target w) := by
  cases c with
  | safe on | trusted => exact .logNode _ _ _ _ w
  | standard on | readOnly on | immutable on => exact .refl w

/-- What a change that is not refused does: which caller may make it, on which node. -/
structure Takes (c : TrustChange) (caller : NodeId) (path : Text) (target : NodeId) (n : Node)
    (w v : World) : Prop where
  asker : ∃ k, w.node? caller = some k ∧ k.trust.safe = false
  resolved : w.resolve? caller path = some target
  mutable : n.trust.immutable = false
  due : c.isDue n.trust = true
  amends : World.Amends target n (c.amend n) w v

/-- A change of trust is refused, or takes. -/
theorem settles_run (c : TrustChange) :
    Settles (c.run caller path) w fun r v =>
      r = .ok () ∧ ∃ target n, c.Takes caller path target n w v := by
  rw [run_eq]
  refine .bind (Op.settles_changeTrust c.settles_act fun n f m failed => nomatch failed.1)
    (fun target u h => ?_) fun e u h => ?_
  · obtain ⟨asker, target, n, m, resolved, mutable, ⟨-, due, rfl⟩, same, amends⟩ := h
    obtain rfl := Except.ok.inj same
    exact ⟨rfl, target, n, asker, resolved, mutable, due, amends.found,
      (c.nodes_note target u).trans amends.nodes, amends.still.trans (c.still_note target u)⟩
  · obtain ⟨-, target, n, m, -, -, -, same, -⟩ := h
    cases same

/-- The change was refused and nothing happened, or it took. -/
theorem apply_cases (c : TrustChange) (caller : NodeId) (path : Text) (w : World) :
    (c.apply caller path w = w ∧ ∃ f, c.run caller path w = .error f w) ∨
      c.run caller path w = .ok () (c.apply caller path w) ∧
        ∃ target n, c.Takes caller path target n w (c.apply caller path w) := by
  have settled : Settles (c.run caller path) w _ := c.settles_run
  unfold Settles Ends at settled
  unfold apply
  cases result : c.run caller path w with
  | ok a v =>
    rw [result] at settled
    rcases settled with ⟨-, f, refused⟩ | ⟨-, takes⟩
    · cases refused
    · exact .inr ⟨rfl, takes⟩
  | error f v =>
    rw [result] at settled
    rcases settled with ⟨rfl, -⟩ | ⟨done, -⟩
    · exact .inl ⟨rfl, f, rfl⟩
    · cases done

theorem ends_apply (c : TrustChange) (caller : NodeId) (path : Text) (w : World) :
    Ends (c.run caller path) w fun _ v => v = c.apply caller path w := by
  unfold Ends apply
  cases c.run caller path w <;> rfl

/-- Only one change concerns the mark of safety. -/
theorem safe_amend (kept : c ≠ .safe false) (n : Node) :
    (c.amend n).trust.safe = (n.trust.safe || decide (c = .safe true)) := by
  cases c with
  | safe on =>
    cases on with
    | false => exact absurd rfl kept
    | true => simp [amend, Node.remark, Trust.mark]
  | standard on | trusted | readOnly on | immutable on =>
    simp [amend, Node.remark, Trust.mark]

end TrustChange

end InterpTree
