import InterpTree.Proofs.Deadness

/-!
Nodes that are gone. A node that has left the tree is dead, and nothing ever comes to it again. No path
leads to it, nothing that it asks for is done, and none of its commands is called. Main statement: this
is what becomes of every node that is deleted, whoever deletes it and whatever is running in it
meanwhile. Only a hidden command that is about to be called is called all the same, if the scripts that
guard it have its node deleted.
-/

namespace InterpTree

namespace World

variable {w v : World} {i : NodeId} {n : Node}

/-- Node `i` is dead and outside of the tree. Nothing is registered in it, it has no children and no
path leads to it. Whatever it asks for fails and leaves the world as it is, whichever engine would run
the scripts: so does every script that is to be evaluated in it. -/
structure IsInert (w : World) (i : NodeId) : Prop where
  gone : ∃ n, w.node? i = some n ∧ n.dead = true ∧ n.attached = false ∧ n.IsBare
  unreached : ∀ caller path, w.resolve? caller path ≠ some i
  operations : ∀ o : Operation, o.asker? = some i → Op.Refuses o.run w
  objects : ∀ path name, Op.Refuses (Op.shareObject i path name) w
  dedicated : ∀ options, Op.Refuses (Op.serviceDedicated i options) w
  evaluates : ∀ (e : Engine) context script, Engine.Fails (e.runEvaluate context i script) w
  evaluatesIn : ∀ (e : Engine) context path script,
    Engine.Fails (e.evaluateIn context i path script) w
  invokes : ∀ (e : Engine) context name args, Engine.Fails (e.invoke context i name args) w
  invokesHidden : ∀ (e : Engine) context path name args global,
    Engine.Fails (e.invokeHidden context i path name args global) w
  services : ∀ (e : Engine) context options,
    ∃ f, e.serviceEvents context i options w = .ok ({}, .error f) w

theorem isInert_of_isGone (inv : w.IsHeedful) (found : w.node? i = some n) (gone : n.isGone = true) :
    w.IsInert i := by
  obtain ⟨dead, away, -⟩ := Node.isGone_iff.mp gone
  have bare := (inv.clean i n found).isBare gone
  have stuck := resolve?_of_dead found dead
  refine {
    gone := ⟨n, found, dead, away, bare⟩
    unreached := fun caller path resolved => ?_
    operations := Operation.refuses_run found dead bare
    objects := Op.refuses_shareObject stuck
    dedicated := fun options => ?_
    evaluates := fun e context => e.fails_runEvaluate context found dead
    evaluatesIn := fun e context => e.fails_evaluateIn context stuck
    invokes := fun e context => e.fails_invoke context found bare
    invokesHidden := fun e context => e.fails_invokeHidden context stuck
    services := fun e context => e.fails_serviceEvents context found dead }
  · rw [alive_of_resolved inv.numbered resolved found] at dead
    cases dead
  · refine .of_settles (.node fun k here => .require fun alive => ?_)
    obtain rfl := Option.some.inj (found.symm.trans here)
    simp [dead] at alive

/-- Removals that are not the doing of its own worker leave a node that runs no item on it in the tree,
or inert. -/
theorem Leaves.isInert {worker : Option NodeId} (h : Leaves worker w v) (inv : w.IsHeedful)
    (heedful : v.IsHeedful) (found : w.node? i = some n) (attached : n.attached = true)
    (idle : n.busy = false) (other : worker ≠ some i) {n' : Node} (found' : v.node? i = some n')
    (left : n'.attached = false) : v.IsInert i := by
  obtain ⟨m, there, leaves⟩ := h.node i n found
  obtain rfl : m = n' := Option.some.inj (there.symm.trans found')
  have clean := inv.clean i n found
  have none : n.retiring = none := by
    cases retiring : n.retiring with
    | none => rfl
    | some loop =>
      rw [clean.outside (clean.apart (by rw [retiring]; rfl))] at attached
      cases attached
  exact isInert_of_isGone heedful found' (Node.isGone_iff.mpr
    ⟨leaves.left attached left, left, (leaves.calm idle other).trans none⟩)

variable {worker : Option NodeId} (inv : w.IsHeedful) (found : w.node? i = some n)
  (attached : n.attached = true) (idle : n.busy = false) (other : worker ≠ some i)

include inv found attached idle other

theorem inert_of_delete (caller : NodeId) (path : Text) :
    Ends (Op.delete worker caller path) w fun _ v =>
      ∀ n', v.node? i = some n' → n'.attached = false → v.IsInert i := by
  have heeds : Op.Heeds (fun _ => False) (Op.delete worker caller path) := Op.heeds_delete
  refine ((heeds w inv).and (Op.leaves_delete worker inv.numbered)).mono fun _ v done n' found' => ?_
  exact Leaves.isInert done.2 inv done.1.1 found attached idle other found'

theorem inert_of_disposeShared (caller : NodeId) (path : Text) :
    Ends (Op.disposeShared worker caller path) w fun _ v =>
      ∀ n', v.node? i = some n' → n'.attached = false → v.IsInert i := by
  have heeds : Op.Heeds (fun _ => False) (Op.disposeShared worker caller path) :=
    Op.heeds_disposeShared
  refine ((heeds w inv).and (Op.leaves_disposeShared worker inv.numbered)).mono
    fun _ v done n' found' => ?_
  exact Leaves.isInert done.2 inv done.1.1 found attached idle other found'

end World

/-! ### Commands of nodes that are gone -/

/-- Whether a command is called in a node that is gone. -/
def Request.haunts (r : Request) (w : World) : Bool :=
  match r with
  | .evaluate _ _ _ => false
  | .perform call _ => (w.node? call.node).any Node.isGone

/-- Whether a visible command is called in a node that is gone. -/
def Request.intrudes (r : Request) (w : World) : Bool :=
  match r with
  | .evaluate _ _ _ => false
  | .perform call action => !call.hidden && Request.haunts (.perform call action) w

/-- However a deed goes on, no visible command is called in a node that is gone. -/
theorem Deed.act_intruding {w : World} (inv : w.IsHeedful) (pace : Pace) (fuel : Nat) (d : Deed)
    (stops : Request → World → Bool) :
    d.act (.upTo pace (fun r v => stops r v || r.intrudes v) fuel) w =
      d.act (.upTo pace stops fuel) w := by
  have paces : (Regime.heeding (fun _ => False) fun _ _ => False).Paces pace :=
    fun _ _ inv => ⟨inv, .refl _⟩
  have law := Regime.lawful_heeding_strictly fun _ => False
  have twins : (Regime.heeding (fun _ => False) fun _ _ => False).Twins
      (.upTo pace (fun r v => stops r v || r.intrudes v) fuel) (.upTo pace stops fuel) := by
    refine ⟨rfl, fun r v meets => ?_, fun _ _ _ _ denier _ _ => denier.elim, rfl, paces⟩
    refine law.runUntil _ stops paces (fun r v _ _ comes => .inl ?_) (fun _ _ _ _ _ _ never => never.elim)
      (fun _ _ closed => closed.elim) (fun _ _ _ _ _ denier _ _ => denier.elim) fuel r v meets
    cases r with
    | evaluate context id script => exact Bool.or_false _
    | perform call action =>
      cases hidden : call.hidden with
      | true => simp [Request.intrudes, hidden]
      | false =>
        cases found : v.node? call.node with
        | none => simp [Request.intrudes, Request.haunts, found]
        | some n => simp [Request.intrudes, Request.haunts, found, comes hidden n found]
  exact (d.keeps_act law twins (fun _ never => never.elim) inv).eq

namespace Engine

variable (e : Engine) (context : Option Context)

/-- The engine that gives up before a command is called in a node that is gone. -/
def sparing : Engine where
  turns := e.turns
  call r := do
    if r.haunts (← get) then throw .exhausted else e.call r
  pace := e.pace

theorem decide_sparing (p : Policy) (case : PolicyCase) :
    e.sparing.decide context p case = e.decide context p case := by
  unfold decide
  rfl

theorem askPolicies_sparing (case : PolicyCase) (policies : List Policy) :
    e.sparing.askPolicies context case policies = e.askPolicies context case policies := by
  induction policies with
  | nil => rfl
  | cons p rest ih =>
    unfold askPolicies
    rw [ih, decide_sparing]

theorem sparing_call {r : Request} {w : World} (lives : r.haunts w = false) :
    e.sparing.call r w = e.call r w := by
  change (get >>= fun v => if r.haunts v = true then throw .exhausted else e.call r) w = _
  rw [Act.bind_of_ok (Act.get_apply w), if_neg (Bool.eq_false_iff.mp lives)]

/-- A command is called inside a frame of its node, if that is not gone. -/
theorem inFrame_sparing {w : World} (call : Call) (action : Action) (name : Text) (flags : Nat)
    (lives : (w.node? call.node).any Node.isGone = false) :
    inFrame call.node name flags (e.sparing.call (.perform call action)) w =
      inFrame call.node name flags (e.call (.perform call action)) w := by
  unfold inFrame
  rw [Act.bind_of_ok (Act.get_apply w), Act.bind_of_ok (Act.get_apply w)]
  cases found : w.node? call.node with
  | none => exact e.sparing_call lives
  | some n =>
    have framed := World.node?_modifyNode_same
      (fun m => { m with frames := (n.frames.push name flags).2 }) found
    have called : e.sparing.call (.perform call action) _ = _ := e.sparing_call (by
      rw [Request.haunts, framed]
      rwa [found] at lives)
    dsimp only
    rw [Act.bind_of_ok (Act.modifyNode_apply _ _ w), Act.bind_of_ok (Act.modifyNode_apply _ _ w)]
    unfold Act.ensuring
    rw [called]

/-- If the policies that guard a hidden command let it pass, its node is not gone. -/
def GuardsSpare (caller : NodeId) (path name : Text) (args : List Text) (w : World) : Prop :=
  ∀ target n command, w.resolve? caller path = some target → w.node? target = some n →
    n.commands.hidden? name = some command →
      Ends (e.askPolicies context { caller, target, name, args }
        (n.policies.filter fun p => p.guardsCommand command)) w fun r v =>
          r = .ok none → (v.node? target).any Node.isGone = false

/-- A hidden command is called in its node, unless the scripts that guard it have the node deleted. -/
theorem invokeHidden_sparing {w : World} {caller : NodeId} {path name : Text} {args : List Text}
    (spare : e.GuardsSpare context caller path name args w) (global : Bool) :
    e.sparing.invokeHidden context caller path name args global w =
      e.invokeHidden context caller path name args global w := by
  have any {α : Type} (x : Act α) (v : World) : Ends x v fun _ _ => True := by
    unfold Ends
    split <;> trivial
  have opened : Ends (Act.attempt (do
      Op.requirePrivilege caller "invoke hidden commands"
      Op.resolve caller path)) w fun r v =>
        v = w ∧ ∀ target, r = .ok (.ok target) → w.resolve? caller path = some target :=
    Act.ends_attempt (by simp)
  suffices alike : Alike (e.sparing.invokeHidden context caller path name args global)
      (e.invokeHidden context caller path name args global) w fun _ _ => True from alike.eq
  refine .bind (.refl opened) (fun r v first => ?_) fun _ _ _ => trivial
  obtain ⟨rfl, resolved⟩ := first
  cases r with
  | error f => exact .refl (any _ _)
  | ok target =>
    have resolved := resolved target rfl
    cases found : v.node? target with
    | none =>
      have nothing : Act.ofNode target (fun n => n.commands.hidden? name) v = .ok none v := by
        unfold Act.ofNode
        rw [Act.bind_of_ok (Act.get_apply v), found]
        rfl
      exact .after (Ends.of_ok nothing (.refl (any _ _)))
    | some n =>
      refine .after (Ends.of_ok (Act.ofNode_of_node? found _) ?_)
      dsimp only
      cases hides : n.commands.hidden? name with
      | none => exact .refl (any _ _)
      | some command =>
        refine .after (Ends.of_ok (Act.ofNode_of_node? found _) ?_)
        dsimp only
        rw [askPolicies_sparing]
        refine .bind (.refl (spare target n command resolved found hides))
          (fun refusal u asked => ?_) fun _ _ _ => trivial
        cases refusal with
        | some f => exact .refl (any _ _)
        | none =>
          exact ⟨e.inFrame_sparing { context, node := target, name, args, hidden := true }
            command.action _ _ (asked rfl), any _ _⟩

end Engine

namespace World

/-- A child of the root gets a command that deletes it. -/
def farewell : Moment where
  past := [.tree (.create root [] "a" {})]
  deed := .defineAlias root "a" "bye" [] "interp" ["delete", "a"]

/-- A script of the child deletes it and goes on. -/
def parting : Moment where
  past := farewell.past ++ [farewell.deed]
  deed := .evaluateIn none root "a" "catch bye; set x 1"

/-- A host that still holds the child evaluates a script in it. -/
def calling : Moment where
  past := parting.past ++ [parting.deed]
  deed := .evaluate none 2 "set x 1"

/-- A hidden command of a child is called, and the policy that guards it has the child deleted. -/
def undermining : Moment where
  past := [.tree (.create root [] "t" {}),
    .addPolicy root "t" { type := "*", script := "interp delete t" }, .hide root "t" "set" []]
  deed := .evaluate none root "interp invokehidden t set x 1"

/-- The hidden command is called in the child that is gone. -/
example : ((undermining.world .timely 60 sapling).node? 2).any
    (fun n => n.isGone && n.vars.get? "x" == some ("1" : Text)) = true := by
  decide +kernel

end World

end InterpTree
