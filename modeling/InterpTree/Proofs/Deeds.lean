import InterpTree.Manifest.Apply
import InterpTree.Proofs.Heeding
import InterpTree.Proofs.Histories
import InterpTree.Proofs.Walks

/-!
Deeds: what a host does with a tree, one thing at a time, operations as well as runs of scripts. Each
of them heeds trust that was made immutable, marks that are for good, and the tables of nodes that
are frozen. A moment in the history of a tree is when some deeds are done and one is under way.
-/

namespace InterpTree

/-! ### Operations that heed -/

namespace Op

variable {α β γ : Type} {frozen : NodeId → Prop} {x : Op α}

/-- However the operation ends, it heeds. -/
def Heeds (frozen : NodeId → Prop) (x : Op α) : Prop :=
  ∀ w, w.IsHeedful → Ends x w fun _ v => (Regime.heeding frozen).Leads w v

namespace Heeds

theorem of_same (h : ∀ w, Ends x w fun _ v => v.nodes = w.nodes) : Heeds frozen x := fun w inv =>
  (h w).mono fun _ _ same => (Regime.allows_heeding frozen).same inv same

theorem pure (a : α) : Heeds frozen (Pure.pure a : Op α) := of_same fun _ => rfl

theorem throw (f : Fault) : Heeds frozen (throw f : Op α) := of_same fun _ => rfl

theorem bind {f : α → Op β} (h : Heeds frozen x) (next : ∀ a, Heeds frozen (f a)) :
    Heeds frozen (x >>= f) := fun w inv =>
  .bind (h w inv) (fun a v first => (next a v first.1).mono fun _ _ second =>
    (Regime.lawful_heeding frozen).leads_trans first second) fun _ _ first => first

theorem forM {f : γ → Op PUnit} (h : ∀ a, Heeds frozen (f a)) (as : List γ) :
    Heeds frozen (as.forM f) := by
  induction as with
  | nil => exact .pure _
  | cons a as ih => exact (h a).bind fun _ => ih

/-- A change of one node. -/
theorem modifyNode {id : NodeId} {f : Node → Node} (h : ∀ n : Node, n.Heeds (frozen id) (f n)) :
    Heeds frozen (change (World.modifyNode id f)) := fun _ inv =>
  (Regime.allows_heeding frozen).modify inv fun n _ => h n

/-- What settles as heeding allows. -/
theorem of_settles {Q : World → Except Fault α → World → Prop}
    (settles : ∀ w, w.IsNumbered → Settles x w (Q w))
    (led : ∀ w r v, w.IsHeedful → Q w r v → (Regime.heeding frozen).Leads w v) :
    Heeds frozen x := fun w inv =>
  (settles w inv.numbered).leaves ((Regime.lawful_heeding frozen).leads_refl inv)
    fun r v done => led w r v inv done

end Heeds

variable {w : World} {caller id : NodeId} {path name : Text}

theorem Reads.heeds {x : Op α} (h : Reads x) : Heeds frozen x :=
  .of_same fun w => (h w).mono fun _ _ same => congrArg World.nodes same

theorem heeds_change {f : World → World} (same : ∀ w, (f w).nodes = w.nodes) :
    Heeds frozen (change f) := .of_same same

theorem Governs.heeds {x : Op α} (h : Governs caller (fun _ => False) x) : Heeds frozen x :=
  fun w inv => (h w inv.numbered fun _ _ never => never.elim).mono fun _ _ changes =>
    (Regime.allows_heeding frozen).leads inv
      (changes.mono fun _ _ _ governed => .of_isGoverned governed)

theorem Minds.heeds {x : Op α} (h : Minds caller x) : Heeds frozen x := fun w inv =>
  (h w inv.numbered).mono fun _ _ did => by
    rcases did with rfl | ⟨-, changes⟩
    · exact (Regime.lawful_heeding frozen).leads_refl inv
    · exact (Regime.allows_heeding frozen).leads inv
        (changes.mono fun _ _ _ governed => .of_isGoverned governed)

theorem heeds_create {options : CreateOptions} :
    Heeds frozen (create caller path name options) := by
  refine .of_settles (fun w numbered => settles_create caller path name options numbered)
    fun w r v inv made => ?_
  obtain ⟨c, p, parent, m, -, -, resolved, -, -, ⟨-, grows, child⟩ | ⟨-, gains, n, isNew, detached,
    bare, strips, released⟩⟩ := made
  · exact Regime.heeds_of_grows inv resolved grows child
  · exact Regime.heeds_of_gains inv gains isNew detached bare strips released

theorem heeds_delete {worker : Option NodeId} : Heeds frozen (delete worker caller path) :=
  fun w inv => ((settles_delete worker caller path inv.numbered).and
    (leaves_delete worker inv.numbered)).mono fun r v removed => by
      rcases removed.1 with ⟨rfl, -⟩ | ⟨-, target, t, -, -, -, -, wanes⟩
      · exact (Regime.lawful_heeding frozen).leads_refl inv
      · exact Regime.heeds_of_wanes inv (wanes _ (World.isClosed_all w) trivial)
          (World.Leaves.departs removed.2)

theorem heeds_disposeShared {worker : Option NodeId} :
    Heeds frozen (disposeShared worker caller path) :=
  fun w inv => ((settles_disposeShared worker caller path inv.numbered).and
    (leaves_disposeShared worker inv.numbered)).mono fun r v removed => by
      rcases removed.1 with ⟨rfl, -⟩ | ⟨-, -, target, t, -, -, -, -, wanes⟩
      · exact (Regime.lawful_heeding frozen).leads_refl inv
      · exact Regime.heeds_of_wanes inv (wanes _ (World.isClosed_all w) trivial)
          (World.Leaves.departs removed.2)

theorem heeds_shareInterp {source : Text} : Heeds frozen (shareInterp caller path source) := by
  refine .of_settles (fun w numbered => settles_shareInterp caller path source numbered)
    fun w r v inv linked => ?_
  obtain ⟨-, shared, holder, -, -, toHolder, -, -, -, -, -, changes⟩ := linked
  exact (Regime.allows_heeding frozen).leads inv (changes.nodes.imp fun _ _ _ found change =>
    .of_isGoverned (isGoverned_sharesAt inv.numbered toHolder found change))

theorem heeds_tree (o : TreeOp) : Heeds frozen o.run := by
  cases o with
  | create => exact heeds_create.bind fun _ => .pure _
  | delete => exact heeds_delete
  | share => exact heeds_shareInterp.bind fun _ => .pure _
  | dispose => exact heeds_disposeShared

/-- Changes of trust that are not granted, or thaw nothing that is frozen. -/
theorem ends_trust {c : TrustChange} (inv : w.IsHeedful)
    (held : ∀ s, frozen s → w.grants c caller path s = true → c.thaws = false) :
    Ends (c.run caller path) w fun _ v => (Regime.heeding frozen).Leads w v := by
  refine c.settles_run.leaves ((Regime.lawful_heeding frozen).leads_refl inv) fun r v done => ?_
  obtain ⟨-, s, n, takes⟩ := done
  exact Regime.heeds_of_takes inv takes fun here => held s here (World.grants_of_takes takes)

theorem heeds_trust {c : TrustChange} (cold : c.thaws = false) : Heeds frozen (c.run caller path) :=
  fun _ inv => ends_trust inv fun _ _ _ => cold

theorem heeds_addObject {value : HostValue} : Heeds frozen (addObject id name value) := by
  intro w inv
  have settles : Settles (addObject id name value) w fun _ v =>
      (Regime.heeding frozen).Leads w v := by
    refine .require fun _ => .node fun n found => .require fun alive => .require fun _ =>
      .get (.of_ends ?_)
    simp only [Ends.bind_iff, ends_change, Ends.pure_iff]
    have pushed := (Regime.allows_heeding frozen).same inv (v := { w with
      objects := w.objects.push { name, token := w.objects.size + 1, value } }) rfl
    refine (Regime.lawful_heeding frozen).leads_trans pushed
      ((Regime.allows_heeding frozen).modify pushed.1 fun m here => ?_)
    obtain rfl : n = m := Option.some.inj (found.symm.trans here)
    exact .of_departs (.of_same rfl rfl rfl rfl rfl (Node.bare_of_alive (by simpa using alive)))
      rfl rfl rfl
  exact settles.leaves ((Regime.lawful_heeding frozen).leads_refl inv) fun _ _ led => led

theorem nodes_dispose (o : Object) (w : World) : (w.dispose o).2.nodes = w.nodes := by
  unfold World.dispose
  cases o.value.disposal <;> simp

theorem heeds_removeObject : Heeds frozen (removeObject id name) := by
  have read : Reads (object? id name) :=
    (reads_node _).bind fun _ => reads_get.bind fun _ => .pure _
  refine read.heeds.bind fun found => ?_
  cases found with
  | none => exact .throw _
  | some o =>
    refine Heeds.bind (.modifyNode fun n => .of_departs (.of_same rfl rfl rfl rfl rfl
      fun _ bare => ⟨bare.links, bare.commands, bare.aliases, bare.policies, ?_⟩) rfl rfl rfl)
      fun _ => ?_
    · simp only [bare.objects, List.filter_nil]
    dsimp only
    split
    · refine .of_same fun w => ?_
      have same := nodes_dispose o w
      simp only [Ends.bind_iff, Ends.get_iff, Ends.set_iff]
      split <;> exact same
    · exact .pure _

theorem heeds_serviceDedicated {options : ServiceOptions} :
    Heeds frozen (serviceDedicated id options) := by
  refine (reads_node _).heeds.bind fun n => (reads_require _ _).heeds.bind fun _ => ?_
  dsimp only
  split
  · exact .throw _
  · exact .modifyNode fun _ => .of_rest rfl rfl

theorem heeds_overrideLimits {o : Limits.Override} :
    Heeds frozen (overrideLimits caller path o) := by
  intro w inv
  refine (ends_overrideLimits path o (.refl World.composes_isLike w)).mono fun _ v like => ?_
  refine (Regime.allows_heeding frozen).leads inv (like.mono fun i n n' same => ?_)
  rw [same]
  exact .of_rest rfl rfl

theorem heeds_overrideLimitsBelow {o : Limits.Override} (fuel : Nat) :
    Heeds frozen (overrideLimitsBelow caller o fuel path) := by
  induction fuel generalizing path with
  | zero => exact .pure _
  | succ fuel ih =>
    exact heeds_overrideLimits.bind fun _ => reads_children.heeds.bind fun names =>
      .forM (fun name => ih) names

end Op

/-! ### Manifests -/

namespace Attempt

variable {α β γ : Type} {frozen : NodeId → Prop} {onward : World → World → Prop}

/-- The attempt `x` tracks `y`, which heeds. -/
def Heeds (frozen : NodeId → Prop) (onward : World → World → Prop) (x y : Attempt α) : Prop :=
  (Regime.heeding frozen onward).Lawful → ∀ w, (Regime.heeding frozen onward).Keeps x.run y.run w

namespace Heeds

variable {x y : Attempt α}

theorem done (a : α) : Heeds frozen onward (pure a) (pure a) := fun law _ => law.pure _

/-- What follows an attempt, unless that is refused. -/
theorem bind {f g : α → Attempt β} (first : Heeds frozen onward x y)
    (next : ∀ a, Heeds frozen onward (f a) (g a)) :
    Heeds frozen onward (x >>= f) (y >>= g) := fun law w => by
  rw [ExceptT.run_bind, ExceptT.run_bind]
  refine law.bind (first law w) fun r v => ?_
  cases r with
  | ok a => exact next a law v
  | error f => exact law.pure _

theorem forM {f g : γ → Attempt PUnit} (h : ∀ a, Heeds frozen onward (f a) (g a)) (as : List γ) :
    Heeds frozen onward (as.forM f) (as.forM g) := by
  induction as with
  | nil => exact .done _
  | cons a as ih => exact (h a).bind fun _ => ih

theorem op {o : Op α} (h : Op.Heeds frozen o) :
    Heeds frozen onward (Attempt.op o) (Attempt.op o) :=
  fun _ w => Regime.keeps_of_ends (h w)

/-- An operation that is asked for, or left out, and what follows it. -/
theorem optional (asked : Bool) {o : Op Unit} (h : Op.Heeds frozen o)
    (rest : Heeds frozen onward x y) :
    Heeds frozen onward (if asked = true then (do Attempt.op o; x) else x)
      (if asked = true then (do Attempt.op o; y) else y) := by
  split
  · exact (Heeds.op h).bind fun _ => rest
  · exact rest

theorem noting (note : Text) (h : Heeds frozen onward x y) :
    Heeds frozen onward (Attempt.noting note x) (Attempt.noting note y) := fun law w =>
  law.bind (h law w) fun _ _ => law.pure _

theorem evaluation {a b : Act Completion} (h : (Regime.heeding frozen onward).Lawful →
    ∀ w, (Regime.heeding frozen onward).Keeps a b w) :
    Heeds frozen onward (Attempt.evaluation a) (Attempt.evaluation b) := fun law w => by
  refine law.bind (h law w) fun c v => ?_
  split <;> exact law.pure _

end Heeds

end Attempt

namespace Manifest

/-- Makes interpreters that do not exist yet, in order. -/
def establish (e : Engine) (context : Option Context) (root : NodeId) (everywhere : Limits.Override)
    (specs : List InterpreterSpec) : Attempt Unit :=
  specs.forM fun spec => do
    if !(← getThe World).pathExists root spec.path then
      Attempt.noting ("manifest: interpreter " ++ Text.quoted spec.path)
        (make e context root everywhere spec)
      modifyThe World (World.log .debug "manifest interpreter created"
        [field "node" (Text.ofNat root), field "path" spec.path,
          field "safe" (flagField spec.safe)])

theorem apply_eq (e : Engine) (context : Option Context) (root : NodeId) (m : Manifest) :
    m.apply e context root = (do
      establish e context root m.limits m.interpreters
      Attempt.op (applyLimits root m)) := rfl

variable {frozen : NodeId → Prop} {id : NodeId} {path : Text}

theorem heeds_applyLimits (m : Manifest) : Op.Heeds frozen (applyLimits id m) := by
  have one (spec : InterpreterSpec) : Op.Heeds frozen (do
      if !spec.limits.isEmpty && (← get).pathExists id spec.path then
        Op.overrideLimits id spec.path spec.limits) := by
    refine Op.reads_get.heeds.bind fun w => ?_
    split
    · exact Op.heeds_overrideLimits
    · exact .pure _
  have all := Op.Heeds.forM one m.interpreters
  unfold applyLimits
  split
  · exact Op.reads_get.heeds.bind fun w => (Op.heeds_overrideLimitsBelow _).bind fun _ => all
  · exact all

theorem heeds_startWatchdog : Op.Heeds frozen (startWatchdog id path) := by
  refine (Op.reads_resolve _ _).heeds.bind fun target => fun w inv => ?_
  exact (Regime.allows_heeding frozen).changed inv (World.changes_startWatchdog target w)
    fun _ _ _ stirs => .of_stirs stirs

variable {onward : World → World → Prop} {e e' : Engine}
  (twins : (Regime.heeding frozen onward).Twins e e')

include twins

theorem heeds_make (context : Option Context) (everywhere : Limits.Override)
    (spec : InterpreterSpec) :
    Attempt.Heeds frozen onward (make e context id everywhere spec)
      (make e' context id everywhere spec) := by
  have evaluated (path script : Text) : Attempt.Heeds frozen onward
      (Attempt.evaluation (e.evaluateIn context id path script))
      (Attempt.evaluation (e'.evaluateIn context id path script)) :=
    .evaluation fun law w => law.evaluateIn twins context trivial path script
      fun _ closed => closed.elim
  unfold make
  dsimp only
  refine Attempt.Heeds.bind (.op Op.heeds_create) fun _ => .bind (.op Op.heeds_overrideLimits) fun _ =>
    .bind (.op Op.heeds_overrideLimits) fun _ => .bind (.forM (fun _ => .noting _ ?hides) _) fun _ =>
    .bind (.forM (fun _ => .noting _ ?exposes) _) fun _ =>
    .bind (.forM (fun _ => .noting _ ?aliases) _) fun _ =>
    .bind (.forM (fun _ => .noting _ ?guards) _) fun _ =>
    .bind (.forM (fun _ => .noting _ ?scripts) _) fun _ => ?marks
  case hides => exact .op Op.minds_hide.heeds
  case exposes => exact .op Op.minds_expose.heeds
  case aliases => exact .bind (.op Op.minds_aliasByShape.heeds) fun _ => .done _
  case guards => exact .bind (.op Op.minds_addPolicy.heeds) fun _ => .done _
  case scripts => exact evaluated _ _
  case marks =>
    have last : Attempt.Heeds frozen onward
        (if spec.immutable = true then Attempt.op (Op.setImmutable id spec.path true) else pure ())
        (if spec.immutable = true then Attempt.op (Op.setImmutable id spec.path true)
          else pure ()) := by
      split
      · exact .op (Op.heeds_trust (c := .immutable true) rfl)
      · exact .done _
    exact .optional _ heeds_startWatchdog (.optional _ (Op.heeds_trust (c := .trusted) rfl)
      (.optional _ (Op.heeds_trust (c := .readOnly true) rfl) last))

theorem heeds_establish (context : Option Context) (everywhere : Limits.Override)
    (specs : List InterpreterSpec) :
    Attempt.Heeds frozen onward (establish e context id everywhere specs)
      (establish e' context id everywhere specs) := by
  refine .forM (fun spec => ?_) specs
  refine .bind (x := getThe World) (y := getThe World) (.op (o := get) Op.reads_get.heeds) fun w => ?_
  split
  · refine .bind (.noting _ (heeds_make twins context everywhere spec)) fun _ => ?_
    exact .op (o := modify _) (Op.heeds_change fun w => World.nodes_log _ _ _ w)
  · exact .done _

theorem heeds_apply (context : Option Context) (m : Manifest) :
    Attempt.Heeds frozen onward (m.apply e context id) (m.apply e' context id) :=
  (heeds_establish twins context m.limits m.interpreters).bind fun _ => .op (heeds_applyLimits m)

end Manifest

/-! ### Deeds -/

namespace Engine

/-- An engine with some fuel and pace that gives up before the first request that `stops`. -/
def upTo (pace : Pace) (stops : Request → World → Bool) (fuel : Nat) : Engine :=
  ⟨fuel, runUntil pace stops fuel, pace⟩

end Engine

namespace World

/-- What hosts change by hand is what nodes are at, not what they are. -/
def Tinkers (w v : World) : Prop :=
  Each (fun _ n n' => n' = { n with
    backgroundError := n'.backgroundError, cancel := n'.cancel, queue := n'.queue
    frames := n'.frames, vars := n'.vars }) w v

/-- The world that a computation leaves behind, however it ends. -/
def after {ε α : Type} (w : World) (x : EStateM ε World α) : World :=
  match x w with
  | .ok _ v => v
  | .error _ v => v

end World

theorem Ends.after {ε α : Type} {w : World} {x : EStateM ε World α} {P : World → Prop}
    (h : Ends x w fun _ v => P v) : P (w.after x) := by
  unfold Ends at h
  unfold World.after
  split at h <;> simp_all

/-- What a host does with a tree, or lets happen in it. -/
inductive Deed
  | tree (o : TreeOp)
  | close
  | trust (caller : NodeId) (path : Text) (c : TrustChange)
  | define (id : NodeId) (spec : CommandSpec)
  | remove (id : NodeId) (name : Text)
  | hide (caller : NodeId) (path name newName : Text)
  | expose (caller : NodeId) (path name newName : Text)
  | defineAlias (caller : NodeId) (path name targetPath targetName : Text) (bound : List Text)
  | deleteAlias (caller : NodeId) (path name : Text)
  | aliasByShape (caller : NodeId) (path name : Text) (rest : List Text)
  | addPolicy (caller : NodeId) (path : Text) (spec : PolicySpec)
  | removePolicy (caller : NodeId) (path name : Text)
  | addObject (id : NodeId) (name : Text) (value : HostValue)
  | removeObject (id : NodeId) (name : Text)
  | shareObject (caller : NodeId) (path name : Text)
  | dedicate (id : NodeId) (options : ServiceOptions)
  | evaluate (context : Option Context) (id : NodeId) (script : Text)
  | evaluateIn (context : Option Context) (caller : NodeId) (path script : Text)
  | substitute (context : Option Context) (id : NodeId) (text : Text)
  | invoke (context : Option Context) (id : NodeId) (name : Text) (args : List Text)
  | invokeHidden (context : Option Context) (caller : NodeId) (path name : Text) (args : List Text)
      (global : Bool)
  | service (context : Option Context) (id : NodeId) (options : ServiceOptions)
  /-- Waits, with a deadline or without, while watchdogs and workers go on. -/
  | wait (deadline : Option Int) (roused : World → Bool)
  | manifest (context : Option Context) (root : NodeId) (m : Manifest)
  | limits (root : NodeId) (m : Manifest)
  | tinker (f : World → World) (tinkers : ∀ w : World, w.Tinkers (f w))

namespace Deed

/-- Does the deed. What it comes to does not matter. -/
def act (e : Engine) : Deed → Act Unit
  | tree o => discard (Act.attempt o.run)
  | close => modify World.close
  | trust caller path c => discard (Act.attempt (c.run caller path))
  | define id spec => discard (Act.attempt (Op.defineCommand id spec))
  | remove id name => discard (Act.attempt (Op.removeCommand id name))
  | hide caller path name newName => discard (Act.attempt (Op.hide caller path name newName))
  | expose caller path name newName => discard (Act.attempt (Op.expose caller path name newName))
  | defineAlias caller path name targetPath targetName bound =>
    discard (Act.attempt (Op.defineAlias caller path name targetPath targetName bound))
  | deleteAlias caller path name => discard (Act.attempt (Op.deleteAlias caller path name))
  | aliasByShape caller path name rest =>
    discard (Act.attempt (Op.aliasByShape caller path name rest))
  | addPolicy caller path spec => discard (Act.attempt (Op.addPolicy caller path spec))
  | removePolicy caller path name => discard (Act.attempt (Op.removePolicy caller path name))
  | addObject id name value => discard (Act.attempt (Op.addObject id name value))
  | removeObject id name => discard (Act.attempt (Op.removeObject id name))
  | shareObject caller path name => discard (Act.attempt (Op.shareObject caller path name))
  | dedicate id options => discard (Act.attempt (Op.serviceDedicated id options))
  | evaluate context id script => discard (e.evaluate context id script)
  | evaluateIn context caller path script => discard (e.evaluateIn context caller path script)
  | substitute context id text => discard (e.substitute context id text)
  | invoke context id name args => discard (e.invoke context id name args)
  | invokeHidden context caller path name args global =>
    discard (e.invokeHidden context caller path name args global)
  | service context id options => discard (e.serviceEvents context id options)
  | wait deadline roused => e.wait deadline roused
  | manifest context root m => discard (m.apply e context root).run
  | limits root m => discard (Act.attempt (m.applyLimits root))
  | tinker f _ => modify f

/-- Whether the deed is itself a change of trust that thaws node `s`, and will be granted. -/
def thaws (s : NodeId) (w : World) : Deed → Bool
  | trust caller path c => c.thaws && w.grants c caller path s
  | _ => false

variable {frozen : NodeId → Prop} {onward : World → World → Prop} {e e' : Engine} {w : World}

/-- Every deed heeds, unless it is itself a change of trust that thaws a frozen node. -/
theorem keeps_act (law : (Regime.heeding frozen onward).Lawful)
    (twins : (Regime.heeding frozen onward).Twins e e') (d : Deed)
    (held : ∀ s, frozen s → d.thaws s w = false) :
    (Regime.heeding frozen onward).Keeps (d.act e) (d.act e') w := by
  have ignored {α : Type} {x y : Act α} (h : (Regime.heeding frozen onward).Keeps x y w) :
      (Regime.heeding frozen onward).Keeps (discard x) (discard y) w :=
    law.bind h fun _ _ => law.pure _
  have operation {α : Type} {x : Op α} (h : Op.Heeds frozen x) :
      (Regime.heeding frozen onward).Keeps (discard (Act.attempt x)) (discard (Act.attempt x)) w :=
    ignored (Regime.keeps_of_ends (h w))
  cases d with
  | tree o => exact operation (Op.heeds_tree o)
  | close =>
    refine Regime.keeps_modify fun inv => ?_
    rcases World.close_cases inv.numbered with same | ⟨wanes, -⟩
    · exact (Regime.allows_heeding frozen).same inv (congrArg World.nodes same)
    · exact Regime.heeds_of_wanes inv wanes (World.departs_close inv.numbered inv.hasJoined_root)
  | trust caller path c =>
    refine ignored (Regime.keeps_of_ends fun inv => Op.ends_trust inv fun s here granted => ?_)
    have cold := held s here
    simpa only [thaws, granted, Bool.and_true] using cold
  | define id spec =>
    have governs : Op.Governs id (fun _ => False) _ := Op.governs_defineCommand id spec
    exact operation governs.heeds
  | remove id name =>
    have governs : Op.Governs id (fun _ => False) _ := Op.governs_removeCommand id name
    exact operation governs.heeds
  | hide => exact operation Op.minds_hide.heeds
  | expose => exact operation Op.minds_expose.heeds
  | defineAlias => exact operation Op.minds_defineAlias.heeds
  | deleteAlias => exact operation Op.minds_deleteAlias.heeds
  | aliasByShape => exact operation Op.minds_aliasByShape.heeds
  | addPolicy => exact operation Op.minds_addPolicy.heeds
  | removePolicy => exact operation Op.minds_removePolicy.heeds
  | addObject => exact operation Op.heeds_addObject
  | removeObject => exact operation Op.heeds_removeObject
  | shareObject => exact operation Op.minds_shareObject.heeds
  | dedicate => exact operation Op.heeds_serviceDedicated
  | evaluate => exact ignored (twins.evaluate _ trivial _)
  | evaluateIn =>
    exact ignored (law.evaluateIn twins _ trivial _ _ fun _ closed => closed.elim)
  | substitute => exact ignored (law.substitute twins _ trivial _)
  | invoke => exact ignored (law.invoke twins _ (.inl trivial) _ _)
  | invokeHidden => exact ignored (law.invokeHidden twins _ trivial _ _ _ _)
  | service => exact ignored (law.serviceEvents twins _ trivial _ fun _ _ _ _ => trivial)
  | wait => exact law.wait twins _ _
  | manifest context root m => exact ignored (m.heeds_apply twins context law w)
  | limits root m => exact operation m.heeds_applyLimits
  | tinker f tinkers =>
    refine Regime.keeps_modify fun inv => ?_
    refine (Regime.allows_heeding frozen).leads inv ((tinkers w).mono fun i n n' same => ?_)
    rw [same]
    exact .of_rest rfl rfl

end Deed

end InterpTree
