import InterpTree.Proofs.Course
import InterpTree.Proofs.Inmates
import InterpTree.Proofs.Keeping

/-!
Sandboxes. What a script does in a safe node stays among the nodes that links lead to from there:
they stay safe, and all other nodes stay as they are, except that they lose links and that their own
watchdogs go on looking.
-/

namespace InterpTree

namespace Node

/-- What may become of a node outside of a sandbox while scripts run inside: it loses links, and its
watchdog looks. -/
structure Stands (n n' : Node) : Prop where
  same : n' = { n with links := n'.links, cancel := n'.cancel }
  links : n'.links.Sublist n.links
  ticked : n.cancel.Ticked n'.cancel

theorem Stands.refl (n : Node) : Stands n n := ⟨rfl, .refl _, .still⟩

theorem Stands.trans {n m k : Node} (h : Stands n m) (h' : Stands m k) : Stands n k := by
  refine ⟨?_, h'.links.trans h.links, h.ticked.trans h'.ticked⟩
  rw [h'.same, h.same]

end Node

namespace World

variable {Z : NodeId → Prop} {w v u : World} {id : NodeId}

/-- What becomes of the nodes in the zone `Z` and outside of it. -/
def StaysAt (Z : NodeId → Prop) (i : NodeId) (n n' : Node) : Prop :=
  (Z i → n.Abides n') ∧ (¬ Z i → n.Stands n')

/-- The zone `Z` is a sandbox: links do not lead out of it, new nodes belong to it, its nodes are
inmates, and no other node has a worker. -/
structure IsConfined (Z : NodeId → Prop) (w : World) : Prop where
  numbered : w.IsNumbered
  closed : w.IsClosed Z
  fresh : ∀ i : Nat, w.nodes.size < i → Z i
  inmates : ∀ i n, w.node? i = some n → Z i → n.IsInmate
  idle : ∀ i n, w.node? i = some n → ¬ Z i → n.worker = none ∧ n.retiring = none

/-- What may become of a world by what runs in the zone `Z`. -/
structure Confines (Z : NodeId → Prop) (w v : World) : Prop where
  size : w.nodes.size ≤ v.nodes.size
  node : ∀ i n, w.node? i = some n → ∃ n', v.node? i = some n' ∧ StaysAt Z i n n'
  objects : v.objects = w.objects
  host : w.host.Notes v.host

theorem Confines.trans (h : Confines Z w v) (h' : Confines Z v u) : Confines Z w u := by
  refine ⟨Nat.le_trans h.size h'.size, fun i n found => ?_, h'.objects.trans h.objects,
    h.host.trans h'.host⟩
  obtain ⟨m, foundM, first⟩ := h.node i n found
  obtain ⟨k, foundK, second⟩ := h'.node i m foundM
  exact ⟨k, foundK, fun inside => (first.1 inside).trans (second.1 inside),
    fun outside => (first.2 outside).trans (second.2 outside)⟩

end World

/-- Runs in a sandbox. -/
def Regime.confinement (Z : NodeId → Prop) : Regime where
  inv := World.IsConfined Z
  rel := World.Confines Z
  zone := Z
  admits hidden action := hidden = false ∧ action.isHarmless = true
  serves _ _ := True
  permits _ _ := True
  strays w v := v.IsConfined Z ∧ w.Confines Z v

namespace Regime

variable {Z : NodeId → Prop} {w v u : World} {id target : NodeId}

theorem refl_stays (inv : w.IsConfined Z) {i : NodeId} {n : Node} (found : w.node? i = some n) :
    World.StaysAt Z i n n :=
  ⟨fun inside => .refl (inv.inmates i n found inside), fun _ => .refl n⟩

/-- Changes to nodes that add no links to nodes of the sandbox, or none that lead out of it. -/
theorem leads_of_stays (inv : w.IsConfined Z) (each : World.Each (World.StaysAt Z) w v)
    (closed : v.IsClosed Z) (objects : v.objects = w.objects) (host : w.host.Notes v.host) :
    (confinement Z).Leads w v := by
  refine ⟨⟨each.isNumbered (fun i n n' stays => ?_) inv.numbered, closed, fun i above => ?_,
    fun i n' found' inside => ?_, fun i n' found' outside => ?_⟩,
    ⟨Nat.le_of_eq each.size.symm, each.node, objects, host⟩⟩
  · by_cases inside : Z i
    · exact (stays.1 inside).id
    · rw [(stays.2 inside).same]
  · rw [each.size] at above
    exact inv.fresh i above
  · obtain ⟨n, found, stays⟩ := each.node_back found'
    exact (stays.1 inside).inmate
  · obtain ⟨n, found, stays⟩ := each.node_back found'
    rw [(stays.2 outside).same]
    exact inv.idle i n found outside

theorem leads_of_rests (inv : w.IsConfined Z) (rests : w.Rests v) :
    (confinement Z).Leads w v := by
  have same := World.node?_congr rests.nodes
  refine leads_of_stays inv ⟨congrArg Array.size rests.nodes, fun i n found => ?_⟩ ?_ rests.objects
    rests.host
  · exact ⟨n, (same i).trans found, refl_stays inv found⟩
  · intro i n found inside
    exact inv.closed i n ((same i).symm.trans found) inside

/-- A change of one node of the sandbox. -/
theorem leads_of_abides {P : Node → Node → Prop} (inv : w.IsConfined Z) (inside : Z target)
    (changes : World.Changes (World.At target P) w v)
    (h : ∀ n n', w.node? target = some n → n.IsInmate → P n n' →
      n.Abides n' ∧ n'.links ⊆ n.links) : (confinement Z).Leads w v := by
  have each : World.Each (fun i n n' => World.StaysAt Z i n n' ∧ n'.links ⊆ n.links) w v := by
    refine ⟨changes.nodes.size, fun i n found => ?_⟩
    obtain ⟨n', found', change⟩ := changes.nodes.node i n found
    refine ⟨n', found', ?_⟩
    by_cases here : i = target
    · subst here
      obtain ⟨abides, links⟩ :=
        h n n' found (inv.inmates i n found inside) (World.at_same.mp change)
      exact ⟨⟨fun _ => abides, fun outside => absurd inside outside⟩, links⟩
    · obtain rfl := (World.at_ne here).mp change
      exact ⟨refl_stays inv found, fun _ mem => mem⟩
  refine leads_of_stays inv (each.mono fun _ _ _ h => h.1) ?_ changes.still.objects
    changes.still.host
  intro i n' found' inside' l mem
  obtain ⟨n, found, -, links⟩ := each.node_back found'
  exact inv.closed i n found inside' l (links mem)

/-- A change of what a node of the sandbox has to do, apart from its links. -/
theorem leads_of_modify_inmate {f : Node → Node} (inv : w.IsConfined Z) (inside : Z target)
    (h : ∀ n, w.node? target = some n → n.IsInmate → n.Abides (f n) ∧ (f n).links = n.links) :
    (confinement Z).Leads w (w.modifyNode target f) := by
  refine leads_of_abides (P := fun n n' => n' = f n) inv inside
    (World.changes_modifyNode fun _ _ => rfl) fun n n' found inmate same => ?_
  obtain ⟨abides, links⟩ := h n found inmate
  rw [same]
  exact ⟨abides, links ▸ fun _ mem => mem⟩

theorem leads_of_cancel {f : Node → Cancellation} (inv : w.IsConfined Z) (inside : Z target)
    (h : ∀ n, w.node? target = some n → (f n).limits = n.cancel.limits) :
    (confinement Z).Leads w (w.modifyNode target fun n => { n with cancel := f n }) :=
  leads_of_modify_inmate inv inside fun n found inmate => ⟨.of_cancel inmate (h n found), rfl⟩

theorem leads_of_frames {f : Node → CallStack} (inv : w.IsConfined Z) (inside : Z target) :
    (confinement Z).Leads w (w.modifyNode target fun n => { n with frames := f n }) :=
  leads_of_modify_inmate inv inside fun _ _ inmate =>
    ⟨.of_rest inmate rfl (fun retiring => retiring) rfl, rfl⟩

/-- One node more. -/
theorem leads_of_new {m : Node} (inv : w.IsConfined Z) (size : v.nodes.size = w.nodes.size + 1)
    (old : ∀ i n, w.node? i = some n → ∃ n', v.node? i = some n' ∧ World.StaysAt Z i n n')
    (new : v.node? (w.nodes.size + 1) = some m) (numbered : v.IsNumbered) (inmate : m.IsInmate)
    (closed : v.IsClosed Z) (still : World.Still w v) : (confinement Z).Leads w v := by
  have back {i : Nat} {n' : Node} (found' : v.node? i = some n') :
      (i = w.nodes.size + 1 ∧ n' = m) ∨ ∃ n, w.node? i = some n ∧ World.StaysAt Z i n n' := by
    by_cases last : i = w.nodes.size + 1
    · subst last
      exact .inl ⟨rfl, Option.some.inj (found'.symm.trans new)⟩
    · have bound := World.le_size_of_node? found'
      obtain ⟨n, found⟩ := World.exists_node? (w := w) (World.pos_of_node? found') (by omega)
      obtain ⟨k, foundK, stays⟩ := old i n found
      obtain rfl : n' = k := Option.some.inj (found'.symm.trans foundK)
      exact .inr ⟨n, found, stays⟩
  refine ⟨⟨numbered, closed, fun i above => inv.fresh i (by omega), fun i n' found' inside => ?_,
    fun i n' found' outside => ?_⟩, ⟨by omega, old, still.objects, still.host⟩⟩
  · rcases back found' with ⟨-, rfl⟩ | ⟨n, found, stays⟩
    · exact inmate
    · exact (stays.1 inside).inmate
  · rcases back found' with ⟨rfl, -⟩ | ⟨n, found, stays⟩
    · exact absurd (inv.fresh _ (by omega)) outside
    · rw [(stays.2 outside).same]
      exact inv.idle i n found outside

/-- A child of a node of the sandbox. -/
theorem leads_of_grows {options : CreateOptions} {parent : NodeId} {name : Text} {c p m : Node}
    (inv : w.IsConfined Z) (inside : Z parent)
    (grows : World.Grows parent name m w v) (safe : c.trust.safe = true)
    (child : Op.IsChild options name c p (w.nodes.size + 1) m) : (confinement Z).Leads w v := by
  have inmate : m.IsInmate := by
    obtain ⟨n, isNew, rfl⟩ := child.made
    exact Node.isInmate_join isNew (Node.safe_trust safe)
  refine leads_of_new inv grows.size (fun i n found => ⟨_, grows.node_old found, ?_⟩) grows.node_new
    (grows.isNumbered child.id_eq inv.numbered) inmate ?_ grows.still
  · split
    · rename_i here
      subst here
      have inmate := inv.inmates i n found inside
      exact ⟨fun _ => .of_addLink inmate _, fun outside => absurd inside outside⟩
    · exact refl_stays inv found
  · intro i n' found' inside' l mem
    rcases grows.link_cases child.links found' mem with ⟨n, found, old⟩ | ⟨-, rfl⟩
    · exact inv.closed i n found inside' l old
    · exact inv.fresh _ (Nat.lt_succ_self _)

/-- A node that could not be populated. -/
theorem leads_of_spoils {parent : NodeId} {trust : Trust} {n m : Node} (inv : w.IsConfined Z)
    (gains : World.Gains m w v) (isNew : n.IsNew (w.nodes.size + 1) parent trust)
    (safe : trust.safe = true) (detached : n.attached = false) (bare : n.commands = [])
    (strips : n.Strips n m) : (confinement Z).Leads w v := by
  refine leads_of_new inv gains.size (fun i k found => ⟨k, gains.old found, refl_stays inv found⟩)
    gains.new (gains.isNumbered (strips.id.trans isNew.id) inv.numbered)
    (Node.isInmate_spoiled isNew safe detached bare strips) ?_ gains.still
  intro i n' found' inside l mem
  rcases gains.node_cases found' with ⟨-, rfl⟩ | found
  · rw [World.strips_links_nil isNew strips] at mem
    cases mem
  · exact inv.closed i n' found inside l mem

/-- Removals in the sandbox. -/
theorem leads_of_wanes (inv : w.IsConfined Z) (wanes : World.Wanes Z w v) :
    (confinement Z).Leads w v := by
  refine leads_of_stays inv ⟨wanes.nodes.size, fun i n found => ?_⟩ (wanes.isClosed inv.closed)
    wanes.still.objects wanes.still.host
  obtain ⟨n', found', fades, outside⟩ := wanes.nodes.node i n found
  refine ⟨n', found', fun inside => .of_fades (inv.inmates i n found inside) fades, fun out => ?_⟩
  have same := outside out
  have cancel : n'.cancel = n.cancel := by rw [same]
  refine ⟨?_, fades.links, cancel ▸ .still⟩
  rw [cancel]
  exact same

/-- What a subcommand does that runs no scripts. -/
theorem confined_of_does {call : Call} {name : Text} {words : List Text} (inv : w.IsConfined Z)
    (inside : Z call.node) (did : Control.Does (.of call name) words w v) :
    (confinement Z).Leads w v := by
  have below {path : Text} {target : NodeId}
      (resolved : w.resolve? (Control.Invocation.of call name).node path = some target) : Z target :=
    inv.closed.resolve? inv.numbered inside resolved
  cases did with
  | rests rests => exact leads_of_rests inv rests
  | stirs target path resolved changes =>
    refine leads_of_abides inv (below resolved) changes fun n n' _ inmate stirs =>
      ⟨.of_stirs inmate stirs, ?_⟩
    rw [stirs.same]
    exact fun _ mem => mem
  | grows options name path parent c p m asker resolved found grows child =>
    exact leads_of_grows inv (below resolved) grows (inv.inmates _ c asker inside).tame.safe child
  | spoils options path parent c p n m asker resolved found gains isNew detached bare strips _ =>
    exact leads_of_spoils inv gains isNew
      (Node.safe_trust (inv.inmates _ c asker inside).tame.safe) detached bare strips
  | wanes wanes departs => exact leads_of_wanes inv (wanes Z inv.closed inside)
  | governs c asker trusted changes =>
    rw [(inv.inmates _ c asker inside).tame.safe] at trusted
    cases trusted
  | trusts change path target n asked takes =>
    obtain ⟨c, asker, trusted⟩ := takes.asker
    rw [(inv.inmates _ c asker inside).tame.safe] at trusted
    cases trusted
  | posts named target path force unwind message asked resolved posted =>
    obtain ⟨n, c, found, canceled, changes⟩ := World.of_postCancel posted
    refine leads_of_abides inv (below resolved) changes fun m m' _ inmate change => ?_
    obtain ⟨rfl, rfl⟩ := change
    exact ⟨.of_cancel inmate (Cancellation.limits_cancel canceled), fun _ mem => mem⟩
  | resets named target path force n asked resolved found supervised reset =>
    subst reset
    refine leads_of_cancel inv (below resolved) fun m here => ?_
    obtain rfl : n = m := Option.some.inj (found.symm.trans here)
    exact Cancellation.limits_reset force n.cancel
  | dedicates named target path options n worker asked resolved found alive supervised submitted
      hired =>
    subst hired
    exact leads_of_modify_inmate inv (below resolved) fun m _ inmate =>
      ⟨.of_rest inmate rfl (fun retiring => retiring) rfl, rfl⟩

theorem leads_of_enter (inv : w.IsConfined Z) (inside : Z id) :
    (confinement Z).Leads w
      (w.modifyNode id fun n => { n with cancel := n.cancel.enter w.clock }) :=
  leads_of_cancel inv inside fun _ _ => rfl

/-- Watchdogs look in the sandbox and outside of it. -/
theorem leads_of_look {n : Node} (inv : w.IsConfined Z) (found : w.node? id = some n)
    (running : n.cancel.watchdog.isSome = true) :
    (confinement Z).Leads w (w.lookWatchdog id) := by
  have changes := World.changes_lookWatchdog id w
  by_cases inside : Z id
  · refine leads_of_abides inv inside changes fun m m' _ inmate ticked => ?_
    rw [ticked]
    exact ⟨.of_cancel inmate (Cancellation.limits_tick w.clock m.cancel), fun _ mem => mem⟩
  · have each : World.Each (fun i n n' => World.StaysAt Z i n n' ∧ n'.links = n.links) w
        (w.lookWatchdog id) := by
      refine ⟨changes.nodes.size, fun i m foundM => ?_⟩
      obtain ⟨m', foundM', change⟩ := changes.nodes.node i m foundM
      refine ⟨m', foundM', ?_⟩
      by_cases here : i = id
      · subst here
        obtain rfl : n = m := Option.some.inj (found.symm.trans foundM)
        rw [World.at_same.mp change]
        exact ⟨⟨fun within => absurd within inside,
          fun _ => ⟨rfl, .refl _, .look .still running w.clock⟩⟩, rfl⟩
      · rw [(World.at_ne here).mp change]
        exact ⟨refl_stays inv foundM, rfl⟩
    refine leads_of_stays inv (each.mono fun _ _ _ h => h.1) ?_ changes.still.objects
      changes.still.host
    intro i m' foundM' within l mem
    obtain ⟨m, foundM, -, links⟩ := each.node_back foundM'
    exact inv.closed i m foundM within l (links ▸ mem)

theorem lawful_confinement (Z : NodeId → Prop) : (confinement Z).Lawful where
  refl {w} inv := ⟨Nat.le_refl _, fun i n found => ⟨n, found, refl_stays inv found⟩, rfl, .refl _⟩
  trans h h' := h.trans h'
  numbered inv := inv.numbered
  resolve inv inside resolved := .inl (inv.closed.resolve? inv.numbered inside resolved)
  visible inv inside found visible :=
    ⟨⟨rfl, (inv.inmates _ _ found inside).tame.visible? visible⟩, trivial⟩
  hidden inv inside asker trusted _ _ _ := by
    rw [(inv.inmates _ _ asker inside).tame.safe] at trusted
    cases trusted
  forward _ admitted _ := by
    cases admitted.2
  asks inv near found p mem := by
    rw [(inv.inmates _ _ found (near.resolve_right id)).tame.policies] at mem
    cases mem
  barred closed := closed.elim
  shields _ _ _ closed := closed.elim
  gone denier := denier.elim
  attends _ _ _ _ _ := id
  onward_trans on _ := on
  onward_tidy _ _ on := on
  onward_strays on _ := on
  strays_trans led strayed := ⟨strayed.1, led.2.trans strayed.2⟩
  strays_pushed inv near _ strayed :=
    ⟨strayed.1, (leads_of_frames inv (near.resolve_right id)).2.trans strayed.2⟩
  strays_entered inv inside strayed := ⟨strayed.1, (leads_of_enter inv inside).2.trans strayed.2⟩
  overtakes {w v id _ pending} inv inside _ _ strayed := by
    have back := leads_of_rests (v := { v with horizon := w.horizon }) strayed.1 ⟨rfl, rfl, .refl _⟩
    have left := leads_of_modify_inmate (f := fun n => { n with unfinished := some pending }) back.1
      inside fun _ _ inmate => ⟨.of_rest inmate rfl (fun retiring => retiring) rfl, rfl⟩
    exact ⟨left.1, (strayed.2.trans back.2).trans left.2⟩
  staff {w id n} inv found loop mem := by
    by_cases inside : Z id
    · exact ⟨inside, fun _ _ => trivial⟩
    · obtain ⟨worker, retiring⟩ := inv.idle id n found inside
      rw [worker, retiring] at mem
      cases mem
  serve _ _ _ _ _ _ _ _ := trivial
  rests inv rests := leads_of_rests inv rests
  host f inv admitted := by
    rcases admitted with ⟨-, harmless⟩ | ⟨-, harmless⟩
    · exact absurd harmless (by decide)
    · exact absurd harmless (by decide)
  look inv found running := leads_of_look inv found running
  stirs inv near changes := by
    refine leads_of_abides inv (near.resolve_right id) changes fun n n' _ inmate stirs =>
      ⟨.of_stirs inmate stirs, ?_⟩
    rw [stirs.same]
    exact fun _ mem => mem
  defines {w id n spec name params body c n'} inv inside found procedure defined := by
    refine leads_of_modify_inmate inv inside fun m here inmate => ?_
    obtain rfl : n = m := Option.some.inj (found.symm.trans here)
    refine ⟨.of_define inmate procedure defined, ?_⟩
    rw [Node.same_of_define defined]
  push inv near _ _ := (leads_of_frames inv (near.resolve_right id)).1
  pop {w v id n name flags} inv near _ led := by
    have inside := near.resolve_right fun closed : False => closed
    have pushed := leads_of_frames (f := fun _ => (n.frames.push name flags).2) inv inside
    have popped := leads_of_frames
      (f := fun m => (m.frames.popThrough (n.frames.push name flags).1).2) led.1 inside
    exact ⟨popped.1, (pushed.2.trans led.2).trans popped.2⟩
  enter inv inside _ _ := (leads_of_enter inv inside).1
  exit {w v id} inv inside led := by
    have left : (confinement Z).Leads v
        (v.modifyNode id fun n => { n with cancel := n.cancel.exit }) :=
      leads_of_cancel led.1 inside fun n _ => Cancellation.limits_exit n.cancel
    exact ⟨left.1, ((leads_of_enter inv inside).2.trans led.2).trans left.2⟩
  leave {w id options} inv inside _ := by
    unfold ServiceOptions.leave
    split
    · exact leads_of_cancel inv inside fun n _ => Cancellation.limits_reset true n.cancel
    · exact leads_of_rests inv (.refl w)
  works inv inside h := leads_of_modify_inmate inv inside fun n found inmate => by
    have works := h n found
    refine ⟨.of_works inmate works, ?_⟩
    rw [works.same]
  retires {w v id n} inv inside found retiring changes _ := by
    refine leads_of_abides inv inside changes fun m m' here inmate strips => ?_
    obtain rfl : n = m := Option.some.inj (found.symm.trans here)
    exact ⟨.of_released inmate retiring strips, strips.links.subset⟩
  does inv inside _ _ did := confined_of_does inv inside did

end Regime

/-- Whether a request is for a hidden command. -/
def Request.isHidden : Request → Bool
  | .evaluate _ _ _ => false
  | .perform call _ => call.hidden

namespace World

variable {w v : World} {s : NodeId}

/-- Node `s` is a sandbox: what links lead to from there is safe, without aliases and policies, and
sees harmless commands only. Nobody has a worker. -/
structure IsSandbox (w : World) (s : NodeId) : Prop where
  numbered : w.IsNumbered
  tame : ∀ i n, w.LeadsTo s i → w.node? i = some n → n.IsTame
  idle : ∀ i n, w.node? i = some n → n.worker = none ∧ n.retiring = none

/-- Where scripts in a sandbox run: in the nodes that are reached from it and in new ones. -/
def Inside (w : World) (s i : NodeId) : Prop := w.LeadsTo s i ∨ w.nodes.size < i

theorem IsSandbox.isConfined (sandbox : w.IsSandbox s) : w.IsConfined (w.Inside s) := by
  have old {i : Nat} {n : Node} (found : w.node? i = some n) (inside : w.Inside s i) :
      w.LeadsTo s i :=
    inside.resolve_right (Nat.not_lt.mpr (le_size_of_node? found))
  refine ⟨sandbox.numbered, fun i n found inside l mem => ?_, fun i above => .inr above,
    fun i n found inside => ⟨sandbox.tame i n (old found inside) found, fun retiring => ?_⟩,
    fun i n found _ => sandbox.idle i n found⟩
  · exact .inl ((old found inside).tail ⟨n, found, l, mem, rfl⟩)
  · rw [(sandbox.idle i n found).2] at retiring
    cases retiring

/-- What a sandbox keeps to itself. -/
structure Contains (w : World) (s : NodeId) (v : World) : Prop where
  /-- Nodes outside stay as they are, but for what their own watchdogs make of their controllers. -/
  outside : ∀ i n, w.node? i = some n → ¬ w.LeadsTo s i → ∃ n', v.node? i = some n' ∧
    n' = { n with links := n'.links, cancel := n'.cancel } ∧ n'.links.Sublist n.links ∧
    n'.cancel.limits = n.cancel.limits ∧ n.cancel.Ticked n'.cancel ∧
    (n.cancel.watchdog = none → n'.cancel = n.cancel)
  /-- Nodes inside that are still part of the tree are as safe as before. -/
  inside : ∀ i n n', w.node? i = some n → w.LeadsTo s i → v.node? i = some n' →
    n'.attached = true → n'.trust.safe = true ∧ n'.trust = n.trust ∧
      n'.commands.filter Entry.hidden = n.commands.filter Entry.hidden ∧
      n'.aliases = n.aliases ∧ n'.policies = n.policies ∧ n'.objects = n.objects ∧
      n'.cancel.limits = n.cancel.limits
  /-- New nodes are safe. -/
  made : ∀ i n', w.node? i = none → v.node? i = some n' → n'.trust.safe = true
  objects : v.objects = w.objects
  /-- The host takes notes, but neither changes files nor exits. -/
  host : w.host.Notes v.host

theorem contains_of_leads (led : (Regime.confinement (w.Inside s)).Leads w v) :
    w.Contains s v := by
  obtain ⟨inv, confines⟩ := led
  refine ⟨fun i n found outside => ?_, fun i n n' found reached found' attached => ?_,
    fun i n' none found' => ?_, confines.objects, confines.host⟩
  · have out : ¬ w.Inside s i := fun inside =>
      outside (inside.resolve_right (Nat.not_lt.mpr (le_size_of_node? found)))
    obtain ⟨n', found', stays⟩ := confines.node i n found
    have stands := stays.2 out
    exact ⟨n', found', stands.same, stands.links, stands.ticked.limits, stands.ticked,
      fun stopped => stands.ticked.eq_of_stopped stopped⟩
  · obtain ⟨m, foundM, stays⟩ := confines.node i n found
    obtain rfl : n' = m := Option.some.inj (found'.symm.trans foundM)
    have abides := stays.1 (.inl reached)
    exact ⟨abides.inmate.tame.safe, abides.trust, (abides.kept attached).2⟩
  · have above : w.nodes.size < i := by
      by_contra below
      obtain ⟨n, found⟩ := exists_node? (w := w) (pos_of_node? found') (Nat.not_lt.mp below)
      rw [none] at found
      cases found
    exact (inv.inmates i n' found' (.inr above)).tame.safe

/-- Whatever script runs in a sandbox, it runs no hidden command, and the sandbox keeps to itself
what it does. -/
theorem contains_of_evaluate (sandbox : w.IsSandbox s) (pace : Pace) (fuel : Nat)
    (context : Option Context) (script : Text) :
    Engine.runUntil pace (fun r _ => r.isHidden) fuel (.evaluate context s script) w =
        Engine.run pace fuel (.evaluate context s script) w ∧
      Ends (Engine.run pace fuel (.evaluate context s script)) w fun _ v => w.Contains s v := by
  have law := Regime.lawful_confinement (w.Inside s)
  have paces : (Regime.confinement (w.Inside s)).Paces pace := fun _ _ inv => ⟨inv, law.refl inv⟩
  have never (r : Request) (v : World) (may : (Regime.confinement (w.Inside s)).May r) :
      r.isHidden = false := by
    cases r with
    | evaluate _ _ _ => rfl
    | perform call action => exact may.2.1
  have alike := law.runUntil (fun r _ => r.isHidden) (fun _ _ => false)
    paces (fun r v _ may _ => .inl (never r v may)) (fun _ _ _ _ _ => trivial) (fun _ _ closed => closed.elim)
    (fun _ _ _ _ _ denier _ _ => denier.elim) fuel (.evaluate context s script) w
    (.inl ⟨.inl .refl, trivial⟩) sandbox.isConfined
  rw [Engine.runUntil_never] at alike
  exact ⟨alike.eq, alike.ends.mono fun _ _ done => contains_of_leads (done.1.elim id)⟩

/-- A tame node that leads nowhere is a sandbox. -/
theorem isSandbox_of_alone {n : Node} (numbered : w.IsNumbered) (found : w.node? s = some n)
    (alone : n.links = []) (tame : n.IsTame)
    (idle : ∀ n ∈ w.nodes.toList, n.worker = none ∧ n.retiring = none) :
    w.IsSandbox s ∧ ∀ i, w.LeadsTo s i → i = s := by
  have stays (i : NodeId) (leads : w.LeadsTo s i) : i = s := by
    induction leads with
    | refl => rfl
    | tail _ link ih =>
      subst ih
      obtain ⟨m, foundM, l, mem, -⟩ := link
      obtain rfl : n = m := Option.some.inj (found.symm.trans foundM)
      rw [alone] at mem
      cases mem
  refine ⟨⟨numbered, fun i m leads foundM => ?_, forall_node?_iff.mpr idle⟩, stays⟩
  obtain rfl := stays i leads
  obtain rfl : n = m := Option.some.inj (found.symm.trans foundM)
  exact tame

/-- A root in the middle of an evaluation that its watchdog may end, and a safe child `s`. -/
def watched : World :=
  match (do
      let _ ← Op.create root [] "s" { safe := true }
      Op.change (modifyNode root fun n =>
        { n with cancel :=
          { n.cancel with limits := { n.cancel.limits with timeout := 50 * millisecond }, depth := 1 } })
      let _ ← modifyGet (startWatchdog root)
      return : Op Unit) ((plant {} {}).toOption.getD {}) with
  | .ok _ v => v
  | .error _ v => v

/-- The same with a log file still to be opened. -/
def watchedAndLogged : World :=
  watched.modifyHost fun h => { h with logLevel := some .debug, logFile := some "log" }

theorem isSandbox_watched :
    watched.IsSandbox 2 ∧ ∀ i, watched.LeadsTo 2 i → i = 2 := by
  have numbered : watched.IsNumbered := by decide +kernel
  have idle : ∀ n ∈ watched.nodes.toList, n.worker = none ∧ n.retiring = none := by decide +kernel
  have child : (watched.node? 2).any (fun n => n.links = [] ∧ n.IsTame) = true := by decide +kernel
  obtain ⟨n, found, holds⟩ := Option.any_eq_true _ _ |>.mp child
  obtain ⟨alone, tame⟩ := of_decide_eq_true holds
  exact isSandbox_of_alone numbered found alone tame idle

/-- The child makes a child of its own and runs a procedure in it. -/
theorem contains_of_evaluate_watched :
    watched.IsSandbox 2 ∧
      Ends (Engine.run .timely 30 (.evaluate none 2 "interp create c; interp eval c {proc p {} {}; p}"))
        watched fun _ v => watched.Contains 2 v :=
  ⟨isSandbox_watched.1, (contains_of_evaluate isSandbox_watched.1 .timely 30 none _).2⟩

/-- While the child waits, the watchdog of the root ends the evaluation of the root; and the first
record that is kept makes a log file. -/
theorem watched_changes :
    watched.IsSandbox 2 ∧ ¬ watched.LeadsTo 2 root ∧
    (watched.node? root).any (fun r => r.cancel.state = .idle) = true ∧
    Ends (Engine.run .timely 30 (.evaluate none 2 "after 300")) watched (fun _ v =>
      (v.node? root).any (fun r => r.cancel.state = .pending) = true) ∧
    watchedAndLogged.IsSandbox 2 ∧
    Ends (Engine.run .timely 30 (.evaluate none 2 "interp create c")) watchedAndLogged fun _ v =>
      v.host.files ≠ watchedAndLogged.host.files := by
  obtain ⟨sandbox, alone⟩ := isSandbox_watched
  refine ⟨sandbox, fun leads => ?_, by decide +kernel, by decide +kernel,
    ⟨sandbox.numbered, sandbox.tame, sandbox.idle⟩, by decide +kernel⟩
  have same := alone root leads
  exact absurd same (by decide)

end World

end InterpTree
