import InterpTree.Proofs.Moments
import InterpTree.Proofs.Paths

/-!
Policies on evaluation. Main statement: a script that runs in one node gets no script evaluated in
another node, if a policy of that node denies evaluation. Such a policy is asked where a script is
handed to the node for evaluation. It is not asked by a service loop in the node, which evaluates
what others queued there.
-/

namespace InterpTree

namespace Node

/-- What may become of node `i` while no commands are called in node `t`: node `t` gets no worker, and
no policies are installed by it. -/
structure Secludes (t i : NodeId) (n n' : Node) : Prop where
  id : n'.id = n.id
  live : n'.isLive = true → n.isLive = true
  idle : i = t → n.IsIdle → n'.IsIdle
  policies : ∀ p ∈ n'.policies, p.owner = t → p ∈ n.policies

namespace Secludes

variable {t i : NodeId} {n m k : Node}

/-- A change that concerns neither the place of the node in the tree nor its workers and policies. -/
theorem of_rest (same : m = { n with
    path := m.path, home := m.home, released := m.released, ended := m.ended, shared := m.shared
    sharedLinks := m.sharedLinks, trust := m.trust, links := m.links, commands := m.commands
    aliases := m.aliases, policySeq := m.policySeq, objects := m.objects, seq := m.seq
    backgroundError := m.backgroundError, cancel := m.cancel, queue := m.queue, frames := m.frames
    vars := m.vars, busy := m.busy, unfinished := m.unfinished }) : Secludes t i n m := by
  rw [same]
  exact ⟨rfl, fun stays => stays, fun _ idle => idle, fun _ mem _ => mem⟩

theorem refl (n : Node) : Secludes t i n n := of_rest rfl

theorem trans (h : Secludes t i n m) (h' : Secludes t i m k) : Secludes t i n k where
  id := h'.id.trans h.id
  live stays := h.live (h'.live stays)
  idle here start := h'.idle here (h.idle here start)
  policies p mem own := h.policies p (h'.policies p mem own) own

theorem of_stirs (h : n.Stirs m) : Secludes t i n m := by
  refine of_rest ?_
  rw [h.same]

theorem of_isGoverned {caller : NodeId} (other : caller ≠ t) (h : n.IsGoverned caller m) :
    Secludes t i n m where
  id := h.id
  live stays := by
    unfold isLive at stays ⊢
    rw [← h.attached, ← h.dead]
    exact stays
  idle _ start := ⟨h.worker.trans start.1, h.retiring.trans start.2⟩
  policies p mem own := (h.policies p mem).resolve_right fun owned => other (owned.symm.trans own)

theorem of_strips (h : n.Strips n m) : Secludes t i n m where
  id := h.id
  live stays := by
    simp only [isLive, Bool.and_eq_true, Bool.not_eq_true'] at stays ⊢
    refine ⟨h.attached stays.1, ?_⟩
    cases dead : n.dead with
    | false => rfl
    | true =>
      rw [h.dead dead] at stays
      cases stays.2
  idle _ start := h.idle start start
  policies _ mem _ := h.policies.subset mem

theorem of_works {serves : ServiceOptions → Prop} (other : i ≠ t) (h : n.Works serves m) :
    Secludes t i n m := by
  rw [h.same]
  exact ⟨rfl, fun stays => stays, fun here => absurd here other, fun _ mem _ => mem⟩

theorem of_define {spec : CommandSpec} {c : Command} (h : n.define spec = .ok (c, m)) :
    Secludes t i n m := by
  refine of_rest ?_
  rw [same_of_define h]

theorem of_amend (c : TrustChange) : Secludes t i n (c.amend n) := by
  refine of_rest ?_
  rw [c.same_amend n]

end Secludes

end Node

namespace World

variable {w v u : World} {t i owner : NodeId} {n m : Node} {guards : List Text}

theorem composes_secludes (t : NodeId) : Composes (Node.Secludes t) :=
  ⟨fun _ => .refl, fun _ _ _ _ => .trans⟩

/-- Node `t` has no worker, its own policies have scripts from among `guards`, and `owner` exists. -/
structure IsSecluded (t owner : NodeId) (guards : List Text) (w : World) : Prop where
  numbered : w.IsNumbered
  idle : ∀ n, w.node? t = some n → n.IsIdle
  guards : ∀ i n, w.node? i = some n → ∀ p ∈ n.policies, p.owner = t →
    p.isSilent = true ∨ p.script ∈ guards
  owner : ∃ n, w.node? owner = some n

/-- No node comes to life again. -/
def Withers (w v : World) : Prop :=
  ∀ i n, w.node? i = some n → ∃ n', v.node? i = some n' ∧ (n'.isLive = true → n.isLive = true)

theorem Withers.refl (w : World) : Withers w w := fun _ n found => ⟨n, found, id⟩

theorem Withers.trans (h : Withers w v) (h' : Withers v u) : Withers w u := by
  intro i n found
  obtain ⟨m, foundM, first⟩ := h i n found
  obtain ⟨k, foundK, second⟩ := h' i m foundM
  exact ⟨k, foundK, first ∘ second⟩

theorem Withers.live? (h : Withers w v) (found : w.node? i = some n) (gone : w.live? i = none) :
    v.live? i = none := by
  obtain ⟨n', found', live⟩ := h i n found
  simp only [World.live?, found, found', Option.filter_some, ite_eq_right_iff, reduceCtorEq,
    imp_false] at gone ⊢
  exact fun stays => gone (live stays)

/-- The policy is in force in node `t`: it is installed there, and its owner is part of the tree. -/
def enforces (w : World) (t : NodeId) (p : Policy) : Bool :=
  (w.node? t).any (fun n => n.policies.contains p) && (w.live? p.owner).isSome

/-- The scripts of the policies that node `t` installed, in whatever node. -/
def guardsOf (w : World) (t : NodeId) : List Text :=
  w.nodes.toList.flatMap fun n => (n.policies.filter fun p => p.owner = t).map Policy.script

end World

/-! ### Ways around a policy -/

/-- Whether the call is for a service loop in node `t`. -/
def Call.services (call : Call) (t : NodeId) (w : World) : Bool :=
  match call.args with
  | [] => false
  | name :: words =>
    name == Text.ofString "service" &&
      match Control.serviceWords (.of call "service") words w with
      | .ok (target, _, _) _ => target = t
      | .error _ _ => false

namespace Request

/-- Whether the request is to evaluate a script in node `t`. -/
def evaluates (t : NodeId) : Request → Bool
  | .evaluate _ id _ => id = t
  | .perform _ _ => false

/-- Whether the request is a way around policy `p` of node `t`, or not subject to it: the policy is no
more in force, a command of `t` is called, a service loop in `t` is asked for, or `t` is asked to
decide by one of the `guards` that it installed. -/
def bypasses (t : NodeId) (p : Policy) (guards : List Text) (r : Request) (w : World) : Bool :=
  !w.enforces t p ||
    match r with
    | .perform call .ensemble => call.node = t || call.services t w
    | .perform call _ => call.node = t
    | .evaluate context id script =>
      id = t && (context.bind Context.deciding).isSome && guards.contains script

end Request

namespace Request

variable {t : NodeId} {p : Policy} {guards : List Text} {w : World} {call : Call}

theorem enforces_of_direct {r : Request} (direct : r.bypasses t p guards w = false) :
    w.enforces t p = true := by
  simp only [bypasses, Bool.or_eq_false_iff, Bool.not_eq_false'] at direct
  exact direct.1

/-- A service loop that is no way around the policy is one in another node. -/
theorem ne_of_serviceWords (direct : (perform call .ensemble).bypasses t p guards w = false)
    {words : List Text} (args : call.args = ("service" : Text) :: words) {target : NodeId}
    {options : ServiceOptions} {apart : Bool}
    (asked : Control.serviceWords (.of call "service") words w = .ok (target, options, apart) w) :
    target ≠ t := by
  simp only [bypasses, Bool.or_eq_false_iff, Call.services, args, asked] at direct
  simpa using direct.2.2

end Request

/-- Runs of scripts in other nodes than `t`, given up before any way around policy `p` is taken. -/
def Regime.mediation (t : NodeId) (p : Policy) (guards : List Text) : Regime where
  inv := World.IsSecluded t p.owner guards
  rel := World.Withers
  zone i := i ≠ t
  closed i := i = t
  admits _ _ := True
  serves _ _ := True
  permits r w := r.bypasses t p guards w = false
  denier q := q = p
  strays w v := v.IsSecluded t p.owner guards ∧ w.Withers v

namespace Regime

variable {t id : NodeId} {p : Policy} {guards : List Text} {w v : World}

theorem allows_mediation (t : NodeId) (p : Policy) (guards : List Text) :
    (mediation t p guards).Allows (Node.Secludes t) where
  composes := World.composes_secludes t
  leads {w v} inv each := by
    refine ⟨⟨each.isNumbered (fun _ _ _ secludes => secludes.id) inv.numbered,
      fun n' found' => ?_, fun i n' found' q mem own => ?_, ?_⟩, fun i n found => ?_⟩
    · obtain ⟨n, found, secludes⟩ := each.node_back found'
      exact secludes.idle rfl (inv.idle n found)
    · obtain ⟨n, found, secludes⟩ := each.node_back found'
      exact inv.guards i n found q (secludes.policies q mem own) own
    · obtain ⟨n, found⟩ := inv.owner
      obtain ⟨n', found', -⟩ := each.node _ n found
      exact ⟨n', found'⟩
    · obtain ⟨n', found', secludes⟩ := each.node i n found
      exact ⟨n', found', secludes.live⟩

/-- One node more, which has no worker and no policies. -/
theorem secludes_of_new {m : Node} (inv : w.IsSecluded t p.owner guards) (numbered : v.IsNumbered)
    (idle : m.IsIdle) (none : m.policies = [])
    (nodes : (∀ i n, w.node? i = some n → ∃ links, v.node? i = some { n with links }) ∧
      ∀ i n', v.node? i = some n' → n' = m ∨ ∃ n links, w.node? i = some n ∧ n' = { n with links }) :
    (mediation t p guards).Leads w v := by
  refine ⟨⟨numbered, fun n' found' => ?_, fun i n' found' q mem own => ?_, ?_⟩, fun i n found => ?_⟩
  · rcases nodes.2 t n' found' with rfl | ⟨n, links, found, rfl⟩
    · exact idle
    · exact inv.idle n found
  · rcases nodes.2 i n' found' with rfl | ⟨n, links, found, rfl⟩
    · rw [none] at mem
      cases mem
    · exact inv.guards i n found q mem own
  · obtain ⟨n, found⟩ := inv.owner
    obtain ⟨links, found'⟩ := nodes.1 _ n found
    exact ⟨_, found'⟩
  · obtain ⟨links, found'⟩ := nodes.1 i n found
    exact ⟨_, found', fun stays => stays⟩

/-- What a subcommand does that runs no scripts. -/
theorem secludes_of_does {call : Call} {name : Text} {words : List Text}
    (inv : w.IsSecluded t p.owner guards) (other : call.node ≠ t)
    (direct : (Request.perform call .ensemble).bypasses t p guards w = false)
    (args : call.args = name :: words) (did : Control.Does (.of call name) words w v) :
    (mediation t p guards).Leads w v := by
  have allows := allows_mediation t p guards
  cases did with
  | rests rests => exact allows.same inv rests.nodes
  | stirs target path resolved changes =>
    exact allows.changed inv changes fun _ _ _ stirs => .of_stirs stirs
  | grows options name path parent c q m asker resolved found grows child =>
    obtain ⟨n, isNew, rfl⟩ := child.made
    have idle : n.join.IsIdle := by
      rw [Node.join_eq]
      exact ⟨isNew.worker, isNew.retiring⟩
    have none : n.join.policies = [] := by
      rw [Node.join_eq]
      exact isNew.policies
    exact secludes_of_new inv (grows.isNumbered child.id_eq inv.numbered) idle none grows.node_links
  | spoils options path parent c q n m asker resolved found gains isNew detached bare strips _ =>
    have idle : n.IsIdle := ⟨isNew.worker, isNew.retiring⟩
    have none : m.policies = [] := List.sublist_nil.mp (isNew.policies ▸ strips.policies)
    exact secludes_of_new inv (gains.isNumbered (strips.id.trans isNew.id) inv.numbered)
      (strips.idle idle idle) none gains.node_links
  | wanes wanes departs =>
    exact allows.leads inv ((wanes _ (World.isClosed_all w) trivial).nodes.mono
      fun _ _ _ change => .of_strips change.1.toStrips)
  | governs c asker trusted changes =>
    exact allows.leads inv (changes.mono fun _ _ _ governed => .of_isGoverned other governed)
  | trusts change path target n asked takes =>
    exact allows.leads inv (takes.amends.each (World.composes_secludes t) (.of_amend change))
  | posts named target path force unwind message asked resolved posted =>
    exact allows.posted inv posted fun _ _ _ _ => .of_rest rfl
  | resets named target path force n asked resolved found supervised reset =>
    exact reset ▸ allows.modify inv fun _ _ => .of_rest rfl
  | dedicates named target path options n worker asked resolved found alive supervised submitted
      hired =>
    subst hired
    obtain rfl : name = "service" := named
    exact allows.modify inv fun m _ => ⟨rfl, fun stays => stays,
      fun here => absurd here (Request.ne_of_serviceWords direct args asked), fun _ mem _ => mem⟩

theorem lawful_mediation (evaluation : p.guardsEvaluation = true) :
    (mediation t p guards).Lawful where
  refl _ := .refl _
  trans h h' := h.trans h'
  numbered inv := inv.numbered
  resolve _ _ _ := (Classical.em _).symm
  visible _ _ _ _ := ⟨trivial, trivial⟩
  hidden _ _ _ _ _ _ _ := trivial
  forward _ _ _ := (Classical.em _).symm
  asks {w id n} inv _ found q mem := by
    by_cases own : q.owner = t
    · refine (inv.guards id n found q mem own).imp_right fun listed context case v => .inr ⟨own, ?_⟩
      simp [mediation, Request.bypasses, own, listed]
    · exact .inr fun _ _ _ => .inl ⟨own, trivial⟩
  barred {w call action} here direct := by
    have here : call.node = t := here
    cases action <;> simp [mediation, Request.bypasses, here] at direct
  shields {w call s} inv _ direct here n found := by
    subst here
    have enforced := Request.enforces_of_direct direct
    simp only [World.enforces, found, Option.any_some, Bool.and_eq_true, List.contains_iff_mem]
      at enforced
    refine ⟨p, enforced.1, evaluation, rfl, fun v context script gone direct => ?_⟩
    have still := Request.enforces_of_direct direct
    simp [World.enforces, gone] at still
  gone same inv withers gone := by
    subst same
    obtain ⟨n, found⟩ := inv.owner
    exact withers.live? found gone
  staff {w id n} inv found loop mem := by
    by_cases here : id = t
    · subst here
      simp [(inv.idle n found).1, (inv.idle n found).2] at mem
    · exact ⟨here, fun _ _ => trivial⟩
  attends inv _ direct args asked here := Request.ne_of_serviceWords direct args asked here
  serve _ _ _ _ _ _ _ _ := trivial
  rests inv rests := (allows_mediation t p guards).same inv rests.nodes
  host _ inv _ := (allows_mediation t p guards).same inv rfl
  look inv _ _ := (allows_mediation t p guards).looked inv fun _ => .of_rest rfl
  stirs inv _ changes := (allows_mediation t p guards).changed inv changes fun _ _ _ stirs =>
    .of_stirs stirs
  defines inv _ found _ defined := (allows_mediation t p guards).replace inv found
    (.of_define defined)
  push inv _ _ _ := ((allows_mediation t p guards).pushed (fun _ _ => .of_rest rfl) inv).1
  pop inv _ _ led := (allows_mediation t p guards).popped (fun h h' => h.trans h')
    (fun _ _ => .of_rest rfl) inv led
  enter inv _ _ _ := ((allows_mediation t p guards).modify inv fun _ _ => .of_rest rfl).1
  exit inv _ led := (allows_mediation t p guards).evaluated (fun h h' => h.trans h')
    (fun _ _ => .of_rest rfl) inv led
  leave inv _ _ := (allows_mediation t p guards).left inv fun _ _ => .of_rest rfl
  works inv other h := (allows_mediation t p guards).modify inv fun n found =>
    .of_works other (h n found)
  retires inv _ found _ changes bare := (allows_mediation t p guards).released inv found changes bare
    fun _ strips _ => .of_strips strips
  does inv other direct args did := secludes_of_does inv other direct args did
  onward_trans on _ := on
  onward_tidy _ _ on := on
  onward_strays on _ := on
  strays_trans led strayed := ⟨strayed.1, led.2.trans strayed.2⟩
  strays_pushed inv _ _ strayed := ⟨strayed.1,
    ((allows_mediation t p guards).pushed (fun _ _ => .of_rest rfl) inv).2.trans strayed.2⟩
  strays_entered inv _ strayed :=
    ⟨strayed.1, ((allows_mediation t p guards).modify inv fun _ _ => .of_rest rfl).2.trans strayed.2⟩
  overtakes _ _ _ _ strayed := (allows_mediation t p guards).overtaken (fun h h' => h.trans h')
    (fun _ => .of_rest rfl) strayed

end Regime

/-- A guard of the host that fails, or that decides nothing else, denies. -/
theorem Engine.ends_decide_of_guard {e : Engine} {context : Option Context} {p : Policy}
    {case : PolicyCase} {w : World} {g : Guard} (guarded : p.guard = some g)
    (strict : ∀ d, g = .decide d → d = .denied) :
    Ends (e.decide context p case) w fun r _ => ∀ d, r = .ok d → d = .denied := by
  unfold Engine.decide
  rw [guarded]
  cases g with
  | decide decision => exact fun d same => Except.ok.inj same ▸ strict decision rfl
  | fail message => exact fun d same => (Except.ok.inj same).symm

namespace World

variable {w : World} {t : NodeId} {n : Node} {p : Policy}

/-- The scripts of the policies of a node are listed. -/
theorem mem_guardsOf {i : NodeId} (found : w.node? i = some n) (mem : p ∈ n.policies)
    (own : p.owner = t) : p.script ∈ w.guardsOf t := by
  have listed : p ∈ n.policies.filter fun p => p.owner = t :=
    List.mem_filter.mpr ⟨mem, by simpa using own⟩
  refine List.mem_flatMap.mpr ⟨n, ?_, List.mem_map_of_mem listed⟩
  cases i with
  | zero => cases found
  | succ i =>
    rw [node?_succ] at found
    exact Array.mem_def.mp (Array.mem_of_getElem? found)

/-- From any moment in the history of a tree on: let policy `p` of node `t` be asked about evaluation,
and deny whatever script it is asked about, and let no worker run service loops in `t`. Then whatever
a script in another node does, no script is evaluated in `t`, unless a way around the policy is taken:
as far as a run gets without one, it does the same when it is given up before any script is evaluated
in `t`. -/
theorem evaluation_mediated_from_plant_unless_bypassed {settings : Settings} {host : Host}
    (planted : plant settings host = .ok w) (pace : Pace) (fuel : Nat) (m : Moment)
    (found : (m.world pace fuel w).node? t = some n) (attached : n.attached = true)
    (idle : n.worker = none) (evaluation : p.guardsEvaluation = true)
    (owned : ((m.world pace fuel w).live? p.owner).isSome = true) (stops : Request → World → Bool)
    (direct : ∀ r v, r.bypasses t p ((m.world pace fuel w).guardsOf t) v = true → stops r v = true)
    (denies : ∀ k context case v, case.name = ("eval" : Text) → case.target = t →
      Ends (Engine.decide (.upTo pace stops k) context p case) v fun r _ => ∀ d, r = .ok d → d = .denied)
    (k : Nat) (r : Request) (other : r.node ≠ t) :
    Engine.runUntil pace (fun r v => stops r v || r.evaluates t) k r (m.world pace fuel w) =
      Engine.runUntil pace stops k r (m.world pace fuel w) := by
  have heedful := isHeedful_world pace fuel (isHeedful_plant planted) m
  have law : (Regime.mediation t p ((m.world pace fuel w).guardsOf t)).Lawful :=
    Regime.lawful_mediation evaluation
  have inv : (m.world pace fuel w).IsSecluded t p.owner ((m.world pace fuel w).guardsOf t) := by
    refine ⟨heedful.numbered, fun n' found' => ?_, fun i n' found' q mem own =>
      .inr (mem_guardsOf found' mem own), ?_⟩
    · -- A worker on its way out would be that of a node outside of the tree.
      obtain rfl : n = n' := Option.some.inj (found.symm.trans found')
      refine ⟨idle, ?_⟩
      cases left : n.retiring with
      | none => rfl
      | some loop =>
        have clean := heedful.clean t n found
        rw [clean.outside (clean.apart (by rw [left]; rfl))] at attached
        cases attached
    · obtain ⟨k, live⟩ := Option.isSome_iff_exists.mp owned
      exact ⟨k, (live?_eq_some_iff.mp live).1⟩
  have elsewhere (r : Request) : (Regime.mediation t p ((m.world pace fuel w).guardsOf t)).May r →
      r.evaluates t = false := by
    intro may
    cases r with
    | evaluate context id script => exact decide_eq_false may
    | perform call action => rfl
  refine (law.runUntil _ stops (fun _ _ inv => ⟨inv, .refl _⟩) ?same ?permits ?barred ?denies k r _
    (.inl ⟨?may, ?comes⟩) inv).eq
  case same =>
    -- In other nodes than `t` the two runs are given up at the same requests.
    intro r v _ may _
    exact .inl (by rw [elsewhere r may, Bool.or_false])
  case permits =>
    intro r v _ _ kept
    cases bypassed : r.bypasses t p ((m.world pace fuel w).guardsOf t) v with
    | true =>
      rw [direct r v bypassed] at kept
      cases kept
    | false => exact bypassed
  case barred =>
    intro r v _ bypassed
    have stopped := direct r v (Bool.not_eq_false _ ▸ bypassed)
    exact ⟨by rw [stopped]; rfl, stopped⟩
  case denies =>
    rintro q context case v k rfl asked here
    exact denies k context case v asked here
  case may =>
    cases r with
    | evaluate context id script => exact other
    | perform call action => exact ⟨other, trivial⟩
  case comes => exact .of_all (fun _ _ => trivial) r _

/-- What keeps scripts of others out of a child of the root. -/
def bolt : Policy where
  name := "policy1"
  onInvoke := false
  onEvaluate := true
  type := "eval"
  token := 0
  script := []
  guard := some (.decide .denied)
  plugin := []
  owner := root

/-- A child of the root is created and bolted. -/
def bolting : Moment where
  past := [.tree (.create root [] "t" {})]
  deed := .addPolicy root "t" { onEvaluate := true, type := bolt.type, guard := bolt.guard }

/-- A script of the root has a script evaluated in the child, which is refused, and queues one there. -/
def knocking : Request :=
  .evaluate none root "catch {interp eval t {set x 1}}; interp queue t {set x 1}"

/-- A script of the root queues a script in the child and asks for a service loop there. -/
def burgling : Request := .evaluate none root "interp queue t {set x 1}; interp service t"

/-- No script of the root is evaluated in the child, until a service loop is asked for. -/
theorem evaluation_mediated_from_plant_bolted :
    (∃ n, (bolting.world .timely 20 sapling).node? 2 = some n ∧ n.policies = [bolt]) ∧
      bolt.guardsEvaluation = true ∧
      Engine.runUntil .timely (fun r v => r.bypasses 2 bolt [] v || r.evaluates 2) 20 knocking
          (bolting.world .timely 20 sapling) =
        Engine.run .timely 20 knocking (bolting.world .timely 20 sapling) ∧
      Ends (Engine.run .timely 20 burgling) (bolting.world .timely 20 sapling) fun _ v =>
        (v.node? 2).any (fun n => n.policies = [bolt] ∧ n.vars.get? "x" = some ("1" : Text)) = true := by
  have start : ((bolting.world .timely 20 sapling).node? 2).any (fun n =>
      n.policies = [bolt] ∧ n.attached = true ∧ n.worker = none) = true := by decide +kernel
  have owned : ((bolting.world .timely 20 sapling).live? bolt.owner).isSome = true := by decide +kernel
  have guards : (bolting.world .timely 20 sapling).guardsOf 2 = [] := by decide +kernel
  have straight : Engine.runUntil .timely (fun r v => r.bypasses 2 bolt [] v) 20 knocking
      (bolting.world .timely 20 sapling) =
        Engine.run .timely 20 knocking (bolting.world .timely 20 sapling) := by
    decide +kernel
  obtain ⟨n, found, holds⟩ := Option.any_eq_true _ _ |>.mp start
  obtain ⟨policies, attached, idle⟩ := of_decide_eq_true holds
  have mediated := evaluation_mediated_from_plant_unless_bypassed plant_sapling .timely 20 bolting found
    attached idle (p := bolt) (by decide) owned (fun r v => r.bypasses 2 bolt [] v)
    (fun r v bypassed => guards ▸ bypassed)
    (fun k context case v _ _ => Engine.ends_decide_of_guard rfl fun d same => by
      cases same
      rfl) 20 knocking (by decide)
  exact ⟨⟨n, found, policies⟩, by decide, mediated.trans straight, by decide +kernel⟩

end World

end InterpTree
