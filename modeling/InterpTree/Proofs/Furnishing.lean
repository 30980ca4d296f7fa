import InterpTree.Proofs.Paths
import InterpTree.Proofs.Provision

/-!
What a manifest makes of an interpreter. An interpreter is made and then furnished in many small
steps, each of which finds it at its path and changes nothing else; when none of them is refused, it
is as its entry of the manifest says.
-/

namespace InterpTree

/-! ### What is asked of an interpreter -/

/-- The alias is the one that is asked for. It leads to the node that is found at the target path. -/
structure AliasSpec.IsMadeBy (spec : AliasSpec) (w : World) (a : Alias) : Prop where
  source : a.source = spec.name
  target : ∃ t n, w.resolve? World.root spec.target = some t ∧ w.node? t = some n ∧
    a.targetPath = n.path
  command : a.targetName = spec.command
  bound : a.bound = spec.args

/-- The policy is the one that is asked for. -/
structure GuardSpec.IsMadeBy (spec : GuardSpec) (p : Policy) : Prop where
  onEvaluate : p.onEvaluate = spec.evaluate
  onInvoke : p.onInvoke = !spec.evaluate
  type : p.type = spec.type
  token : p.token = spec.token
  script : p.script = spec.script
  guard : p.guard = none
  owner : p.owner = World.root

/-- The node is what is asked for, in a tree where interpreters start with the limits `start`, and
`everywhere` says which of them are others. -/
structure InterpreterSpec.IsMetBy (spec : InterpreterSpec) (everywhere : Limits.Override)
    (start : Limits) (w : World) (n : Node) : Prop where
  parent : w.resolve? World.root (splitPath spec.path).1 = some n.parent
  called : n.name = (splitPath spec.path).2
  safe : ∀ p, w.node? n.parent = some p →
    (n.trust.safe = true ↔ spec.safe = true ∨ p.trust.safe = true)
  standard : n.trust.standard = spec.standard
  trusted : n.trust.trusted = spec.trusted
  readOnly : n.trust.readOnly = spec.readOnly
  immutable : n.trust.immutable = spec.immutable
  hidden : ∀ k ∈ spec.hide, k ∉ spec.expose → (n.commands.hidden? k).isSome = true
  visible : ∀ k ∈ spec.expose, (n.commands.visible? k).isSome = true
  aliases : List.Forall₂ (fun a b => a.IsMadeBy w b) spec.aliases n.aliases
  policies : List.Forall₂ GuardSpec.IsMadeBy spec.policies n.policies
  limits : ∀ f, n.cancel.limits.get f =
    (spec.limits.get f).getD ((everywhere.get f).getD (start.get f))

namespace World

variable {w u v : World} {i : NodeId} {name path : Text} {n n' m : Node}

/-- Only valid names lead anywhere. -/
theorem IsRegular.valid_of_follow? (regular : w.IsRegular) {a b : NodeId} {names : List Text}
    (way : w.follow? a names = some b) : ∀ k ∈ names, isValidName k = true := by
  induction names generalizing a with
  | nil => nofun
  | cons name names ih =>
    obtain ⟨c, child, rest⟩ := Option.bind_eq_some_iff.mp way
    obtain ⟨n, l, t, found, -, link, -⟩ := child?_eq_some_iff.mp child
    refine List.forall_mem_cons.mpr ⟨?_, ih rest⟩
    have named : l.name = name := by simpa using List.find?_some link
    exact named ▸ regular.valid a n found l (List.mem_of_find?_eq_some link)

/-- A path that leads somewhere goes by the names of the path of the parent, and then by the last. -/
theorem IsRegular.namesOf_eq (regular : w.IsRegular) {caller t : NodeId}
    (nonempty : path ≠ []) (resolved : w.resolve? caller path = some t) :
    namesOf path = namesOf (splitPath path).1 ++ [(splitPath path).2] := by
  obtain ⟨n, found, alive⟩ := exists_of_resolve? resolved
  rw [resolve?_eq found alive] at resolved
  have valid := regular.valid_of_follow? resolved
  -- A path that starts with a dot would lead over a link whose name is empty.
  refine (namesOf_splitPath (valid _ (splitPath_snd_mem nonempty))).resolve_right fun mem => ?_
  exact absurd (valid [] mem) (by decide)

/-- Everything about a node that furnishing it changes. -/
def Refits (n m : Node) : Prop :=
  m = { n with
    seq := m.seq, commands := m.commands, aliases := m.aliases, policySeq := m.policySeq
    policies := m.policies, cancel := m.cancel, trust := m.trust }

theorem Refits.keepsAt (h : Refits n m) : KeepsAt n m := by
  rw [h]
  exact ⟨rfl, rfl, rfl, rfl, rfl, rfl, rfl, rfl, .refl _, fun _ => rfl⟩

theorem Refits.sameWays (h : Refits n m) : n.SameWays m := by
  rw [h]
  exact ⟨rfl, rfl, rfl, rfl⟩

theorem composes_refits : Composes fun _ => Refits := by
  refine ⟨fun _ _ => rfl, fun _ {n m k} h h' => ?_⟩
  rw [Refits, h', h]

theorem isMadeBy_of_extends {spec : AliasSpec} {a : Alias} (h : spec.IsMadeBy w a)
    (ways : Extends w v) : spec.IsMadeBy v a := by
  obtain ⟨t, n, reached, found, path⟩ := h.target
  obtain ⟨n', found', -, path', -⟩ := ways t n found
  exact ⟨h.source, ⟨t, n', ways.resolve? reached, found', path.trans path'.symm⟩, h.command, h.bound⟩

/-- The tree of `v` is that of `w` with one node more: `n`, the child `name` of node `i`, which is
found at a path. -/
structure Raised (w : World) (i : NodeId) (name path : Text) (n : Node) (v : World) : Prop where
  grows : Grows i name n w v
  regular : v.IsRegular
  woven : v.IsWoven
  found : v.resolve? root path = some (w.nodes.size + 1)

namespace Raised

/-- A child that the root made, if it is found at the path that it was made for. -/
theorem of_create (regular : w.IsRegular) (woven : w.IsWoven) {r : Node}
    (asks : w.node? root = some r) {options : CreateOptions} {id t : NodeId}
    (ok : Op.create root (splitPath path).1 (splitPath path).2 options w = .ok id v)
    (there : v.resolve? root path = some t) :
    ∃ i p n, namesOf path = namesOf (splitPath path).1 ++ [(splitPath path).2] ∧
      w.resolve? root (splitPath path).1 = some i ∧ w.node? i = some p ∧
      Raised w i (splitPath path).2 path n v ∧
      Op.IsChild options (splitPath path).2 r p (w.nodes.size + 1) n ∧
      n.cancel.limits = w.settings.limits := by
  have numbered := regular.numbered
  obtain ⟨_, foundR, -, -, live, -⟩ := regular.rooted
  obtain rfl := Option.some.inj (asks.symm.trans foundR)
  obtain ⟨attached, alive⟩ : r.attached = true ∧ r.dead = false := by
    simpa [Node.isLive] using live
  obtain ⟨r', p, i, n, asks', valid, resolved, found, free, made⟩ :=
    (Op.settles_create root _ _ options numbered).of_ok ok
  obtain rfl : r = r' := Option.some.inj (asks.symm.trans asks')
  rcases made with ⟨same, grows, child⟩ | ⟨⟨f, refused⟩, -⟩
  swap
  · cases refused
  obtain rfl := Except.ok.inj same
  obtain ⟨k, foundK, limits⟩ := Op.settles_create_limits.of_ok ok _ rfl
  obtain rfl : n = k := Option.some.inj (grows.node_new.symm.trans foundK)
  have turns : w.Turns (.create root (splitPath path).1 (splitPath path).2 options) v :=
    .grown options _ root i r p n valid asks ⟨_, resolved⟩ found free grows child
  have regular' := turns.isRegular regular
  have joined : w.HasJoined root := fun m there => .inl (by
    rw [← Option.some.inj (asks.symm.trans there), attached])
  obtain ⟨k, holds⟩ := attached_of_resolve? numbered joined resolved
  obtain rfl : p = k := eq_of_attached? found holds
  obtain ⟨r', foundR', alive'⟩ := regular'.root_alive
  have nonempty : path ≠ [] := by
    rintro rfl
    exact absurd valid (by decide)
  have split := regular'.namesOf_eq nonempty there
  rw [resolve?_eq foundR' alive'] at there
  refine ⟨i, p, n, split, resolved, found,
    ⟨grows, regular', isWoven_grow grows woven holds numbered child, ?_⟩, child, limits⟩
  rw [resolve?_eq asks alive] at resolved
  rw [resolve?_eq foundR' alive', split, follow?_concat, grows.extends.follow? resolved]
  exact grows.child?_new child found (woven.alive i p holds) free

/-- A step that changes what is found at the path changes the new node, and leaves it where it is. -/
theorem amend (h : Raised w i name path n v) {target : NodeId}
    (resolved : v.resolve? root path = some target) (amends : Amends target n' m v u)
    (refits : Refits n' m) : n' = n ∧ Raised w i name path m u := by
  obtain rfl : target = w.nodes.size + 1 := Option.some.inj (resolved.symm.trans h.found)
  obtain rfl : n' = n := Option.some.inj (amends.found.symm.trans h.grows.node_new)
  have each : Each (fun _ => Refits) v u := amends.each composes_refits refits
  have keeps : Keeps v u := each.mono fun _ _ _ refits => refits.keepsAt
  refine ⟨rfl, ⟨each.size.trans h.grows.size, fun j => ?_, h.grows.still.trans amends.still⟩,
    keeps.isRegular h.regular, keeps.isWoven h.woven, ?_⟩
  · by_cases new : j = w.nodes.size + 1
    · rw [if_pos new, new, amends.node?]
    · have old := h.grows.node j
      rw [if_neg new] at old
      rw [if_neg new, amends.node?_ne new, old]
  · have ways : SameWays v u := each.mono fun _ _ _ refits => refits.sameWays
    rw [ways.resolve?]
    exact h.found

theorem hide (h : Raised w i name path n v) {k : Text} (ok : Op.hide root path k [] v = .ok () u) :
    (n.commands.visible? k).isSome = true ∧
      Raised w i name path { n with commands := n.commands.hide k k } u := by
  obtain ⟨-, target, m, _, resolved, rfl, may, amends⟩ := (Op.settles_hide []).of_ok ok
  obtain ⟨rfl, raised⟩ := h.amend resolved amends rfl
  exact ⟨may.there, raised⟩

theorem expose (h : Raised w i name path n v) {k : Text}
    (ok : Op.expose root path k [] v = .ok () u) :
    (n.commands.hidden? k).isSome = true ∧
      Raised w i name path { n with commands := n.commands.expose k k } u := by
  obtain ⟨-, target, m, _, resolved, rfl, may, amends⟩ := (Op.settles_expose []).of_ok ok
  obtain ⟨rfl, raised⟩ := h.amend resolved amends rfl
  exact ⟨may.there, raised⟩

theorem overrideLimits (h : Raised w i name path n v) {o : Limits.Override}
    (ok : Op.overrideLimits root path o v = .ok () u) :
    Raised w i name path (n.relimit o) u := by
  obtain ⟨target, m, resolved, amends⟩ := (Op.settles_overrideLimits o).of_ok ok
  obtain ⟨rfl, raised⟩ := h.amend resolved amends rfl
  exact raised

theorem change (h : Raised w i name path n v) {c : TrustChange}
    (ok : c.run root path v = .ok () u) : Raised w i name path (c.amend n) u := by
  obtain ⟨-, target, m, takes⟩ := c.settles_run.of_ok ok
  obtain ⟨rfl, raised⟩ := h.amend takes.resolved takes.amends (by
    rw [Refits, c.same_amend m])
  exact raised

theorem startWatchdog (h : Raised w i name path n v)
    (ok : Manifest.startWatchdog root path v = .ok () u) :
    ∃ cancel, cancel.limits = n.cancel.limits ∧ Raised w i name path { n with cancel } u := by
  obtain ⟨target, v', resolves, changed⟩ := Ends.of_bind_ok ok
  rw [Op.resolve_ok h.found] at resolves
  obtain ⟨rfl, rfl⟩ := EStateM.Result.ok.inj resolves
  obtain ⟨-, rfl⟩ := EStateM.Result.ok.inj changed
  have found := h.grows.node_new
  simp only [World.startWatchdog, found, Cancellation.startWatchdog]
  split
  · exact ⟨n.cancel, rfl, h⟩
  · refine ⟨{ n.cancel with watchdog := some v.clock, activity := v.clock }, rfl, ?_⟩
    refine And.right (h.amend h.found (.logNode (amends_modifyNode found ?_) _ _ _ _) rfl)
    rfl

theorem defineAlias (h : Raised w i name path n v) {a : AliasSpec} (named : a.command ≠ [])
    {r : Option Alias}
    (ok : Op.aliasByShape root path a.name (a.target :: a.command :: a.args) v = .ok r u)
    (shims : n.NamesShims) :
    ∃ b m, a.IsMadeBy v b ∧ n.Wires m ∧ m.NamesShims ∧ m.aliases = n.aliases ++ [b] ∧
      Raised w i name path m u := by
  rw [Op.aliasByShape_define named] at ok
  obtain ⟨b, u', made, rest⟩ := Ends.of_bind_ok ok
  obtain ⟨-, rfl⟩ := EStateM.Result.ok.inj rest
  obtain ⟨-, target, n', b', m, t, k, resolved, reached, found, made, same, amends⟩ :=
    (Op.settles_defineAlias _ _ _).of_ok made
  obtain rfl := Except.ok.inj same
  obtain ⟨_, _, _, _, _, rfl, _⟩ := Node.of_defineAlias made
  have refits : Refits n' m := by
    obtain ⟨cleared, c, -, -, clears, -, -, -, rfl⟩ := Node.of_defineAlias made
    rw [Refits, Node.same_of_clears clears]
  obtain ⟨rfl, raised⟩ := h.amend resolved amends refits
  obtain ⟨wires, shims', aliases⟩ := Node.wires_defineAlias shims (fun _ => rfl) made
  exact ⟨_, m, ⟨rfl, ⟨t, k, reached, found, rfl⟩, rfl, rfl⟩, wires, shims', aliases, raised⟩

theorem addPolicy (h : Raised w i name path n v) {p : GuardSpec} {r : Text}
    (ok : Op.addPolicy root path
      { onInvoke := !p.evaluate, onEvaluate := p.evaluate, type := p.type, token := p.token
        script := p.script } v = .ok r u) :
    ∃ q, p.IsMadeBy q ∧ Raised w i name path
      { n with policySeq := n.policySeq + 1, policies := n.policies ++ [q] } u := by
  obtain ⟨target, m, called, resolved, amends⟩ := (Op.settles_addPolicy _).of_ok ok
  obtain ⟨rfl, raised⟩ := h.amend resolved amends rfl
  exact ⟨_, ⟨rfl, by simp, rfl, rfl, rfl, rfl, rfl⟩, raised⟩

/-- The ways of a node that is furnished are those that it had. -/
theorem keepsWays (h : Raised w i name path n v) (h' : Raised w i name path m u)
    (refits : Refits n m) : Extends v u := by
  intro j k found
  rcases h.grows.node_cases found with ⟨rfl, rfl⟩ | ⟨old, was, rfl⟩
  · refine ⟨m, h'.grows.node_new, ?_⟩
    rw [refits]
    exact ⟨rfl, rfl, rfl, rfl, [], (List.append_nil _).symm⟩
  · exact ⟨_, h'.grows.node_old was, rfl, rfl, rfl, rfl, [], (List.append_nil _).symm⟩

/-! ### All steps of a kind -/

theorem hides (h : Raised w i name path n v) {names : List Text}
    (ok : (names.forM fun k => Attempt.noting ("hide " ++ k)
      (Attempt.op (Op.hide root path k []))).run v = .ok (.ok ⟨⟩) u) :
    ∃ t : CommandTable, t.definitions = n.commands.definitions ∧
      (∀ k ∈ names, (t.hidden? k).isSome = true) ∧
      Raised w i name path { n with commands := t } u := by
  let I (done : List Text) (u : World) : Prop :=
    ∃ t : CommandTable, t.definitions = n.commands.definitions ∧
      (∀ k ∈ done, (t.hidden? k).isSome = true) ∧ Raised w i name path { n with commands := t } u
  refine Attempt.forM_induction (I := I) ok ⟨n.commands, rfl, nofun, h⟩ ?_
  rintro done k rest - v' u' ⟨t, same, hidden, raised⟩ step
  obtain ⟨shown, raised⟩ := raised.hide (Attempt.of_op (Attempt.of_noting step))
  refine ⟨t.hide k k, CommandTable.definitions_hide.trans same, fun j mem => ?_, raised⟩
  rcases List.mem_append.mp mem with old | new
  · exact CommandTable.isSome_hidden?_hide (.inl (hidden j old))
  · exact CommandTable.isSome_hidden?_hide (.inr ⟨List.mem_singleton.mp new, shown⟩)

theorem exposes (h : Raised w i name path n v) {names : List Text}
    (ok : (names.forM fun k => Attempt.noting ("expose " ++ k)
      (Attempt.op (Op.expose root path k []))).run v = .ok (.ok ⟨⟩) u) :
    ∃ t : CommandTable, t.definitions = n.commands.definitions ∧
      (∀ k ∈ names, (t.visible? k).isSome = true) ∧
      (∀ k, k ∉ names → (n.commands.hidden? k).isSome = true → (t.hidden? k).isSome = true) ∧
      Raised w i name path { n with commands := t } u := by
  let I (done : List Text) (u : World) : Prop :=
    ∃ t : CommandTable, t.definitions = n.commands.definitions ∧
      (∀ k ∈ done, (t.visible? k).isSome = true) ∧
      (∀ k, k ∉ done → (n.commands.hidden? k).isSome = true → (t.hidden? k).isSome = true) ∧
      Raised w i name path { n with commands := t } u
  refine Attempt.forM_induction (I := I) ok ⟨n.commands, rfl, nofun, fun _ _ there => there, h⟩ ?_
  rintro done k rest - v' u' ⟨t, same, shown, kept, raised⟩ step
  obtain ⟨hidden, raised⟩ := raised.expose (Attempt.of_op (Attempt.of_noting step))
  refine ⟨t.expose k k, CommandTable.definitions_expose.trans same, fun j mem => ?_,
    fun j other there => ?_, raised⟩
  · rcases List.mem_append.mp mem with old | new
    · exact CommandTable.isSome_visible?_expose (.inl (shown j old))
    · exact CommandTable.isSome_visible?_expose (.inr ⟨List.mem_singleton.mp new, hidden⟩)
  · obtain ⟨before, apart⟩ : j ∉ done ∧ j ≠ k := by simpa using other
    exact CommandTable.isSome_hidden?_expose apart (kept j before there)

theorem defineAliases (h : Raised w i name path n v) {specs : List AliasSpec}
    (named : ∀ a ∈ specs, a.command ≠ [])
    (ok : (specs.forM fun a => Attempt.noting ("alias " ++ a.name) do
      let _ ← Attempt.op (Op.aliasByShape root path a.name (a.target :: a.command :: a.args))).run v =
        .ok (.ok ⟨⟩) u) (shims : n.NamesShims) (none : n.aliases = []) :
    ∃ m, n.Wires m ∧ List.Forall₂ (fun a b => AliasSpec.IsMadeBy a u b) specs m.aliases ∧
      Raised w i name path m u := by
  let I (done : List AliasSpec) (u : World) : Prop :=
    ∃ m, n.Wires m ∧ m.NamesShims ∧
      List.Forall₂ (fun a b => AliasSpec.IsMadeBy a u b) done m.aliases ∧ Raised w i name path m u
  have all : I specs u := by
    refine Attempt.forM_induction (I := I) ok ⟨n, .refl n, shims, none ▸ .nil, h⟩ ?_
    rintro done a rest split v' u' ⟨m, wires, shims, made, raised⟩ step
    have mem : a ∈ specs := split ▸ List.mem_append_right _ List.mem_cons_self
    obtain ⟨_, u', begins, same⟩ := Attempt.of_bind (Attempt.of_noting step)
    obtain ⟨-, rfl⟩ := EStateM.Result.ok.inj same
    obtain ⟨b, k, new, wires', shims', aliases, raised'⟩ :=
      raised.defineAlias (named a mem) (Attempt.of_op begins) shims
    have refits : Refits m k := by rw [Refits, wires'.same]
    have ways : Extends v' u' := raised.keepsWays raised' refits
    refine ⟨k, wires.trans wires', shims', ?_, raised'⟩
    rw [aliases]
    exact List.rel_append (made.imp fun _ _ made => isMadeBy_of_extends made ways)
      (.cons (isMadeBy_of_extends new ways) .nil)
  obtain ⟨m, wires, -, made, raised⟩ := all
  exact ⟨m, wires, made, raised⟩

theorem addPolicies (h : Raised w i name path n v) {specs : List GuardSpec}
    (ok : (specs.forM fun p => Attempt.noting "policy" do
      let _ ← Attempt.op (Op.addPolicy root path
        { onInvoke := !p.evaluate, onEvaluate := p.evaluate, type := p.type, token := p.token
          script := p.script })).run v = .ok (.ok ⟨⟩) u) (none : n.policies = []) :
    ∃ policySeq policies, List.Forall₂ GuardSpec.IsMadeBy specs policies ∧
      Raised w i name path { n with policySeq, policies } u := by
  let I (done : List GuardSpec) (u : World) : Prop :=
    ∃ policySeq policies, List.Forall₂ GuardSpec.IsMadeBy done policies ∧
      Raised w i name path { n with policySeq, policies } u
  refine Attempt.forM_induction (I := I) ok ⟨n.policySeq, [], .nil, none ▸ h⟩ ?_
  rintro done p rest - v' u' ⟨policySeq, policies, made, raised⟩ step
  obtain ⟨_, _, begins, same⟩ := Attempt.of_bind (Attempt.of_noting step)
  obtain ⟨-, rfl⟩ := EStateM.Result.ok.inj same
  obtain ⟨q, new, raised⟩ := raised.addPolicy (Attempt.of_op begins)
  exact ⟨_, _, List.rel_append made (.cons new .nil), raised⟩

/-- A mark of trust that is set if it is asked for. -/
theorem mark (h : Raised w i name path n v) (c : TrustChange) {asked : Bool}
    (did : asked = true ∧ c.run root path v = .ok () u ∨ asked = false ∧ u = v) :
    Raised w i name path (if asked then c.amend n else n) u := by
  rcases did with ⟨rfl, ok⟩ | ⟨rfl, rfl⟩
  · exact h.change ok
  · exact h

/-- The marks that are set last. -/
theorem marks (h : Raised w i name path n v) {trusted readOnly immutable : Bool}
    (ok : (do
      if trusted then Attempt.op (Op.markTrusted root path)
      if readOnly then Attempt.op (Op.setReadOnly root path true)
      if immutable then Attempt.op (Op.setImmutable root path true) : Attempt Unit).run v =
        .ok (.ok ()) u) :
    Raised w i name path { n with trust := { n.trust with
      trusted := n.trust.trusted || trusted
      readOnly := n.trust.readOnly || readOnly
      immutable := n.trust.immutable || immutable } } u := by
  obtain ⟨v₁, marks₁, ok⟩ := Attempt.of_optional ok
  obtain ⟨v₂, marks₂, ok⟩ := Attempt.of_optional ok
  have marks₃ : immutable = true ∧ Op.setImmutable root path true v₂ = .ok () u ∨
      immutable = false ∧ u = v₂ := by
    split at ok
    · exact .inl ⟨by assumption, Attempt.of_op ok⟩
    · obtain ⟨-, rfl⟩ := EStateM.Result.ok.inj ok
      exact .inr ⟨by simpa using ‹¬ immutable = true›, rfl⟩
  have raised := ((h.mark .trusted marks₁).mark (.readOnly true) marks₂).mark (.immutable true) marks₃
  cases trusted <;> cases readOnly <;> cases immutable <;>
    simpa [TrustChange.amend] using raised

end Raised

theorem get_over (o : Limits.Override) (l : Limits) (f : Limits.Field) :
    (o.over l).get f = (o.get f).getD (l.get f) := by
  cases f <;> rfl

/-- An interpreter that was made without a refusal is what was asked for. -/
theorem raised_of_make (regular : w.IsRegular) (woven : w.IsWoven) {r : Node}
    (asks : w.node? root = some r) (unsafe' : r.trust.safe = false) {e : Engine}
    {context : Option Context} {everywhere : Limits.Override} {spec : InterpreterSpec}
    (silent : spec.scripts = []) (named : ∀ a ∈ spec.aliases, a.command ≠ [])
    (ok : (Manifest.make e context root everywhere spec).run w = .ok (.ok ()) v) :
    ∃ i n, namesOf spec.path = namesOf (splitPath spec.path).1 ++ [(splitPath spec.path).2] ∧
      w.resolve? root (splitPath spec.path).1 = some i ∧
      Raised w i (splitPath spec.path).2 spec.path n v ∧ n.links = [] ∧ n.parent = i ∧
      spec.IsMetBy everywhere w.settings.limits v n := by
  let options : CreateOptions :=
    { safe := spec.safe, standard := spec.standard, fullCommands := spec.fullCommands
      noCommands := spec.noCommands }
  unfold Manifest.make at ok
  dsimp only at ok
  obtain ⟨id, w₁, created, ok⟩ := Attempt.of_bind ok
  obtain ⟨_, w₂, limited, ok⟩ := Attempt.of_bind ok
  obtain ⟨_, w₃, limited', ok⟩ := Attempt.of_bind ok
  obtain ⟨_, w₄, hidden, ok⟩ := Attempt.of_bind ok
  obtain ⟨_, w₅, exposed, ok⟩ := Attempt.of_bind ok
  obtain ⟨_, w₆, aliased, ok⟩ := Attempt.of_bind ok
  obtain ⟨_, w₇, guarded, ok⟩ := Attempt.of_bind ok
  obtain ⟨_, w₈, ran, ok⟩ := Attempt.of_bind ok
  rw [silent] at ran
  obtain ⟨-, rfl⟩ := EStateM.Result.ok.inj ran
  obtain ⟨w₉, watched, marked⟩ := Attempt.of_optional ok
  -- It is found at its path, or nobody could have set its limits.
  obtain ⟨t, _, there, -⟩ := (Op.settles_overrideLimits everywhere).of_ok (Attempt.of_op limited)
  obtain ⟨i, p, n, split, resolved, found, raised, child, limits⟩ :=
    Raised.of_create regular woven asks (Attempt.of_op created) there
  have raised₃ := (raised.overrideLimits (Attempt.of_op limited)).overrideLimits
    (Attempt.of_op limited')
  obtain ⟨t₄, same₄, hides, raised₄⟩ := raised₃.hides hidden
  obtain ⟨t₅, same₅, exposes, kept, raised₅⟩ := raised₄.exposes exposed
  have unaliased : ∀ c ∈ t₅.definitions, c.alias? = none := by
    rw [same₅, same₄]
    exact child.unaliased
  obtain ⟨m, wires, made, raised₆⟩ := raised₅.defineAliases named aliased
    (fun e mem a forwards => by
      rw [unaliased e.command (List.mem_map_of_mem mem)] at forwards
      cases forwards) child.aliases
  have policies : m.policies = [] := by
    rw [wires.same]
    exact child.policies
  obtain ⟨policySeq, policies, guards, raised₇⟩ := raised₆.addPolicies guarded policies
  obtain ⟨cancel, same₈, raised₈⟩ : ∃ cancel : Cancellation, cancel.limits = m.cancel.limits ∧
      Raised w i (splitPath spec.path).2 spec.path { m with policySeq, policies, cancel } w₉ := by
    rcases watched with ⟨-, started⟩ | ⟨-, rfl⟩
    · exact raised₇.startWatchdog started
    · exact ⟨m.cancel, rfl, raised₇⟩
  have raised₉ := raised₈.marks marked
  have trust : m.trust = options.trust r.trust p.trust := by
    rw [wires.same]
    exact child.trust_eq
  have parent : m.parent = i := by
    rw [wires.same]
    exact child.parent_eq.trans (regular.numbered i p found)
  refine ⟨i, _, split, resolved, raised₉, ?_, parent, ?_⟩
  · change m.links = []
    rw [wires.same]
    exact child.links
  have ways : Extends w₆ v := raised₆.keepsWays raised₉ rfl
  refine {
    parent := ?parent, called := ?called, safe := fun p' found' => ?safe, standard := ?standard
    trusted := ?trusted, readOnly := ?readOnly, immutable := ?immutable
    hidden := fun k mem other => ?hidden, visible := fun k mem => wires.visible k (exposes k mem)
    aliases := made.imp fun _ _ made => isMadeBy_of_extends made ways, policies := guards
    limits := fun f => ?limits }
  case parent =>
    change v.resolve? root _ = some m.parent
    rw [parent]
    exact raised₉.grows.extends.resolve? resolved
  case called =>
    change m.name = _
    rw [wires.same]
    exact child.called
  case safe =>
    change v.node? m.parent = some p' at found'
    rw [parent, raised₉.grows.node_old found, if_pos rfl] at found'
    obtain rfl := Option.some.inj found'
    change m.trust.safe = true ↔ _
    rw [trust]
    simp [options, CreateOptions.trust, Node.addLink, unsafe']
  case standard =>
    change m.trust.standard = _
    rw [trust]
    rfl
  case trusted =>
    change (m.trust.trusted || spec.trusted) = _
    rw [trust]
    rfl
  case readOnly =>
    change (m.trust.readOnly || spec.readOnly) = _
    rw [trust]
    rfl
  case immutable =>
    change (m.trust.immutable || spec.immutable) = _
    rw [trust]
    rfl
  case hidden => exact wires.hidden k (kept k other (hides k mem))
  case limits =>
    change cancel.limits.get f = _
    rw [same₈, wires.same]
    simp only [Node.relimit, get_over, limits]

end World

end InterpTree
