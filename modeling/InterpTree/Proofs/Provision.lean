import InterpTree.Manifest.Apply
import InterpTree.Proofs.Upkeep

/-!
The steps by which a manifest furnishes an interpreter, one by one: what an attempt went through that
was not refused, where commands are once others have moved between the tables, and what limits,
policies and aliases come to.
-/

namespace InterpTree

/-! ### Attempts that succeed -/

/-- What a computation in two parts went through. -/
theorem Ends.of_bind_ok {ε α β : Type} {x : EStateM ε World α} {f : α → EStateM ε World β} {b : β}
    {w v : World} (h : (x >>= f) w = .ok b v) : ∃ a u, x w = .ok a u ∧ f a u = .ok b v := by
  rw [Ends.eq_ok_iff, Ends.bind_iff] at h
  unfold Ends at h
  cases result : x w with
  | ok a u =>
    rw [result] at h
    exact ⟨a, u, rfl, Ends.eq_ok_iff.mpr h⟩
  | error e u =>
    rw [result] at h
    cases h.1

namespace Attempt

variable {α β γ : Type} {w v : World}

theorem of_op {o : Op α} {a : α} (h : (op o).run w = .ok (.ok a) v) : o w = .ok a v := by
  simp only [op, Act.attempt, ExceptT.run_mk] at h
  split at h
  · obtain ⟨same, rfl⟩ := EStateM.Result.ok.inj h
    obtain rfl := Except.ok.inj same
    assumption
  · cases h

theorem of_bind {x : Attempt α} {f : α → Attempt β} {b : β}
    (h : (x >>= f).run w = .ok (.ok b) v) :
    ∃ a u, x.run w = .ok (.ok a) u ∧ (f a).run u = .ok (.ok b) v := by
  rw [ExceptT.run_bind] at h
  obtain ⟨r, u, begins, rest⟩ := Ends.of_bind_ok h
  cases r with
  | ok a => exact ⟨a, u, begins, rest⟩
  | error f => cases rest

theorem of_noting {note : Text} {x : Attempt α} {a : α}
    (h : (noting note x).run w = .ok (.ok a) v) : x.run w = .ok (.ok a) v := by
  obtain ⟨r, u, begins, rest⟩ := Ends.of_bind_ok h
  cases r with
  | ok b =>
    obtain ⟨same, rfl⟩ := EStateM.Result.ok.inj rest
    obtain rfl := Except.ok.inj same
    exact begins
  | error f => cases rest

/-- An operation that is asked for, or left out, and what follows it. -/
theorem of_optional {asked : Bool} {o : Op Unit} {x : Attempt β} {b : β}
    (h : (if asked = true then (do op o; x) else x).run w = .ok (.ok b) v) :
    ∃ u, (asked = true ∧ o w = .ok () u ∨ asked = false ∧ u = w) ∧ x.run u = .ok (.ok b) v := by
  split at h
  · rename_i wanted
    obtain ⟨_, u, begins, rest⟩ := of_bind h
    exact ⟨u, .inl ⟨wanted, of_op begins⟩, rest⟩
  · rename_i unwanted
    exact ⟨w, .inr ⟨by simpa using unwanted, rfl⟩, h⟩

/-- What holds of the items that a loop has done, for as long as it goes on. -/
theorem forM_induction {f : γ → Attempt PUnit} {I : List γ → World → Prop} {as : List γ}
    (h : (as.forM f).run w = .ok (.ok ⟨⟩) v) (start : I [] w)
    (step : ∀ done a rest, done ++ a :: rest = as → ∀ u u', I done u →
      (f a).run u = .ok (.ok ⟨⟩) u' → I (done ++ [a]) u') : I as v := by
  have along (rest done : List γ) (split : done ++ rest = as) (u : World) (holds : I done u)
      (run : (rest.forM f).run u = .ok (.ok ⟨⟩) v) : I as v := by
    induction rest generalizing done u with
    | nil =>
      obtain ⟨-, rfl⟩ := EStateM.Result.ok.inj run
      rw [← split, List.append_nil]
      exact holds
    | cons a rest ih =>
      obtain ⟨_, u', begins, others⟩ := of_bind run
      exact ih (done ++ [a]) (by simpa using split) u' (step done a rest split u u' holds begins) others
  exact along as [] rfl w start h

end Attempt

/-! ### Names that move between the visible commands and the hidden ones -/

namespace CommandTable

variable {t : CommandTable} {name k : Text} {e : Entry}

/-- Exposing keeps what is visible, and makes visible what is hidden under the name. -/
theorem isSome_visible?_expose (h : (t.visible? k).isSome = true ∨
    k = name ∧ (t.hidden? name).isSome = true) :
    ((t.expose name name).visible? k).isSome = true := by
  simp only [isSome_hidden?_iff, isSome_visible?_iff] at h ⊢
  rcases h with ⟨e, mem, shown, rfl⟩ | ⟨rfl, e, mem, hidden, rfl⟩
  all_goals refine ⟨_, List.mem_map_of_mem mem, ?_⟩
  · simp [shown]
  · simp [hidden]

/-- Exposing keeps what is hidden under other names. -/
theorem isSome_hidden?_expose (other : k ≠ name) (h : (t.hidden? k).isSome = true) :
    ((t.expose name name).hidden? k).isSome = true := by
  simp only [isSome_hidden?_iff] at h ⊢
  obtain ⟨e, mem, hidden, rfl⟩ := h
  exact ⟨_, List.mem_map_of_mem mem, by simp [other, hidden]⟩

end CommandTable

/-! ### Steps -/

/-- The node with some limits replaced. -/
def Node.relimit (o : Limits.Override) (n : Node) : Node :=
  { n with cancel := { n.cancel with limits := o.over n.cancel.limits } }

namespace World

variable {w : World}

/-- Whoever is introduced starts with the limits that the settings say. -/
theorem limits_introduceBy {populate : Node → Except Fault Node}
    (keeps : ∀ n m, populate n = .ok m → m.cancel = n.cancel) {name path : Text} {parent : NodeId}
    {trust : Trust} {id : NodeId}
    (made : (w.introduceBy populate name parent path trust).1 = .ok id) :
    ∃ n, (w.introduceBy populate name parent path trust).2.node? id = some n ∧
      n.cancel.limits = w.settings.limits := by
  unfold introduceBy at made ⊢
  dsimp only at made ⊢
  split at made
  · rename_i bare
    obtain rfl := Except.ok.inj made
    rw [if_pos bare]
    exact ⟨_, (gains_enroll _ w).new, rfl⟩
  · rename_i stocked
    rw [if_neg stocked]
    split at made
    · rename_i n populated
      obtain rfl := Except.ok.inj made
      refine ⟨n, (gains_enroll n w).tally.new, ?_⟩
      rw [keeps _ n populated]
      rfl
    · cases made

end World

namespace Op

open World

variable {w : World} {caller : NodeId} {path : Text}

theorem settles_overrideLimits (o : Limits.Override) :
    Settles (overrideLimits caller path o) w fun _ v =>
      ∃ target n, w.resolve? caller path = some target ∧ Amends target n (n.relimit o) w v := by
  refine .resolve fun target resolved => (settles_updateCancel _).weaken fun r v => ?_
  rintro ⟨n, c, made, -, amends⟩
  unfold Cancellation.setLimits Limits.checked at made
  by_cases negative : (o.over n.cancel.limits).anyNegative = true
  · simp [negative, Except.map] at made
  · simp only [negative, Bool.false_eq_true, if_false, Except.map, Except.ok.injEq] at made
    subst made
    exact ⟨target, n, resolved, amends⟩

theorem settles_addPolicy (spec : PolicySpec) :
    Settles (addPolicy caller path spec) w fun _ v =>
      ∃ target n name, w.resolve? caller path = some target ∧
        Amends target n { n with
          policySeq := n.policySeq + 1
          policies := n.policies ++ [{ name, onInvoke := spec.onInvoke || !spec.onEvaluate
                                       onEvaluate := spec.onEvaluate, type := spec.type
                                       token := spec.token, script := spec.script
                                       guard := spec.guard, plugin := spec.plugin
                                       owner := caller }] } w v := by
  refine .requirePrivilege fun _ _ _ => .require fun _ => .resolve fun target resolved =>
    .node fun n found => .of_ends ?_
  simp only [Ends.bind_iff, ends_change, Ends.pure_iff]
  refine ⟨target, n, "policy" ++ Text.ofNat (n.policySeq + 1), resolved, .logNode ?_ _ _ _ _⟩
  exact amends_modifyNode found rfl

theorem settles_create_limits {name : Text} {options : CreateOptions} :
    Settles (create caller path name options) w fun r v =>
      ∀ id, r = .ok id → ∃ n, v.node? id = some n ∧ n.cancel.limits = w.settings.limits := by
  unfold create createBy
  refine .require fun _ => .node fun c _ => .require fun _ => .require fun _ =>
    .resolve fun parent _ => .node fun p _ => .require fun _ => .get (.of_ends ?_)
  have kept (n m : Node) (populated : w.settings.populate w.populated n = .ok m) :
      m.cancel = n.cancel := by
    rw [(Node.isStocked_populate populated).same]
  have started := @World.limits_introduceBy w _ kept name (joinPath p.path name) p.id
    (options.trust c.trust p.trust)
  cases introduced : w.introduceBy (w.settings.populate w.populated) name p.id (joinPath p.path name)
      (options.trust c.trust p.trust) with
  | mk made u =>
    rw [introduced] at started
    simp only [Ends.bind_iff, Ends.set_iff]
    cases made with
    | error f => exact fun id same => by cases same
    | ok id =>
      simp only [Ends.bind_iff, ends_change, Ends.pure_iff]
      rintro _ ⟨⟩
      obtain ⟨n, found, limits⟩ := started rfl
      simp only [World.node?_logNode, World.node?_modifyNode, if_true, found, Option.map_some]
      split
      · exact ⟨_, rfl, by rw [← limits, Node.join_eq]; rfl⟩
      · exact ⟨_, rfl, by rw [← limits, Node.join_eq]⟩

/-- A path and a name to forward to make an alias. -/
theorem aliasByShape_define {name target command : Text} {args : List Text}
    (named : command ≠ []) :
    aliasByShape caller path name (target :: command :: args) = (do
      return some (← defineAlias caller path name target command args)) := by
  cases command with
  | nil => exact absurd rfl named
  | cons c command => cases target <;> cases args <;> rfl

end Op

namespace Node

variable {n m k : Node}

/-- Shims go by the names of their aliases. -/
def NamesShims (n : Node) : Prop :=
  ∀ e ∈ n.commands, ∀ a, e.command.alias? = some a → a.source = e.name

/-- What defining aliases changes: no name goes, be it visible or hidden. -/
structure Wires (n m : Node) : Prop where
  same : m = { n with seq := m.seq, commands := m.commands, aliases := m.aliases }
  visible : ∀ k, (n.commands.visible? k).isSome = true → (m.commands.visible? k).isSome = true
  hidden : ∀ k, (n.commands.hidden? k).isSome = true → (m.commands.hidden? k).isSome = true

theorem Wires.refl (n : Node) : n.Wires n := ⟨rfl, fun _ shown => shown, fun _ hidden => hidden⟩

theorem Wires.trans (h : n.Wires m) (h' : m.Wires k) : n.Wires k :=
  ⟨by rw [h'.same, h.same], fun j shown => h'.visible j (h.visible j shown),
    fun j hidden => h'.hidden j (h.hidden j hidden)⟩

/-- Where shims go by the names of their aliases, clearing a name that no alias has leaves all
aliases, and all other names. -/
theorem Clears.keeps_aliases {name : Text} (shims : n.NamesShims) (clears : Clears name n m)
    (free : n.alias? name = none) :
    m.aliases = n.aliases ∧ m.commands.Sublist n.commands ∧
      ∀ e ∈ n.commands, e.hidden = true ∨ e.name ≠ name → e ∈ m.commands := by
  rcases clears with ⟨-, rfl⟩ | ⟨old, found, erased⟩
  · exact ⟨rfl, .refl _, fun e mem _ => mem⟩
  · obtain ⟨e, mem, -, rfl, rfl⟩ := CommandTable.mem_of_visible? found
    rw [of_eraseCommand erased]
    refine ⟨List.filter_eq_self.mpr fun b memB => ?_, List.filter_sublist, fun d memD other => ?_⟩
    · rw [bne_iff_ne]
      intro same
      obtain ⟨a, behind, named⟩ := Option.map_eq_some_iff.mp same
      refine alias?_eq_none_iff.mp free (List.mem_map.mpr ⟨b, memB, ?_⟩)
      rw [← named, shims e mem a behind]
    · refine List.mem_filter.mpr ⟨memD, ?_⟩
      simpa using other

/-- Another alias comes to the aliases of such a node, and its shim takes the place of the visible
command of that name. -/
theorem wires_defineAlias {path : Text} {make : Nat → Alias} {a : Alias} (shims : n.NamesShims)
    (source : ∀ seq, (make seq).source = (make 0).source)
    (h : n.defineAlias path make = .ok (a, m)) :
    n.Wires m ∧ m.NamesShims ∧ m.aliases = n.aliases ++ [a] := by
  obtain ⟨cleared, c, unused, -, clears, rfl, behind, -, rfl⟩ := of_defineAlias h
  obtain ⟨aliases, fewer, others⟩ := clears.keeps_aliases shims unused
  refine ⟨⟨?same, fun k shown => ?visible, fun k hidden => ?hidden⟩, fun e mem b forwards => ?named,
    by rw [aliases]⟩
  case same => rw [same_of_clears clears]
  case visible =>
    rw [CommandTable.isSome_visible?_iff] at shown ⊢
    obtain ⟨e, mem, shown, rfl⟩ := shown
    by_cases here : e.name = (make 0).source
    · exact ⟨_, List.mem_append_right _ List.mem_cons_self, rfl, here.symm⟩
    · exact ⟨e, List.mem_append_left _ (others e mem (.inr here)), shown, rfl⟩
  case hidden =>
    rw [CommandTable.isSome_hidden?_iff] at hidden ⊢
    obtain ⟨e, mem, hidden, rfl⟩ := hidden
    exact ⟨e, List.mem_append_left _ (others e mem (.inl hidden)), hidden, rfl⟩
  case named =>
    rcases List.mem_append.mp mem with old | new
    · exact shims e (fewer.subset old) b forwards
    · obtain rfl := List.mem_singleton.mp new
      obtain rfl := Option.some.inj (behind.symm.trans forwards)
      exact source _

end Node

namespace Op.IsChild

variable {options : CreateOptions} {name : Text} {caller parent m : Node} {id : NodeId}

theorem trust_eq (h : IsChild options name caller parent id m) :
    m.trust = options.trust caller.trust parent.trust := by
  obtain ⟨n, isNew, rfl⟩ := h.made
  rw [Node.join_eq]
  exact isNew.trust

theorem aliases (h : IsChild options name caller parent id m) : m.aliases = [] := by
  obtain ⟨n, isNew, rfl⟩ := h.made
  rw [Node.join_eq]
  exact isNew.aliases

theorem policies (h : IsChild options name caller parent id m) : m.policies = [] := by
  obtain ⟨n, isNew, rfl⟩ := h.made
  rw [Node.join_eq]
  exact isNew.policies

/-- There are no shims yet. -/
theorem unaliased (h : IsChild options name caller parent id m) :
    ∀ c ∈ m.commands.definitions, c.alias? = none := by
  obtain ⟨n, isNew, rfl⟩ := h.made
  have same : n.join.commands.definitions = n.commands.definitions := by
    unfold Node.join Node.hideDistrusted
    dsimp only
    split <;> split <;> simp
  rw [same]
  intro c mem
  obtain ⟨e, inTable, rfl⟩ := List.mem_map.mp mem
  obtain ⟨-, spec, stock, -, does⟩ := isNew.commands e inTable
  unfold Command.alias?
  split
  · rename_i a forwards
    exact absurd (does.trans (congrArg some forwards)) (Node.not_forward_of_stock stock a)
  · rfl

end Op.IsChild

end InterpTree
