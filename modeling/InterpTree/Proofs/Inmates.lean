import InterpTree.Proofs.Lawfulness

/-!
Nodes in a sandbox. An inmate is a safe node with no way out: no aliases, no policies, and no visible
command that reaches the host. What runs do to an inmate leaves it one, and leaves its trust, its
hidden commands and its registries as they are.
-/

namespace InterpTree

/-- Whether a command of the script language stays visible in safe interpreters. -/
def Builtin.isSafe (b : Builtin) : Bool := table.any fun entry => entry.1 = b && entry.2.2.safe

/-- Whether safe interpreters may have a visible command that does this. -/
def Action.isHarmless : Action → Bool
  | .builtin b => b.isSafe
  | .ensemble => true
  | .procedure .. => true
  | .forward _ => false
  | .host _ => false

/-- A stock definition that safe interpreters see is harmless. -/
theorem Entry.IsStock.isHarmless {e : Entry} (stock : e.IsStock)
    (safe : e.command.flags.safe = true) : e.command.action.isHarmless = true := by
  obtain ⟨-, spec, mem, flags, action⟩ := stock
  rcases List.mem_append.mp mem with builtin | ensemble
  · obtain ⟨entry, inTable, rfl⟩ := List.mem_map.mp builtin
    rw [← Option.some.inj action]
    have shown : entry.2.2.safe = true := by
      rw [flags] at safe
      exact safe
    exact List.any_eq_true.mpr ⟨entry, inTable, by simp [shown]⟩
  · obtain rfl := List.mem_singleton.mp ensemble
    rw [← Option.some.inj action]
    rfl

/-- What hiding for a reason leaves visible was visible, and the reason lets it pass, or a hidden
definition has the same name. -/
theorem CommandTable.of_mem_hideFor {reason : HideReason} {t : CommandTable} {e' : Entry}
    (mem : e' ∈ t.hideFor reason) (visible : e'.hidden = false) :
    e' ∈ t ∧ (e'.command.passes reason = true ∨ (t.hidden? e'.name).isSome = true) := by
  obtain ⟨e, inTable, rfl⟩ := List.mem_map.mp mem
  split at visible
  · rename_i passes
    rw [if_pos passes]
    exact ⟨inTable, .inl passes⟩
  · cases reason <;> simp only [Entry.setReason] at visible <;> grind

theorem CommandTable.hidden?_of_shown {t : CommandTable} (shown : ∀ e ∈ t, e.hidden = false)
    (name : Text) : t.hidden? name = none := by
  simp only [hidden?, Option.map_eq_none_iff, List.find?_eq_none]
  intro e mem
  simp [shown e mem]

namespace Node

/-- A safe node without aliases and policies that sees only harmless commands. -/
structure IsTame (n : Node) : Prop where
  safe : n.trust.safe = true
  aliases : n.aliases = []
  policies : n.policies = []
  commands : ∀ e ∈ n.commands, e.hidden = false → e.command.action.isHarmless = true

instance (n : Node) : Decidable n.IsTame :=
  decidable_of_iff (n.trust.safe = true ∧ n.aliases = [] ∧ n.policies = [] ∧
      ∀ e ∈ n.commands, e.hidden = false → e.command.action.isHarmless = true)
    ⟨fun h => ⟨h.1, h.2.1, h.2.2.1, h.2.2.2⟩,
      fun h => ⟨h.safe, h.aliases, h.policies, h.commands⟩⟩

theorem IsTame.visible? {n : Node} (tame : n.IsTame) {name : Text} {c : Command}
    (visible : n.commands.visible? name = some c) : c.action.isHarmless = true := by
  obtain ⟨e, found, rfl⟩ := Option.map_eq_some_iff.mp visible
  have shown := List.find?_some found
  simp only [Bool.and_eq_true, Bool.not_eq_true'] at shown
  exact tame.commands e (List.mem_of_find?_eq_some found) shown.1

/-- A tame node, whose worker outlives it only if it has left the tree. -/
structure IsInmate (n : Node) : Prop where
  tame : n.IsTame
  gone : n.retiring.isSome = true → n.attached = false

/-- What runs may do to an inmate: it stays one, and while it is part of the tree its hidden commands,
its registries and its limits stay as they are. -/
structure Abides (n n' : Node) : Prop where
  id : n'.id = n.id
  trust : n'.trust = n.trust
  inmate : n'.IsInmate
  kept : n'.attached = true → n.attached = true ∧
    n'.commands.filter Entry.hidden = n.commands.filter Entry.hidden ∧
    n'.aliases = n.aliases ∧ n'.policies = n.policies ∧ n'.objects = n.objects ∧
    n'.cancel.limits = n.cancel.limits

namespace Abides

variable {n m k : Node}

theorem refl (inmate : n.IsInmate) : Abides n n :=
  ⟨rfl, rfl, inmate, fun attached => ⟨attached, rfl, rfl, rfl, rfl, rfl⟩⟩

theorem trans (h : Abides n m) (h' : Abides m k) : Abides n k := by
  refine ⟨h'.id.trans h.id, h'.trust.trans h.trust, h'.inmate, fun attached => ?_⟩
  obtain ⟨attached', hidden', aliases', policies', objects', limits'⟩ := h'.kept attached
  obtain ⟨attached'', hidden, aliases, policies, objects, limits⟩ := h.kept attached'
  exact ⟨attached'', hidden'.trans hidden, aliases'.trans aliases, policies'.trans policies,
    objects'.trans objects, limits'.trans limits⟩

/-- Changes of the work of an inmate. -/
theorem of_rest (inmate : n.IsInmate) (limits : m.cancel.limits = n.cancel.limits)
    (retiring : m.retiring.isSome = true → n.retiring.isSome = true)
    (same : m = { n with
      path := m.path, home := m.home, dead := m.dead, sharedLinks := m.sharedLinks
      links := m.links, vars := m.vars, frames := m.frames, queue := m.queue, busy := m.busy
      backgroundError := m.backgroundError, cancel := m.cancel, worker := m.worker
      retiring := m.retiring, unfinished := m.unfinished }) : Abides n m := by
  have attached : m.attached = n.attached := by rw [same]
  refine ⟨by rw [same], by rw [same], ⟨?_, fun gone => ?_⟩, fun here => ?_⟩
  · rw [same]
    exact ⟨inmate.tame.safe, inmate.tame.aliases, inmate.tame.policies, inmate.tame.commands⟩
  · exact attached.trans (inmate.gone (retiring gone))
  · refine ⟨attached ▸ here, ?_, ?_, ?_, ?_, limits⟩
    all_goals rw [same]

theorem of_stirs (inmate : n.IsInmate) (h : n.Stirs m) : Abides n m := by
  refine of_rest inmate h.limits ?_ ?_
  · rw [h.same]
    exact fun retiring => retiring
  · rw [h.same]

theorem of_cancel (inmate : n.IsInmate) {c : Cancellation} (limits : c.limits = n.cancel.limits) :
    Abides n { n with cancel := c } :=
  of_rest inmate limits (fun retiring => retiring) rfl

theorem of_works {serves : ServiceOptions → Prop} (inmate : n.IsInmate) (h : n.Works serves m) :
    Abides n m := by
  refine of_rest inmate ?_ (fun left => h.retiring ▸ left) ?_
  all_goals rw [h.same]

theorem isTame_of_strips {start : Node} (tame : n.IsTame) (h : start.Strips n m) :
    m.IsTame :=
  ⟨h.trust ▸ tame.safe, List.eq_nil_of_sublist_nil (tame.aliases ▸ h.aliases),
    List.eq_nil_of_sublist_nil (tame.policies ▸ h.policies),
    fun e mem => tame.commands e (h.commands.subset mem)⟩

theorem of_fades (inmate : n.IsInmate) (h : n.Fades m) : Abides n m := by
  refine ⟨h.id, h.trust, ⟨isTame_of_strips inmate.tame h.toStrips, fun gone => ?_⟩, fun here => ?_⟩
  · cases here : m.attached with
    | false => rfl
    | true =>
      obtain ⟨attached, same⟩ := h.kept here
      have retiring : m.retiring = n.retiring := by rw [same]
      rw [inmate.gone (retiring ▸ gone)] at attached
      cases attached
  · obtain ⟨attached, same⟩ := h.kept here
    refine ⟨attached, ?_, ?_, ?_, ?_, ?_⟩
    all_goals rw [same]

/-- An inmate that has left the tree is released. -/
theorem of_released {start : Node} (inmate : n.IsInmate) (gone : n.retiring.isSome = true)
    (h : start.Strips n m) : Abides n m := by
  have left : m.attached = false := by
    cases here : m.attached with
    | false => rfl
    | true =>
      have attached := h.attached here
      rw [inmate.gone gone] at attached
      cases attached
  refine ⟨h.id, h.trust, ⟨isTame_of_strips inmate.tame h, fun _ => left⟩, fun here => ?_⟩
  rw [left] at here
  cases here

/-- Other visible commands, as long as they are harmless. -/
theorem of_commands (inmate : n.IsInmate)
    (same : m = { n with seq := m.seq, commands := m.commands, aliases := m.aliases })
    (aliases : m.aliases = n.aliases)
    (hidden : m.commands.filter Entry.hidden = n.commands.filter Entry.hidden)
    (harmless : ∀ e ∈ m.commands, e.hidden = false → e.command.action.isHarmless = true) :
    Abides n m := by
  have tame : m.IsTame := by
    refine ⟨?_, aliases.trans inmate.tame.aliases, ?_, harmless⟩
    · rw [same]
      exact inmate.tame.safe
    · rw [same]
      exact inmate.tame.policies
  refine ⟨by rw [same], by rw [same], ⟨tame, ?_⟩, fun here => ⟨?_, hidden, aliases, ?_, ?_, ?_⟩⟩
  · rw [same]
    exact inmate.gone
  · rw [same] at here
    exact here
  all_goals rw [same]

theorem hidden_eraseVisible (name : Text) (t : CommandTable) :
    (t.eraseVisible name).filter Entry.hidden = t.filter Entry.hidden := by
  unfold CommandTable.eraseVisible
  rw [List.filter_filter]
  refine List.filter_congr fun e _ => ?_
  cases e.hidden <;> simp

theorem of_eraseCommand {name : Text} {c : Command} (inmate : n.IsInmate)
    (h : n.eraseCommand name c = .ok m) : Abides n m := by
  rw [eraseCommand_eq] at h
  split at h
  · cases h
  · obtain rfl := Except.ok.inj h
    refine of_commands inmate rfl ?_ (hidden_eraseVisible name n.commands) fun e mem => ?_
    · dsimp only
      rw [inmate.tame.aliases]
      split <;> rfl
    · exact inmate.tame.commands e (List.mem_filter.mp mem).1

/-- A procedure is defined, perhaps in place of a visible command. -/
theorem of_define {spec : CommandSpec} {name : Text} {params : List Text} {body : Text} {c : Command}
    (inmate : n.IsInmate) (procedure : spec.action = some (.procedure name params body))
    (h : n.define spec = .ok (c, m)) : Abides n m := by
  obtain ⟨action, k, does, -, clears, put⟩ := Node.of_define h
  obtain rfl := Option.some.inj (does.symm.trans procedure)
  have first : Abides n k := by
    rcases clears with ⟨-, rfl⟩ | ⟨old, -, erased⟩
    · exact refl inmate
    · exact of_eraseCommand inmate erased
  obtain ⟨-, rfl⟩ := Prod.mk.inj put
  refine first.trans (of_commands first.inmate rfl rfl ?_ fun e mem visible => ?_)
  · simp
  · rcases List.mem_append.mp mem with old | new
    · exact first.inmate.tame.commands e old visible
    · obtain rfl := List.mem_singleton.mp new
      rfl

/-- One more link. -/
theorem of_addLink (inmate : n.IsInmate) (l : Link) : Abides n (n.addLink l) :=
  of_rest inmate rfl (fun retiring => retiring) rfl

end Abides

variable {options : CreateOptions} {caller parent n m : Node} {id p : NodeId} {trust : Trust}

/-- What a safe caller makes is safe. -/
theorem safe_trust (safe : caller.trust.safe = true) :
    (options.trust caller.trust parent.trust).safe = true := by
  simp [CreateOptions.trust, safe]

/-- A safe node that joins the tree is an inmate. -/
theorem isInmate_join (isNew : n.IsNew id p trust) (safe : trust.safe = true) :
    n.join.IsInmate := by
  have trusted : n.trust.safe = true := isNew.trust ▸ safe
  have passed {e : Entry} (mem : e ∈ n.commands.hideFor .safe) (visible : e.hidden = false) :
      e ∈ n.commands ∧ e.command.flags.safe = true := by
    obtain ⟨stock, passes | taken⟩ := CommandTable.of_mem_hideFor mem visible
    · exact ⟨stock, passes⟩
    · rw [CommandTable.hidden?_of_shown fun e stock => (isNew.commands e stock).1] at taken
      cases taken
  have shown : ∀ e ∈ n.join.commands, e.hidden = false → e ∈ n.commands ∧
      e.command.flags.safe = true := by
    intro e mem visible
    unfold join hideDistrusted at mem
    simp only [trusted, if_true] at mem
    split at mem
    · exact passed (CommandTable.of_mem_hideFor mem visible).1 visible
    · exact passed mem visible
  have same := join_eq n
  refine ⟨⟨?_, ?_, ?_, fun e mem visible => ?_⟩, fun gone => ?_⟩
  · rw [same]
    exact trusted
  · rw [same]
    exact isNew.aliases
  · rw [same]
    exact isNew.policies
  · obtain ⟨stock, passes⟩ := shown e mem visible
    exact (isNew.commands e stock).isHarmless passes
  · rw [same, isNew.retiring] at gone
    cases gone

/-- A safe node that could not be populated is an inmate, since it sees nothing. -/
theorem isInmate_spoiled (isNew : n.IsNew id p trust) (safe : trust.safe = true)
    (detached : n.attached = false) (bare : n.commands = []) (strips : n.Strips n m) :
    m.IsInmate := by
  have tame : n.IsTame :=
    ⟨isNew.trust ▸ safe, isNew.aliases, isNew.policies, fun e mem => by rw [bare] at mem; cases mem⟩
  refine ⟨Abides.isTame_of_strips tame strips, fun _ => ?_⟩
  cases here : m.attached with
  | false => rfl
  | true =>
    have attached := strips.attached here
    rw [detached] at attached
    cases attached

end Node

end InterpTree
