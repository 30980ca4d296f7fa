import InterpTree.Proofs.Upkeep

/-!
Exposing a command undoes hiding it. Main statement: in every world that comes of a fresh tree, when a
command was hidden, exposing it from where it went under the name that it had is not refused, and leaves
the world as it was before. This rests on what holds of all tables there: no name is both visible and
hidden, trust has no reason noted for what is visible, and no name is empty.
-/

namespace InterpTree

namespace CommandTable

variable {t : CommandTable} {name newName : Text}

/-- What was hidden is exposed again with no reason of trust noted, as it had none before. -/
theorem expose_hide (free : t.hidden? newName = none)
    (shown : ∀ e ∈ t, e.hidden = false → e.isAutoHidden = false) :
    (t.hide name newName).expose newName name = t := by
  unfold hide expose
  rw [List.map_map]
  refine (List.map_congr_left fun e mem => ?_).trans t.map_id
  dsimp only [Function.comp, id]
  by_cases moved : e.hidden = false ∧ e.name = name
  · obtain ⟨visible, rfl⟩ := moved
    obtain ⟨safe, standard⟩ := Bool.or_eq_false_iff.mp (shown e mem visible)
    cases e
    simp_all
  · have stays : ¬ (!e.hidden && e.name == name) = true := by simpa using moved
    have unlike : e.hidden = true → e.name ≠ newName := hidden?_eq_none_iff.mp free e mem
    simpa [stays] using fun hidden renamed => absurd renamed (unlike hidden)

end CommandTable

namespace Node

variable {n : Node} {name newName : Text}

theorem IsTidy.mayExpose_hide (tidy : n.IsTidy) (may : n.MayHide name newName) :
    ({ n with commands := n.commands.hide name newName } : Node).MayExpose newName name :=
  ⟨may.writable, CommandTable.isSome_hidden?_hide (.inr ⟨rfl, may.there⟩),
    CommandTable.visible?_hide, CommandTable.hidden?_hide tidy.names may.there⟩

/-- What is visible has a name. -/
theorem IsTidy.ne_nil_of_visible? (tidy : n.IsTidy) (there : (n.commands.visible? name).isSome = true) :
    name ≠ [] := by
  rintro rfl
  obtain ⟨e, mem, -, none⟩ := CommandTable.isSome_visible?_iff.mp there
  exact tidy.named (none ▸ List.mem_map_of_mem mem)

end Node

namespace Op

variable {w v : World} {caller target : NodeId} {path name newName to' : Text} {c n : Node}

theorem hide_ok (asker : w.node? caller = some c) (trusted : c.trust.safe = false)
    (resolved : w.resolve? caller path = some target) (found : w.node? target = some n)
    (renamed : to' = if newName.isEmpty then name else newName) (may : n.MayHide name to') :
    hide caller path name newName w = .ok ()
      (w.modifyNode target fun _ => { n with commands := n.commands.hide name to' }) := by
  obtain ⟨writable, there, free, apart⟩ := may
  unfold hide
  rw [bind_of_ok (requirePrivilege_ok asker trusted _), bind_of_ok (resolve_ok resolved), ← renamed]
  refine updateNode_ok found ?_
  rw [Ends.eq_ok_iff]
  simpa [Edit.hide, writable, free] using ⟨fun _ => apart, Option.isSome_iff_ne_none.mp there⟩

theorem expose_ok (asker : w.node? caller = some c) (trusted : c.trust.safe = false)
    (resolved : w.resolve? caller path = some target) (found : w.node? target = some n)
    (renamed : to' = if newName.isEmpty then name else newName) (may : n.MayExpose name to') :
    expose caller path name newName w = .ok ()
      (w.modifyNode target fun _ => { n with commands := n.commands.expose name to' }) := by
  obtain ⟨writable, there, free, apart⟩ := may
  unfold expose
  rw [bind_of_ok (requirePrivilege_ok asker trusted _), bind_of_ok (resolve_ok resolved), ← renamed]
  refine updateNode_ok found ?_
  rw [Ends.eq_ok_iff]
  simpa [Edit.expose, writable, free] using ⟨fun _ => apart, Option.isSome_iff_ne_none.mp there⟩

end Op

namespace World

variable {w v : World} {caller target : NodeId} {path name newName : Text} {n : Node}

/-- What is hidden and exposed under the names the other way round is as it was. -/
theorem expose_of_hide (tidy : n.IsTidy) (found : w.node? target = some n)
    (hides : Op.hide caller path name newName w = .ok () v)
    (resolved : w.resolve? caller path = some target) :
    Op.expose caller path (if newName.isEmpty then name else newName) name v = .ok () w := by
  obtain ⟨⟨c, asker, trusted⟩, target', n', to', resolved', renamed, may, amends⟩ :=
    (Op.settles_hide newName).of_ok hides
  obtain rfl : target = target' := Option.some.inj (resolved.symm.trans resolved')
  obtain rfl : n = n' := Option.some.inj (found.symm.trans amends.found)
  have ways : SameWays w v := amends.each composes_sameWays ⟨rfl, rfl, rfl, rfl⟩
  have asker' : ∃ c', v.node? caller = some c' ∧ c'.trust.safe = false := by
    by_cases self : caller = target
    · subst self
      obtain rfl : c = n := Option.some.inj (asker.symm.trans found)
      exact ⟨_, amends.node?, trusted⟩
    · exact ⟨c, (amends.node?_ne self).trans asker, trusted⟩
  obtain ⟨c', asker', trusted'⟩ := asker'
  have named : name.isEmpty = false := by
    simpa using tidy.ne_nil_of_visible? may.there
  have exposes : Op.expose caller path to' name v = _ :=
    Op.expose_ok asker' trusted' ((ways.resolve? _ _).trans resolved) amends.node?
      (by simp [named]) (tidy.mayExpose_hide may)
  rw [← renamed, exposes]
  -- Both operations replace one node, the second one by the node that was there at first.
  obtain ⟨-, rfl⟩ := EStateM.Result.ok.inj
    (hides.symm.trans (Op.hide_ok asker trusted resolved found renamed may))
  have same : { n with commands := (n.commands.hide name to').expose to' name } = n := by
    rw [CommandTable.expose_hide may.free tidy.shown]
  rw [same, modifyNode_restore found]

/-- In all that comes of a fresh tree, when a node of the tree has hidden a command, in itself or in a
node that a path leads to, and asks to expose it again under the name that it had, this is not refused,
and the world is in every respect as it was before the command was hidden. -/
theorem expose_undoes_hide_of_reachable (reachable : w.IsReachable) (joined : w.HasJoined caller)
    (hides : Op.hide caller path name newName w = .ok () v) :
    Op.expose caller path (if newName.isEmpty then name else newName) name v = .ok () w := by
  obtain ⟨-, target, n, to', resolved, -, -, amends⟩ := (Op.settles_hide newName).of_ok hides
  have consistent := reachable.isConsistent
  obtain ⟨n', there⟩ := attached_of_resolve? consistent.numbered joined resolved
  obtain rfl : n = n' := Option.some.inj (amends.found.symm.trans (node?_of_attached? there))
  exact expose_of_hide (consistent.tables target n there).tidy amends.found hides resolved

/-- A safe child has an alias. -/
def wired : List TableOp :=
  [.defineAlias root "c" "ping" [] "list" ["pong"], .safe root "c" true]

/-- The shim of the alias is hidden under another name, and exposed again. -/
theorem expose_undoes_hide_of_reachable_wired :
    (nursed wired).IsReachable ∧ (nursed wired).HasJoined root ∧
      ∃ v, Op.hide root "c" "ping" "old" (nursed wired) = .ok () v ∧
        Op.expose root "c" "old" "ping" v = .ok () (nursed wired) := by
  have reachable : (nursed wired).IsReachable := isReachable_nursed (by decide)
  have joined : (nursed wired).HasJoined root := by decide +kernel
  have goes : Ends (Op.hide root "c" "ping" "old") (nursed wired) fun r _ => r = .ok () := by
    decide +kernel
  obtain ⟨v, hides, -⟩ := Ends.exists_ok (P := fun _ => True)
    (goes.mono fun _ _ done => ⟨done, trivial⟩)
  have exposes := expose_undoes_hide_of_reachable reachable joined hides
  exact ⟨reachable, joined, v, hides, exposes⟩

end World

end InterpTree
