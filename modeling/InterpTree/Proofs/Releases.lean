import InterpTree.Proofs.Histories

/-!
How nodes are released. What is registered in a node is dropped when it leaves the tree: at once, or
when the item is done that a worker of its own is running.
-/

namespace InterpTree

namespace Node

/-- The node is released as it leaves the tree. Once it is dead and outside, it holds nothing unless a
worker of its own has yet to retire. -/
structure LeavesClean (n : Node) : Prop where
  apart : n.retiring.isSome = true → n.released = true
  outside : n.released = true → n.attached = false
  laid : n.dead = true → n.attached = false → n.released = true ∧ (n.retiring = none → n.IsBare)

theorem LeavesClean.of_attached {n : Node} (attached : n.attached = true)
    (released : n.released = false) (retiring : n.retiring = none) : n.LeavesClean :=
  ⟨by simp [retiring], by simp [released], by simp [attached]⟩

/-- What may become of a node that leaves the tree, has left it, or stays. -/
structure Departs (n n' : Node) : Prop where
  id : n'.id = n.id
  attached : n'.attached = true → n.attached = true
  dead : n.dead = true → n'.dead = true
  released : n.released = true → n'.released = true
  left : n.attached = true → n'.attached = false → n'.dead = true
  quiet : n.released = true → n.retiring = none → n'.retiring = none
  clean : n.LeavesClean → n'.LeavesClean

/-- The node is dead and outside of the tree, and no worker of its own has yet to retire. -/
def isGone (n : Node) : Bool := n.dead && !n.attached && n.retiring.isNone

theorem isGone_iff {n : Node} :
    n.isGone = true ↔ n.dead = true ∧ n.attached = false ∧ n.retiring = none := by
  simp [isGone, and_assoc]

variable {n m k : Node}

theorem LeavesClean.isBare (h : n.LeavesClean) (gone : n.isGone = true) : n.IsBare := by
  obtain ⟨dead, away, idle⟩ := isGone_iff.mp gone
  exact (h.laid dead away).2 idle

namespace Departs

/-- What is gone stays so. -/
theorem isGone (h : n.Departs m) (clean : n.LeavesClean) (gone : n.isGone = true) :
    m.isGone = true := by
  obtain ⟨dead, away, idle⟩ := isGone_iff.mp gone
  refine isGone_iff.mpr ⟨h.dead dead, ?_, h.quiet (clean.laid dead away).1 idle⟩
  exact Bool.eq_false_iff.mpr fun stays => by simp [h.attached stays] at away

theorem trans (h : n.Departs m) (h' : m.Departs k) : n.Departs k where
  id := h'.id.trans h.id
  attached stays := h.attached (h'.attached stays)
  dead gone := h'.dead (h.dead gone)
  released gone := h'.released (h.released gone)
  left part away := by
    cases stays : m.attached with
    | false => exact h'.dead (h.left part stays)
    | true => exact h'.left stays away
  quiet gone none := h'.quiet (h.released gone) (h.quiet gone none)
  clean orderly := h'.clean (h.clean orderly)

/-- A change of a node that stays where it is. What is dead gains nothing. -/
theorem of_same (id : m.id = n.id) (attached : m.attached = n.attached) (dead : m.dead = n.dead)
    (released : m.released = n.released) (retiring : m.retiring.isSome = n.retiring.isSome)
    (bare : n.dead = true → n.IsBare → m.IsBare) : n.Departs m := by
  have idle : m.retiring = none ↔ n.retiring = none := by
    rw [← Option.not_isSome_iff_eq_none, ← Option.not_isSome_iff_eq_none, retiring]
  refine ⟨id, fun stays => attached ▸ stays, fun gone => dead ▸ gone, fun gone => released ▸ gone,
    fun part away => ?_, fun _ => idle.mpr, fun orderly => ⟨?_, ?_, ?_⟩⟩
  · rw [attached, part] at away
    cases away
  · rw [retiring, released]
    exact orderly.apart
  · rw [released, attached]
    exact orderly.outside
  · rw [dead, attached, released]
    intro gone away
    obtain ⟨freed, empty⟩ := orderly.laid gone away
    exact ⟨freed, fun none => bare gone (empty (idle.mp none))⟩

/-- A change that has nothing to do with the registries of a node. -/
theorem of_rest (retiring : m.retiring.isSome = n.retiring.isSome)
    (same : m = { n with
      ended := m.ended, shared := m.shared, path := m.path, home := m.home
      sharedLinks := m.sharedLinks, trust := m.trust, policySeq := m.policySeq
      backgroundError := m.backgroundError, seq := m.seq, cancel := m.cancel, queue := m.queue
      frames := m.frames, vars := m.vars, worker := m.worker, retiring := m.retiring
      busy := m.busy, unfinished := m.unfinished }) : n.Departs m := by
  refine .of_same (by rw [same]) (by rw [same]) (by rw [same]) (by rw [same]) retiring fun _ bare => ?_
  rw [same]
  exact ⟨bare.links, bare.commands, bare.aliases, bare.policies, bare.objects⟩

theorem refl (n : Node) : n.Departs n := .of_rest rfl rfl

end Departs

/-- What may become of a node by removals. A worker of its own may keep it waiting, if the removals
are its doing or it is running an item. -/
structure Leaves (own : Prop) (n n' : Node) : Prop extends Departs n n' where
  busy : n'.busy = n.busy
  calm : n.busy = false → ¬ own → n'.retiring = n.retiring

namespace Leaves

variable {own : Prop}

theorem trans (h : Leaves own n m) (h' : Leaves own m k) : Leaves own n k where
  toDeparts := h.toDeparts.trans h'.toDeparts
  busy := h'.busy.trans h.busy
  calm idle other := (h'.calm (h.busy.trans idle) other).trans (h.calm idle other)

theorem of_departs (h : n.Departs m) (busy : m.busy = n.busy) (retiring : m.retiring = n.retiring) :
    Leaves own n m :=
  ⟨h, busy, fun _ _ => retiring⟩

theorem refl (n : Node) : Leaves own n n := .of_departs (.refl n) rfl rfl

/-- A node that is part of the tree, or dead already, is marked dead. -/
theorem doom (part : n.attached = true ∨ n.dead = true) : Leaves own n { n with dead := true } := by
  refine .of_departs ⟨rfl, fun stays => stays, fun _ => rfl, fun gone => gone, fun _ _ => rfl,
    fun _ none => none, fun orderly => ⟨orderly.apart, orderly.outside, fun _ away => ?_⟩⟩ rfl rfl
  obtain ⟨freed, empty⟩ := orderly.laid (part.resolve_left (by simpa using away)) away
  refine ⟨freed, fun none => ?_⟩
  exact ⟨(empty none).links, (empty none).commands, (empty none).aliases, (empty none).policies,
    (empty none).objects⟩

theorem unlink (name : Text) (target : NodeId) (n : Node) : Leaves own n (n.unlink name target) := by
  refine .of_departs (.of_same rfl rfl rfl rfl rfl fun _ bare => ?_) rfl rfl
  refine ⟨?_, bare.commands, bare.aliases, bare.policies, bare.objects⟩
  simp only [Node.unlink, bare.links, List.filter_nil]

end Leaves

/-- What a node loses while it is released. -/
structure Ebbs (n n' : Node) : Prop where
  same : n' = { n with
    released := n'.released, ended := n'.ended, worker := n'.worker, cancel := n'.cancel
    queue := n'.queue, links := n'.links, commands := n'.commands, aliases := n'.aliases
    policies := n'.policies, objects := n'.objects }
  released : n.released = true → n'.released = true
  bare : n.IsBare → n'.IsBare

namespace Ebbs

theorem trans (h : n.Ebbs m) (h' : m.Ebbs k) : n.Ebbs k := by
  refine ⟨?_, fun gone => h'.released (h.released gone), fun empty => h'.bare (h.bare empty)⟩
  rw [h'.same, h.same]

/-- A change that leaves the registries alone. -/
theorem of_rest (released : n.released = true → m.released = true)
    (same : m = { n with
      released := m.released, ended := m.ended, worker := m.worker, cancel := m.cancel
      queue := m.queue }) : n.Ebbs m := by
  refine ⟨?_, released, fun empty => ?_⟩
  · rw [same]
  · rw [same]
    exact ⟨empty.links, empty.commands, empty.aliases, empty.policies, empty.objects⟩

theorem refl (n : Node) : n.Ebbs n := .of_rest (fun gone => gone) rfl

theorem of_cancel (c : Cancellation) : n.Ebbs { n with cancel := c } :=
  .of_rest (fun gone => gone) rfl

end Ebbs

/-- What a node is once it is released: its registries are dropped, or a worker of its own retires
first, which released it itself or is running an item. -/
structure IsFreed (own : Prop) (n n' : Node) : Prop where
  same : n' = { n with
    released := true, ended := n'.ended, worker := n'.worker, cancel := n'.cancel
    queue := n'.queue, links := n'.links, commands := n'.commands, aliases := n'.aliases
    policies := n'.policies, objects := n'.objects, retiring := n'.retiring }
  ends : n'.retiring = n.retiring ∧ n'.IsBare ∨
    n'.retiring.isSome = true ∧ (own ∨ n.busy = true)

/-- A dead node that was released before leaves the tree. -/
theorem Leaves.detach {own : Prop} (dead : n.dead = true) (freed : n.released = true) :
    Leaves own n { n with attached := false } := by
  refine .of_departs ⟨rfl, nofun, fun gone => gone, fun gone => gone, fun _ _ => dead,
    fun _ quiet => quiet, fun orderly => ⟨orderly.apart, fun _ => rfl, fun _ _ => ⟨freed, fun quiet => ?_⟩⟩⟩
    rfl rfl
  have empty := (orderly.laid dead (orderly.outside freed)).2 quiet
  exact ⟨empty.links, empty.commands, empty.aliases, empty.policies, empty.objects⟩

/-- A dead node that is released and leaves the tree. -/
theorem IsFreed.leaves {own : Prop} (h : IsFreed own n m) (dead : n.dead = true)
    (fresh : n.released = false) : Leaves own n { m with attached := false } := by
  have fixed : m.id = n.id ∧ m.dead = n.dead ∧ m.released = true ∧ m.busy = n.busy := by
    rw [h.same]
    exact ⟨rfl, rfl, rfl, rfl⟩
  obtain ⟨id, doomed, freed, busy⟩ := fixed
  refine ⟨⟨id, nofun, fun _ => doomed.trans dead, fun _ => freed, fun _ _ => doomed.trans dead,
    fun gone => ?_, fun orderly => ⟨fun _ => freed, fun _ => rfl, fun _ _ => ⟨freed, fun quiet => ?_⟩⟩⟩,
    busy, fun idle other => ?_⟩
  · rw [fresh] at gone
    cases gone
  · rcases h.ends with ⟨-, empty⟩ | ⟨waits, -⟩
    · exact ⟨empty.links, empty.commands, empty.aliases, empty.policies, empty.objects⟩
    · rw [show m.retiring = none from quiet] at waits
      cases waits
  · rcases h.ends with ⟨same, -⟩ | ⟨-, mine | running⟩
    · exact same
    · exact absurd mine other
    · rw [idle] at running
      cases running

/-- A new node that could not be populated is released, and holds nothing. -/
theorem IsNew.leavesClean {id parent : NodeId} {trust : Trust} (isNew : n.IsNew id parent trust)
    (detached : n.attached = false) (empty : n.commands = []) (strips : n.Strips n m)
    (released : m.released = true) : m.LeavesClean := by
  refine ⟨fun _ => released, fun _ => ?_, fun _ _ => ⟨released, fun _ => ?_⟩⟩
  · cases stays : m.attached with
    | false => rfl
    | true =>
      rw [strips.attached stays] at detached
      cases detached
  · have nothing {α : Type} {l l' : List α} (sub : l'.Sublist l) (nil : l = []) : l' = [] :=
      List.eq_nil_of_sublist_nil (nil ▸ sub)
    exact ⟨nothing strips.links isNew.links, nothing strips.commands empty,
      nothing strips.aliases isNew.aliases, nothing strips.policies isNew.policies,
      nothing strips.objects isNew.objects⟩

end Node

/-- A child is part of the tree, and not released. -/
theorem Op.IsChild.leavesClean {options : CreateOptions} {name : Text} {c p m : Node} {id : NodeId}
    (child : IsChild options name c p id m) : m.LeavesClean := by
  obtain ⟨n, isNew, rfl⟩ := child.made
  rw [Node.join_eq]
  exact .of_attached rfl isNew.released isNew.retiring

namespace World

variable {w v u : World} {id i : NodeId} {n : Node}

theorem composes_departs : Composes fun _ => Node.Departs := ⟨fun _ => .refl, fun _ _ _ _ => .trans⟩

/-- Every node is as departures allow. -/
abbrev Departs (w v : World) : Prop := Each (fun _ => Node.Departs) w v

/-- What is done to one node, and then what else is. -/
theorem Each.at_trans {P Q S : Node → Node → Prop} (h : Each (At id P) w v) (h' : Each (At id Q) v u)
    (both : ∀ n m k, P n m → Q m k → S n k) : Each (At id S) w u := by
  refine ⟨h'.size.trans h.size, fun i n found => ?_⟩
  obtain ⟨m, foundM, first⟩ := h.node i n found
  obtain ⟨k, foundK, second⟩ := h'.node i m foundM
  refine ⟨k, foundK, ?_⟩
  by_cases here : i = id
  · subst here
    exact at_same.mpr (both n m k (at_same.mp first) (at_same.mp second))
  · exact (at_ne here).mpr (((at_ne here).mp second).trans ((at_ne here).mp first))

/-! ### Being released -/

theorem composes_ebbs (id : NodeId) : Composes (At id Node.Ebbs) :=
  composes_at id Node.Ebbs.refl Node.Ebbs.trans

theorem ebbs_modifyNode {f : Node → Node} (h : ∀ n, w.node? id = some n → n.Ebbs (f n)) :
    Changes (At id Node.Ebbs) w (w.modifyNode id f) :=
  .modifyNode (composes_ebbs id) fun n found => at_same.mpr (h n found)

theorem ebbs_stopAll (id : NodeId) (w : World) : Changes (At id Node.Ebbs) w (w.stopAll id) := by
  have c := composes_ebbs id
  have stopped : Changes (At id Node.Ebbs) w (w.stopWatchdog id).2 := by
    unfold stopWatchdog
    split
    · exact .refl c w
    · rename_i n found
      dsimp only
      split
      · refine (ebbs_modifyNode fun m here => ?_).trans c (.logNode c _ _ _ _ _)
        obtain rfl : n = m := Option.some.inj (found.symm.trans here)
        exact .of_cancel _
      · exact .refl c w
  unfold stopAll
  refine (stopped.trans c ?_).trans c (ebbs_modifyNode fun _ _ => .of_rest (fun gone => gone) rfl)
  cases posted : (w.stopWatchdog id).2.postCancel id true true "interpreter deleted" with
  | error f => exact .refl c _
  | ok v =>
    obtain ⟨n, c', -, -, changes⟩ := of_postCancel posted
    refine changes.mono fun i m m' change => ?_
    by_cases here : i = id
    · subst here
      obtain ⟨rfl, rfl⟩ := at_same.mp change
      exact at_same.mpr (.of_cancel c')
    · exact (at_ne here).mpr ((at_ne here).mp change)

theorem ebbs_joinWorker (id : NodeId) (loop : Worker ServiceJob) (w : World) :
    Changes (At id Node.Ebbs) w (w.joinWorker id loop) := by
  have c := composes_ebbs id
  have refused (v : World) (item : Text × ServiceJob) :
      Changes (At id Node.Ebbs) v (v.refuseJob id item) := by
    unfold refuseJob
    split
    · exact .refl c v
    · exact Changes.trans c (.logNode c _ _ _ _ _) (.logNode c _ _ _ _ _)
  unfold joinWorker
  refine Changes.trans c ?_ (.foldl c _ refused _ _)
  split
  · exact .refl c w
  · unfold abandonJob
    refine Changes.trans c (Changes.trans c ?_ (.logNode c _ _ _ _ _)) (.logNode c _ _ _ _ _)
    split
    · exact ebbs_modifyNode fun _ _ => .of_cancel _
    · exact .refl c w

/-- One node is changed as `P` allows, whatever it was. -/
theorem each_modifyNode (id : NodeId) {P : Node → Node → Prop} (f : Node → Node) (h : ∀ n, P n (f n))
    (w : World) : Each (At id P) w (w.modifyNode id f) := (changes_modifyNode fun n _ => h n).nodes

/-- A node whose registries are dropped is bare. -/
theorem ebbs_drop (id : NodeId) (w : World) :
    Each (At id fun n n' => n.Ebbs n' ∧ n'.IsBare) w (w.drop id) := by
  unfold drop
  split
  · rename_i none
    refine ⟨rfl, fun i n found => ⟨n, found, (at_ne fun same => ?_).mpr rfl⟩⟩
    rw [same, none] at found
    cases found
  · rename_i n _
    have c := composes_ebbs id
    have emptied := each_modifyNode id (P := fun n n' => n.Ebbs n' ∧ n'.IsBare) (fun n =>
      { n with objects := [], commands := [], aliases := [], policies := [], links := [] })
      (fun _ => ⟨⟨rfl, fun gone => gone, fun _ => ⟨rfl, rfl, rfl, rfl, rfl⟩⟩, ⟨rfl, rfl, rfl, rfl, rfl⟩⟩) w
    have closed := Changes.foldl c (disposeFor id) (changes_disposeFor c id)
      (n.objects.filterMap fun entry => w.object? entry.2) (w.modifyNode id fun n =>
        { n with objects := [], commands := [], aliases := [], policies := [], links := [] })
    have cleared := closed.nodes.trans c (each_modifyNode id (fun n => { n with queue := n.queue.clear })
      (fun _ => .of_rest (fun gone => gone) rfl) _)
    exact emptied.at_trans cleared fun n m k first second =>
      ⟨first.1.trans second, second.bare first.2⟩

/-- The release of a node that is not yet released. -/
theorem freed_release (worker : Option NodeId) (found : w.node? id = some n)
    (fresh : n.released = false) :
    Each (At id fun m m' => m = n → Node.IsFreed (worker = some id) m m') w (w.release worker id) := by
  have c := composes_ebbs id
  have marked := each_modifyNode id (P := fun n n' => n.Ebbs n' ∧ n'.released = true)
    (fun n => { n with released := true }) (fun _ => ⟨.of_rest (fun _ => rfl) rfl, rfl⟩) w
  have stopped := (ebbs_stopAll id (w.modifyNode id fun n => { n with released := true })).nodes.trans c
    (each_modifyNode id (fun n => { n with worker := none })
      (fun _ => .of_rest (fun gone => gone) rfl) _)
  have halted := marked.at_trans (S := fun n n' => n.Ebbs n' ∧ n'.released = true)
    stopped fun n m k first second => ⟨first.1.trans second, second.released first.2⟩
  unfold release
  simp only [found, fresh, Bool.false_eq_true, if_false]
  generalize World.modifyNode id (fun n => { n with worker := none }) _ = v at halted ⊢
  -- What is dropped in the end is bare, whether or not a worker was joined before.
  have dropped {u : World} (joined : Each (At id fun n n' => n.Ebbs n' ∧ n'.released = true) w u) :
      Each (At id fun m m' => m = n → Node.IsFreed (worker = some id) m m') w (u.drop id) := by
    refine joined.at_trans (ebbs_drop id u) fun m k j first second _ => ?_
    have ebbs := first.1.trans second.1
    have same := ebbs.same
    rw [second.1.released first.2] at same
    exact ⟨by rw [same], .inl ⟨by rw [same], second.2⟩⟩
  split
  · exact dropped halted
  · rename_i loop _
    split
    · rename_i mine
      have retired := each_modifyNode id (P := fun n n' => ∃ loop, n' = { n with retiring := some loop })
        (fun n => { n with retiring := some loop.close }) (fun _ => ⟨_, rfl⟩) v
      refine halted.at_trans retired fun m k j first second here => ?_
      obtain ⟨loop, rfl⟩ := second
      have same := first.1.same
      rw [first.2] at same
      refine ⟨by rw [same], .inr ⟨rfl, ?_⟩⟩
      subst here
      simpa using mine
    · exact dropped (halted.at_trans (ebbs_joinWorker id _ v).nodes fun m k j first second =>
        ⟨first.1.trans second, second.released first.2⟩)

end World

end InterpTree
