import InterpTree.Proofs.Ends
import InterpTree.Proofs.Waning

/-!
The operations that remove nodes. Each comes down to removals within any zone that holds the node
that goes away and that links do not lead out of.
-/

namespace InterpTree

namespace World

variable {w v : World} {Z : NodeId → Prop} {id : NodeId} {P : NodeId → Node → Node → Prop}

theorem changes_disposeFor (c : Composes P) (id : NodeId) (w : World) (o : Object) :
    Changes P w (disposeFor id w o) := by
  have noted : Changes P w (w.modifyHost fun h =>
      { h with disposed := h.disposed ++ [o.name], closed := h.closed ++ [o.token] }) :=
    .modifyHost c ⟨rfl, .inl ⟨rfl, rfl⟩⟩
  unfold disposeFor
  split
  · exact .refl c w
  · unfold dispose
    cases o.value.disposal with
    | ignored => exact .refl c w
    | closes => exact noted
    | fails => exact noted.trans c (.logNode c _ _ _ _ _)

/-- What may become of a node that is being released. -/
abbrev Released (start : Node) (id : NodeId) : NodeId → Node → Node → Prop :=
  At id start.Strips

theorem composes_released (start : Node) (id : NodeId) : Composes (Released start id) :=
  composes_at id (Node.Strips.refl start) Node.Strips.trans

variable {start : Node}

/-- A change that leaves the worker and the cancellation of a node alone. -/
theorem released_modifyNode {f : Node → Node}
    (h : ∀ n, w.node? id = some n → start.Strips n (f n)) :
    Changes (Released start id) w (w.modifyNode id f) :=
  .modifyNode (composes_released start id) fun n found => at_same.mpr (h n found)

theorem changes_drop (start : Node) (id : NodeId) (w : World) :
    Changes (Released start id) w (w.drop id) := by
  have c := composes_released start id
  unfold drop
  split
  · exact .refl c w
  · refine (released_modifyNode fun n _ => ?_).trans c
      ((Changes.foldl c _ (changes_disposeFor c id) _ _).trans c (released_modifyNode fun n _ => ?_))
    · exact ⟨rfl, rfl, rfl, rfl, rfl, fun a => a, fun d => d, fun r => r, List.nil_sublist _,
        List.nil_sublist _, List.nil_sublist _, List.nil_sublist _, List.nil_sublist _, .refl _,
        fun _ => ⟨fun p => p, .refl _⟩, fun _ q => q⟩
    · exact ⟨rfl, rfl, rfl, rfl, rfl, fun a => a, fun d => d, fun r => r, .refl _, .refl _, .refl _,
        .refl _, .refl _, Schedule.leads_clear _, fun _ => ⟨fun p => p, .refl _⟩, fun _ q => q⟩

theorem changes_stopWatchdog (start : Node) (id : NodeId) (w : World) :
    Changes (Released start id) w (w.stopWatchdog id).2 := by
  have c := composes_released start id
  unfold stopWatchdog
  split
  · exact .refl c w
  · rename_i n found
    dsimp only
    split
    · refine Changes.trans c (released_modifyNode fun m here => ?_) (.logNode c _ _ _ _ _)
      obtain rfl : n = m := Option.some.inj (found.symm.trans here)
      exact .of_rest (fun d => d) (fun r => r) (Cancellation.lasts_stopWatchdog n.cancel) rfl
    · exact .refl c w

/-- Posting a cancellation on a node changes its controller and nothing else. -/
theorem of_postCancel {force unwind : Bool} {message : Text}
    (h : w.postCancel id force unwind message = .ok v) :
    ∃ n c, w.node? id = some n ∧ n.cancel.cancel force unwind message = .ok c ∧
      Changes (At id fun m m' => m = n ∧ m' = { n with cancel := c }) w v := by
  unfold postCancel at h
  split at h
  · cases h
  · rename_i n found
    cases posted : n.cancel.cancel force unwind message with
    | error f => simp [posted, Except.map] at h
    | ok c =>
      simp only [posted, Except.map, Except.ok.injEq] at h
      subst h
      refine ⟨n, c, found, posted, Changes.followed (changes_modifyNode fun m here => ?_)
        (nodes_logNode _ _ _ _ _) (.logNode _ _ _ _ _)⟩
      obtain rfl : n = m := Option.some.inj (found.symm.trans here)
      exact ⟨rfl, rfl⟩

/-- Posting an unwinding cancellation on a node. -/
theorem changes_postCancel {force : Bool} {message : Text}
    (h : w.postCancel id force true message = .ok v) : Changes (Released start id) w v := by
  obtain ⟨n, c, found, posted, changes⟩ := of_postCancel h
  refine changes.mono fun i m m' change => ?_
  by_cases here : i = id
  · subst here
    obtain ⟨rfl, rfl⟩ := at_same.mp change
    exact at_same.mpr (.of_rest (fun d => d) (fun r => r) (Cancellation.lasts_cancel posted) rfl)
  · exact (at_ne here).mpr ((at_ne here).mp change)

theorem changes_stopAll (start : Node) (id : NodeId) (w : World) :
    Changes (Released start id) w (w.stopAll id) := by
  have c := composes_released start id
  unfold stopAll
  refine (changes_stopWatchdog start id w).trans c (Changes.trans c ?_
    (released_modifyNode fun n _ => .of_rest (fun d => d) (fun r => r) (.refl _) rfl))
  cases posted : (w.stopWatchdog id).2.postCancel id true true "interpreter deleted" with
  | error f => exact .refl c _
  | ok v => exact changes_postCancel posted

theorem changes_abandonJob {job : ServiceJob} (h : start.IsPatient → job.options.noCancel = false)
    (work : Text) (w : World) : Changes (Released start id) w (w.abandonJob id work job) := by
  have c := composes_released start id
  unfold abandonJob logServiceEnd logCanceledWork
  refine Changes.trans c (Changes.trans c ?_ (.logNode c _ _ _ _ _)) (.logNode c _ _ _ _ _)
  split
  · rename_i clears
    refine released_modifyNode fun n _ => ⟨rfl, rfl, rfl, ?_, rfl, fun a => a, fun d => d, fun r => r,
      .refl _, .refl _, .refl _, .refl _, .refl _, .refl _, fun p => ?_, fun _ q => q⟩
    · exact Prod.ext (Cancellation.depth_reset true n.cancel) rfl
    rw [h p] at clears
    cases clears
  · exact .refl c w

theorem changes_refuseJob (start : Node) (id : NodeId) (w : World) (item : Text × ServiceJob) :
    Changes (Released start id) w (w.refuseJob id item) := by
  have c := composes_released start id
  unfold refuseJob logServiceEnd logUnhandled
  split
  · exact .refl c w
  · exact Changes.trans c (.logNode c _ _ _ _ _) (.logNode c _ _ _ _ _)

theorem changes_joinWorker {loop : Worker ServiceJob}
    (h : start.IsPatient → ∀ item ∈ loop.items, item.2.options.noCancel = false) (w : World) :
    Changes (Released start id) w (w.joinWorker id loop) := by
  have c := composes_released start id
  unfold joinWorker
  refine Changes.trans c ?_ (.foldl c _ (changes_refuseJob start id) _ _)
  split
  · exact .refl c w
  · rename_i work job running
    exact changes_abandonJob (fun p => h p (work, job) (by simp [Worker.items, running])) work w

/-- A node is released. Service loops that it leaves behind are those of its worker. -/
theorem changes_release {n : Node} (found : w.node? id = some n) (worker : Option NodeId) :
    Changes (Released n id) w (w.release worker id) := by
  have c := composes_released n id
  unfold release
  simp only [found]
  split
  · exact .refl c w
  · have marked : Changes (Released n id) w
        (w.modifyNode id fun n => { n with released := true }) :=
      released_modifyNode fun m _ => .of_rest (fun d => d) (fun _ => rfl) (.refl _) rfl
    have bare (v : World) : Changes (Released n id) v
        (v.modifyNode id fun n => { n with worker := none }) :=
      released_modifyNode fun m _ => ⟨rfl, rfl, rfl, rfl, rfl, fun a => a, fun d => d, fun r => r,
        .refl _, .refl _, .refl _, .refl _, .refl _, .refl _,
        fun _ => ⟨fun p loop mem => p loop (List.mem_append_right _ (by simpa using mem)), .refl _⟩,
        fun _ q => ⟨rfl, q.2⟩⟩
    refine ((marked.trans c (changes_stopAll _ id _)).trans c (bare _)).trans c ?_
    split
    · exact changes_drop _ id _
    · rename_i loop started
      have calm : n.IsPatient → ∀ item ∈ loop.items, item.2.options.noCancel = false :=
        fun p => p loop (by simp [started])
      split
      · refine released_modifyNode fun m _ => ?_
        refine ⟨rfl, rfl, rfl, rfl, rfl, fun a => a, fun d => d, fun r => r, .refl _, .refl _, .refl _,
          .refl _, .refl _, .refl _, fun p => ⟨fun q loop' mem => ?_, .refl _⟩, fun q => ?_⟩
        · rcases List.mem_append.mp mem with mine | retiring
          · exact q loop' (List.mem_append_left _ mine)
          · obtain rfl : loop' = loop.close := by simpa using retiring
            exact calm p
        · rw [q.1] at started
          cases started
      · exact (changes_joinWorker calm _).trans c (changes_drop _ id _)

/-- A node is released and leaves the tree. -/
theorem changes_leave (worker : Option NodeId) (id : NodeId) (w : World) :
    Changes (At id fun n n' => n.Fades n' ∧ n'.attached = false) w
      ((w.release worker id).modifyNode id fun n => { n with attached := false }) := by
  match found : w.node? id with
  | none =>
    have same : w.release worker id = w := by
      unfold release
      simp only [found]
    rw [same]
    exact changes_modifyNode fun n here => by
      rw [found] at here
      cases here
  | some n =>
    have released := changes_release found worker
    refine ⟨⟨?_, fun i m foundM => ?_⟩, released.still.trans (.modifyNode id _ _)⟩
    · rw [size_modifyNode, released.nodes.size]
    · obtain ⟨m', foundM', change⟩ := released.nodes.node i m foundM
      by_cases same : i = id
      · subst same
        obtain rfl : n = m := Option.some.inj (found.symm.trans foundM)
        exact ⟨_, node?_modifyNode_same _ foundM', at_same.mpr ⟨(at_same.mp change).fades, rfl⟩⟩
      · exact ⟨m', (node?_modifyNode_ne _ same).trans foundM',
          (at_ne same).mpr ((at_ne same).mp change)⟩

theorem wanes_leave (inside : Z id) (worker : Option NodeId) (w : World) :
    Wanes Z w ((w.release worker id).modifyNode id fun n => { n with attached := false }) := by
  refine (changes_leave worker id w).mono fun i n n' change => ?_
  by_cases same : i = id
  · subst same
    exact .of_zone inside (at_same.mp change).1
  · rw [(at_ne same).mp change]
    exact composes_wanesAt.refl i n

theorem wanes_doom (inside : Z id) (w : World) :
    Wanes Z w (w.modifyNode id fun n => { n with dead := true }) :=
  .modifyNode inside fun _ _ => .of_kept (fun _ => rfl) rfl

theorem wanes_setSharedLinks (links : List LinkRef) (inside : Z id) (w : World) :
    Wanes Z w (w.modifyNode id fun n => { n with sharedLinks := links }) :=
  .modifyNode inside fun _ _ => .of_kept (fun d => d) rfl

theorem wanes_unlinkShared (inside : Z id) (w : World) : Wanes Z w (w.unlinkShared id) := by
  unfold unlinkShared
  split
  · exact .refl w
  · refine (wanes_setSharedLinks [] inside w).trans
      (Changes.foldl composes_wanesAt _ (fun v ref => ?_) _ _)
    split
    · exact Wanes.unlink ref.holder ref.name id
    · exact Wanes.refl v

theorem wanes_rehome (gone : NodeId) (inside : Z id) (w : World) : Wanes Z w (w.rehome gone id) := by
  have moved (v : World) (home : NodeId) (path : Text) :
      Wanes Z v (v.modifyNode id fun n => { n with home, path }) :=
    .modifyNode inside fun _ _ => .of_kept (fun d => d) rfl
  unfold rehome
  split
  · exact .refl w
  · rename_i n found
    dsimp only
    refine (wanes_setSharedLinks (n.sharedLinks.filter fun ref => ref.holder ≠ gone) inside w).trans ?_
    split
    · exact .refl _
    · split
      · exact .refl _
      · exact (moved _ _ _).trans (.logNode _ _ _ _ _)

/-- The induction is on the depth that is left; a child that goes is dealt with by the hypothesis,
one that was handed over to the host only moves. -/
theorem wanes_teardownNode (worker : Option NodeId) (fuel : Nat) (inside : Z id)
    (closed : w.IsClosed Z) : Wanes Z w (w.teardownNode worker fuel id) := by
  induction fuel generalizing id w with
  | zero => exact .refl w
  | succ fuel ih =>
    unfold teardownNode
    split
    · exact .refl w
    · rename_i n found
      have below (l : Link) (mem : l ∈ n.links) : Z l.target := closed id n found inside l mem
      refine .trans (.andThen closed ?primary fun closed => .foldl (fun v l mem _ => ?shared) closed)
        (wanes_leave inside worker _)
      case shared =>
        split
        · exact wanes_rehome id (below l (List.mem_filter.mp mem).1) v
        · exact .refl v
      case primary =>
        refine .foldl (fun v l mem closedV => ?_) closed
        have target := below l (List.mem_filter.mp mem).1
        split
        · exact .refl v
        · split
          · exact wanes_rehome id target v
          · have doomed := (wanes_doom target v).trans (wanes_unlinkShared target _)
            exact .andThen closedV doomed (ih target)

theorem wanes_teardown (worker : Option NodeId) (inside : Z id) (closed : w.IsClosed Z) :
    Wanes Z w (w.teardown worker id) :=
  wanes_teardownNode worker _ inside closed

end World

namespace Op

variable {w : World}

/-- A deletion takes effect among what the links of the node lead to. -/
theorem settles_delete (worker : Option NodeId) (caller : NodeId) (path : Text)
    (numbered : w.IsNumbered) :
    Settles (delete worker caller path) w fun r v =>
      r = .ok () ∧ ∃ target t, w.resolve? caller path = some target ∧
        w.node? target = some t ∧ t.isRoot = false ∧ w.isWithin caller target = false ∧
        ∀ Z, w.IsClosed Z → Z target → World.Wanes Z w v := by
  unfold delete
  refine .resolve fun id resolved => .node fun target found => .require fun notRoot =>
    .get (.require fun apart => .resolve fun parentId _ => .node fun parent _ => ?_)
  obtain rfl : target.id = id := numbered id target found
  split
  · exact .throw _
  · rename_i link here
    refine .require fun _ => .require fun _ => .of_ends ?_
    have within : w.isWithin caller target.id = false := by simpa using apart
    have notRoot : target.isRoot = false := by simpa using notRoot
    have unlinked (Z : NodeId → Prop) := World.Wanes.unlink (w := w) (Z := Z) parent.id
      (splitPath path).2 target.id
    simp only [Ends.bind_iff, ends_change]
    split
    · rw [ends_change]
      refine ⟨rfl, target.id, target, resolved, found, notRoot, within,
        fun Z closed inside => (unlinked Z).trans ?_⟩
      exact .modifyNode inside fun _ _ => .of_kept (fun d => d) rfl
    · simp only [Ends.bind_iff, ends_change]
      refine ⟨trivial, target.id, target, resolved, found, notRoot, within,
        fun Z closed inside => ?_⟩
      have doomed := ((unlinked Z).trans (World.wanes_doom inside _)).trans
        (World.wanes_unlinkShared inside _)
      exact (World.Wanes.andThen closed doomed (World.wanes_teardown worker inside)).trans
        (.logNode _ _ _ _ _)

/-- Disposing of a node that was handed over takes effect among what its links lead to. -/
theorem settles_disposeShared (worker : Option NodeId) (caller : NodeId) (path : Text)
    (numbered : w.IsNumbered) :
    Settles (disposeShared worker caller path) w fun r v =>
      r = .ok () ∧ (∃ n, w.node? caller = some n ∧ n.trust.safe = false) ∧
        ∃ target t, w.resolve? caller path = some target ∧ w.node? target = some t ∧
          t.shared = true ∧ w.isWithin caller target = false ∧
          ∀ Z, w.IsClosed Z → Z target → World.Wanes Z w v := by
  unfold disposeShared
  refine .requirePrivilege fun n asker trusted => .resolve fun id resolved =>
    .node fun target found => .get (.require fun apart => .require fun handed => .of_ends ?_)
  obtain rfl : target.id = id := numbered id target found
  have within : w.isWithin caller target.id = false := by simpa using apart
  simp only [Ends.bind_iff, ends_change, Ends.get_iff]
  have rest (Z : NodeId → Prop) (inside : Z target.id) (u : World) (start : World.Wanes Z w u)
      (closed : w.IsClosed Z) :
      World.Wanes Z w ((u.unlinkShared target.id).teardown worker target.id) :=
    .andThen closed (start.trans (World.wanes_unlinkShared inside u))
      (World.wanes_teardown worker inside)
  split
  · simp only [Ends.bind_iff, ends_change]
    refine ⟨trivial, ⟨n, asker, trusted⟩, target.id, target, resolved, found, handed, within,
      fun Z closed inside => ?_⟩
    exact rest Z inside _ ((World.wanes_doom inside w).trans (.unlink _ _ _)) closed
  · simp only [Ends.bind_iff, ends_change]
    refine ⟨trivial, ⟨n, asker, trusted⟩, target.id, target, resolved, found, handed, within,
      fun Z closed inside => ?_⟩
    exact rest Z inside _ (World.wanes_doom inside w) closed

end Op

end InterpTree
