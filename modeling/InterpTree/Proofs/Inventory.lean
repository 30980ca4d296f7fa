import InterpTree.Proofs.Histories

/-!
Where the objects of the host are registered, and which of them have been closed. A node that leaves
the tree gives up its objects, and those that are its own to dispose of are closed: `Sweeps w v` says
that the world `v` comes from `w` in this way, with nothing else done to objects.
-/

namespace InterpTree

/-- Disposing of the object closes its value. -/
def Object.closes (o : Object) : Bool := !o.noDispose && o.value.disposal != .ignored

/-- The node has no worker, and it is part of the tree or released, and then holds no objects. -/
structure Node.IsHoused (n : Node) : Prop where
  named : (n.objects.map Prod.fst).Nodup
  idle : n.IsIdle
  part : n.attached = !n.released
  cleared : n.released = true → n.objects = []

namespace World

variable {w v u : World} {id i h : NodeId} {n m : Node} {t : Nat} {o : Object}

/-- The objects registered in a node, each as its token, by name. -/
def objectsAt (w : World) (i : NodeId) : List (Text × Nat) :=
  ((w.node? i).map Node.objects).getD []

/-- How often an object is registered in a node. -/
def held (w : World) (i : NodeId) (t : Nat) : Nat := ((w.objectsAt i).map Prod.snd).count t

/-- How often the value of an object has been closed through it. -/
def closings (w : World) (t : Nat) : Nat := w.host.closed.count t

/-- How often a value has been closed, through whichever object. -/
def closingsOf (w : World) (x : HostValue) : Nat :=
  w.host.closed.countP fun t => (w.object? t).any fun o => o.value = x

/-- How often a value has been registered, as an object each time. -/
def registrations (w : World) (x : HostValue) : Nat := w.objects.toList.countP fun o => o.value = x

/-- Disposing of the object of a token closes its value. -/
def closes (w : World) (t : Nat) : Bool := (w.object? t).any Object.closes

/-- The object is registered in node `h`, if anywhere. -/
def IsOnlyAt (w : World) (h : NodeId) (t : Nat) : Prop := ∀ i, i ≠ h → w.held i t = 0

/-- The node has been released. -/
def IsReleased (w : World) (i : NodeId) : Prop := ∃ n, w.node? i = some n ∧ n.released = true

/-- Tokens name objects, and whoever has left the tree holds none. -/
structure IsHoused (w : World) : Prop where
  numbered : w.IsNumbered
  nodes : ∀ i n, w.node? i = some n → n.IsHoused
  labeled : ∀ t o, w.object? t = some o → o.token = t
  known : ∀ i, ∀ e ∈ w.objectsAt i, (w.object? e.2).isSome
  noted : ∀ t ∈ w.host.closed, (w.object? t).isSome

theorem objectsAt_of_node? (found : w.node? i = some n) : w.objectsAt i = n.objects := by
  simp [objectsAt, found]

theorem objectsAt_congr (same : v.node? i = w.node? i) : v.objectsAt i = w.objectsAt i := by
  rw [objectsAt, same, objectsAt]

/-- A node that was released holds no objects. -/
theorem IsHoused.objectsAt_eq_nil (housed : w.IsHoused) (released : w.IsReleased i) :
    w.objectsAt i = [] := by
  obtain ⟨n, found, gone⟩ := released
  rw [objectsAt_of_node? found]
  exact (housed.nodes i n found).cleared gone

/-! ### Sweeping -/

/-- Nodes are released and give up their objects, and what is their own to dispose of is closed. -/
structure Sweeps (w v : World) : Prop where
  housed : v.IsHoused
  objects : v.objects = w.objects
  shut : v.closed = w.closed
  kept : ∀ i, v.objectsAt i = w.objectsAt i ∨ v.IsReleased i
  released : ∀ i, w.IsReleased i → v.IsReleased i
  quiet : ∀ t, w.closes t = false → v.closings t = w.closings t
  balance : ∀ t h, w.closes t = true → w.IsOnlyAt h t →
    v.closings t + v.held h t = w.closings t + w.held h t

theorem Sweeps.refl (housed : w.IsHoused) : Sweeps w w :=
  ⟨housed, rfl, rfl, fun _ => .inl rfl, fun _ => id, fun _ _ => rfl, fun _ _ _ _ => rfl⟩

theorem object?_congr (same : v.objects = w.objects) (t : Nat) : v.object? t = w.object? t := by
  unfold object?
  rw [same]

theorem closes_congr (same : v.objects = w.objects) (t : Nat) : v.closes t = w.closes t := by
  rw [closes, object?_congr same, closes]

/-- Nothing is registered anew. -/
theorem Sweeps.held_le (sweeps : Sweeps w v) (i : NodeId) (t : Nat) : v.held i t ≤ w.held i t := by
  unfold held
  obtain same | released := sweeps.kept i
  · exact Nat.le_of_eq (by rw [same])
  · rw [sweeps.housed.objectsAt_eq_nil released]
    exact Nat.zero_le _

theorem Sweeps.isOnlyAt (sweeps : Sweeps w v) (only : w.IsOnlyAt h t) : v.IsOnlyAt h t :=
  fun i other => Nat.le_zero.1 (only i other ▸ sweeps.held_le i t)

theorem Sweeps.andThen (first : Sweeps w v) (next : v.IsHoused → Sweeps v u) : Sweeps w u := by
  have second := next first.housed
  refine ⟨second.housed, second.objects.trans first.objects, second.shut.trans first.shut,
    fun i => ?_, fun i gone => second.released i (first.released i gone), fun t stays => ?_,
    fun t h closes only => ?_⟩
  · obtain same | gone := second.kept i
    · obtain same' | gone := first.kept i
      · exact .inl (same.trans same')
      · exact .inr (second.released i gone)
    · exact .inr gone
  · exact (second.quiet t ((closes_congr first.objects t).trans stays)).trans (first.quiet t stays)
  · exact (second.balance t h ((closes_congr first.objects t).trans closes)
      (first.isOnlyAt only)).trans (first.balance t h closes only)

theorem Sweeps.foldl {α : Type} (f : World → α → World)
    (step : ∀ v a, v.IsHoused → Sweeps v (f v a)) (as : List α) (housed : w.IsHoused) :
    Sweeps w (as.foldl f w) := by
  induction as generalizing w with
  | nil => exact .refl housed
  | cons a as ih => exact (step w a housed).andThen ih

/-- Only node `id` is another one, which is `m` now, and the host has closed nothing. -/
structure Alters (id : NodeId) (m : Node) (w v : World) : Prop where
  node : ∀ i, v.node? i = if i = id then some m else w.node? i
  objects : v.objects = w.objects
  shut : v.closed = w.closed
  closed : v.host.closed = w.host.closed

end World

/-- Nothing has changed about the node that objects depend on. -/
structure Node.Passes (n m : Node) : Prop where
  id : m.id = n.id
  objects : m.objects = n.objects
  attached : m.attached = n.attached
  released : m.released = n.released
  worker : m.worker = n.worker
  retiring : m.retiring = n.retiring

/-- The node without its registries. -/
def Node.emptied (n : Node) : Node :=
  { n with
    objects := [], commands := [], aliases := [], policies := [], links := []
    queue := n.queue.clear }

theorem Node.Passes.isHoused {n m : Node} (passes : n.Passes m) (housed : n.IsHoused) :
    m.IsHoused where
  named := passes.objects ▸ housed.named
  idle := ⟨passes.worker.trans housed.idle.1, passes.retiring.trans housed.idle.2⟩
  part := by rw [passes.attached, passes.released, housed.part]
  cleared gone := passes.objects.trans (housed.cleared (passes.released ▸ gone))

namespace World

variable {w v u : World} {id i h : NodeId} {n m k : Node} {t : Nat}

@[simp] theorem closed_modifyNode (id : NodeId) (f : Node → Node) (w : World) :
    (w.modifyNode id f).host.closed = w.host.closed := by
  unfold modifyNode
  split <;> rfl

@[simp] theorem closed_logNode (level : Level) (id : NodeId) (message : Text)
    (fields : List (Text × Text)) (w : World) :
    (w.logNode level id message fields).host.closed = w.host.closed := by
  have keep (record : LogRecord) (h : Host) : (h.keep record).closed = h.closed := by
    unfold Host.keep
    dsimp only
    split <;> rfl
  unfold logNode log
  split
  · rfl
  · split
    · rfl
    · split
      · exact keep _ _
      · rfl

theorem shut_modifyNode (id : NodeId) (f : Node → Node) (w : World) :
    (w.modifyNode id f).closed = w.closed := by
  unfold modifyNode
  split <;> rfl

theorem shut_logNode (level : Level) (id : NodeId) (message : Text) (fields : List (Text × Text))
    (w : World) : (w.logNode level id message fields).closed = w.closed := by
  unfold logNode log
  split
  · rfl
  · split
    · rfl
    · split <;> rfl

namespace Alters

theorem refl (found : w.node? id = some n) : Alters id n w w := by
  refine ⟨fun i => ?_, rfl, rfl, rfl⟩
  split
  · rename_i here
    rw [here, found]
  · rfl

theorem trans (first : Alters id m w v) (second : Alters id k v u) : Alters id k w u := by
  refine ⟨fun i => ?_, second.objects.trans first.objects, second.shut.trans first.shut,
    second.closed.trans first.closed⟩
  rw [second.node]
  split
  · rfl
  · rename_i other
    rw [first.node, if_neg other]

theorem found (alters : Alters id m w v) : v.node? id = some m := by rw [alters.node, if_pos rfl]

theorem modifyNode {f : Node → Node} (found : w.node? id = some n) (same : f n = m) :
    Alters id m w (w.modifyNode id f) := by
  subst same
  refine ⟨fun i => ?_, (Still.modifyNode id f w).objects, shut_modifyNode id f w,
    closed_modifyNode id f w⟩
  rw [node?_modifyNode]
  split
  · rename_i here
    rw [here, found]
    rfl
  · rfl

theorem change {f : Node → Node} (alters : Alters id m w v) (same : f m = k) :
    Alters id k w (v.modifyNode id f) := alters.trans (.modifyNode alters.found same)

theorem log (alters : Alters id m w v) (level : Level) (other : NodeId) (message : Text)
    (fields : List (Text × Text)) : Alters id m w (v.logNode level other message fields) where
  node i := (node?_logNode level other message fields v i).trans (alters.node i)
  objects := (Still.logNode level other message fields v).objects.trans alters.objects
  shut := (shut_logNode level other message fields v).trans alters.shut
  closed := (closed_logNode level other message fields v).trans alters.closed

end Alters

theorem isReleased_of_node (found : w.node? id = some n)
    (node : ∀ i, v.node? i = if i = id then some m else w.node? i) (same : m.released = n.released)
    (i : NodeId) : v.IsReleased i ↔ w.IsReleased i := by
  unfold IsReleased
  rw [node]
  split
  · rename_i here
    rw [here, found]
    simp [same]
  · rfl

/-- One node is another one, or new, and there may be more objects. -/
theorem IsHoused.of_node (housed : w.IsHoused)
    (node : ∀ i, v.node? i = if i = id then some m else w.node? i) (numbered : m.id = id)
    (tidy : m.IsHoused) (labeled : ∀ t o, v.object? t = some o → o.token = t)
    (more : ∀ t, (w.object? t).isSome → (v.object? t).isSome)
    (known : ∀ e ∈ m.objects, (v.object? e.2).isSome)
    (noted : ∀ t ∈ v.host.closed, (v.object? t).isSome) : v.IsHoused := by
  refine ⟨fun i k found => ?_, fun i k found => ?_, labeled, fun i e mem => ?_, noted⟩
  · rw [node] at found
    split at found
    · rename_i here
      obtain rfl := Option.some.inj found
      exact numbered.trans here.symm
    · exact housed.numbered i k found
  · rw [node] at found
    split at found
    · obtain rfl := Option.some.inj found
      exact tidy
    · exact housed.nodes i k found
  · by_cases here : i = id
    · rw [here, objectsAt_of_node? ((node id).trans (if_pos rfl))] at mem
      exact known e mem
    · rw [objectsAt_congr ((node i).trans (if_neg here))] at mem
      exact more e.2 (housed.known i e mem)

/-- One node is another one, or new. It has kept its objects, or it is released and its own were
closed. -/
theorem sweeps_of_node (housed : w.IsHoused)
    (node : ∀ i, v.node? i = if i = id then some m else w.node? i) (numbered : m.id = id)
    (tidy : m.IsHoused) (kept : m.objects = w.objectsAt id ∨ m.released = true)
    (released : w.IsReleased id → m.released = true) (objects : v.objects = w.objects)
    (shut : v.closed = w.closed)
    (closings : ∀ t, (v.closings t + if w.closes t then v.held id t else 0) =
      w.closings t + if w.closes t then w.held id t else 0) : Sweeps w v := by
  have there : v.node? id = some m := by rw [node, if_pos rfl]
  have same (i : NodeId) : v.objectsAt i = w.objectsAt i ∨ v.IsReleased i := by
    by_cases here : i = id
    · subst here
      exact kept.imp (objectsAt_of_node? there).trans fun gone => ⟨m, there, gone⟩
    · exact .inl (objectsAt_congr ((node i).trans (if_neg here)))
  have known : ∀ e ∈ m.objects, (v.object? e.2).isSome := by
    intro e mem
    rw [object?_congr objects]
    obtain same | gone := kept
    · exact housed.known id e (same ▸ mem)
    · rw [tidy.cleared gone] at mem
      cases mem
  have noted : ∀ t ∈ v.host.closed, (v.object? t).isSome := by
    -- What was closed now was an object of the node; the rest has been closed before.
    intro t mem
    rw [object?_congr objects]
    cases closes : w.closes t with
    | true =>
      obtain ⟨o, found, -⟩ := Option.any_eq_true _ _ |>.mp closes
      exact Option.isSome_of_mem found
    | false =>
      have before := closings t
      rw [closes, if_neg Bool.false_ne_true, if_neg Bool.false_ne_true] at before
      have : 0 < v.closings t := List.count_pos_iff.mpr mem
      exact housed.noted t (List.count_pos_iff.mp (show 0 < w.closings t by omega))
  have housed' : v.IsHoused := housed.of_node node numbered tidy
    (fun t o found => housed.labeled t o ((object?_congr objects t).symm.trans found))
    (fun t there => (object?_congr objects t).symm ▸ there) known noted
  refine ⟨housed', objects, shut, same, fun i gone => ?_, fun t stays => ?_,
    fun t h closes only => ?_⟩
  · by_cases here : i = id
    · exact here ▸ ⟨m, there, released (here ▸ gone)⟩
    · obtain ⟨k, old, gone⟩ := gone
      exact ⟨k, (node i).trans ((if_neg here).trans old), gone⟩
  · simpa [stays] using closings t
  · have balance := closings t
    rw [if_pos closes, if_pos closes] at balance
    by_cases here : h = id
    · exact here ▸ balance
    · have none := only id (Ne.symm here)
      have none' : v.held id t = 0 := by
        rw [held]
        obtain same | gone := same id
        · rw [same]
          exact none
        · rw [housed'.objectsAt_eq_nil gone]
          rfl
      have same : v.held h t = w.held h t := by
        rw [held, objectsAt_congr ((node h).trans (if_neg here)), held]
      omega

/-- A change to one node that concerns no objects. -/
theorem sweeps_of_alters (housed : w.IsHoused) (found : w.node? id = some n)
    (alters : Alters id m w v) (passes : n.Passes m) : Sweeps w v := by
  have same : v.held id = w.held id := by
    funext t
    rw [held, objectsAt_of_node? alters.found, passes.objects, held, objectsAt_of_node? found]
  refine sweeps_of_node housed alters.node (passes.id.trans (housed.numbered id n found))
    (passes.isHoused (housed.nodes id n found))
    (.inl (passes.objects.trans (objectsAt_of_node? found).symm)) ?_ alters.objects alters.shut
    fun t => ?_
  · rintro ⟨k, there, gone⟩
    obtain rfl : n = k := Option.some.inj (found.symm.trans there)
    exact passes.released.trans gone
  · rw [same, closings, alters.closed, closings]

theorem sweeps_modifyNode (housed : w.IsHoused) {f : Node → Node}
    (passes : ∀ n, w.node? id = some n → n.Passes (f n)) : Sweeps w (w.modifyNode id f) := by
  cases found : w.node? id with
  | none =>
    rw [modifyNode_of_none f found]
    exact .refl housed
  | some n => exact sweeps_of_alters housed found (.modifyNode found rfl) (passes n found)

theorem sweeps_logNode (level : Level) (id : NodeId) (message : Text)
    (fields : List (Text × Text)) (housed : w.IsHoused) :
    Sweeps w (w.logNode level id message fields) := by
  cases found : w.node? id with
  | none =>
    rw [logNode, found]
    exact .refl housed
  | some n =>
    exact sweeps_of_alters housed found ((Alters.refl found).log level id message fields)
      ⟨rfl, rfl, rfl, rfl, rfl, rfl⟩

end World

end InterpTree
