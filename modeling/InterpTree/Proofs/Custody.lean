import InterpTree.Tree.Objects
import InterpTree.Proofs.Sweeping

/-!
What the operations on objects do. An object is added to one node, taken out of it and closed, or
exempt from disposal; operations on the tree dispose of objects only where nodes are released. Either
objects are disposed of (`Disposes`), or nothing is done to other objects than one (`Concerns`).
-/

namespace InterpTree

/-- The node with one more entry for an object. -/
def Node.register (name : Text) (t : Nat) (n : Node) : Node :=
  { n with objects := n.objects ++ [(name, t)] }

/-- The node without the entry for an object. -/
def Node.unregister (name : Text) (n : Node) : Node :=
  { n with objects := n.objects.filter fun entry => entry.1 != name }

@[simp] theorem Node.objects_register (name : Text) (t : Nat) (n : Node) :
    (n.register name t).objects = n.objects ++ [(name, t)] := rfl

@[simp] theorem Node.objects_unregister (name : Text) (n : Node) :
    (n.unregister name).objects = n.objects.filter fun entry => entry.1 != name := rfl

theorem Node.IsHoused.register {n : Node} {name : Text} (tidy : n.IsHoused)
    (stays : n.released = false) (free : n.objects.lookup name = none) (t : Nat) :
    (n.register name t).IsHoused := by
  refine ⟨?_, tidy.idle, tidy.part, fun gone => nomatch stays.symm.trans gone⟩
  simp only [objects_register, List.map_append, List.map_cons, List.map_nil]
  refine List.nodup_append.mpr ⟨tidy.named, List.nodup_singleton _, fun a mem b mem' same => ?_⟩
  obtain ⟨e, old, rfl⟩ := List.mem_map.mp mem
  have other := List.lookup_eq_none_iff.mp free e old
  rw [List.mem_singleton.mp mem'] at same
  simp [same] at other

theorem Node.IsHoused.unregister {n : Node} (tidy : n.IsHoused) (name : Text) :
    (n.unregister name).IsHoused :=
  ⟨tidy.named.sublist (List.filter_sublist.map _), tidy.idle, tidy.part,
    fun gone => by simp [tidy.cleared gone]⟩

namespace World

variable {w v u : World} {id i h : NodeId} {n m : Node} {t : Nat} {o : Object} {name : Text}
  {value : HostValue}

/-- Objects that are registered no more are taken out, or their nodes are released, and what is not
exempt from disposal is closed. -/
structure Disposes (taken : Nat → Prop) (w v : World) : Prop where
  housed : v.IsHoused
  objects : v.objects = w.objects
  fewer : ∀ i t, v.held i t ≤ w.held i t
  kept : ∀ i t, v.held i t = w.held i t ∨ v.IsReleased i ∨ taken t
  took : ∀ t, taken t → ∃ i, v.held i t < w.held i t
  released : ∀ i, w.IsReleased i → v.IsReleased i
  quiet : ∀ t, w.closes t = false → v.closings t = w.closings t
  balance : ∀ t h, w.closes t = true → w.IsOnlyAt h t →
    v.closings t + v.held h t = w.closings t + w.held h t

theorem Sweeps.disposes (sweeps : Sweeps w v) : Disposes (fun _ => False) w v where
  housed := sweeps.housed
  objects := sweeps.objects
  fewer := sweeps.held_le
  kept i t := (sweeps.kept i).imp (fun same => by rw [held, same, held]) .inl
  took _ := nofun
  released := sweeps.released
  quiet := sweeps.quiet
  balance := sweeps.balance

/-- The tree stays closed if it was, and there is none left if it is closed. -/
structure Lasts (w v : World) : Prop where
  shut : w.closed = true → v.closed = true
  empty : (w.closed = true → w.IsOver) → v.closed = true → v.IsOver

theorem Lasts.of_nodes (same : v.nodes = w.nodes) (shut : v.closed = w.closed) : w.Lasts v := by
  refine ⟨shut.trans, fun empty closed i => ?_⟩
  rw [attached?, node?_congr same]
  exact empty (shut.symm.trans closed) i

theorem Lasts.of_node (found : w.node? id = some n)
    (node : ∀ i, v.node? i = if i = id then some m else w.node? i)
    (same : m.attached = n.attached) (shut : v.closed = w.closed) : w.Lasts v := by
  refine ⟨shut.trans, fun empty closed i => ?_⟩
  have left := empty (shut.symm.trans closed) i
  unfold attached? at left ⊢
  rw [node]
  split
  · rename_i here
    rw [here, found] at left
    simpa [same] using left
  · exact left

theorem Lasts.trans (first : w.Lasts v) (second : v.Lasts u) : w.Lasts u :=
  ⟨second.shut ∘ first.shut, second.empty ∘ first.empty⟩

/-- Nothing is done to other objects than `t`, and nothing is closed or released. -/
structure Concerns (t : Nat) (w v : World) : Prop where
  housed : v.IsHoused
  others : ∀ s, s ≠ t → v.object? s = w.object? s
  held : ∀ i s, s ≠ t → v.held i s = w.held i s
  closed : v.host.closed = w.host.closed
  released : ∀ i, v.IsReleased i ↔ w.IsReleased i
  lasts : w.Lasts v

theorem Concerns.trans (first : Concerns t w v) (second : Concerns t v u) : Concerns t w u where
  housed := second.housed
  others s other := (second.others s other).trans (first.others s other)
  held i s other := (second.held i s other).trans (first.held i s other)
  closed := second.closed.trans first.closed
  released i := (second.released i).trans (first.released i)
  lasts := first.lasts.trans second.lasts

/-- A new object is registered in a node. -/
structure Adds (id : NodeId) (name : Text) (value : HostValue) (t : Nat) (w v : World) : Prop where
  concerns : w.Concerns t v
  new : w.object? t = none
  added : v.object? t = some { name, token := t, value }
  only : v.IsOnlyAt id t
  once : v.held id t = 1
  stays : ¬ v.IsReleased id

/-- An object is exempt from disposal now. -/
structure Exempted (t : Nat) (w v : World) : Prop where
  concerns : w.Concerns t v
  marked : ∃ f : Object → Object, v.object? t = (w.object? t).map f ∧
    ∀ o, (f o).noDispose = true ∧ (f o).value.disposal = o.value.disposal

/-! ### Changes to objects -/

theorem object?_push (more : v.objects = w.objects.push o) (t : Nat) :
    v.object? t = if t = w.objects.size + 1 then some o else w.object? t := by
  by_cases zero : t = 0
  · simp [object?, zero]
  · have apart : t - 1 = w.objects.size ↔ t = w.objects.size + 1 := by omega
    simp only [object?, zero, if_false, more, Array.getElem?_push, apart]

theorem object?_modifyObject (t : Nat) (f : Object → Object) (w : World) (s : Nat) :
    (w.modifyObject t f).object? s = if s = t then (w.object? s).map f else w.object? s := by
  by_cases zero : t = 0
  · subst zero
    by_cases same : s = 0
    · simp [object?, same]
    · simp [modifyObject, same]
  by_cases none : s = 0
  · simp [object?, none, Ne.symm zero]
  · have apart : t - 1 = s - 1 ↔ s = t := by omega
    simp only [modifyObject, zero, if_false, object?, none, Array.getElem?_modify, apart]

theorem shut_modifyObject (t : Nat) (f : Object → Object) (w : World) :
    (w.modifyObject t f).closed = w.closed := by
  unfold modifyObject
  split <;> rfl

theorem host_modifyObject (t : Nat) (f : Object → Object) (w : World) :
    (w.modifyObject t f).host = w.host := by
  unfold modifyObject
  split <;> rfl

/-- A change to one object. -/
theorem concerns_modifyObject {f : Object → Object} (housed : w.IsHoused)
    (same : ∀ o, (f o).token = o.token) (t : Nat) : w.Concerns t (w.modifyObject t f) := by
  have node := node?_congr (nodes_modifyObject t f w)
  have objectsAt (i : NodeId) := objectsAt_congr (node i)
  have more (s : Nat) (there : (w.object? s).isSome) :
      ((w.modifyObject t f).object? s).isSome := by
    rw [object?_modifyObject]
    split
    · rwa [Option.isSome_map]
    · exact there
  refine ⟨⟨fun i n found => housed.numbered i n (node i ▸ found),
    fun i n found => housed.nodes i n (node i ▸ found), fun s o there => ?_,
    fun i e mem => more e.2 (housed.known i e (objectsAt i ▸ mem)), fun s mem => ?_⟩,
    fun s other => ?_, fun i s _ => ?_, congrArg Host.closed (host_modifyObject t f w), fun i => ?_,
    .of_nodes (nodes_modifyObject t f w) (shut_modifyObject t f w)⟩
  · rw [object?_modifyObject] at there
    split at there
    · obtain ⟨o', there', rfl⟩ := Option.map_eq_some_iff.mp there
      exact (same o').trans (housed.labeled s o' there')
    · exact housed.labeled s o there
  · rw [host_modifyObject] at mem
    exact more s (housed.noted s mem)
  · rw [object?_modifyObject, if_neg other]
  · rw [World.held, objectsAt, World.held]
  · unfold IsReleased
    rw [node]

/-- An object is registered in one more node under a name that is free there. -/
theorem concerns_register (housed : w.IsHoused) (found : w.node? id = some n)
    (stays : n.released = false) (free : n.objects.lookup name = none)
    (node : ∀ i, v.node? i = if i = id then some (n.register name t) else w.node? i)
    (others : ∀ s, s ≠ t → v.object? s = w.object? s)
    (there : v.object? t = some o) (token : o.token = t)
    (closed : v.host.closed = w.host.closed) (shut : v.closed = w.closed) : w.Concerns t v := by
  have more (s : Nat) (known : (w.object? s).isSome) : (v.object? s).isSome := by
    by_cases here : s = t
    · rw [here, there]
      rfl
    · rwa [others s here]
  have housed' : v.IsHoused := by
    refine housed.of_node node (housed.numbered id n found)
      ((housed.nodes id n found).register stays free t) (fun s o' there' => ?_) more
      (fun e mem => ?_) fun s mem => more s (housed.noted s (closed ▸ mem))
    · by_cases here : s = t
      · rw [here, there] at there'
        obtain rfl := Option.some.inj there'
        exact token.trans here.symm
      · exact housed.labeled s o' ((others s here).symm.trans there')
    · obtain old | new := List.mem_append.mp mem
      · exact more e.2 (housed.known id e (objectsAt_of_node? found ▸ old))
      · rw [List.mem_singleton.mp new, there]
        rfl
  refine ⟨housed', others, fun i s other => ?_, closed, isReleased_of_node found node rfl,
    .of_node found node rfl shut⟩
  by_cases here : i = id
  · subst here
    rw [World.held, objectsAt_of_node? ((node i).trans (if_pos rfl)), World.held,
      objectsAt_of_node? found]
    simp [Ne.symm other]
  · rw [World.held, objectsAt_congr ((node i).trans (if_neg here)), World.held]

theorem exempted_modifyObject {f : Object → Object} (housed : w.IsHoused)
    (same : ∀ o, (f o).token = o.token)
    (marks : ∀ o, (f o).noDispose = true ∧ (f o).value.disposal = o.value.disposal) (t : Nat) :
    w.Exempted t (w.modifyObject t f) := by
  refine ⟨concerns_modifyObject housed same t, f, ?_, marks⟩
  rw [object?_modifyObject, if_pos rfl]

/-- An object that is exempt from disposal is registered in one more node. -/
theorem Exempted.register (exempted : w.Exempted t v) (found : v.node? id = some n)
    (stays : n.released = false) (free : n.objects.lookup name = none)
    (there : v.object? t = some o) :
    w.Exempted t (v.modifyNode id (Node.register name t)) := by
  have housed := exempted.concerns.housed
  have bare := Alters.modifyNode (f := Node.register name t) found rfl
  have object := object?_congr bare.objects
  obtain ⟨f, same, marks⟩ := exempted.marked
  exact ⟨exempted.concerns.trans (concerns_register housed found stays free bare.node
    (fun s _ => object s) ((object t).trans there) (housed.labeled t o there) bare.closed bare.shut),
    f, (object t).trans same, marks⟩

/-- What is no object is registered nowhere. -/
theorem IsHoused.held_eq_zero (housed : w.IsHoused) (none : w.object? t = none) (i : NodeId) :
    w.held i t = 0 := by
  refine List.count_eq_zero.mpr fun mem => ?_
  obtain ⟨e, there, rfl⟩ := List.mem_map.mp mem
  have known := housed.known i e there
  rw [none] at known
  cases known

theorem Disposes.refl {taken : Nat → Prop} (housed : w.IsHoused) (none : ∀ t, ¬ taken t) :
    Disposes taken w w :=
  ⟨housed, rfl, fun _ _ => Nat.le_refl _, fun _ _ => .inl rfl, fun t h => absurd h (none t),
    fun _ => id, fun _ _ => rfl, fun _ _ _ _ => rfl⟩

/-- Taking an entry out of a list of named entries takes one token out. -/
theorem count_without {entries : List (Text × Nat)} (named : (entries.map Prod.fst).Nodup)
    (there : entries.lookup name = some t) (s : Nat) :
    ((entries.filter fun e => e.1 != name).map Prod.snd).count s + (if t = s then 1 else 0) =
      (entries.map Prod.snd).count s := by
  obtain ⟨before, after, rfl, -⟩ := List.lookup_eq_some_iff.mp there
  rw [List.map_append, List.map_cons, List.nodup_append] at named
  obtain ⟨-, rest, distinct⟩ := named
  have earlier : before.filter (fun e => e.1 != name) = before :=
    List.filter_eq_self.mpr fun e mem => bne_iff_ne.mpr fun same =>
      distinct e.1 (List.mem_map_of_mem mem) name List.mem_cons_self same
  have later : after.filter (fun e => e.1 != name) = after :=
    List.filter_eq_self.mpr fun e mem => bne_iff_ne.mpr fun same =>
      (List.nodup_cons.mp rest).1 (List.mem_map.mpr ⟨e, mem, same⟩)
  rw [List.filter_append, List.filter_cons_of_neg (by simp), earlier, later]
  simp only [List.map_append, List.map_cons, List.count_append, List.count_cons, beq_iff_eq]
  omega

/-- In `v` the object `o` is taken out of node `id`, and closed unless it is exempt from disposal. -/
structure Takes (id : NodeId) (n : Node) (name : Text) (t : Nat) (o : Object) (w v : World) :
    Prop where
  found : w.node? id = some n
  named : n.objects.lookup name = some t
  there : w.object? t = some o
  node : ∀ i, v.node? i = if i = id then some (n.unregister name) else w.node? i
  objects : v.objects = w.objects
  closed : v.host.closed = w.host.closed ++ if o.closes then [t] else []

theorem Takes.isHoused (takes : Takes id n name t o w v) (housed : w.IsHoused) : v.IsHoused := by
  have object := object?_congr takes.objects
  refine housed.of_node takes.node (housed.numbered id n takes.found)
    ((housed.nodes id n takes.found).unregister name)
    (fun s o' found' => housed.labeled s o' ((object s).symm.trans found'))
    (fun s known => (object s).symm ▸ known) (fun e mem => ?_) fun s mem => ?_
  · rw [object]
    exact housed.known id e (objectsAt_of_node? takes.found ▸ (List.mem_filter.mp mem).1)
  · rw [object]
    rw [takes.closed] at mem
    obtain old | new := List.mem_append.mp mem
    · exact housed.noted s old
    · split at new
      · rw [List.mem_singleton.mp new, takes.there]
        rfl
      · cases new

theorem Takes.held (takes : Takes id n name t o w v) (housed : w.IsHoused) (i : NodeId) (s : Nat) :
    v.held i s + (if i = id ∧ t = s then 1 else 0) = w.held i s := by
  by_cases here : i = id
  · subst here
    rw [World.held, objectsAt_of_node? ((takes.node i).trans (if_pos rfl)), World.held,
      objectsAt_of_node? takes.found, ← count_without (housed.nodes i n takes.found).named takes.named]
    simp only [true_and, Node.objects_unregister]
  · rw [World.held, objectsAt_congr ((takes.node i).trans (if_neg here)), World.held,
      if_neg fun h => here h.1, Nat.add_zero]

theorem Takes.closings (takes : Takes id n name t o w v) (s : Nat) :
    v.closings s = w.closings s + if o.closes ∧ t = s then 1 else 0 := by
  rw [World.closings, takes.closed, List.count_append, ← World.closings]
  by_cases shut : o.closes <;> by_cases here : t = s <;> simp [shut, here]

theorem Takes.disposes (takes : Takes id n name t o w v) (housed : w.IsHoused) :
    w.Disposes (fun s => (w.objectsAt id).lookup name = some s) v := by
  have counts := takes.held housed
  have same (s : Nat) : (w.objectsAt id).lookup name = some s ↔ t = s := by
    rw [objectsAt_of_node? takes.found, takes.named, Option.some_inj]
  have closes : w.closes t = o.closes := by rw [World.closes, takes.there, Option.any_some]
  refine ⟨takes.isHoused housed, takes.objects, fun i s => by have := counts i s; omega,
    fun i s => ?_, fun s taken => ⟨id, ?_⟩,
    fun i => (isReleased_of_node takes.found takes.node rfl i).mpr, fun s stays => ?_,
    fun s h closing only => ?_⟩
  · by_cases taken : t = s
    · exact .inr (.inr ((same s).mpr taken))
    · have := counts i s
      rw [if_neg fun h => taken h.2] at this
      exact .inl this
  · have := counts id s
    rw [if_pos ⟨rfl, (same s).mp taken⟩] at this
    omega
  · rw [takes.closings, if_neg, Nat.add_zero]
    rintro ⟨shut, rfl⟩
    rw [closes, shut] at stays
    cases stays
  · have counted := counts h s
    rw [takes.closings]
    by_cases taken : t = s
    · subst taken
      rw [if_pos ⟨closes.symm.trans closing, rfl⟩]
      by_cases here : h = id
      · rw [if_pos ⟨here, rfl⟩] at counted
        omega
      · -- The object was registered in node `id`, so in no other.
        have none := only id (Ne.symm here)
        have some := counts id t
        rw [if_pos ⟨rfl, rfl⟩] at some
        omega
    · rw [if_neg fun h => taken h.2]
      rw [if_neg fun h => taken h.2] at counted
      omega

theorem IsHoused.exists_object? (housed : w.IsHoused) (found : w.node? id = some n)
    (named : n.objects.lookup name = some t) : ∃ o, w.object? t = some o := by
  obtain ⟨before, after, split, -⟩ := List.lookup_eq_some_iff.mp named
  have mem : (name, t) ∈ w.objectsAt id := by simp [objectsAt_of_node? found, split]
  exact Option.isSome_iff_exists.mp (housed.known id (name, t) mem)

/-- What is exempt from disposal is only taken out of its node. -/
theorem takes_exempt (found : w.node? id = some n) (named : n.objects.lookup name = some t)
    (there : w.object? t = some o) (exempt : o.noDispose = true) :
    Takes id n name t o w (w.modifyNode id (Node.unregister name)) ∧
      w.Lasts (w.modifyNode id (Node.unregister name)) := by
  have bare := Alters.modifyNode (f := Node.unregister name) found rfl
  exact ⟨⟨found, named, there, bare.node, bare.objects, by simp [Object.closes, exempt]⟩,
    .of_node found bare.node rfl bare.shut⟩

/-- Other objects are disposed of once they have been taken out. -/
theorem takes_dispose (housed : w.IsHoused) (found : w.node? id = some n)
    (named : n.objects.lookup name = some t) (there : w.object? t = some o)
    (own : o.noDispose = false) :
    Takes id n name t o w ((w.modifyNode id (Node.unregister name)).dispose o).2 ∧
      w.Lasts ((w.modifyNode id (Node.unregister name)).dispose o).2 := by
  have bare := Alters.modifyNode (f := Node.unregister name) found rfl
  generalize w.modifyNode id (Node.unregister name) = u at bare ⊢
  obtain ⟨nodes, objects, shut, closed⟩ := dispose_spec o u
  refine ⟨⟨found, named, there, fun i => (node?_congr nodes i).trans (bare.node i),
    objects.trans bare.objects, ?_⟩,
    (Lasts.of_node found bare.node rfl bare.shut).trans (.of_nodes nodes shut)⟩
  rw [closed, bare.closed, housed.labeled t o there]
  by_cases ignored : o.value.disposal = .ignored <;> simp [Object.closes, own, ignored]

theorem Adds.ne_of_object? {s : Nat} (adds : w.Adds id name value t v)
    (there : w.object? s = some o) : s ≠ t := by
  rintro rfl
  rw [adds.new] at there
  cases there

/-- A new object is registered in a node that is part of the tree. -/
theorem adds_register (housed : w.IsHoused)
    (found : w.node? id = some n) (stays : n.released = false) (free : n.objects.lookup name = none)
    (nodes : u.nodes = w.nodes)
    (more : u.objects = w.objects.push { name, token := w.objects.size + 1, value })
    (closed : u.host.closed = w.host.closed) (shut : u.closed = w.closed) :
    w.Adds id name value (w.objects.size + 1)
      (u.modifyNode id (Node.register name (w.objects.size + 1))) := by
  have bare := Alters.modifyNode (f := Node.register name (w.objects.size + 1))
    ((node?_congr nodes id).trans found) rfl
  have node := bare.node
  simp only [node?_congr nodes] at node
  have object := object?_push (bare.objects.trans more)
  have new : w.object? (w.objects.size + 1) = none := by simp [object?]
  have added := (object (w.objects.size + 1)).trans (if_pos rfl)
  have concerns := concerns_register housed found stays free node
    (fun s other => (object s).trans (if_neg other)) added rfl (bare.closed.trans closed)
    (bare.shut.trans shut)
  refine ⟨concerns, new, added, fun i other => ?_, ?_, fun gone => ?_⟩
  · rw [held, objectsAt_congr ((node i).trans (if_neg other))]
    exact housed.held_eq_zero new i
  · have none := housed.held_eq_zero new id
    rw [held, objectsAt_of_node? found] at none
    rw [held, objectsAt_of_node? bare.found]
    simp [none]
  · obtain ⟨k, found', gone⟩ := (concerns.released id).mp gone
    obtain rfl : n = k := Option.some.inj (found.symm.trans found')
    rw [stays] at gone
    cases gone

end World

namespace Op

variable {w : World} {id caller : NodeId} {path name : Text}

/-- An object is refused or registered. -/
theorem ends_addObject (name : Text) (value : HostValue) (housed : w.IsHoused)
    (joined : w.HasJoined id) :
    Ends (addObject id name value) w fun r v =>
      (∃ f, r = .error f) ∧ v = w ∨ ∃ t, r = .ok t ∧ w.Adds id name value t v := by
  have settles : Settles (addObject id name value) w fun r v =>
      ∃ t, r = .ok t ∧ w.Adds id name value t v := by
    refine .require fun _ => .node fun n found => .require fun alive => .require fun free =>
      .get (.of_ends ?_)
    simp only [Ends.bind_iff, ends_change, Ends.pure_iff]
    have attached : n.attached = true := (joined n found).resolve_right (by simpa using alive)
    have stays : n.released = false := by simpa [attached] using (housed.nodes id n found).part
    exact ⟨_, rfl, World.adds_register housed found stays (Option.isNone_iff_eq_none.mp free) rfl rfl
      rfl rfl⟩
  exact Ends.mono settles fun r v h => h.imp_left And.symm

theorem ends_object? {Q : Except Fault (Option Object) → World → Prop} :
    Ends (object? id name) w Q ↔
      (∀ n, w.node? id = some n → Q (.ok ((n.objects.lookup name).bind w.object?)) w) ∧
        (w.node? id = none → Q (.error (.noInterpreter [])) w) := by
  simp only [object?, Ends.bind_iff, ends_node, Ends.get_iff, Ends.pure_iff]

/-- There is no object to remove, or it is taken out and disposed of. -/
theorem ends_removeObject (housed : w.IsHoused) : Ends (removeObject id name) w fun _ v =>
    w.Disposes (fun t => (w.objectsAt id).lookup name = some t) v ∧ w.Lasts v := by
  refine Ends.bind_iff.mpr (ends_object?.mpr ⟨fun n found => ?_, fun none => ?_⟩)
  · dsimp only
    cases named : n.objects.lookup name with
    | none =>
      refine ⟨.refl housed fun t named' => ?_, .of_nodes rfl rfl⟩
      rw [World.objectsAt_of_node? found, named] at named'
      cases named'
    | some t =>
      obtain ⟨o, there⟩ := housed.exists_object? found named
      rw [Option.bind_some, there]
      dsimp only
      rw [Ends.bind_iff, ends_change]
      dsimp only
      split
      · rename_i own
        obtain ⟨takes, lasts⟩ := World.takes_dispose housed found named there (by simpa using own)
        rw [Ends.bind_iff, Ends.get_iff]
        dsimp only
        rw [Ends.bind_iff, Ends.set_iff]
        dsimp only
        split <;> exact ⟨takes.disposes housed, lasts⟩
      · rename_i exempt
        obtain ⟨takes, lasts⟩ := World.takes_exempt found named there (by simpa using exempt)
        exact ⟨takes.disposes housed, lasts⟩
  · refine ⟨.refl housed fun t named => ?_, .of_nodes rfl rfl⟩
    rw [World.objectsAt, none] at named
    cases named

/-- There is no object to share, or it is exempt from disposal then. -/
theorem ends_shareObject (housed : w.IsHoused) : Ends (shareObject caller path name) w fun _ v =>
    v = w ∨ ∃ t, (w.objectsAt caller).lookup name = some t ∧ w.Exempted t v := by
  have settles : Settles (shareObject caller path name) w fun _ v =>
      ∃ t, (w.objectsAt caller).lookup name = some t ∧ w.Exempted t v := by
    refine .requirePrivilege fun c asker _ => .resolve fun target resolved =>
      Ends.bind_iff.mpr (ends_object?.mpr ⟨fun n found => ?_, fun none => ?_⟩)
    · dsimp only
      split
      · exact .inl ⟨rfl, _, rfl⟩
      · rename_i o there
        obtain ⟨t, named, there⟩ := Option.bind_eq_some_iff.mp there
        have token := housed.labeled t o there
        rw [Ends.bind_iff, ends_change, token]
        generalize changed : World.modifyObject t _ w = u
        have marked : w.Exempted t u := by
          rw [← changed]
          refine World.exempted_modifyObject housed (fun _ => ?_) (fun _ => ⟨?_, ?_⟩) t <;> rfl
        have nodes : u.nodes = w.nodes := by
          rw [← changed]
          exact World.nodes_modifyObject t _ w
        obtain ⟨f, same, -⟩ := marked.marked
        rw [there] at same
        have named' : (w.objectsAt caller).lookup name = some t := by
          rw [World.objectsAt_of_node? found, named]
        dsimp only
        split
        · rename_i apart
          refine Ends.bind_iff.mpr (ends_node.mpr ⟨fun k reached => ?_,
            fun _ => .inr ⟨t, named', marked⟩⟩)
          dsimp only
          split
          · exact Ends.bind_iff.mpr (ends_require.mpr ⟨fun _ => .inr ⟨t, named', marked⟩,
              fun _ => .inr ⟨t, named', marked⟩⟩)
          · rename_i free
            obtain ⟨k', reached', -, here | attached⟩ :=
              World.alive_of_resolve? housed.numbered resolved
            · exact absurd here apart
            · obtain rfl : k' = k := Option.some.inj (reached'.symm.trans
                ((World.node?_congr nodes target).symm.trans reached))
              have stays : k'.released = false := by
                simpa [attached] using (housed.nodes target k' reached').part
              exact .inr ⟨t, named', marked.register reached stays free same⟩
        · exact .inr ⟨t, named', marked⟩
    · rw [asker] at none
      cases none
  exact Ends.mono settles fun r v h => h.imp_left And.left

end Op

end InterpTree
