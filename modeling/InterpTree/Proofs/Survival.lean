import InterpTree.Proofs.Histories

/-!
What survives a deletion: all that does not fall with the node, with its links to what survives, and
but for its links, its path and what it knows of links from the fallen just as it was.
-/

namespace InterpTree

namespace World

variable {w v : World} {i caller : NodeId} {n : Node} {S : NodeId → Prop} {steps : List TreeStep}
  {path : Text}

open Classical in
/-- The tree of `v` is that of `w` without the nodes in `S`. -/
structure Drops (S : NodeId → Prop) (w v : World) : Prop where
  size : v.nodes.size = w.nodes.size
  arena : ∀ i, (v.attached? i).isSome ↔ (w.attached? i).isSome ∧ ¬ S i
  links : ∀ i n n', w.attached? i = some n → v.attached? i = some n' →
    n'.links = n.links.filter fun l => ¬ S l.target
  /-- Trust, commands, aliases, policies, objects, variables, the queue, limits and the cancellation
  of a survivor are among what stays the same. -/
  same : ∀ i n n', w.attached? i = some n → v.attached? i = some n' → n' = { n with
    links := n'.links, sharedLinks := n'.sharedLinks, home := n'.home, path := n'.path }
  /-- Only what a fallen node had a link to gets another path, or knows less. -/
  linked : ∀ i n n', w.attached? i = some n → v.attached? i = some n' →
    (∀ s, S s → ¬ w.LinksTo s i) → n' = { n with links := n'.links }
  still : Still w v

theorem Prunes.drops (prunes : Prunes S w v) : Drops S w v := by
  -- A node that is part of the tree afterwards is no part of what falls.
  have survives {i : NodeId} {n n' : Node} (there : w.attached? i = some n)
      (there' : v.attached? i = some n') : ¬ S i ∧ n.attached = true ∧ PrunedAt w S i n n' := by
    obtain ⟨found, stays⟩ := attached?_eq_some_iff.mp there
    obtain ⟨found', stays'⟩ := attached?_eq_some_iff.mp there'
    obtain ⟨m, foundM, pruned⟩ := prunes.nodes.node i n found
    obtain rfl : n' = m := Option.some.inj (found'.symm.trans foundM)
    refine ⟨fun falls => ?_, stays, pruned⟩
    rw [(pruned.left falls).1] at stays'
    cases stays'
  have thins := prunes.nodes.mono fun _ _ _ pruned => pruned.thins
  refine ⟨prunes.nodes.size, fun i => ?_, fun i n n' there there' => ?_,
    fun i n n' there there' => ?_, fun i n n' there there' unlinked => ?_, prunes.still⟩
  · simp only [Option.isSome_iff_exists]
    constructor
    · rintro ⟨n', there'⟩
      obtain ⟨n, there, kept, -⟩ := Thins.back thins there'
      exact ⟨⟨n, there⟩, kept⟩
    · rintro ⟨⟨n, there⟩, kept⟩
      obtain ⟨n', there', -⟩ := Thins.forth thins there kept
      exact ⟨n', there'⟩
  · obtain ⟨kept, stays, pruned⟩ := survives there there'
    exact pruned.links kept stays
  · obtain ⟨kept, -, pruned⟩ := survives there there'
    exact pruned.same kept
  · obtain ⟨kept, -, pruned⟩ := survives there there'
    exact pruned.linked kept unlinked

/-- Once the tree is gone nothing can be deleted. -/
theorem IsOver.not_delete (ended : w.IsOver) (numbered : w.IsNumbered) {worker : Option NodeId} :
    Op.delete worker caller path w ≠ .ok () v := by
  intro deleted
  obtain ⟨-, target, t, resolved, -, -, apart, -⟩ :=
    (Op.settles_delete worker caller path numbered).of_ok deleted
  obtain ⟨n, found, -, rfl | stays⟩ := alive_of_resolve? numbered resolved
  · rw [isWithin_self] at apart
    cases apart
  · have there := attached?_eq_some_iff.mpr ⟨found, stays⟩
    rw [ended target] at there
    cases there

/-- In all that comes of a fresh tree, a deletion by way of a shared link takes away that link and
nothing else. Any other one takes away just what falls with the node, and neither the caller nor the
root belongs to that. -/
theorem delete_drops_from_plant {settings : Settings} {host : Host}
    (planted : plant settings host = .ok w) (admits : w.Admits steps) {worker : Option NodeId}
    (deleted : Op.delete worker caller path (w.along steps) = .ok () v) :
    ∃ holder l, (w.along steps).Names caller path holder l ∧
      (l.shared = true ∧ Changes (ParesAt holder l) (w.along steps) v ∨
        l.shared = false ∧ ¬ (w.along steps).FallsWith l.target caller ∧
          ¬ (w.along steps).FallsWith l.target root ∧
            Drops ((w.along steps).FallsWith l.target) (w.along steps) v) := by
  cases (isKept_plant planted).along admits with
  | tended regular woven =>
    obtain ⟨-, holder, l, names, ⟨shared, pares⟩ | ⟨own, notCaller, notRoot, prunes⟩⟩ :=
      (Op.delete_prunes worker caller path regular woven).of_ok deleted
    · exact ⟨holder, l, names, .inl ⟨shared, pares⟩⟩
    · exact ⟨holder, l, names, .inr ⟨own, notCaller, notRoot, prunes.drops⟩⟩
  | ended numbered ended => exact absurd deleted (ended.not_delete numbered)

/-- A node gets two children, one of which is shared into another child of the root. -/
def handedOver : List TreeStep :=
  [.op (.create root [] "p" {}), .op (.create root [] "h" {}), .op (.create root "p" "x" {}),
    .op (.create root "p" "s" {}), .op (.share root "h" "p.s")]

/-- The child that was shared survives the deletion, the other one does not. -/
theorem delete_drops_from_plant_handedOver :
    ∃ w v, plant {} {} = .ok w ∧ w.Admits handedOver ∧
      Op.delete none root "p" (w.along handedOver) = .ok () v ∧
      (∃ holder l, (w.along handedOver).Names root "p" holder l ∧
        (l.shared = true ∧ Changes (ParesAt holder l) (w.along handedOver) v ∨
          l.shared = false ∧ ¬ (w.along handedOver).FallsWith l.target root ∧
            Drops ((w.along handedOver).FallsWith l.target) (w.along handedOver) v)) ∧
      ((v.attached? 2).isSome, (v.attached? 4).isSome, (v.attached? 5).isSome) =
        (false, false, true) := by
  have admits : sapling.Admits handedOver :=
    ⟨.op (by decide), .op (by decide), .op (by decide), .op (by decide), .op (by decide), trivial⟩
  have goes : Ends (Op.delete none root "p") (sapling.along handedOver) fun r v => r = .ok () ∧
      ((v.attached? 2).isSome, (v.attached? 4).isSome, (v.attached? 5).isSome) =
        (false, false, true) := by decide
  obtain ⟨v, deleted, remain⟩ := goes.exists_ok
  -- The root is the caller, so what is said of the two is said once.
  obtain ⟨holder, l, names, pares | ⟨own, stays, -, drops⟩⟩ :=
    delete_drops_from_plant plant_sapling admits deleted
  · exact ⟨_, v, plant_sapling, admits, deleted, ⟨holder, l, names, .inl pares⟩, remain⟩
  · exact ⟨_, v, plant_sapling, admits, deleted, ⟨holder, l, names, .inr ⟨own, stays, drops⟩⟩, remain⟩

end World

end InterpTree
