import Mathlib.Data.Finset.Card
import Mathlib.Data.Finset.Filter
import Mathlib.Data.Finset.Range
import InterpTree.Manifest.Apply
import InterpTree.Proofs.Acyclic
import InterpTree.Proofs.TrustChanges
import InterpTree.Shell.Sketch

/-!
Walks down the tree. Where links form no cycle, every node has a height, which bounds how deep a walk
below it goes; so the walks that describe a tree or set limits in it come to an end, and what bounds
them in their definitions plays no part.
-/

namespace InterpTree

namespace World

variable {w v : World}

open Classical in
/-- Nodes have heights that grow against the links, none more than the number of nodes. -/
theorem exists_height (regular : w.IsRegular) (acyclic : w.IsAcyclic) :
    ∃ height : NodeId → Nat, (∀ a, height a ≤ w.nodes.size) ∧
      ∀ a b, w.LinksTo a b → height b < height a := by
  let below (a : NodeId) : Finset Nat :=
    (Finset.range w.nodes.size).filter fun i => Relation.TransGen w.LinksTo a (i + 1)
  refine ⟨fun a => (below a).card, fun a => ?_, fun a b link => Finset.card_lt_card ?_⟩
  · exact (Finset.card_filter_le _ _).trans_eq (Finset.card_range _)
  · obtain ⟨notRoot, inside⟩ := regular.targets a b link
    have pos : 0 < b := Nat.zero_lt_of_lt notRoot
    refine Finset.ssubset_iff_of_subset (fun i mem => ?_) |>.mpr ⟨b - 1, ?_, fun mem => ?_⟩
    · simp only [below, Finset.mem_filter] at mem ⊢
      exact ⟨mem.1, .head link mem.2⟩
    · simp only [below, Finset.mem_filter, Finset.mem_range]
      have same : b - 1 + 1 = b := Nat.sub_add_cancel pos
      rw [same]
      exact ⟨Nat.sub_one_lt_of_le pos inside, .single link⟩
    · simp only [below, Finset.mem_filter] at mem
      have same : b - 1 + 1 = b := Nat.sub_add_cancel pos
      rw [same] at mem
      exact acyclic b mem.2

/-- `v` has the nodes of `w`, which differ only in how they are canceled and limited. -/
def IsLike (w v : World) : Prop := Each (fun _ n n' => n' = { n with cancel := n'.cancel }) w v

theorem composes_isLike : Composes fun _ (n n' : Node) => n' = { n with cancel := n'.cancel } := by
  refine ⟨fun _ _ => rfl, fun _ n m k h h' => ?_⟩
  rw [h', h]

theorem IsLike.sameWays (like : IsLike w v) : SameWays w v :=
  like.mono fun _ _ _ same => by
    rw [same]
    exact ⟨rfl, rfl, rfl, rfl⟩

/-- A name that leads to a child is the name of a link to it. -/
theorem linksTo_of_child? (numbered : w.IsNumbered) {id m : NodeId} {name : Text}
    (h : w.child? id name = some m) : w.LinksTo id m := by
  obtain ⟨n, l, t, found, -, link, target, -, rfl⟩ := child?_eq_some_iff.mp h
  exact ⟨n, found, l, List.mem_of_find?_eq_some link, (numbered _ t target).symm⟩

end World

namespace Op

variable {w : World} {id : NodeId}

theorem ends_overrideLimits (path : Text) (o : Limits.Override) {u : World} (like : w.IsLike u) :
    Ends (overrideLimits id path o) u fun _ v => w.IsLike v := by
  have settled : Settles (overrideLimits id path o) u fun _ v => ∃ target n c,
      World.Amends target n { n with cancel := c } u v :=
    .resolve fun target _ => (settles_updateCancel _).weaken fun _ _ ⟨n, c, _, _, amends⟩ =>
      ⟨target, n, c, amends⟩
  refine settled.leaves like fun _ v ⟨target, n, c, amends⟩ => ?_
  exact like.trans World.composes_isLike (amends.each World.composes_isLike rfl)

section Heights

variable {height : NodeId → Nat} (grow : ∀ a b, w.LinksTo a b → height b < height a)
  (regular : w.IsRegular)

include grow regular

/-- What lies below a node lies lower, and there is room for it if there is a link at all. -/
theorem height_below {path : Text} {a : NodeId} {n : Node} {f : Nat}
    (resolved : w.resolve? id path = some a) (found : w.node? a = some n) (high : height a < f + 1)
    {name : Text} (mem : name ∈ n.links.map Link.name) :
    0 < f ∧ ∀ b, w.resolve? id (joinPath path name) = some b → height b < f := by
  obtain ⟨l, link, rfl⟩ := List.mem_map.mp mem
  have lower := grow a l.target ⟨n, found, l, link, rfl⟩
  refine ⟨by omega, fun b reached => ?_⟩
  rw [World.resolve?_joinPath (regular.valid a n found l link), resolved] at reached
  have := grow a b (World.linksTo_of_child? regular.numbered reached)
  omega

omit grow regular in
/-- The children of a node are the names of its links. -/
theorem ends_children {path : Text} {u : World} (like : w.IsLike u) :
    Ends (children id path) u fun r v => w.IsLike v ∧
      ∀ names, r = .ok names → ∃ a n, w.resolve? id path = some a ∧ w.node? a = some n ∧
        names = n.links.map Link.name := by
  simp only [children, Ends.bind_iff, ends_resolve, ends_node, Ends.pure_iff, like.sameWays.resolve?]
  have failed (f : Fault) (names : List Text) (given : Except.error f = Except.ok names) :
      ∃ a n, w.resolve? id path = some a ∧ w.node? a = some n ∧ names = n.links.map Link.name := by
    cases given
  refine ⟨fun a resolved => ⟨fun n' found' => ⟨like, ?_⟩, fun _ => ⟨like, failed _⟩⟩,
    fun _ => ⟨like, failed _⟩⟩
  rintro names ⟨⟩
  obtain ⟨n, found, same⟩ := like.node_back found'
  exact ⟨a, n, resolved, found, by rw [same]⟩

/-- The induction is on the bound: what the walk does below a node it does with a bound that is
still above the heights of the children. -/
theorem alike_sketchWithin {f g : Nat} {path : Text} {u : World} (pos : 0 < f) (le : f ≤ g)
    (high : ∀ a, w.resolve? id path = some a → height a < f) (like : w.IsLike u) :
    Alike (sketchWithin id f path) (sketchWithin id g path) u fun _ v => w.IsLike v := by
  induction f generalizing g path u with
  | zero => exact absurd pos (Nat.lt_irrefl 0)
  | succ f ih =>
    obtain ⟨g, rfl⟩ : ∃ k, g = k + 1 := ⟨g - 1, by omega⟩
    simp only [sketchWithin]
    refine .after (ends_resolve.mpr ⟨fun _ _ => ?_, fun _ => like⟩)
    refine .after (ends_node.mpr ⟨fun n _ => ?_, fun _ => like⟩)
    refine .bind (.refl (ends_children like)) (fun names v listed => ?_) fun _ _ listed => listed.1
    obtain ⟨a, n, resolved, found, rfl⟩ := listed.2 names rfl
    refine .bind (.mapM (fun name mem u like => ?_) listed.1) (fun _ _ like => .pure like)
      fun _ _ like => like
    obtain ⟨room, lower⟩ := height_below grow regular resolved found (high a resolved) mem
    exact ih room (by omega) lower like

/-- Setting limits below a node, likewise. -/
theorem alike_overrideLimitsBelow (o : Limits.Override) {f g : Nat} {path : Text} {u : World}
    (pos : 0 < f) (le : f ≤ g) (high : ∀ a, w.resolve? id path = some a → height a < f)
    (like : w.IsLike u) :
    Alike (overrideLimitsBelow id o f path) (overrideLimitsBelow id o g path) u
      fun _ v => w.IsLike v := by
  induction f generalizing g path u with
  | zero => exact absurd pos (Nat.lt_irrefl 0)
  | succ f ih =>
    obtain ⟨g, rfl⟩ : ∃ k, g = k + 1 := ⟨g - 1, by omega⟩
    simp only [overrideLimitsBelow]
    refine .bind (.refl (ends_overrideLimits path o like)) (fun _ v like => ?_) fun _ _ like => like
    refine .bind (.refl (ends_children like)) (fun names v listed => ?_) fun _ _ listed => listed.1
    obtain ⟨a, n, resolved, found, rfl⟩ := listed.2 names rfl
    refine .forM (fun name mem u like => ?_) listed.1
    obtain ⟨room, lower⟩ := height_below grow regular resolved found (high a resolved) mem
    exact ih room (by omega) lower like

end Heights

/-- In a tree without cycles the walk that describes it ends by itself. -/
theorem sketchWithin_eq (regular : w.IsRegular) (acyclic : w.IsAcyclic) (id : NodeId) (path : Text)
    {fuel : Nat} (enough : w.nodes.size < fuel) :
    sketchWithin id fuel path w = sketchWithin id (w.nodes.size + 1) path w := by
  obtain ⟨height, bound, grow⟩ := World.exists_height regular acyclic
  exact ((alike_sketchWithin grow regular (Nat.succ_pos _) enough
    (fun a _ => Nat.lt_succ_of_le (bound a)) (.refl World.composes_isLike w)).eq).symm

/-- In a tree without cycles the walk that sets limits in it ends by itself. -/
theorem overrideLimitsBelow_eq (regular : w.IsRegular) (acyclic : w.IsAcyclic) (id : NodeId)
    (o : Limits.Override) (path : Text) {fuel : Nat} (enough : w.nodes.size < fuel) :
    overrideLimitsBelow id o fuel path w =
      overrideLimitsBelow id o (w.nodes.size + 1) path w := by
  obtain ⟨height, bound, grow⟩ := World.exists_height regular acyclic
  exact ((alike_overrideLimitsBelow grow regular o (Nat.succ_pos _) enough
    (fun a _ => Nat.lt_succ_of_le (bound a)) (.refl World.composes_isLike w)).eq).symm

end Op

namespace World

variable {w : World}

/-- From a fresh tree on, no node ever leads to itself just if no step shares a node into a holder
that the node leads to already. In every such tree the walks that describe it and set limits in it
end by themselves: beyond the number of nodes, what bounds them makes no difference. -/
theorem acyclic_from_plant_iff {settings : Settings} {host : Host}
    (planted : plant settings host = .ok w) (ops : List TreeOp) :
    ((∀ pre, pre <+: ops → (w.course pre).IsAcyclic) ↔
        ∀ pre o, pre ++ [o] <+: ops → ¬ o.ClosesCycle (w.course pre)) ∧
      ∀ pre, pre <+: ops → (w.course pre).IsAcyclic →
        ∀ id path fuel, (w.course pre).nodes.size < fuel →
          Op.sketchWithin id fuel path (w.course pre) =
              Op.sketchWithin id ((w.course pre).nodes.size + 1) path (w.course pre) ∧
            ∀ o, Op.overrideLimitsBelow id o fuel path (w.course pre) =
              Op.overrideLimitsBelow id o ((w.course pre).nodes.size + 1) path (w.course pre) := by
  have regular := isRegular_plant planted
  refine ⟨isAcyclic_course_iff regular (isAcyclic_plant planted) ops, ?_⟩
  intro pre _ acyclic id path fuel enough
  have regular' := isRegular_course regular pre
  exact ⟨Op.sketchWithin_eq regular' acyclic id path enough,
    fun o => Op.overrideLimitsBelow_eq regular' acyclic id o path enough⟩

/-- Two children of the root, each shared into the other. -/
def crossShares : List TreeOp :=
  [.create root [] "a" {}, .create root [] "b" {}, .share root "a" "b", .share root "b" "a"]

/-- Nothing refuses the last step of `crossShares`, which closes a cycle. -/
theorem acyclic_from_plant_crossShares :
    ∃ w, plant {} {} = .ok w ∧
      ((∀ pre, pre <+: crossShares → (w.course pre).IsAcyclic) ↔
        ∀ pre o, pre ++ [o] <+: crossShares → ¬ o.ClosesCycle (w.course pre)) ∧
      ¬ (w.course crossShares).IsAcyclic := by
  refine ⟨_, plant_sapling, (acyclic_from_plant_iff plant_sapling crossShares).1, fun acyclic => ?_⟩
  have there : (sapling.course crossShares).LinksTo 2 3 := by decide
  have back : (sapling.course crossShares).LinksTo 3 2 := by decide
  exact acyclic 2 (.head there (.single back))

end World

end InterpTree
