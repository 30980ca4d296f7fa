import Mathlib.Data.List.Nodup
import InterpTree.Proofs.Pruning

/-!
Deletion and disposal in a woven tree. They take away a shared link, or a node with all that falls
with it; neither the caller nor the root falls.
-/

namespace InterpTree

namespace World

variable {w v : World} {i t caller holder : NodeId} {n n' : Node} {l : Link} {path : Text}

theorem IsWoven.attached (woven : w.IsWoven) (found : w.node? i = some n) (alive : n.dead = false)
    (mem : l ∈ n.links) : w.attached? i = some n := by
  refine attached?_eq_some_iff.mpr ⟨found, ?_⟩
  cases stays : n.attached with
  | true => rfl
  | false =>
    rw [woven.bare i n found stays alive] at mem
    cases mem

/-- Parents are followed up to the node that a node falls with. -/
theorem isBelow_of_fallsWith (woven : w.IsWoven) (numbered : w.IsNumbered)
    (falls : w.FallsWith t i) {fuel : Nat} (enough : @LT.lt Nat _ i (fuel + t)) :
    w.isBelow t fuel i = true := by
  induction falls generalizing fuel with
  | refl =>
    obtain ⟨fuel, rfl⟩ : ∃ more, fuel = more + 1 := ⟨fuel - 1, by omega⟩
    unfold isBelow
    rw [if_pos rfl]
  | @tail b c above owns ih =>
    have younger : @LT.lt Nat _ b c := woven.lt owns
    have below : @LE.le Nat _ t b := woven.le above
    obtain ⟨fuel, rfl⟩ : ∃ more, fuel = more + 1 := ⟨fuel - 1, by omega⟩
    have parent {n : Node} (found : w.node? c = some n) := woven.parent_eq owns found
    obtain ⟨p, k, holds, reached, -⟩ := owns
    have found := node?_of_attached? reached
    obtain ⟨foundP, stays⟩ := attached?_eq_some_iff.mp holds
    have live : w.live? b = some p := by
      simp [live?, foundP, Option.filter, Node.isLive, stays, woven.alive b p holds]
    unfold isBelow
    split
    · rfl
    · simp only [found, parent found, live, numbered b p foundP]
      exact ih (by omega)

theorem not_fallsWith_of_isWithin (woven : w.IsWoven) (numbered : w.IsNumbered)
    (apart : w.isWithin caller t = false) (found : w.node? caller = some n) :
    ¬ w.FallsWith t caller := by
  intro falls
  have inside := le_size_of_node? found
  have within : w.isWithin caller t = true := isBelow_of_fallsWith woven numbered falls (by omega)
  rw [apart] at within
  cases within

theorem not_fallsWith_root (regular : w.IsRegular) (woven : w.IsWoven) (found : w.node? t = some n)
    (other : n.isRoot = false ∨ n.shared = true) : ¬ w.FallsWith t root := by
  intro falls
  have above : @LE.le Nat _ t root := woven.le falls
  obtain rfl : t = root := Nat.le_antisymm above (pos_of_node? found)
  obtain ⟨r, foundR, isRoot, unshared, -⟩ := regular.rooted
  obtain rfl : n = r := Option.some.inj (found.symm.trans foundR)
  rw [isRoot, unshared] at other
  rcases other with h | h
  · cases h
  · cases h

/-! ### Shared links -/

theorem at_eq_iff {f : Node → Node} : At t (fun n n' => n' = f n) i n n' ↔
    n' = if i = t then f n else n := by
  by_cases here : i = t
  · rw [At, if_pos here, if_pos here]
  · rw [At, if_neg here, if_neg here]

/-- One link of `holder` is taken away, with what its target knows of it. -/
def ParesAt (holder : NodeId) (l : Link) (i : NodeId) (n n' : Node) : Prop :=
  n' = { n with
    links := if i = holder then n.links.erase l else n.links
    sharedLinks := if i = l.target then n.sharedLinks.erase ⟨holder, l.name⟩ else n.sharedLinks }

/-- Where names differ, the name and the target of a link tell it from the others. -/
theorem unlink_eq_erase (names : (n.links.map Link.name).Nodup) (mem : l ∈ n.links) :
    n.unlink l.name l.target = { n with links := n.links.erase l } := by
  have apart : n.links.Nodup := List.Nodup.of_map _ names
  rw [Node.unlink, apart.erase_eq_filter]
  congr 1
  refine List.filter_congr fun k memK => ?_
  by_cases same : k = l
  · simp [same]
  · have other : k.name ≠ l.name := fun name =>
      same (List.inj_on_of_nodup_map names memK mem name)
    rw [bne_iff_ne.mpr same, beq_eq_false_iff_ne.mpr other]
    rfl

theorem changes_pare (regular : w.IsRegular) (found : w.node? holder = some n) (mem : l ∈ n.links) :
    Changes (ParesAt holder l) w
      ((w.modifyNode holder (Node.unlink l.name l.target)).modifyNode l.target fun n =>
        { n with sharedLinks := n.sharedLinks.erase ⟨holder, l.name⟩ }) := by
  have cut : Changes (At holder fun n n' => n' = { n with links := n.links.erase l }) w
      (w.modifyNode holder (Node.unlink l.name l.target)) := by
    refine changes_modifyNode fun m here => ?_
    obtain rfl : n = m := Option.some.inj (found.symm.trans here)
    exact unlink_eq_erase (regular.names holder n found) mem
  have forget (v : World) : Changes
      (At l.target fun n n' => n' =
        { n with sharedLinks := n.sharedLinks.erase ⟨holder, l.name⟩ }) v
      (v.modifyNode l.target fun n =>
        { n with sharedLinks := n.sharedLinks.erase ⟨holder, l.name⟩ }) :=
    changes_modifyNode fun _ _ => rfl
  refine (cut.comp (forget _)).mono fun i n k change => ?_
  obtain ⟨m, first, second⟩ := change
  rw [at_eq_iff] at first second
  rw [second, first, ParesAt]
  by_cases isHolder : i = holder
  · by_cases isTarget : i = l.target
    · simp only [if_pos isHolder, if_pos isTarget]
    · simp only [if_pos isHolder, if_neg isTarget]
  · by_cases isTarget : i = l.target
    · simp only [if_neg isHolder, if_pos isTarget]
    · simp only [if_neg isHolder, if_neg isTarget]

/-- The last name of a path is the one of a link of the node that the rest leads to. -/
structure Names (w : World) (caller : NodeId) (path : Text) (holder : NodeId) (l : Link) :
    Prop where
  target : w.resolve? caller path = some l.target
  above : w.resolve? caller (splitPath path).1 = some holder
  link : ∃ n, w.attached? holder = some n ∧ n.link? (splitPath path).2 = some l

theorem name_eq_of_link? {name : Text} (h : n.link? name = some l) : l ∈ n.links ∧ l.name = name :=
  ⟨List.mem_of_find?_eq_some h, by simpa using List.find?_some h⟩

end World

namespace Op

variable {w : World}

open World

/-- A deletion takes away a shared link, or a node with all that falls with it. -/
theorem delete_prunes (worker : Option NodeId) (caller : NodeId) (path : Text)
    (regular : w.IsRegular) (woven : w.IsWoven) :
    Settles (delete worker caller path) w fun r v =>
      r = .ok () ∧ ∃ holder l, w.Names caller path holder l ∧
        (l.shared = true ∧ Changes (ParesAt holder l) w v ∨
          l.shared = false ∧ ¬ w.FallsWith l.target caller ∧ ¬ w.FallsWith l.target root ∧
            Prunes (w.FallsWith l.target) w v) := by
  have numbered := regular.numbered
  unfold delete
  refine .resolve fun id resolved => .node fun t found => .require fun notRoot =>
    .get (.require fun apart => .resolve fun parentId reached => .node fun p foundP => ?_)
  obtain rfl : t.id = id := numbered id t found
  obtain rfl : p.id = parentId := numbered parentId p foundP
  split
  · exact .throw _
  · rename_i l here
    refine .require fun same => .require fun _ => .of_ends ?_
    have same : t.id = l.target := (of_decide_eq_true same).symm
    obtain ⟨mem, name⟩ := name_eq_of_link? here
    obtain ⟨p', foundP', aliveP, -⟩ := alive_of_resolve? numbered reached
    obtain rfl : p = p' := Option.some.inj (foundP.symm.trans foundP')
    have holds := woven.attached foundP aliveP mem
    obtain ⟨c, asker, -⟩ := exists_of_resolve? resolved
    have within : w.isWithin caller t.id = false := by simpa using apart
    have notRoot : t.isRoot = false := by simpa using notRoot
    rw [same] at resolved found within ⊢
    have names : w.Names caller path p.id l := ⟨resolved, reached, p, holds, here⟩
    have away := not_fallsWith_of_isWithin woven numbered within asker
    simp only [Ends.bind_iff, ends_change, ← name]
    split
    · rename_i shared
      rw [ends_change]
      exact ⟨rfl, p.id, l, names, .inl ⟨shared, changes_pare regular foundP mem⟩⟩
    · rename_i own
      have own : l.shared = false := by simpa using own
      obtain ⟨t', top, parent⟩ := woven.own p.id p holds l mem own
      obtain rfl : t = t' := eq_of_attached? found top
      simp only [Ends.bind_iff, ends_change]
      refine ⟨trivial, p.id, l, names, .inr ⟨own, away, not_fallsWith_root regular woven found
        (.inl notRoot), ?_⟩⟩
      -- The link that is cut is the one that the target tells of as its parent and its name.
      have unlinks : w.modifyNode p.id (Node.unlink l.name l.target) =
          w.unlinkRef l.target ⟨t.parent, t.name⟩ := by
        rw [unlinkRef, parent, woven.named p.id p holds l mem own t found, holds]
        rfl
      rw [unlinks]
      have uproots := changes_uproot woven found
        (changes_unlink_kill l.target w ⟨t.parent, t.name⟩)
      exact (prunes_uprooted woven uproots top worker).followed (nodes_logNode _ _ _ _ _)
        (.logNode _ _ _ _ _)

/-- Disposing of a node that was handed over takes it away with all that falls with it. -/
theorem disposeShared_prunes (worker : Option NodeId) (caller : NodeId) (path : Text)
    (regular : w.IsRegular) (woven : w.IsWoven) :
    Settles (disposeShared worker caller path) w fun r v =>
      r = .ok () ∧ ∃ target, w.resolve? caller path = some target ∧
        ¬ w.FallsWith target caller ∧ ¬ w.FallsWith target root ∧
          Prunes (w.FallsWith target) w v := by
  have numbered := regular.numbered
  unfold disposeShared
  refine .requirePrivilege fun c asker _ => .resolve fun id resolved =>
    .node fun t found => .get (.require fun apart => .require fun handed => .of_ends ?_)
  obtain rfl : t.id = id := numbered id t found
  have within : w.isWithin caller t.id = false := by simpa using apart
  have away := not_fallsWith_of_isWithin woven numbered within asker
  have notRoot := not_fallsWith_root regular woven found (.inr handed)
  have top : w.attached? t.id = some t := by
    obtain ⟨t', found', -, same | stays⟩ := alive_of_resolve? numbered resolved
    · exact absurd (same ▸ .refl) away
    · obtain rfl : t = t' := Option.some.inj (found.symm.trans found')
      exact attached?_eq_some_iff.mpr ⟨found, stays⟩
  have prunes := prunes_uprooted woven
    (changes_uproot woven found (changes_kill_unlink t.id w ⟨t.parent, t.name⟩)) top worker
  simp only [Ends.bind_iff, ends_change, Ends.get_iff]
  rw [unlinkRef] at prunes
  split
  · rename_i there
    rw [if_pos there] at prunes
    simp only [Ends.bind_iff, ends_change]
    exact ⟨trivial, t.id, resolved, away, notRoot, prunes⟩
  · rename_i none
    rw [if_neg none] at prunes
    simp only [Ends.bind_iff, ends_change]
    exact ⟨trivial, t.id, resolved, away, notRoot, prunes⟩

end Op

end InterpTree
