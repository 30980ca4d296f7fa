import InterpTree.Proofs.Course

/-!
Cycles of links. Making children and removing nodes never closes a cycle; sharing does exactly when
the node that is shared leads to its new holder already.
-/

namespace InterpTree

/-- Ways along a relation that has one pair `(h, t)` more than `r`. -/
theorem transGen_of_added {α : Type} {r s : α → α → Prop} {h t a b : α}
    (added : ∀ x y, s x y → r x y ∨ (x = h ∧ y = t)) (way : Relation.TransGen s a b) :
    Relation.TransGen r a b ∨ (Relation.ReflTransGen r a h ∧ Relation.ReflTransGen r t b) := by
  induction way with
  | single step =>
    rcases added _ _ step with old | ⟨rfl, rfl⟩
    · exact .inl (.single old)
    · exact .inr ⟨.refl, .refl⟩
  | tail _ step ih =>
    rcases added _ _ step with old | ⟨rfl, rfl⟩
    · rcases ih with way | ⟨first, second⟩
      · exact .inl (way.tail old)
      · exact .inr ⟨first, second.tail old⟩
    · rcases ih with way | ⟨first, -⟩
      · exact .inr ⟨way.to_reflTransGen, .refl⟩
      · exact .inr ⟨first, .refl⟩

/-- Some node leads back to itself over the pair more just when the pair closes a way. -/
theorem cycle_added_iff {α : Type} {r s : α → α → Prop} {h t : α}
    (added : ∀ x y, s x y ↔ r x y ∨ (x = h ∧ y = t)) (acyclic : ∀ a, ¬ Relation.TransGen r a a) :
    (∃ a, Relation.TransGen s a a) ↔ Relation.ReflTransGen r t h := by
  constructor
  · rintro ⟨a, cycle⟩
    rcases transGen_of_added (fun x y => (added x y).mp) cycle with old | ⟨first, second⟩
    · exact absurd old (acyclic a)
    · exact second.trans first
  · intro way
    have closing : s h t := (added h t).mpr (.inr ⟨rfl, rfl⟩)
    exact ⟨h, .head' closing
      (Relation.ReflTransGen.mono (fun x y step => (added x y).mpr (.inl step)) _ _ way)⟩

namespace World

variable {w v : World} {o : TreeOp}

/-- No node leads to itself over one or more links. -/
def IsAcyclic (w : World) : Prop := ∀ a, ¬ Relation.TransGen w.LinksTo a a

end World

namespace TreeOp

variable {w v : World} {o : TreeOp}

/-- The operation links a node into a holder that it leads to. -/
def ClosesCycle (o : TreeOp) (w : World) : Prop :=
  ∃ holder shared, o.Shares w holder shared ∧ w.LeadsTo shared holder

theorem Shares.unique {holder shared holder' shared' : NodeId} (h : o.Shares w holder shared)
    (h' : o.Shares w holder' shared') : holder = holder' ∧ shared = shared' := by
  obtain ⟨caller, path, source, _, _, rfl, -, toHolder, toShared⟩ := h
  obtain ⟨_, _, _, _, _, same, -, toHolder', toShared'⟩ := h'
  cases same
  exact ⟨Option.some.inj (toHolder.symm.trans toHolder'),
    Option.some.inj (toShared.symm.trans toShared')⟩

end TreeOp

namespace World

variable {w v : World} {o : TreeOp}

theorem isAcyclic_iff_of_linksTo_iff {h t : NodeId} (acyclic : w.IsAcyclic)
    (added : ∀ a b, v.LinksTo a b ↔ w.LinksTo a b ∨ (a = h ∧ b = t)) :
    v.IsAcyclic ↔ ¬ w.LeadsTo t h := by
  rw [LeadsTo, ← cycle_added_iff added acyclic, not_exists]
  rfl

theorem IsAcyclic.of_linksTo (acyclic : w.IsAcyclic)
    (fewer : ∀ a b, v.LinksTo a b → w.LinksTo a b) : v.IsAcyclic :=
  fun a cycle => acyclic a (Relation.TransGen.mono fewer a a cycle)

/-- A node that is still to be made leads nowhere. -/
theorem eq_of_leadsTo_new {b : NodeId} (way : w.LeadsTo (w.nodes.size + 1) b) :
    b = w.nodes.size + 1 := by
  rcases way.cases_head with rfl | ⟨c, step, -⟩
  · rfl
  · obtain ⟨n, found⟩ := step.node?
    rw [node?_new] at found
    cases found

/-- One operation keeps the links free of cycles unless it closes one. -/
theorem isAcyclic_apply_iff (o : TreeOp) (regular : w.IsRegular) (acyclic : w.IsAcyclic) :
    (o.apply w).IsAcyclic ↔ ¬ o.ClosesCycle w := by
  by_cases sharing : ∃ holder shared, o.Shares w holder shared
  · obtain ⟨holder, shared, shares⟩ := sharing
    obtain ⟨caller, path, source, name, u, rfl, result, -, -⟩ := id shares
    obtain ⟨holder', shared', k, s, shares', found, -, -, -, changes⟩ :=
      TreeOp.shared_of_ok regular.numbered result
    rw [isAcyclic_iff_of_linksTo_iff acyclic fun a b => linksTo_iff_of_shares changes found]
    constructor
    · rintro open' ⟨h, t, sharesAs, leads⟩
      obtain ⟨rfl, rfl⟩ := sharesAs.unique shares'
      exact open' leads
    · intro open' leads
      exact open' ⟨holder', shared', shares', leads⟩
  · refine iff_of_true ?_ fun ⟨holder, shared, shares, _⟩ => sharing ⟨holder, shared, shares⟩
    cases o.turns regular with
    | refused same => exact same.symm ▸ acyclic
    | spoiled parent trust n m gains isNew strips =>
      exact acyclic.of_linksTo fun a b =>
        (gains.linksTo_iff (strips_links_nil isNew strips)).mp
    | grown options name caller parent c p m valid asker reached found free grows child =>
      rw [isAcyclic_iff_of_linksTo_iff acyclic fun a b => grows.linksTo_iff child.links found]
      intro leads
      rw [eq_of_leadsTo_new leads, node?_new] at found
      cases found
    | linked holder shared h s shares => exact absurd ⟨holder, shared, shares⟩ sharing
    | waned removal wanes => exact acyclic.of_linksTo fun a b => wanes.linksTo

theorem isAcyclic_plant {settings : Settings} {host : Host} (h : plant settings host = .ok w) :
    w.IsAcyclic := by
  obtain ⟨n, isNew, -, -, -, only⟩ := plant_root h
  intro a cycle
  obtain ⟨b, ⟨m, found, l, mem, -⟩, -⟩ := Relation.TransGen.head'_iff.mp cycle
  obtain ⟨rfl, rfl⟩ := only a m found
  rw [isNew.links] at mem
  cases mem

/-- Along a course the links stay free of cycles just as long as no step closes one. -/
theorem isAcyclic_course_iff (regular : w.IsRegular) (acyclic : w.IsAcyclic) (ops : List TreeOp) :
    (∀ pre, pre <+: ops → (w.course pre).IsAcyclic) ↔
      ∀ pre o, pre ++ [o] <+: ops → ¬ o.ClosesCycle (w.course pre) :=
  course_iff (fun _ o regular => (o.turns regular).isRegular regular)
    (fun _ o regular acyclic => isAcyclic_apply_iff o regular acyclic) regular acyclic ops

end World

end InterpTree
