import InterpTree.Proofs.Histories
import InterpTree.Proofs.Furnishing
import InterpTree.Proofs.Survival

/-!
The algebra of paths. Main statement, of all that comes of a fresh tree: a joined path leads where its
second part leads from the node at its first, the parent part of a path that leads to a node leads to
one with a link of the last name to it, and so a deletion that passes its checks is done. Paths are cut
at the last dot but followed from the first, and both agree only since no link has a name that is empty
or holds a dot.
-/

namespace InterpTree

/-- Cutting a path at its last dot takes off a valid name that was joined to it. -/
theorem splitPath_joinPath {base name : Text} (valid : isValidName name = true) :
    splitPath (joinPath base name) = (base, name) := by
  obtain ⟨nonempty, dotless⟩ := isValidName_iff.mp valid
  have isEmpty : name.isEmpty = false := by simpa using nonempty
  unfold splitPath joinPath
  cases base with
  | nil => simp [Text.cutLast_of_not_mem dotless]
  | cons c base =>
    simp only [List.isEmpty_cons, isEmpty, Bool.false_eq_true, if_false]
    rw [List.append_assoc, List.singleton_append, Text.cutLast_append dotless]

namespace World

variable {w : World} {caller t : NodeId} {path p q : Text}

theorem resolve?_joinPath_iff (numbered : w.IsNumbered) :
    w.resolve? caller (joinPath p q) = some t ↔
      ∃ m, w.resolve? caller p = some m ∧ w.resolve? m q = some t := by
  constructor
  · intro resolved
    obtain ⟨n, found, alive⟩ := exists_of_resolve? resolved
    rw [resolve?_eq found alive, namesOf_append, follow?_append, ← resolve?_eq found alive] at resolved
    obtain ⟨m, before, after⟩ := Option.bind_eq_some_iff.mp resolved
    obtain ⟨k, foundM, aliveM, -⟩ := alive_of_resolve? numbered before
    exact ⟨m, before, by rw [resolve?_eq foundM aliveM, after]⟩
  · rintro ⟨m, before, after⟩
    obtain ⟨n, found, alive⟩ := exists_of_resolve? before
    obtain ⟨k, foundM, aliveM⟩ := exists_of_resolve? after
    rw [resolve?_eq found alive] at before
    rw [resolve?_eq foundM aliveM] at after
    rw [resolve?_eq found alive, namesOf_append, follow?_append, before, Option.bind_some, after]

/-- The parent part of a path leads to a node whose link of the last name leads where the path does. -/
theorem IsRegular.link_of_resolve? (regular : w.IsRegular) (nonempty : path ≠ [])
    (resolved : w.resolve? caller path = some t) :
    ∃ m n l, w.resolve? caller (splitPath path).1 = some m ∧ w.node? m = some n ∧
      n.link? (splitPath path).2 = some l ∧ l.target = t := by
  obtain ⟨k, found, alive⟩ := exists_of_resolve? resolved
  have names := regular.namesOf_eq nonempty resolved
  rw [resolve?_eq found alive, names, follow?_concat] at resolved
  obtain ⟨m, before, last⟩ := Option.bind_eq_some_iff.mp resolved
  obtain ⟨n, l, t', foundM, -, link, target, -, rfl⟩ := child?_eq_some_iff.mp last
  refine ⟨m, n, l, ?_, foundM, link, (regular.numbered _ t' target).symm⟩
  rw [resolve?_eq found alive, before]

/-! ### Deletion -/

/-- A node may be deleted by way of a path if it is not the root and the caller is not within it. -/
def MayDelete (w : World) (caller : NodeId) (path : Text) : Prop :=
  ∃ t n, w.resolve? caller path = some t ∧ w.node? t = some n ∧ n.isRoot = false ∧
    w.isWithin caller t = false

instance : Decidable (w.MayDelete caller path) :=
  decidable_of_iff ((w.resolve? caller path).any fun t =>
      (w.node? t).any fun n => !n.isRoot && !w.isWithin caller t) (by
    simp [MayDelete, Option.any_eq_true])

end World

namespace Op

variable {w v : World} {caller t : NodeId} {path : Text} (worker : Option NodeId)

open World

/-- A deletion that passes its checks finds the link that it is to cut. -/
theorem delete_done (regular : w.IsRegular) (may : w.MayDelete caller path) :
    Ends (delete worker caller path) w fun r _ => r = .ok () := by
  obtain ⟨t, n, resolved, found, notRoot, apart⟩ := may
  obtain rfl : n.id = t := regular.numbered t n found
  have alive := alive_of_resolved regular.numbered resolved found
  have nonempty : path ≠ [] := by
    rintro rfl
    obtain ⟨c, asker, aliveC⟩ := exists_of_resolve? resolved
    rw [resolve?_eq asker aliveC] at resolved
    obtain rfl : caller = n.id := Option.some.inj resolved
    rw [isWithin_self] at apart
    cases apart
  obtain ⟨m, k, l, above, foundM, link, target⟩ := regular.link_of_resolve? nonempty resolved
  unfold delete
  cases shared : l.shared <;>
    simp [resolved, found, notRoot, apart, above, foundM, link, target, alive, shared]

theorem delete_refused (numbered : w.IsNumbered) (resolved : w.resolve? caller path = some t)
    (mayNot : ¬ w.MayDelete caller path) :
    Ends (delete worker caller path) w fun r _ =>
      ∃ message, r = .error (.of .invalidArgument message) := by
  obtain ⟨n, found, -, -⟩ := alive_of_resolve? numbered resolved
  obtain rfl : n.id = t := numbered t n found
  have either : n.isRoot = true ∨ w.isWithin caller n.id = true := by
    by_contra neither
    simp only [not_or, Bool.not_eq_true] at neither
    exact mayNot ⟨n.id, n, resolved, found, neither⟩
  unfold delete
  cases isRoot : n.isRoot with
  | true => simp [resolved, found, isRoot]
  | false =>
    have within := either.resolve_left (by simp [isRoot])
    simp [resolved, found, isRoot, within]

theorem delete_missing (missing : w.resolve? caller path = none) :
    Ends (delete worker caller path) w fun r _ => r = .error (.noInterpreter path) := by
  unfold delete
  simp [missing]

theorem delete_ok_iff (regular : w.IsRegular) :
    (∃ v, delete worker caller path w = .ok () v) ↔ w.MayDelete caller path := by
  constructor
  · rintro ⟨v, deleted⟩
    obtain ⟨-, t, n, resolved, found, notRoot, apart, -⟩ :=
      (settles_delete worker caller path regular.numbered).of_ok deleted
    exact ⟨t, n, resolved, found, notRoot, apart⟩
  · intro may
    obtain ⟨v, deleted, -⟩ := Ends.exists_ok (P := fun _ => True)
      ((delete_done worker regular may).mono fun _ _ done => ⟨done, trivial⟩)
    exact ⟨v, deleted⟩

/-- A deletion is refused for want of a node only if the path leads to none. -/
theorem delete_notFound_iff (regular : w.IsRegular) {f : Fault}
    (refused : delete worker caller path w = .error f v) :
    f.kind? = some .notFound ↔ w.resolve? caller path = none := by
  have ends {Q : Except Fault Unit → World → Prop} (h : Ends (delete worker caller path) w Q) :
      Q (.error f) v := by
    unfold Ends at h
    rw [refused] at h
    exact h
  cases resolved : w.resolve? caller path with
  | none =>
    obtain rfl := Except.error.inj (ends (delete_missing worker resolved))
    exact iff_of_true rfl rfl
  | some t =>
    have mayNot : ¬ w.MayDelete caller path := fun may => nomatch ends (delete_done worker regular may)
    obtain ⟨message, same⟩ := ends (delete_refused worker regular.numbered resolved mayNot)
    obtain rfl := Except.error.inj same
    exact iff_of_false nofun nofun

end Op

namespace World

variable {w : World} {id : NodeId} {n : Node} {steps : List TreeStep}

/-- In all that comes of a fresh tree, for each node that lives in it: a joined path leads where its
second part leads from the node at its first; cutting a joined path undoes the joining; the parent part
of a path to some node leads to one with a link of the last name to that node; and a deletion is done if
its target may be deleted, and refused for want of a node only if its path leads to none. -/
theorem path_algebra_from_plant {settings : Settings} {host : Host}
    (planted : plant settings host = .ok w) (admits : w.Admits steps)
    (live : (w.along steps).live? id = some n) :
    (∀ p q t, (w.along steps).resolve? id (joinPath p q) = some t ↔
      ∃ m, (w.along steps).resolve? id p = some m ∧ (w.along steps).resolve? m q = some t) ∧
    (∀ p name, isValidName name = true → splitPath (joinPath p name) = (p, name)) ∧
    (∀ p t, p ≠ [] → (w.along steps).resolve? id p = some t →
      ∃ m k l, (w.along steps).resolve? id (splitPath p).1 = some m ∧
        (w.along steps).node? m = some k ∧ k.link? (splitPath p).2 = some l ∧ l.target = t) ∧
    ∀ worker p,
      ((∃ v, Op.delete worker id p (w.along steps) = .ok () v) ↔ (w.along steps).MayDelete id p) ∧
      ∀ f v, Op.delete worker id p (w.along steps) = .error f v →
        (f.kind? = some .notFound ↔ (w.along steps).resolve? id p = none) := by
  cases (isKept_plant planted).along admits with
  | tended regular _ =>
    refine ⟨fun p q t => resolve?_joinPath_iff regular.numbered,
      fun p name valid => splitPath_joinPath valid,
      fun p t nonempty resolved => regular.link_of_resolve? nonempty resolved, fun worker p => ?_⟩
    exact ⟨Op.delete_ok_iff worker regular, fun f v => Op.delete_notFound_iff worker regular⟩
  | ended _ ended =>
    obtain ⟨found, live⟩ := live?_eq_some_iff.mp live
    have stays : n.attached = true := (Bool.and_eq_true_iff.mp live).1
    cases (ended id).symm.trans (attached?_eq_some_iff.mpr ⟨found, stays⟩)

/-- A shared link is found at its path, and it may be deleted. -/
theorem path_algebra_from_plant_handedOver :
    ∃ w n, plant {} {} = .ok w ∧ w.Admits handedOver ∧
      (w.along handedOver).live? root = some n ∧
      isValidName "shared5" = true ∧ splitPath (joinPath "h" "shared5") = (("h", "shared5") : Text × Text) ∧
      (∃ m, (w.along handedOver).resolve? root "h" = some m ∧
        (w.along handedOver).resolve? m "shared5" = some 5) ∧
      (∃ m k l, (w.along handedOver).resolve? root "h" = some m ∧
        (w.along handedOver).node? m = some k ∧ k.link? "shared5" = some l ∧ l.target = 5) ∧
      (w.along handedOver).MayDelete root "h.shared5" ∧
      ∃ v, Op.delete none root "h.shared5" (w.along handedOver) = .ok () v := by
  have admits : sapling.Admits handedOver :=
    ⟨.op (by decide), .op (by decide), .op (by decide), .op (by decide), .op (by decide), trivial⟩
  have lives : ((sapling.along handedOver).live? root).isSome = true := by decide
  obtain ⟨n, live⟩ := Option.isSome_iff_exists.mp lives
  obtain ⟨joined, split, parent, deletes⟩ := path_algebra_from_plant plant_sapling admits live
  have valid : isValidName "shared5" = true := by decide
  have resolved : (sapling.along handedOver).resolve? root (joinPath "h" "shared5") = some 5 := by
    decide
  have may : (sapling.along handedOver).MayDelete root "h.shared5" := by decide
  exact ⟨_, n, plant_sapling, admits, live, valid, split "h" "shared5" valid,
    (joined "h" "shared5" 5).mp resolved, parent "h.shared5" 5 (by decide) resolved, may,
    (deletes none "h.shared5").1.mpr may⟩

end World

end InterpTree
