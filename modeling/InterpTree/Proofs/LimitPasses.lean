import InterpTree.Proofs.Deeds
import InterpTree.Proofs.LimitSettings

/-!
Passes that set limits. Main statement: when a manifest has set its limits in a tree without cycles,
each limit of each node that the root leads to is what the last entry says that is for that node and
mentions the limit, or else what is said for all nodes, or else what it was; nothing else changes, and
to set them again changes nothing at all.

What a pass does is told by the list of the overrides that it makes. Where in the tree they are made
depends on how nodes are linked and not on their limits, so that two passes make the same ones.
-/

namespace InterpTree

/-! ### Passes -/

/-- What a computation in two parts goes through. -/
theorem Ends.bind_ok_iff {ε α β : Type} {x : EStateM ε World α} {f : α → EStateM ε World β} {b : β}
    {w v : World} : (x >>= f) w = .ok b v ↔ ∃ a u, x w = .ok a u ∧ f a u = .ok b v := by
  constructor
  · exact of_bind_ok
  · rintro ⟨a, u, begins, rest⟩
    change EStateM.bind x f w = _
    rw [EStateM.bind, begins]
    exact rest

namespace Op

open World
open Limits (Setting)

variable {w x : World} {r a : NodeId} {n : Node} {o : Limits.Override} {path : Text} {op op' : Op Unit}
  {P Q : Prop} {ss ts : List Setting}

/-- In a tree like that of `w` the operation makes some overrides and does nothing else. It is refused
if one of them is, or if `P` does not hold. -/
def Sets (w : World) (op : Op Unit) (P : Prop) (ss : List Setting) : Prop :=
  ∀ x v, w.IsLike x → (op x = .ok () v ↔ P ∧ x.AcceptsAll ss ∧ v = x.relimitAll ss)

namespace Sets

theorem congr (h : Sets w op P ss) (same : P ↔ Q) : Sets w op Q ss := fun x v like => by
  rw [h x v like, same]

theorem pure : Sets w (Pure.pure ()) True [] := fun x v _ => by
  constructor
  · intro done
    obtain ⟨-, rfl⟩ := EStateM.Result.ok.inj done
    exact ⟨trivial, trivial, rfl⟩
  · rintro ⟨-, -, rfl⟩
    rfl

theorem bind (h : Sets w op P ss) (h' : Sets w op' Q ts) :
    Sets w (do op; op') (P ∧ Q) (ss ++ ts) := fun x v like => by
  rw [Ends.bind_ok_iff, acceptsAll_append, relimitAll_append]
  have like' := like.trans composes_isLike (isLike_relimitAll x ss)
  constructor
  · rintro ⟨_, u, begins, rest⟩
    obtain ⟨p, granted, rfl⟩ := (h x u like).mp begins
    obtain ⟨q, more, rfl⟩ := (h' _ v like').mp rest
    exact ⟨⟨p, q⟩, ⟨granted, more⟩, rfl⟩
  · rintro ⟨⟨p, q⟩, ⟨granted, more⟩, rfl⟩
    exact ⟨(), _, (h x _ like).mpr ⟨p, granted, rfl⟩, (h' _ _ like').mpr ⟨q, more, rfl⟩⟩

/-- What is read first is known. -/
theorem after {β : Type} {first : Op β} {f : β → Op Unit} {b : World → β}
    (reads : ∀ x, w.IsLike x → first x = .ok (b x) x) (h : ∀ x, w.IsLike x → Sets w (f (b x)) P ss) :
    Sets w (first >>= f) P ss := fun x v like => by
  rw [Op.bind_of_ok (reads x like)]
  exact h x like x v like

theorem forM {γ : Type} {f : γ → Op Unit} {P : γ → Prop} {ss : γ → List Setting} {l : List γ}
    (h : ∀ a ∈ l, Sets w (f a) (P a) (ss a)) :
    Sets w (l.forM f) (∀ a ∈ l, P a) (l.flatMap ss) := by
  induction l with
  | nil => exact pure.congr (iff_of_true trivial nofun)
  | cons a l ih =>
    have both := (h a List.mem_cons_self).bind (ih fun b mem => h b (List.mem_cons_of_mem a mem))
    exact both.congr List.forall_mem_cons.symm

end Sets

/-- An override of the limits of the node at a path is granted, or refused, whatever the others are. -/
theorem overrideLimits_eq (resolved : x.resolve? r path = some a) (found : x.node? a = some n) :
    overrideLimits r path o x =
      if (n.relimit o).cancel.limits.anyNegative then
        .error (.noted ("limits for " ++ Text.quoted path)
          (.of .invalidArgument "limits must not be negative")) x
      else .ok () (x.relimit ⟨a, o⟩) := by
  have set : n.cancel.setLimits (o.over n.cancel.limits) =
      if (n.relimit o).cancel.limits.anyNegative then
        .error (.of .invalidArgument "limits must not be negative")
      else .ok (n.relimit o).cancel := by
    unfold Cancellation.setLimits Limits.checked
    change Except.map _ (if (n.relimit o).cancel.limits.anyNegative = true then _ else _) = _
    split <;> rfl
  rw [overrideLimits, Op.bind_of_ok (resolve_ok resolved), updateCancel]
  cases negative : (n.relimit o).cancel.limits.anyNegative with
  | true => exact updateNode_error found (by simp [Node.control_eq, set, negative])
  | false =>
    rw [updateNode_ok found (by simp only [Node.control_eq, set, negative]; rfl)]
    exact congrArg (EStateM.Result.ok ()) (modifyNode_congr found rfl)

theorem ok_of_overrideLimits {v : World} (ok : overrideLimits r path o x = .ok () v) :
    ∃ a n, x.resolve? r path = some a ∧ x.node? a = some n := by
  obtain ⟨a, n, resolved, amends⟩ := (settles_overrideLimits o).of_ok ok
  exact ⟨a, n, resolved, amends.found⟩

theorem Sets.overrideLimits (resolved : w.resolve? r path = some a) :
    Sets w (overrideLimits r path o) True [⟨a, o⟩] := fun x v like => by
  have resolved := (like.sameWays.resolve? r path).trans resolved
  simp only [AcceptsAll, Accepts, and_true, true_and]
  constructor
  · intro ok
    obtain ⟨a', n, there, found⟩ := ok_of_overrideLimits ok
    obtain rfl : a = a' := Option.some.inj (resolved.symm.trans there)
    rw [overrideLimits_eq resolved found] at ok
    split at ok
    · cases ok
    · rename_i valid
      obtain ⟨-, rfl⟩ := EStateM.Result.ok.inj ok
      exact ⟨⟨n, found, (Bool.not_eq_true _).mp valid⟩, rfl⟩
  · rintro ⟨⟨n, found, valid⟩, rfl⟩
    rw [overrideLimits_eq resolved found, if_neg (by rw [valid]; decide)]
    rfl

end Op

namespace World

open Limits (Setting)

variable {w : World} {r i : NodeId} {o : Limits.Override} {path : Text}

/-- The node at a path, and the names of its links. -/
def listed? (w : World) (r : NodeId) (path : Text) : Option (NodeId × List Text) := do
  let a ← w.resolve? r path
  let n ← w.node? a
  return (a, n.links.map Link.name)

theorem listed?_eq_some_iff {a : NodeId} {names : List Text} :
    w.listed? r path = some (a, names) ↔
      w.resolve? r path = some a ∧ ∃ n, w.node? a = some n ∧ names = n.links.map Link.name := by
  simp only [listed?, Option.bind_eq_bind, Option.bind_eq_some_iff, Option.pure_def, Option.some.injEq,
    Prod.mk.injEq]
  constructor
  · rintro ⟨_, resolved, n, found, rfl, rfl⟩
    exact ⟨resolved, n, found, rfl⟩
  · rintro ⟨resolved, n, found, rfl⟩
    exact ⟨a, resolved, n, found, rfl, rfl⟩

/-- A walk down from the node at a path, `fuel` levels deep at most, finds a node wherever it goes. -/
def Walkable (w : World) (r : NodeId) : Nat → Text → Prop
  | 0, _ => True
  | fuel + 1, path => ∃ a names, w.listed? r path = some (a, names) ∧
      ∀ name ∈ names, w.Walkable r fuel (joinPath path name)

/-- The overrides that the walk makes. -/
def walk (w : World) (r : NodeId) (o : Limits.Override) : Nat → Text → List Setting
  | 0, _ => []
  | fuel + 1, path =>
    match w.listed? r path with
    | none => []
    | some (a, names) => ⟨a, o⟩ :: names.flatMap fun name => w.walk r o fuel (joinPath path name)

/-- The override that an entry of a manifest makes. -/
def visit (w : World) (r : NodeId) (spec : InterpreterSpec) : List Setting :=
  if spec.limits.isEmpty then []
  else (w.resolve? r spec.path).toList.map fun a => ⟨a, spec.limits⟩

/-- The overrides that a manifest makes. -/
def sweep (w : World) (r : NodeId) (m : Manifest) : List Setting :=
  (if m.limits.isEmpty then [] else w.walk r m.limits (w.nodes.size + 1) []) ++
    m.interpreters.flatMap (w.visit r)

end World

namespace Op

open World

variable {w x v : World} {r a : NodeId} {o : Limits.Override} {path : Text} {names : List Text}

theorem children_of_listed (listed : w.listed? r path = some (a, names)) (like : w.IsLike x) :
    children r path x = .ok names x := by
  obtain ⟨resolved, n, found, rfl⟩ := listed?_eq_some_iff.mp listed
  obtain ⟨n', found', same⟩ := like.node a n found
  have links : n'.links = n.links := by rw [same]
  rw [Ends.eq_ok_iff]
  simp [children, like.sameWays.resolve?, resolved, found', links, Except.map]

theorem listed_of_overrideLimits (like : w.IsLike x) (ok : overrideLimits r path o x = .ok () v) :
    ∃ a names, w.listed? r path = some (a, names) := by
  obtain ⟨a, n', resolved, found'⟩ := ok_of_overrideLimits ok
  obtain ⟨n, found, -⟩ := like.node_back found'
  rw [like.sameWays.resolve?] at resolved
  exact ⟨a, _, listed?_eq_some_iff.mpr ⟨resolved, n, found, rfl⟩⟩

/-- The induction is on how deep the walk goes. -/
theorem sets_overrideLimitsBelow (o : Limits.Override) (fuel : Nat) (path : Text) :
    Sets w (overrideLimitsBelow r o fuel path) (w.Walkable r fuel path) (w.walk r o fuel path) := by
  induction fuel generalizing path with
  | zero => exact Sets.pure
  | succ fuel ih =>
    rw [overrideLimitsBelow, walk, Walkable]
    cases listed : w.listed? r path with
    | none =>
      refine fun x v like => iff_of_false (fun ok => ?_) fun walked => ?_
      · obtain ⟨_, u, begins, -⟩ := Ends.of_bind_ok ok
        obtain ⟨a, names, there⟩ := listed_of_overrideLimits like begins
        rw [listed] at there
        cases there
      · obtain ⟨a, names, there, -⟩ := walked.1
        cases there
    | some there =>
      obtain ⟨a, names⟩ := there
      have resolved := (listed?_eq_some_iff.mp listed).1
      have below : Sets w (children r path >>= fun names => names.forM fun name =>
          overrideLimitsBelow r o fuel (joinPath path name)) _ _ :=
        .after (fun x like => children_of_listed listed like) fun _ _ =>
          .forM fun name _ => ih (joinPath path name)
      refine ((Sets.overrideLimits (o := o) resolved).bind below).congr
        ⟨fun both => ⟨a, names, rfl, both.2⟩, fun walkable => ?_⟩
      obtain ⟨_, _, same, all⟩ := walkable
      cases same
      exact ⟨trivial, all⟩

/-- One entry of a manifest. -/
theorem sets_entry (spec : InterpreterSpec) :
    Sets w (do
      if !spec.limits.isEmpty && (← get).pathExists r spec.path then
        overrideLimits r spec.path spec.limits : Op Unit) True (w.visit r spec) := by
  refine .after (b := fun x => x) (fun x _ => rfl) fun x like => ?_
  rw [World.pathExists, like.sameWays.resolve?, visit]
  cases empty : spec.limits.isEmpty with
  | true => exact Sets.pure
  | false =>
    cases resolved : w.resolve? r spec.path with
    | none => exact Sets.pure
    | some a => exact Sets.overrideLimits resolved

/-- What a manifest does that sets its limits. -/
theorem sets_applyLimits (m : Manifest) :
    Sets w (m.applyLimits r) (m.limits.isEmpty = false → w.Walkable r (w.nodes.size + 1) [])
      (w.sweep r m) := by
  have entries := Sets.forM (w := w) (l := m.interpreters) fun spec _ => sets_entry (r := r) spec
  rw [Manifest.applyLimits, sweep]
  cases empty : m.limits.isEmpty with
  | true => exact entries.congr ⟨fun _ => nofun, fun _ _ _ => trivial⟩
  | false =>
    refine .after (b := fun x => x) (fun x _ => rfl) fun x like => ?_
    rw [like.size]
    exact ((sets_overrideLimitsBelow _ _ _).bind entries).congr
      ⟨fun both _ => both.1, fun walkable => ⟨walkable rfl, fun _ _ => trivial⟩⟩

/-- To set the limits of a manifest a second time is granted and changes nothing. -/
theorem applyLimits_twice {m : Manifest} (ok : m.applyLimits r w = .ok () v) :
    m.applyLimits r v = .ok () v := by
  have sets := sets_applyLimits (w := w) (r := r) m
  obtain ⟨walkable, granted, rfl⟩ := (sets w v (.refl composes_isLike w)).mp ok
  have like := isLike_relimitAll w (w.sweep r m)
  exact (sets _ _ like).mpr ⟨walkable, granted.twice.1, granted.twice.2.symm⟩

end Op

namespace Attempt

variable {α β : Type} {w v : World}

theorem bind_of_run {x : Attempt α} {f : α → Attempt β} {a : α} (h : x.run w = .ok (.ok a) v) :
    (x >>= f).run w = (f a).run v := by
  rw [ExceptT.run_bind, Act.bind_of_ok h]

theorem run_op {o : Op α} {a : α} (h : o w = .ok a v) : (op o).run w = .ok (.ok a) v := by
  simp only [op, ExceptT.run_mk, Act.attempt, h]

end Attempt

namespace Manifest

variable {w v : World} {r : NodeId} {m : Manifest} {e e' : Engine} {context context' : Option Context}

/-- Where all interpreters are there none is made. -/
theorem establish_of_exists {everywhere : Limits.Override} {specs : List InterpreterSpec}
    (there : ∀ spec ∈ specs, w.pathExists r spec.path = true) :
    (establish e context r everywhere specs).run w = .ok (.ok ()) w := by
  induction specs with
  | nil => rfl
  | cons spec specs ih =>
    obtain ⟨here, others⟩ := List.forall_mem_cons.mp there
    refine (Attempt.bind_of_run (a := ()) (v := w) ?_).trans (ih others)
    refine (Attempt.bind_of_run (x := getThe World) (a := w) (v := w) rfl).trans ?_
    rw [here]
    rfl

/-- Where all interpreters are there a manifest only sets limits. -/
theorem apply_of_exists (there : ∀ spec ∈ m.interpreters, w.pathExists r spec.path = true) :
    (m.apply e context r).run w = (Attempt.op (m.applyLimits r)).run w := by
  rw [apply_eq, Attempt.bind_of_run (establish_of_exists there)]

/-- A manifest that was applied, all of whose interpreters are there, is applied again without any
change, whatever would have run its scripts. -/
theorem apply_twice (applied : (m.apply e context r).run w = .ok (.ok ()) v)
    (there : ∀ spec ∈ m.interpreters, v.pathExists r spec.path = true) :
    (m.apply e' context' r).run v = .ok (.ok ()) v := by
  obtain ⟨_, u, -, limited⟩ := Attempt.of_bind applied
  rw [apply_of_exists there]
  exact Attempt.run_op (Op.applyLimits_twice (Attempt.of_op limited))

end Manifest

/-! ### The last word -/

namespace World

open Limits (Setting Field)

variable {w v : World} {r a b i : NodeId} {o : Limits.Override} {path : Text} {names : List Text}
  {fuel : Nat} {s : Setting} {ss : List Setting}

theorem limits_of_walk (mem : s ∈ w.walk r o fuel path) :
    s.limits = o ∧ ∃ path', w.resolve? r path' = some s.node := by
  induction fuel generalizing path with
  | zero => cases mem
  | succ fuel ih =>
    rw [walk] at mem
    split at mem
    · cases mem
    · rename_i a names listed
      rcases List.mem_cons.mp mem with rfl | below
      · exact ⟨rfl, path, (listed?_eq_some_iff.mp listed).1⟩
      · obtain ⟨name, -, deeper⟩ := List.mem_flatMap.mp below
        exact ih deeper

/-- Where links form no cycle the walk comes to all nodes that are to be found below. -/
theorem mem_walk {height : NodeId → Nat} (grow : ∀ a b, w.LinksTo a b → height b < height a)
    (regular : w.IsRegular) (resolved : w.resolve? r path = some a) (way : w.follow? a names = some i)
    (high : height a < fuel) : ⟨i, o⟩ ∈ w.walk r o fuel path := by
  induction names generalizing a path fuel with
  | nil =>
    obtain rfl := Option.some.inj way
    obtain ⟨n, found, -⟩ := alive_of_resolve? regular.numbered resolved
    obtain ⟨fuel, rfl⟩ : ∃ k, fuel = k + 1 := ⟨fuel - 1, by omega⟩
    rw [walk, listed?_eq_some_iff.mpr ⟨resolved, n, found, rfl⟩]
    exact List.mem_cons_self
  | cons name names ih =>
    obtain ⟨fuel, rfl⟩ : ∃ k, fuel = k + 1 := ⟨fuel - 1, by omega⟩
    obtain ⟨b, child, rest⟩ := Option.bind_eq_some_iff.mp way
    obtain ⟨n, l, t, found, -, link, -⟩ := child?_eq_some_iff.mp child
    have mem := List.mem_of_find?_eq_some link
    obtain rfl : l.name = name := by simpa using List.find?_some link
    have lower := grow a b (linksTo_of_child? regular.numbered child)
    have deeper : w.resolve? r (joinPath path l.name) = some b := by
      rw [resolve?_joinPath (regular.valid a n found l mem), resolved]
      exact child
    rw [walk, listed?_eq_some_iff.mpr ⟨resolved, n, found, rfl⟩]
    exact List.mem_cons_of_mem _
      (List.mem_flatMap.mpr ⟨l.name, List.mem_map_of_mem mem, ih deeper rest (by omega)⟩)

theorem findSome?_tells (same : ∀ s ∈ ss, s.limits = o) (f : Field) :
    (ss.findSome? fun s => s.tells i f) = if ∃ s ∈ ss, s.node = i then o.get f else none := by
  induction ss with
  | nil => simp
  | cons s ss ih =>
    obtain ⟨first, others⟩ := List.forall_mem_cons.mp same
    rw [List.findSome?_cons, ih others, Setting.tells, first]
    by_cases here : s.node = i
    · simp only [here, if_true, List.mem_cons, exists_eq_or_imp, true_or]
      cases o.get f <;> simp
    · simp [here]

theorem findSome?_visit (spec : InterpreterSpec) (f : Field) :
    ((w.visit r spec).reverse.findSome? fun s => s.tells i f) =
      if w.resolve? r spec.path = some i then spec.limits.get f else none := by
  rw [visit]
  cases empty : spec.limits.isEmpty with
  | true => simp [Limits.Override.get_of_isEmpty empty]
  | false => cases w.resolve? r spec.path <;> simp [Setting.tells]

/-- What a manifest says about a limit of node `i`: what the last entry says that is for that node and
mentions the limit, or else what is said for all nodes. -/
def said (w : World) (r : NodeId) (m : Manifest) (i : NodeId) (f : Field) : Option Int :=
  (m.interpreters.reverse.findSome? fun spec =>
    if w.resolve? r spec.path = some i then spec.limits.get f else none).or (m.limits.get f)

theorem findSome?_entries (specs : List InterpreterSpec) (f : Field) :
    ((specs.flatMap (w.visit r)).reverse.findSome? fun s => s.tells i f) =
      specs.reverse.findSome? fun spec =>
        if w.resolve? r spec.path = some i then spec.limits.get f else none := by
  induction specs with
  | nil => rfl
  | cons spec specs ih =>
    rw [List.flatMap_cons, List.reverse_append, List.findSome?_append, ih, findSome?_visit,
      List.reverse_cons, List.findSome?_append]
    simp

/-- The last word of a pass on a limit of a node that paths lead to is what the manifest says. -/
theorem findSome?_sweep (regular : w.IsRegular) (acyclic : w.IsAcyclic) {m : Manifest}
    (reached : ∃ path, w.resolve? r path = some i) (f : Field) :
    ((w.sweep r m).reverse.findSome? fun s => s.tells i f) = w.said r m i f := by
  obtain ⟨path, resolved⟩ := reached
  obtain ⟨height, bound, grow⟩ := exists_height regular acyclic
  obtain ⟨n, found, alive⟩ := exists_of_resolve? resolved
  have start : w.resolve? r [] = some r := resolve?_eq found alive []
  rw [resolve?_eq found alive] at resolved
  rw [sweep, List.reverse_append, List.findSome?_append, findSome?_entries, said]
  congr 1
  cases empty : m.limits.isEmpty with
  | true => exact (Limits.Override.get_of_isEmpty empty f).symm
  | false =>
    have mem := mem_walk (o := m.limits) grow regular start resolved (Nat.lt_succ_of_le (bound r))
    rw [if_neg (by decide), findSome?_tells (fun s mem => (limits_of_walk (List.mem_reverse.mp mem)).1),
      if_pos ⟨_, List.mem_reverse.mpr mem, rfl⟩]

theorem findSome?_sweep_none {m : Manifest} (unreached : ∀ path, w.resolve? r path ≠ some i) (f : Field) :
    ((w.sweep r m).reverse.findSome? fun s => s.tells i f) = none := by
  rw [sweep, List.reverse_append, List.findSome?_append, findSome?_entries, Option.or_eq_none_iff]
  refine ⟨List.findSome?_eq_none_iff.mpr fun spec _ => if_neg (unreached spec.path), ?_⟩
  cases m.limits.isEmpty with
  | true => rfl
  | false =>
    refine List.findSome?_eq_none_iff.mpr fun s mem => if_neg fun here => ?_
    obtain ⟨-, path, resolved⟩ := limits_of_walk (List.mem_reverse.mp mem)
    exact unreached path (here ▸ resolved)

/-- Let a manifest set its limits in a tree without cycles, and none of them be refused. Then each limit
of each node that paths from the root lead to is what the last entry says that is for that node and
mentions the limit, or else what is said for all nodes, or else what it was; no other node and nothing
else has changed, and to set the limits again is granted and changes nothing. So where a manifest was
applied, and all its interpreters are there, it may be applied again without any change, whatever
engine were to run its scripts. -/
theorem limits_last_win_from_plant {settings : Settings} {host : Host} {w₀ : World}
    {steps : List TreeStep} {k : Node} (planted : plant settings host = .ok w₀)
    (admits : w₀.Admits steps) (rooted : (w₀.along steps).live? r = some k)
    (acyclic : (w₀.along steps).IsAcyclic) (m : Manifest) :
    (∀ v, m.applyLimits r (w₀.along steps) = .ok () v →
      (∀ i n, (w₀.along steps).node? i = some n → ∃ l,
        v.node? i = some { n with cancel := { n.cancel with limits := l } } ∧
        ((∃ path, (w₀.along steps).resolve? r path = some i) →
          ∀ f, l.get f = ((w₀.along steps).said r m i f).getD (n.cancel.limits.get f)) ∧
        ((∀ path, (w₀.along steps).resolve? r path ≠ some i) → l = n.cancel.limits)) ∧
      v = { w₀.along steps with nodes := v.nodes } ∧ v.nodes.size = (w₀.along steps).nodes.size ∧
      m.applyLimits r v = .ok () v) ∧
    ∀ e context v, (m.apply e context r).run (w₀.along steps) = .ok (.ok ()) v →
      (∀ spec ∈ m.interpreters, v.pathExists r spec.path = true) →
      ∀ e' context', (m.apply e' context' r).run v = .ok (.ok ()) v := by
  obtain ⟨found, isLive⟩ := live?_eq_some_iff.mp rooted
  refine ⟨fun v ok => ?_, fun e context v applied there e' context' => Manifest.apply_twice applied there⟩
  have kept := (isKept_plant planted).along admits
  cases kept with
  | ended numbered ended =>
    -- A tree that was closed has no root.
    have there : (w₀.along steps).attached? r = some k :=
      attached?_eq_some_iff.mpr ⟨found, (Bool.and_eq_true_iff.mp isLive).1⟩
    rw [ended r] at there
    cases there
  | tended regular woven =>
    generalize w₀.along steps = w at *
    refine ⟨fun i n there => ?_, ?_, ?_, Op.applyLimits_twice ok⟩
    all_goals obtain ⟨-, -, rfl⟩ := (Op.sets_applyLimits (w := w) m w v (.refl composes_isLike w)).mp ok
    · obtain ⟨l, there', gets⟩ := node?_relimitAll there (w.sweep r m)
      refine ⟨l, there', fun reached f => ?_, fun unreached => Limits.get_injective fun f => ?_⟩
      · rw [gets, findSome?_sweep regular acyclic reached]
      · rw [gets, findSome?_sweep_none unreached]
        rfl
    · exact rest_relimitAll w _
    · exact (isLike_relimitAll w _).size

/-- Nobody leads to itself where heights grow against the links. -/
theorem isAcyclic_of_height (numbered : w.IsNumbered) (height : NodeId → Nat)
    (grow : ∀ n ∈ w.nodes.toList, ∀ l ∈ n.links, height l.target < height n.id) : w.IsAcyclic := by
  have lower (a b : NodeId) (way : Relation.TransGen w.LinksTo a b) : height b < height a := by
    induction way using Relation.TransGen.head_induction_on with
    | single link =>
      obtain ⟨n, found, l, mem, rfl⟩ := link
      exact numbered _ n found ▸ grow n (mem_of_node? found) l mem
    | head link _ ih =>
      obtain ⟨n, found, l, mem, rfl⟩ := link
      exact ih.trans (numbered _ n found ▸ grow n (mem_of_node? found) l mem)
  exact fun a cycle => (lower a a cycle).false

/-- Two children, the second of which has a link to the first. -/
def sharing : List TreeStep :=
  [.op (.create root [] "a" {}), .op (.create root [] "b" {}), .op (.share root "b" "a")]

/-- The tree with the two children. -/
def joint : World := ((plant {} {}).toOption.getD {}).along sharing

/-- Limits for all, and twice for the first child, the second time by way of the second child. -/
def revised : Manifest where
  limits := { recursionLimit := some 50, readyLimit := some 3 }
  interpreters :=
    [{ path := "a", limits := { readyLimit := some 7, timeout := some 1 } },
     { path := "b.shared2", limits := { readyLimit := some 9 } }]

/-- The second entry for the first child has the last word on how many evaluations are allowed it, and
the first on its time; the second child and the root have what is said for all. -/
theorem limits_last_win_from_plant_revised :
    ∃ v n, revised.applyLimits root joint = .ok () v ∧ v.node? 2 = some n ∧
      n.cancel.limits.readyLimit = 9 ∧ n.cancel.limits.timeout = 1 ∧
      n.cancel.limits.recursionLimit = 50 ∧ revised.applyLimits root v = .ok () v := by
  have admits : sapling.Admits sharing :=
    ⟨.op (by decide +kernel), .op (by decide +kernel), .op (by decide +kernel), trivial⟩
  obtain ⟨r, rooted⟩ : ∃ r, joint.live? root = some r :=
    Option.isSome_iff_exists.mp (by decide +kernel)
  obtain ⟨n, found⟩ : ∃ n, joint.node? 2 = some n :=
    Option.isSome_iff_exists.mp (by decide +kernel)
  have acyclic : joint.IsAcyclic := by
    refine isAcyclic_of_height (((isKept_plant plant_sapling).along admits).numbered)
      (fun i => if i = 1 then 2 else if i = 3 then 1 else 0) ?_
    decide +kernel
  obtain ⟨v, ok, -⟩ : ∃ v, revised.applyLimits root joint = .ok () v ∧ v.nodes.size = 3 :=
    Ends.exists_ok (by decide +kernel)
  obtain ⟨set, -, -, again⟩ :=
    (limits_last_win_from_plant plant_sapling admits rooted acyclic revised).1 v ok
  obtain ⟨l, there, last, -⟩ := set 2 n found
  have becomes (f : Limits.Field) (x : Int) (h : joint.said root revised 2 f = some x) :
      l.get f = x := by
    refine (last ⟨"a", by decide +kernel⟩ f).trans ?_
    change (joint.said root revised 2 f).getD _ = x
    rw [h, Option.getD_some]
  exact ⟨v, _, ok, there, becomes .readyLimit 9 (by decide +kernel),
    becomes .timeout 1 (by decide +kernel), becomes .recursionLimit 50 (by decide +kernel), again⟩

end World

end InterpTree
