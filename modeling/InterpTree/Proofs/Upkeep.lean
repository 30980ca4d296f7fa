import InterpTree.Proofs.Histories
import InterpTree.Proofs.TrustChanges

/-!
Upkeep of the tables of nodes: the operations on commands, aliases and the marks of trust, and how
the tables of the whole tree fare when they run in any order, along with what else happens to the
tree.
-/

namespace InterpTree

namespace Op

open World

variable {α : Type} {w : World} {id caller : NodeId} {path name : Text}

theorem settles_defineCommand (spec : CommandSpec) :
    Settles (defineCommand id spec) w fun r v =>
      ∃ n c m, n.define spec = .ok (c, m) ∧ r = .ok c ∧ Amends id n m w v := by
  refine (settles_updateNode fun n _ => Edit.settles_outcome (n.spares_define spec)).weaken fun r v => ?_
  rintro ⟨n, m, ⟨c, done, made⟩, amends⟩
  exact ⟨n, c, m, made, done, amends⟩

theorem settles_removeCommand (name : Text) :
    Settles (removeCommand id name) w fun _ v =>
      ∃ n c m, n.commands.visible? name = some c ∧ n.eraseCommand name c = .ok m ∧
        Amends id n m w v := by
  refine (settles_updateNode fun n _ => n.settles_removeCommand name).weaken fun r v => ?_
  rintro ⟨n, m, ⟨-, -, c, visible, erased⟩, amends⟩
  exact ⟨n, c, m, visible, erased, amends⟩

theorem settles_hide (newName : Text) :
    Settles (hide caller path name newName) w fun _ v =>
      (∃ c, w.node? caller = some c ∧ c.trust.safe = false) ∧
        ∃ target n to', w.resolve? caller path = some target ∧
          to' = (if newName.isEmpty then name else newName) ∧ n.MayHide name to' ∧
          Amends target n { n with commands := n.commands.hide name to' } w v := by
  refine .requirePrivilege fun c asker trusted => .resolve fun target resolved => ?_
  refine (settles_updateNode fun n _ => n.settles_hide path name _).weaken fun r v => ?_
  rintro ⟨n, _, ⟨-, may, rfl⟩, amends⟩
  exact ⟨⟨c, asker, trusted⟩, target, n, _, resolved, rfl, may, amends⟩

theorem settles_expose (newName : Text) :
    Settles (expose caller path name newName) w fun _ v =>
      (∃ c, w.node? caller = some c ∧ c.trust.safe = false) ∧
        ∃ target n to', w.resolve? caller path = some target ∧
          to' = (if newName.isEmpty then name else newName) ∧ n.MayExpose name to' ∧
          Amends target n { n with commands := n.commands.expose name to' } w v := by
  refine .requirePrivilege fun c asker trusted => .resolve fun target resolved => ?_
  refine (settles_updateNode fun n _ => n.settles_expose path name _).weaken fun r v => ?_
  rintro ⟨n, _, ⟨-, may, rfl⟩, amends⟩
  exact ⟨⟨c, asker, trusted⟩, target, n, _, resolved, rfl, may, amends⟩

theorem settles_defineAlias (targetPath targetName : Text) (bound : List Text) :
    Settles (defineAlias caller path name targetPath targetName bound) w fun r v =>
      name ≠ [] ∧ ∃ source n a m target t, w.resolve? caller path = some source ∧
        w.resolve? caller targetPath = some target ∧ w.node? target = some t ∧
        n.defineAlias path (fun seq =>
          ⟨name, t.path, targetName, bound, target != source, seq⟩) = .ok (a, m) ∧
        r = .ok a ∧ Amends source n m w v := by
  refine .requirePrivilege fun _ _ _ => .require fun words => .resolve fun source resolved => .get ?_
  have named : name ≠ [] := by
    rintro rfl
    cases words
  split
  · exact .throw _
  · rename_i target reached
    refine .node fun t found => .bind (settles_updateNode fun n _ =>
      Edit.settles_outcome (n.spares_defineAlias path _)) (fun a v h => ?_) fun e v h => ?_
    · obtain ⟨n, m, ⟨b, same, made⟩, amends⟩ := h
      obtain rfl := Except.ok.inj same
      simp only [Ends.bind_iff, ends_change, Ends.pure_iff]
      exact ⟨named, source, n, a, m, target, t, resolved, reached, found, made, rfl,
        amends.logNode _ _ _ _⟩
    · obtain ⟨n, m, ⟨b, same, -⟩, -⟩ := h
      cases same

theorem settles_deleteAlias :
    Settles (deleteAlias caller path name) w fun _ v =>
      ∃ source n a, w.resolve? caller path = some source ∧ n.trust.readOnly = false ∧
        n.alias? name = some a ∧ Amends source n (n.dropAlias name a) w v := by
  refine .requirePrivilege fun _ _ _ => .resolve fun source resolved => ?_
  refine (settles_updateNode fun n _ => n.settles_eraseAlias path name).weaken fun r v => ?_
  rintro ⟨n, _, ⟨-, writable, a, registered, rfl⟩, amends⟩
  exact ⟨source, n, a, resolved, writable, registered, amends⟩

theorem settles_makeSafe (on : Bool) :
    Settles (makeSafe caller path on) w fun _ v =>
      ∃ target n, w.resolve? caller path = some target ∧ n.trust.marked .safe ≠ on ∧
        Amends target n (n.remark .safe on) w v := by
  refine (TrustChange.settles_run (.safe on)).weaken fun r v => ?_
  rintro ⟨-, target, n, takes⟩
  exact ⟨target, n, takes.resolved, bne_iff_ne.mp takes.due, takes.amends⟩

theorem settles_makeStandard (on : Bool) :
    Settles (makeStandard caller path on) w fun _ v =>
      ∃ target n, w.resolve? caller path = some target ∧ n.trust.marked .standard ≠ on ∧
        Amends target n (n.remark .standard on) w v := by
  refine (TrustChange.settles_run (.standard on)).weaken fun r v => ?_
  rintro ⟨-, target, n, takes⟩
  exact ⟨target, n, takes.resolved, bne_iff_ne.mp takes.due, takes.amends⟩

end Op

/-- An operation on the tables of a node. Commands are defined and removed by the node itself. -/
inductive TableOp
  | define (id : NodeId) (spec : CommandSpec)
  | remove (id : NodeId) (name : Text)
  | hide (caller : NodeId) (path name newName : Text)
  | expose (caller : NodeId) (path name newName : Text)
  | defineAlias (caller : NodeId) (path name targetPath targetName : Text) (bound : List Text)
  | deleteAlias (caller : NodeId) (path name : Text)
  | safe (caller : NodeId) (path : Text) (on : Bool)
  | standard (caller : NodeId) (path : Text) (on : Bool)

namespace TableOp

variable {w : World} {o : TableOp}

def run : TableOp → Op Unit
  | define id spec => do
    let _ ← Op.defineCommand id spec
  | remove id name => Op.removeCommand id name
  | hide caller path name newName => Op.hide caller path name newName
  | expose caller path name newName => Op.expose caller path name newName
  | defineAlias caller path name targetPath targetName bound => do
    let _ ← Op.defineAlias caller path name targetPath targetName bound
  | deleteAlias caller path name => Op.deleteAlias caller path name
  | safe caller path on => Op.makeSafe caller path on
  | standard caller path on => Op.makeStandard caller path on

/-- The world after the operation, also if it was refused. -/
def apply (o : TableOp) (w : World) : World :=
  match o.run w with
  | .ok _ v => v
  | .error _ v => v

/-- Shims are made with their aliases only. -/
def Fits : TableOp → Prop
  | define _ spec => ∀ a, spec.action ≠ some (.forward a)
  | _ => True

instance (o : TableOp) : Decidable o.Fits :=
  match o with
  | define _ { action := some (.forward a), .. } => isFalse fun fits => fits a rfl
  | define _ { action := none, .. } => isTrue nofun
  | define _ { action := some (.builtin _), .. } => isTrue nofun
  | define _ { action := some .ensemble, .. } => isTrue nofun
  | define _ { action := some (.procedure ..), .. } => isTrue nofun
  | define _ { action := some (.host _), .. } => isTrue nofun
  | remove .. | hide .. | expose .. | defineAlias .. | deleteAlias .. | safe .. | standard .. =>
    isTrue trivial

theorem apply_of_ends {P : World → Prop} (h : Ends o.run w fun _ v => P v) : P (o.apply w) := by
  unfold Ends at h
  unfold apply
  split at h <;> simp_all

/-- A name that stands for another one if it is empty is not empty, unless the other one is. -/
theorem nil_of_renamed {name newName to' : Text}
    (renamed : to' = if newName.isEmpty then name else newName) (none : to' = []) : name = [] := by
  subst none
  split at renamed
  · exact renamed.symm
  · rename_i some
    exact absurd (List.isEmpty_iff.mpr renamed.symm) some

open World

/-- An operation is refused, or changes the tables of one node. -/
theorem settles_run (fits : o.Fits) :
    Settles o.run w fun _ v => ∃ i n m, n.Evolves m ∧ Amends i n m w v := by
  cases o with
  | define id spec =>
    refine .bind (Op.settles_defineCommand spec) (fun c v h => ?_) fun e v h => ?_
    all_goals obtain ⟨n, c, m, made, -, amends⟩ := h
    all_goals exact ⟨id, n, m, Node.evolves_define fits made, amends⟩
  | remove id name =>
    refine (Op.settles_removeCommand name).weaken fun r v => ?_
    rintro ⟨n, c, m, found, erased, amends⟩
    exact ⟨id, n, m, (Node.Edits.erase found erased).evolves, amends⟩
  | hide caller path name newName =>
    refine (Op.settles_hide newName).weaken fun r v => ?_
    rintro ⟨-, target, n, to', -, renamed, may, amends⟩
    have edits := Node.Edits.hide (nil_of_renamed renamed) may.free may.apart
    exact ⟨target, n, _, edits.evolves, amends⟩
  | expose caller path name newName =>
    refine (Op.settles_expose newName).weaken fun r v => ?_
    rintro ⟨-, target, n, to', -, renamed, may, amends⟩
    have edits := Node.Edits.expose (nil_of_renamed renamed) may.free may.apart
    exact ⟨target, n, _, edits.evolves, amends⟩
  | defineAlias caller path name targetPath targetName bound =>
    refine .bind (Op.settles_defineAlias targetPath targetName bound) (fun a v h => ?_)
      fun e v h => ?_
    all_goals obtain ⟨named, source, n, a, m, target, t, -, -, -, made, -, amends⟩ := h
    all_goals
      have evolves := Node.evolves_defineAlias named (fun _ => rfl) (fun _ => rfl) made
      exact ⟨source, n, m, evolves, amends⟩
  | deleteAlias caller path name =>
    refine Op.settles_deleteAlias.weaken fun r v => ?_
    rintro ⟨source, n, a, -, -, registered, amends⟩
    exact ⟨source, n, _, (Node.Edits.unalias registered).evolves, amends⟩
  | safe caller path on =>
    refine (Op.settles_makeSafe on).weaken fun r v => ?_
    rintro ⟨target, n, -, -, amends⟩
    exact ⟨target, n, _, (Node.Edits.remark n .safe on).evolves, amends⟩
  | standard caller path on =>
    refine (Op.settles_makeStandard on).weaken fun r v => ?_
    rintro ⟨target, n, -, -, amends⟩
    exact ⟨target, n, _, (Node.Edits.remark n .standard on).evolves, amends⟩

end TableOp

namespace Node

variable {n m k : Node}

theorem Edits.same (h : n.Edits m) : m = { n with
    seq := m.seq, commands := m.commands, aliases := m.aliases, trust := m.trust } := by
  cases h with
  | erase found erased => rw [of_eraseCommand erased]
  | _ => rfl

theorem Evolves.same (h : n.Evolves m) : m = { n with
    seq := m.seq, commands := m.commands, aliases := m.aliases, trust := m.trust } := by
  induction h with
  | refl => rfl
  | tail _ step ih => rw [step.same, ih]

/-- A node keeps its number, and while it is part of the tree its tables stay consistent. -/
structure Upholds (n m : Node) : Prop where
  id : m.id = n.id
  consistent : m.attached = true → n.attached = true ∧ (n.IsConsistent → m.IsConsistent)

theorem Upholds.of_keeps (id : m.id = n.id)
    (keeps : m.attached = true → n.attached = true ∧ n.KeepsTables m) : Upholds n m :=
  ⟨id, fun stays => ⟨(keeps stays).1, fun consistent => consistent.keep (keeps stays).2⟩⟩

theorem Evolves.upholds (h : n.Evolves m) : Upholds n m := by
  have same := h.same
  refine ⟨by rw [same], fun stays => ⟨?_, fun consistent => consistent.evolves h⟩⟩
  rw [same] at stays
  exact stays

theorem Fades.upholds (h : n.Fades m) : Upholds n m := by
  refine .of_keeps h.id fun stays => ?_
  obtain ⟨stays, same⟩ := h.kept stays
  refine ⟨stays, ?_, ?_, ?_, ?_⟩
  all_goals rw [same]
  exact fun reason => rfl

theorem isConsistent_join (h : n.IsConsistent) : n.join.IsConsistent :=
  (h.evolves (evolves_hideDistrusted n)).keep ⟨rfl, rfl, rfl, fun _ => rfl⟩

end Node

namespace World

variable {w v : World} {i : NodeId} {n : Node}

/-- The tables of every node of the tree are consistent. -/
structure IsConsistent (w : World) : Prop where
  numbered : w.IsNumbered
  tables : ∀ i n, w.attached? i = some n → n.IsConsistent

theorem composes_upholds : Composes fun _ => Node.Upholds := by
  refine ⟨fun _ n => ⟨rfl, fun stays => ⟨stays, id⟩⟩, fun _ {n m k} h h' => ⟨h'.id.trans h.id, ?_⟩⟩
  intro stays
  obtain ⟨stays', second⟩ := h'.consistent stays
  obtain ⟨stays'', first⟩ := h.consistent stays'
  exact ⟨stays'', fun consistent => second (first consistent)⟩

theorem IsConsistent.each (h : w.IsConsistent) (each : Each (fun _ => Node.Upholds) w v) :
    v.IsConsistent := by
  refine ⟨each.isNumbered (fun _ _ _ upholds => upholds.id) h.numbered, fun i n' there => ?_⟩
  obtain ⟨found', stays'⟩ := attached?_eq_some_iff.mp there
  obtain ⟨n, found, upholds⟩ := each.node_back found'
  obtain ⟨stays, consistent⟩ := upholds.consistent stays'
  exact consistent (h.tables i n (attached?_eq_some_iff.mpr ⟨found, stays⟩))

theorem IsConsistent.wanes {Z : NodeId → Prop} (h : w.IsConsistent) (wanes : Wanes Z w v) :
    v.IsConsistent :=
  h.each (wanes.nodes.mono fun _ _ _ change => change.1.upholds)

theorem IsConsistent.table (h : w.IsConsistent) {o : TableOp} (fits : o.Fits) :
    (o.apply w).IsConsistent := by
  refine TableOp.apply_of_ends ((TableOp.settles_run fits).leaves h fun _ v change => ?_)
  obtain ⟨i, n, m, evolves, amends⟩ := change
  exact h.each (amends.each composes_upholds evolves.upholds)

/-- A node comes, and others may get links. Those that could not be populated stay out of the tree. -/
theorem IsConsistent.more {m : Node} (h : w.IsConsistent) (numbered : v.IsNumbered)
    (new : m.attached = true → m.IsConsistent)
    (nodes : ∀ i n', v.node? i = some n' →
      n' = m ∨ ∃ n links, w.node? i = some n ∧ n' = { n with links }) : v.IsConsistent := by
  refine ⟨numbered, fun i n' there => ?_⟩
  obtain ⟨found', stays⟩ := attached?_eq_some_iff.mp there
  rcases nodes i n' found' with rfl | ⟨n, links, found, rfl⟩
  · exact new stays
  · exact (h.tables i n (attached?_eq_some_iff.mpr ⟨found, stays⟩)).keep
      ⟨rfl, rfl, rfl, fun _ => rfl⟩

theorem IsConsistent.tree (h : w.IsConsistent) (o : TreeOp) : (o.apply w).IsConsistent := by
  have numbered := h.numbered
  cases o with
  | create caller path name options =>
    refine TreeOp.apply_of_ends
      (((Op.settles_create caller path name options numbered).leaves h fun r v made => ?_).discard)
    obtain ⟨c, p, parent, m, -, -, -, -, -, ⟨-, grows, child⟩ | ⟨-, gains, n, isNew, detached, -,
      strips, -⟩⟩ := made
    · have consistent : m.IsConsistent := by
        obtain ⟨n, isNew, rfl⟩ := child.made
        exact Node.isConsistent_join isNew.consistent
      exact h.more (grows.isNumbered child.id_eq numbered) (fun _ => consistent) grows.node_links.2
    -- What could not be populated is not part of the tree, so there is nothing to show of it.
    · have left : m.attached = true → m.IsConsistent := fun stays => by
        rw [strips.attached stays] at detached
        cases detached
      exact h.more (gains.isNumbered (strips.id.trans isNew.id) numbered) left gains.node_links.2
  | delete worker caller path =>
    refine TreeOp.apply_of_ends
      ((Op.settles_delete worker caller path numbered).leaves h fun r v removed => ?_)
    obtain ⟨-, target, t, -, -, -, -, wanes⟩ := removed
    exact h.wanes (wanes _ (isClosed_all w) trivial)
  | share caller path source =>
    refine TreeOp.apply_of_ends
      (((Op.settles_shareInterp caller path source numbered).leaves h fun r v shared => ?_).discard)
    obtain ⟨-, shared, holder, -, -, -, -, -, -, -, -, changes⟩ := shared
    refine h.each (changes.nodes.mono fun i n n' change => ?_)
    rw [change]
    exact .of_keeps rfl fun stays => ⟨stays, rfl, rfl, rfl, fun _ => rfl⟩
  | dispose worker caller path =>
    refine TreeOp.apply_of_ends
      ((Op.settles_disposeShared worker caller path numbered).leaves h fun r v removed => ?_)
    obtain ⟨-, -, target, t, -, -, -, -, wanes⟩ := removed
    exact h.wanes (wanes _ (isClosed_all w) trivial)

theorem IsConsistent.close (h : w.IsConsistent) : w.close.IsConsistent := by
  rcases close_cases h.numbered with same | ⟨wanes, -⟩
  · rw [same]
    exact h
  · exact h.wanes wanes

theorem isConsistent_plant {settings : Settings} {host : Host} (h : plant settings host = .ok w) :
    w.IsConsistent := by
  obtain ⟨n, isNew, -, -, -, only⟩ := plant_root h
  refine ⟨(isRegular_plant h).numbered, fun i m there => ?_⟩
  obtain ⟨-, rfl⟩ := only i m (node?_of_attached? there)
  exact isNew.consistent.keep ⟨rfl, rfl, rfl, fun _ => rfl⟩

/-! ### Reachable worlds -/

/-- Nothing happens to the tables of nodes of the tree, and no node comes to the tree. -/
def Spares : World → World → Prop :=
  Each fun _ n n' => n'.id = n.id ∧ (n'.attached = true → n.attached = true ∧ n.KeepsTables n')

/-- The worlds that come of a fresh tree, when operations on tables and on the tree run in any order,
whether or not they are refused, and other things happen in between. -/
inductive IsReachable : World → Prop
  | planted {settings : Settings} {host : Host} {w : World} (h : plant settings host = .ok w) :
      IsReachable w
  | table {w : World} (reachable : IsReachable w) (o : TableOp) (fits : o.Fits) :
      IsReachable (o.apply w)
  | tree {w : World} (reachable : IsReachable w) (o : TreeOp) : IsReachable (o.apply w)
  | close {w : World} (reachable : IsReachable w) : IsReachable w.close
  | aside {w v : World} (reachable : IsReachable w) (spares : w.Spares v) : IsReachable v

theorem IsReachable.run (reachable : w.IsReachable) {ops : List TableOp} (fits : ∀ o ∈ ops, o.Fits) :
    (ops.foldl (fun w o => o.apply w) w).IsReachable := by
  induction ops generalizing w with
  | nil => exact reachable
  | cons o ops ih =>
    exact ih (.table reachable o (fits o List.mem_cons_self))
      fun o mem => fits o (List.mem_cons_of_mem _ mem)

theorem IsReachable.isConsistent (reachable : w.IsReachable) : w.IsConsistent := by
  induction reachable with
  | planted h => exact isConsistent_plant h
  | table _ o fits ih => exact ih.table fits
  | tree _ o ih => exact ih.tree o
  | close _ ih => exact ih.close
  | aside _ spares ih => exact ih.each (spares.mono fun _ _ _ keeps => .of_keeps keeps.1 keeps.2)

theorem IsReachable.tables (reachable : w.IsReachable) (live : w.live? i = some n) :
    n.IsConsistent := by
  obtain ⟨found, isLive⟩ := Option.filter_eq_some_iff.mp live
  exact reachable.isConsistent.tables i n
    (attached?_eq_some_iff.mpr ⟨found, (Bool.and_eq_true_iff.mp isLive).1⟩)

theorem composes_spares : Composes fun _ n n' =>
    n'.id = n.id ∧ (n'.attached = true → n.attached = true ∧ n.KeepsTables n') := by
  refine ⟨fun _ n => ⟨rfl, fun stays => ⟨stays, rfl, rfl, rfl, fun _ => rfl⟩⟩,
    fun _ {n m k} h h' => ⟨h'.1.trans h.1, fun stays => ?_⟩⟩
  obtain ⟨stays', second⟩ := h'.2 stays
  obtain ⟨stays'', first⟩ := h.2 stays'
  exact ⟨stays'', second.commands.trans first.commands, second.aliases.trans first.aliases,
    second.seq.trans first.seq, fun reason => (second.marked reason).trans (first.marked reason)⟩

/-- Changes of trust that are not about its two marks are among the other things that happen. -/
theorem IsReachable.changeTrust (reachable : w.IsReachable) {c : TrustChange}
    (same : ∀ n, ∃ trust : Trust, c.amend n = { n with trust } ∧
      trust.safe = n.trust.safe ∧ trust.standard = n.trust.standard) (caller : NodeId) (path : Text) :
    Ends (c.run caller path) w fun _ v => v.IsReachable := by
  refine c.settles_run.leaves reachable fun _ v change => ?_
  obtain ⟨-, target, n, takes⟩ := change
  have amends := takes.amends
  obtain ⟨trust, made, safe, standard⟩ := same n
  rw [made] at amends
  have keeps : n.KeepsTables { n with trust } :=
    ⟨rfl, rfl, rfl, fun reason => by cases reason <;> assumption⟩
  exact .aside reachable (amends.each composes_spares ⟨rfl, fun stays => ⟨stays, keeps⟩⟩)

/-- A fresh tree with a child, after some operations. -/
def nursed (ops : List TableOp) : World :=
  ops.foldl (fun w o => o.apply w)
    ((TreeOp.create root [] "c" {}).apply ((plant {} {}).toOption.getD {}))

theorem isReachable_nursed {ops : List TableOp} (fits : ∀ o ∈ ops, o.Fits) :
    (nursed ops).IsReachable :=
  .run (.tree (.planted plant_sapling) _) fits

end World

end InterpTree
