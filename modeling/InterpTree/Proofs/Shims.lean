import InterpTree.Proofs.Upkeep

/-!
Aliases and their shims. A shim may be hidden under a second name and exposed under a third, while its
alias stays registered under the first; in every world that comes of a fresh tree the two agree, and
whatever takes one of them away takes the other away as well.
-/

namespace InterpTree

namespace Node

variable {n m : Node} {name : Text} {c old : Command} {a : Alias}

/-- Each alias is registered under its source and has one shim, be it visible or hidden and whatever
its name; the alias of each shim is registered. -/
structure HasPairedShims (n : Node) : Prop where
  sources : (n.aliases.map Alias.source).Nodup
  source : ∀ k a, n.alias? k = some a → a.source = k
  shim : ∀ k a, n.alias? k = some a →
    ∃ e, n.commands.filter (fun e => e.command.alias? = some a) = [e]
  registered : ∀ e ∈ n.commands, ∀ a, e.command.alias? = some a → n.alias? a.source = some a

/-- One entry of a table has the alias of a shim. -/
theorem filter_alias? (tidy : n.IsTidy) (paired : n.IsPaired) (mem : c ∈ n.commands.definitions)
    (behind : c.alias? = some a) :
    ∃ e, n.commands.filter (fun e => e.command.alias? = some a) = [e] := by
  obtain ⟨e, memE, rfl⟩ := List.mem_map.mp mem
  have unique : ∀ e' ∈ n.commands, e'.command.alias? = some a → e' = e := by
    intro e' memE' behind'
    -- Names and places tell nothing here: only its number ties a shim to its alias.
    have memD : e'.command ∈ n.commands.definitions := List.mem_map_of_mem memE'
    have number := (paired.registered _ mem a behind).2
    have number' := (paired.registered _ memD a behind').2
    exact tidy.eq_of_command memE' memE (tidy.eq_of_seq memD mem (number'.symm.trans number))
  have entries : n.commands.Nodup := tidy.names.of_map
  refine ⟨e, (List.perm_ext_iff_of_nodup (entries.filter _) (List.nodup_singleton e)).mpr
    (fun e' => ?_) |>.eq_singleton⟩
  simp only [List.mem_filter, decide_eq_true_eq, List.mem_singleton]
  constructor
  · rintro ⟨memE', behind'⟩
    exact unique e' memE' behind'
  · rintro rfl
    exact ⟨memE, behind⟩

theorem IsConsistent.hasPairedShims (h : n.IsConsistent) : n.HasPairedShims := by
  obtain ⟨tidy, paired⟩ := h
  refine ⟨paired.sources, fun k a found => (mem_of_alias? found).2, fun k a found => ?_,
    fun e mem a behind => ?_⟩
  · obtain ⟨c, mem, behind⟩ := paired.shims a (mem_of_alias? found).1
    exact filter_alias? tidy paired mem behind
  · have memA := (paired.registered _ (List.mem_map_of_mem mem) a behind).1
    exact (alias?_eq_some_iff paired.sources).mpr ⟨memA, rfl⟩

theorem IsConsistent.sheds_clears (h : n.IsConsistent) (found : n.commands.visible? name = some old)
    (clears : Clears name n m) : n.Sheds old m := by
  rcases clears with ⟨none, -⟩ | ⟨c, foundC, erased⟩
  · rw [found] at none
    cases none
  · obtain rfl := Option.some.inj (found.symm.trans foundC)
    exact (sheds_erase h.tidy h.paired found erased).2

end Node

namespace Op

variable {w v : World} {i caller : NodeId} {path name : Text} {n asker : Node}

/-- Nothing but trust stands in the way of deleting an alias. -/
theorem deleteAlias_ok {a : Alias} (asks : w.node? caller = some asker)
    (trusted : asker.trust.safe = false) (resolved : w.resolve? caller path = some i)
    (found : w.node? i = some n) (writable : n.trust.readOnly = false)
    (registered : n.alias? name = some a) : ∃ v, deleteAlias caller path name w = .ok () v := by
  have erased : Edit.eraseAlias path name n = .ok () (n.dropAlias name a) := by
    rw [Ends.eq_ok_iff]
    simp [Edit.eraseAlias, Node.dropAlias, writable, registered]
  rw [deleteAlias, bind_of_ok (requirePrivilege_ok asks trusted _), bind_of_ok (resolve_ok resolved)]
  exact ⟨_, updateNode_ok found erased⟩

theorem removeCommand_ok {c : Command} (found : w.node? i = some n)
    (writable : n.trust.readOnly = false) (visible : n.commands.visible? name = some c)
    (removable : c.flags.noRemove = false) : ∃ v, removeCommand i name w = .ok () v := by
  have removed : ∃ m, Edit.removeCommand name n = .ok () m := by
    refine (Ends.exists_ok (P := fun _ => True) ?_).imp fun _ removed => removed.1
    unfold Edit.removeCommand Edit.eraseCommand
    cases shim : c.alias? <;> simp [writable, visible, removable, shim]
  obtain ⟨m, removed⟩ := removed
  exact ⟨_, updateNode_ok found removed⟩

end Op

namespace World

variable {w v : World} {i : NodeId} {n : Node}

/-- What operations on node `i`, which is `n`, do to commands that are shims, and to aliases. -/
structure ShimsFollow (w : World) (i : NodeId) (n : Node) : Prop where
  /-- With an alias goes the one command that is its shim. -/
  deleted : ∀ caller path name v, w.resolve? caller path = some i →
    Op.deleteAlias caller path name w = .ok () v →
    ∃ a c m, n.alias? name = some a ∧ c ∈ n.commands.definitions ∧ c.alias? = some a ∧
      v.node? i = some m ∧ n.Sheds c m
  deletes : ∀ caller asker path name a, w.node? caller = some asker → asker.trust.safe = false →
    w.resolve? caller path = some i → n.trust.readOnly = false → n.alias? name = some a →
    ∃ v, Op.deleteAlias caller path name w = .ok () v
  /-- With a command goes the alias that it is the shim of, if any, and no other. -/
  removed : ∀ name v, Op.removeCommand i name w = .ok () v →
    ∃ c m, n.commands.visible? name = some c ∧ v.node? i = some m ∧ n.Sheds c m
  removes : ∀ name c, n.commands.visible? name = some c → n.trust.readOnly = false →
    c.flags.noRemove = false → ∃ v, Op.removeCommand i name w = .ok () v
  /-- The same holds of a command that another one replaces. -/
  replaced : ∀ spec c v old, n.commands.visible? spec.name = some old →
    Op.defineCommand i spec w = .ok c v →
    ∃ k m, n.Sheds old k ∧ v.node? i = some m ∧
      m.commands = k.commands ++ [{ name := spec.name, command := c }] ∧ m.aliases = k.aliases
  /-- And of one that the shim of another alias replaces. -/
  realiased : ∀ caller path name targetPath targetName bound a v old,
    w.resolve? caller path = some i → n.commands.visible? name = some old →
    Op.defineAlias caller path name targetPath targetName bound w = .ok a v →
    ∃ k m c, n.Sheds old k ∧ v.node? i = some m ∧ a.source = name ∧ c.alias? = some a ∧
      m.commands = k.commands ++ [{ name, command := c }] ∧ m.aliases = k.aliases ++ [a]

theorem shimsFollow_of_isConsistent (found : w.node? i = some n) (h : n.IsConsistent) :
    w.ShimsFollow i n := by
  have here {j : NodeId} {k : Node} {m : Node} {u : World} (same : j = i)
      (amends : Amends j k m w u) : n = k ∧ u.node? i = some m := by
    subst same
    exact ⟨Option.some.inj (found.symm.trans amends.found), amends.node?⟩
  refine {
    deleted := fun caller path name v resolved result => ?deleted
    deletes := fun caller asker path name a asks trusted resolved writable registered =>
      Op.deleteAlias_ok asks trusted resolved found writable registered
    removed := fun name v result => ?removed
    removes := fun name c visible writable removable =>
      Op.removeCommand_ok found writable visible removable
    replaced := fun spec c v old visible result => ?replaced
    realiased := fun caller path name targetPath targetName bound a v old resolved visible result =>
      ?realiased }
  case deleted =>
    obtain ⟨j, k, a, resolved', -, registered, amends⟩ := Op.settles_deleteAlias.of_ok result
    obtain ⟨rfl, found'⟩ := here (Option.some.inj (resolved'.symm.trans resolved)) amends
    obtain ⟨c, mem, behind, sheds⟩ := Node.sheds_unalias h.tidy h.paired registered
    exact ⟨a, c, _, registered, mem, behind, found', sheds⟩
  case removed =>
    obtain ⟨k, c, m, visible, erased, amends⟩ := (Op.settles_removeCommand name).of_ok result
    obtain ⟨rfl, found'⟩ := here rfl amends
    exact ⟨c, m, visible, found', (Node.sheds_erase h.tidy h.paired visible erased).2⟩
  case replaced =>
    -- The name is cleared before the new command is put, and clearing is what sheds.
    obtain ⟨k, d, m, made, same, amends⟩ := (Op.settles_defineCommand spec).of_ok result
    obtain rfl := Except.ok.inj same
    obtain ⟨rfl, found'⟩ := here rfl amends
    obtain ⟨action, cleared, -, -, clears, put⟩ := Node.of_define made
    obtain ⟨new, rfl⟩ := Prod.mk.inj put
    exact ⟨cleared, _, h.sheds_clears visible clears, found', by rw [← new], rfl⟩
  case realiased =>
    obtain ⟨-, j, k, b, m, target, t, resolved', -, -, made, same, amends⟩ :=
      (Op.settles_defineAlias targetPath targetName bound).of_ok result
    obtain rfl := Except.ok.inj same
    obtain ⟨rfl, found'⟩ := here (Option.some.inj (resolved'.symm.trans resolved)) amends
    obtain ⟨cleared, c, -, -, clears, rfl, behind, -, rfl⟩ := Node.of_defineAlias made
    exact ⟨cleared, _, c, h.sheds_clears visible clears, found', rfl, behind, rfl, rfl⟩

/-- Whatever became of a fresh tree, aliases and shims of its live nodes agree, and go together. -/
theorem shims_paired_of_reachable (reachable : w.IsReachable) (live : w.live? i = some n) :
    n.HasPairedShims ∧ w.ShimsFollow i n := by
  have consistent := reachable.tables live
  exact ⟨consistent.hasPairedShims,
    shimsFollow_of_isConsistent (Option.filter_eq_some_iff.mp live).1 consistent⟩

/-- The shim of an alias goes by a third name; its own name is that of another command now. -/
def renamed : List TableOp :=
  [.defineAlias root "c" "ping" [] "list" ["pong"], .defineAlias root "c" "other" "c" "set" [],
    .hide root "c" "ping" "away", .expose root "c" "away" "back",
    .define 2 { name := "ping", action := some (.host .echo) }, .safe root "c" true,
    .hide root "c" "other" []]

theorem shims_paired_of_reachable_renamed :
    ∃ n, (nursed renamed).live? 2 = some n ∧ n.HasPairedShims ∧ (nursed renamed).ShimsFollow 2 n ∧
      n.aliases.map Alias.source = ["ping", "other"] ∧
      ((n.commands.visible? "back").bind Command.alias?).map Alias.source = some ("ping" : Text) ∧
      ((n.commands.hidden? "other").bind Command.alias?).map Alias.source = some ("other" : Text) ∧
      (n.commands.hidden? "ping").map Command.alias? = some none := by
  have reachable : (nursed renamed).IsReachable := isReachable_nursed (by decide)
  have shown : ((nursed renamed).live? 2).any (fun n => decide (
      n.aliases.map Alias.source = (["ping", "other"] : List Text) ∧
        ((n.commands.visible? "back").bind Command.alias?).map Alias.source = some ("ping" : Text) ∧
        ((n.commands.hidden? "other").bind Command.alias?).map Alias.source = some ("other" : Text) ∧
        (n.commands.hidden? "ping").map Command.alias? = some none)) = true := by decide +kernel
  obtain ⟨n, live, holds⟩ := (Option.any_eq_true _ _).mp shown
  obtain ⟨paired, follow⟩ := shims_paired_of_reachable reachable live
  exact ⟨n, live, paired, follow, of_decide_eq_true holds⟩

end World

end InterpTree
