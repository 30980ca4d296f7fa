import Mathlib.Data.List.Sort
import InterpTree.Proofs.Upkeep

/-!
Order of the command tables. In every world that comes of a fresh tree, a live node has each command
under one name and each name for one command, and its lists of names depend on nothing but the
numbers of the definitions.
-/

namespace InterpTree

namespace CommandTable

variable {t : CommandTable} {keep : Entry → Bool} {names : List Text}

/-- A list of the names of a table, as it comes of going through the table in whatever order, keeping
some entries and sorting them by the numbers of their definitions. -/
def Lists (t : CommandTable) (keep : Entry → Bool) (names : List Text) : Prop :=
  ∃ l : List Entry, l.Perm (t.filter keep) ∧
    l.Pairwise (fun e e' => e.command.seq ≤ e'.command.seq) ∧ l.map Entry.name = names

def isProcedure (e : Entry) : Bool := e.command.kind = .procedure

/-- There is one such list, for the numbers are all different. -/
theorem lists_iff (ordered : t.definitions.Pairwise fun c d => c.seq < d.seq) :
    t.Lists keep names ↔ names = (t.filter keep).map Entry.name := by
  have increasing : t.Pairwise fun e e' => e.command.seq < e'.command.seq := by
    rwa [definitions, List.pairwise_map] at ordered
  have sorted : (t.filter keep).Pairwise fun e e' => e.command.seq ≤ e'.command.seq :=
    (increasing.imp Nat.le_of_lt).sublist List.filter_sublist
  constructor
  · rintro ⟨l, perm, sortedL, rfl⟩
    have seqs : (t.map fun e => e.command.seq).Nodup :=
      List.pairwise_map.mpr (increasing.imp Nat.ne_of_lt)
    have same : l = t.filter keep := by
      -- Sorting need not be stable: no two entries are equal in the order.
      refine perm.eq_of_pairwise (fun e e' mem mem' le le' => ?_) sortedL sorted
      have mem := (List.mem_filter.mp (perm.subset mem)).1
      have mem' := (List.mem_filter.mp mem').1
      exact List.inj_on_of_nodup_map seqs mem mem' (Nat.le_antisymm le le')
    rw [same]
  · rintro rfl
    exact ⟨_, .refl _, sorted, rfl⟩

theorem mem_visibleNames {name : Text} : name ∈ t.visibleNames ↔ (t.visible? name).isSome = true := by
  simp [visibleNames, visible?, and_assoc]

theorem perm_hidden (t : CommandTable) :
    ((t.filter Entry.hidden).filter (fun e => !isProcedure e) ++
      (t.filter Entry.hidden).filter isProcedure).Perm (t.filter Entry.hidden) :=
  List.perm_append_comm.trans (List.filter_append_perm isProcedure _)

theorem perm_hiddenNames (t : CommandTable) :
    t.hiddenNames.Perm ((t.filter Entry.hidden).map Entry.name) :=
  (perm_hidden t).map Entry.name

theorem mem_hiddenNames {name : Text} : name ∈ t.hiddenNames ↔ (t.hidden? name).isSome = true := by
  rw [(perm_hiddenNames t).mem_iff]
  simp [hidden?, and_assoc]

end CommandTable

namespace Node

variable {n : Node}

/-- What the command table of a node looks like. -/
structure IsOrderly (n : Node) : Prop where
  /-- No name is both visible and hidden. -/
  apart : ∀ name, n.commands.visible? name = none ∨ n.commands.hidden? name = none
  names : (n.commands.map Entry.name).Nodup
  /-- No definition is there twice, in whichever table or under whichever name. -/
  definitions : n.commands.definitions.Nodup
  seqs : (n.commands.definitions.map Command.seq).Nodup
  shown : ∀ e ∈ n.commands, e.hidden = false → e.bySafe = false ∧ e.byStandard = false
  hidden : ∀ e ∈ n.commands, e.hidden = true →
    (e.bySafe = true → n.trust.safe = true) ∧ (e.byStandard = true → n.trust.standard = true)
  visibleNames : n.commands.visibleNames.Nodup ∧
    ∀ name, name ∈ n.commands.visibleNames ↔ (n.commands.visible? name).isSome = true
  hiddenNames : n.commands.hiddenNames.Nodup ∧
    ∀ name, name ∈ n.commands.hiddenNames ↔ (n.commands.hidden? name).isSome = true
  /-- The visible names are listed in one way. -/
  visibleOrder : ∀ names, n.commands.Lists (fun e => !e.hidden) names ↔
    names = n.commands.visibleNames
  /-- So are the hidden ones, procedures after the other commands. -/
  hiddenOrder : ∀ names,
    (∃ plain procedures, names = plain ++ procedures ∧
      n.commands.Lists (fun e => !CommandTable.isProcedure e && e.hidden) plain ∧
      n.commands.Lists (fun e => CommandTable.isProcedure e && e.hidden) procedures) ↔
    names = n.commands.hiddenNames

theorem IsTidy.isOrderly (tidy : n.IsTidy) : n.IsOrderly := by
  have filtered (keep : Entry → Bool) : ((n.commands.filter keep).map Entry.name).Nodup :=
    (List.filter_sublist.map _).nodup tidy.names
  refine {
    apart := fun name => ?apart, names := tidy.names, definitions := tidy.seqs.of_map _
    seqs := tidy.seqs, shown := fun e mem shown => ?shown, hidden := fun e mem _ => ?hidden
    visibleNames := ⟨filtered _, fun _ => CommandTable.mem_visibleNames⟩
    hiddenNames := ⟨?nodup, fun _ => CommandTable.mem_hiddenNames⟩
    visibleOrder := fun names => CommandTable.lists_iff tidy.ordered
    hiddenOrder := fun names => ?hiddenOrder }
  case apart =>
    cases visible : n.commands.visible? name with
    | none => exact .inl rfl
    | some c =>
      right
      obtain ⟨e, mem, shown, rfl, -⟩ := CommandTable.mem_of_visible? visible
      have none := CommandTable.lookup_not_hidden tidy.names mem
      rwa [shown, Bool.not_false, ← CommandTable.hidden?_eq_lookup] at none
  case shown =>
    have none := Entry.isAutoHidden_eq_false_iff.mp (tidy.shown e mem shown)
    exact ⟨none .safe, none .standard⟩
  case hidden =>
    exact ⟨tidy.reasons e mem .safe, tidy.reasons e mem .standard⟩
  case nodup =>
    exact (CommandTable.perm_hiddenNames n.commands).nodup_iff.mpr (filtered _)
  case hiddenOrder =>
    simp only [CommandTable.lists_iff tidy.ordered]
    have split : n.commands.hiddenNames =
        (n.commands.filter fun e => !CommandTable.isProcedure e && e.hidden).map Entry.name ++
          (n.commands.filter fun e => CommandTable.isProcedure e && e.hidden).map Entry.name := by
      rw [← List.map_append, ← List.filter_filter, ← List.filter_filter]
      rfl
    constructor
    · rintro ⟨plain, procedures, rfl, rfl, rfl⟩
      exact split.symm
    · rintro rfl
      exact ⟨_, _, split, rfl, rfl⟩

end Node

namespace World

variable {w : World} {i : NodeId} {n : Node}

/-- Whatever became of a fresh tree, the tables of its live nodes are in order. -/
theorem tables_orderly_of_reachable (reachable : w.IsReachable) (live : w.live? i = some n) :
    n.IsOrderly :=
  (reachable.tables live).tidy.isOrderly

/-- A child gets a new command and an alias, and one command is hidden under another name; then the
marks of trust change, and what one of them hid is exposed in between. -/
def upkept : List TableOp :=
  [.define 2 { name := "greet", action := some (.host .echo) }, .hide root "c" "set" "old",
    .defineAlias root "c" "ping" [] "list" ["pong"], .safe root "c" true,
    .expose root "c" "exit" "quit", .standard root "c" true, .remove 2 "incr",
    .safe root "c" false]

theorem tables_orderly_of_reachable_upkept :
    ∃ n, (nursed upkept).live? 2 = some n ∧ n.IsOrderly ∧ n.commands.hiddenNames = ["old", "quit", "greet"] ∧
      n.trust.safe = false ∧ n.trust.standard = true := by
  have reachable : (nursed upkept).IsReachable := isReachable_nursed (by decide)
  have shown : ((nursed upkept).live? 2).any (fun n => decide (
      n.commands.hiddenNames = (["old", "quit", "greet"] : List Text) ∧ n.trust.safe = false ∧
        n.trust.standard = true)) = true := by decide +kernel
  obtain ⟨n, live, holds⟩ := (Option.any_eq_true _ _).mp shown
  exact ⟨n, live, tables_orderly_of_reachable reachable live, of_decide_eq_true holds⟩

end World

end InterpTree
