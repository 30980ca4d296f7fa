import Mathlib.Logic.Relation
import InterpTree.Proofs.EditSpecs

/-!
Changes of the tables of a node: its commands and aliases, the counter of definitions and the marks of
trust. `Edits` lists what operations do to them, one change at a time, and two invariants say what
they look like: `IsTidy` for the commands, `IsPaired` for the aliases.
-/

namespace InterpTree

namespace Node

variable {n m n' : Node}

/-- The node with a mark set or taken back, and its commands hidden or restored accordingly. -/
def remark (reason : HideReason) (on : Bool) (n : Node) : Node :=
  { n with
    trust := n.trust.mark reason on
    commands := if on then n.commands.hideFor reason else n.commands.restoreFor reason }

/-- One change of the tables of a node. -/
inductive Edits : Node → Node → Prop
  /-- A visible command goes, and with a shim its alias. -/
  | erase {n m : Node} {name : Text} {c : Command} (found : n.commands.visible? name = some c)
      (erased : n.eraseCommand name c = .ok m) : Edits n m
  /-- A command comes under a name that is free, and with a shim its alias. -/
  | put {n : Node} {name : Text} {c : Command} (named : name ≠ [])
      (visible : n.commands.visible? name = none) (hidden : n.commands.hidden? name = none)
      (next : c.seq = n.seq + 1)
      (shim : ∀ a, c.alias? = some a → n.alias? a.source = none ∧ a.seq = c.seq) :
      Edits n { n with
        seq := n.seq + 1
        commands := n.commands ++ [{ name, command := c }]
        aliases := n.aliases ++ c.alias?.toList }
  | hide {n : Node} {name newName : Text} (named : newName = [] → name = [])
      (free : n.commands.hidden? newName = none)
      (apart : newName ≠ name → n.commands.visible? newName = none) :
      Edits n { n with commands := n.commands.hide name newName }
  | expose {n : Node} {name newName : Text} (named : newName = [] → name = [])
      (free : n.commands.visible? newName = none)
      (apart : newName ≠ name → n.commands.hidden? newName = none) :
      Edits n { n with commands := n.commands.expose name newName }
  /-- An alias goes, and with it its shim. -/
  | unalias {n : Node} {name : Text} {a : Alias} (found : n.alias? name = some a) :
      Edits n (n.dropAlias name a)
  | remark (n : Node) (reason : HideReason) (on : Bool) : Edits n (n.remark reason on)

/-- Any number of changes. -/
def Evolves : Node → Node → Prop := Relation.ReflTransGen Edits

theorem Edits.evolves (h : Edits n m) : Evolves n m := .single h

/-- The tables are the same. -/
structure KeepsTables (n n' : Node) : Prop where
  commands : n'.commands = n.commands
  aliases : n'.aliases = n.aliases
  seq : n'.seq = n.seq
  marked : ∀ reason, n'.trust.marked reason = n.trust.marked reason

/-! ### Operations as changes -/

namespace Clears

variable {name : Text}

theorem evolves (h : Clears name n m) : n.Evolves m := by
  rcases h with ⟨-, rfl⟩ | ⟨old, found, erased⟩
  · exact .refl
  · exact (Edits.erase found erased).evolves

theorem visible?_eq_none (h : Clears name n m) : m.commands.visible? name = none := by
  rcases h with ⟨none, rfl⟩ | ⟨old, -, erased⟩
  · exact none
  · rw [of_eraseCommand erased]
    exact CommandTable.visible?_eraseVisible

theorem hidden?_eq_none (h : Clears name n m) (hidden : n.commands.hidden? name = none) :
    m.commands.hidden? name = none := by
  rcases h with ⟨-, rfl⟩ | ⟨old, -, erased⟩
  · exact hidden
  · rw [of_eraseCommand erased]
    exact CommandTable.hidden?_eraseVisible hidden

theorem alias?_eq_none (h : Clears name n m) {source : Text} (free : n.alias? source = none) :
    m.alias? source = none := by
  rcases h with ⟨-, rfl⟩ | ⟨old, -, erased⟩
  · exact free
  · rw [of_eraseCommand erased]
    simp only [alias?, List.find?_eq_none] at free ⊢
    exact fun a mem => free a (List.mem_filter.mp mem).1

end Clears

theorem evolves_define {spec : CommandSpec} {c : Command}
    (plain : ∀ a, spec.action ≠ some (.forward a)) (h : n.define spec = .ok (c, n')) :
    n.Evolves n' := by
  obtain ⟨action, m, does, free, clears, put⟩ := of_define h
  obtain ⟨made, rfl⟩ := Prod.mk.inj put
  have next : c.seq = m.seq + 1 := by rw [← made]
  have noShim : c.alias? = none := by
    rw [← made]
    cases action with
    | forward a => exact absurd does (plain a)
    | _ => rfl
  have step : m.Edits _ :=
    .put (named_of_define h) clears.visible?_eq_none (clears.hidden?_eq_none free) next
      fun a behind => by
        rw [noShim] at behind
        cases behind
  rw [noShim, Option.toList_none, List.append_nil, ← made] at step
  exact clears.evolves.tail step

theorem evolves_defineAlias {path : Text} {make : Nat → Alias} {a : Alias}
    (named : (make 0).source ≠ []) (source : ∀ seq, (make seq).source = (make 0).source)
    (number : ∀ seq, (make seq).seq = seq)
    (h : n.defineAlias path make = .ok (a, n')) : n.Evolves n' := by
  obtain ⟨m, c, unused, free, clears, rfl, behind, next, rfl⟩ := of_defineAlias h
  have step : m.Edits _ :=
    .put named clears.visible?_eq_none (clears.hidden?_eq_none free) next fun a shim => by
      obtain rfl := Option.some.inj (behind.symm.trans shim)
      rw [source, number]
      exact ⟨clears.alias?_eq_none unused, next.symm⟩
  rw [behind, Option.toList_some] at step
  exact clears.evolves.tail step

/-- A node that joins the tree hides what its marks give reasons to hide. -/
theorem evolves_hideDistrusted (n : Node) : n.Evolves n.hideDistrusted := by
  have hides (m : Node) (reason : HideReason) (marked : m.trust.marked reason = true) :
      m.Evolves { m with commands := m.commands.hideFor reason } := by
    have step := Edits.remark m reason true
    rw [Node.remark, Trust.mark_eq_self marked] at step
    exact step.evolves
  unfold hideDistrusted
  dsimp only
  split <;> rename_i safe
  · split <;> rename_i standard
    · exact (hides n .safe safe).trans (hides _ .standard standard)
    · exact hides n .safe safe
  · split <;> rename_i standard
    · exact hides n .standard standard
    · exact .refl

/-! ### The invariant of commands -/

/-- Commands go by different names, none of them empty, and stand in the order of their numbers. Trust
hides what it has a reason to hide, as the marks of the node give reasons. -/
structure IsTidy (n : Node) : Prop where
  names : (n.commands.map Entry.name).Nodup
  named : [] ∉ n.commands.map Entry.name
  ordered : n.commands.definitions.Pairwise fun c d => c.seq < d.seq
  counted : ∀ c ∈ n.commands.definitions, c.seq ≤ n.seq
  shown : ∀ e ∈ n.commands, e.hidden = false → e.isAutoHidden = false
  reasons : ∀ e ∈ n.commands, ∀ reason, e.hasReason reason = true → n.trust.marked reason = true

namespace IsTidy

theorem keep (h : n.IsTidy) (keeps : n.KeepsTables n') : n'.IsTidy where
  names := keeps.commands ▸ h.names
  named := keeps.commands ▸ h.named
  ordered := keeps.commands ▸ h.ordered
  counted := by
    rw [keeps.commands, keeps.seq]
    exact h.counted
  shown := keeps.commands ▸ h.shown
  reasons := by
    rw [keeps.commands]
    intro e mem reason has
    exact (keeps.marked reason).trans (h.reasons e mem reason has)

theorem sublist (h : n.IsTidy) (fewer : n'.commands.Sublist n.commands) (seq : n'.seq = n.seq)
    (trust : n'.trust = n.trust) : n'.IsTidy where
  names := (fewer.map _).nodup h.names
  named mem := h.named ((fewer.map _).subset mem)
  ordered := h.ordered.sublist (fewer.map _)
  counted c mem := seq ▸ h.counted c ((fewer.map _).subset mem)
  shown e mem := h.shown e (fewer.subset mem)
  reasons e mem := trust ▸ h.reasons e (fewer.subset mem)

/-- Changes that leave the definitions and their number alone. -/
theorem move (h : n.IsTidy) {t : CommandTable} {trust : Trust} (names : (t.map Entry.name).Nodup)
    (named : [] ∉ t.map Entry.name) (same : t.definitions = n.commands.definitions)
    (shown : ∀ e ∈ t, e.hidden = false → e.isAutoHidden = false)
    (reasons : ∀ e ∈ t, ∀ reason, e.hasReason reason = true → trust.marked reason = true) :
    ({ n with commands := t, trust } : Node).IsTidy :=
  ⟨names, named, same ▸ h.ordered, same ▸ h.counted, shown, reasons⟩

theorem put (h : n.IsTidy) {name : Text} {c : Command} (named : name ≠ [])
    (visible : n.commands.visible? name = none) (hidden : n.commands.hidden? name = none)
    (next : c.seq = n.seq + 1) (aliases : List Alias) :
    ({ n with
      seq := n.seq + 1, commands := n.commands ++ [{ name, command := c }], aliases } :
        Node).IsTidy := by
  have definitions : (n.commands ++ [{ name, command := c }] : CommandTable).definitions =
      n.commands.definitions ++ [c] := List.map_append
  refine ⟨?names, ?named, ?ordered, ?counted, ?shown, ?reasons⟩
  case names =>
    rw [List.map_append, List.map_singleton, ← List.concat_eq_append]
    exact h.names.concat (CommandTable.not_mem_names visible hidden)
  case named =>
    rw [List.map_append, List.map_singleton, List.mem_append, List.mem_singleton]
    exact not_or.mpr ⟨h.named, named.symm⟩
  case ordered =>
    rw [definitions, List.pairwise_append]
    refine ⟨h.ordered, List.pairwise_singleton _ _, fun d mem c' last => ?_⟩
    obtain rfl := List.mem_singleton.mp last
    have := h.counted d mem
    omega
  case counted =>
    rw [definitions]
    intro d mem
    rcases List.mem_append.mp mem with old | new
    · exact Nat.le_succ_of_le (h.counted d old)
    · obtain rfl := List.mem_singleton.mp new
      exact Nat.le_of_eq next
  case shown =>
    intro e mem shown
    rcases List.mem_append.mp mem with old | new
    · exact h.shown e old shown
    · obtain rfl := List.mem_singleton.mp new
      rfl
  case reasons =>
    intro e mem reason has
    rcases List.mem_append.mp mem with old | new
    · exact h.reasons e old reason has
    · obtain rfl := List.mem_singleton.mp new
      cases reason <;> cases has

theorem remark (h : n.IsTidy) (reason : HideReason) (on : Bool) :
    (n.remark reason on).IsTidy := by
  cases on with
  | true =>
    refine h.move (CommandTable.names_hideFor.symm ▸ h.names)
      (CommandTable.names_hideFor.symm ▸ h.named) CommandTable.definitions_hideFor
      (fun e' mem shown => ?_) fun e' mem r has => ?_
    · rcases CommandTable.mem_hideFor mem with old | ⟨e, old, rfl⟩
      · exact h.shown e' old shown
      · simp at shown
    · rw [Trust.marked_mark]
      split
      · rfl
      · rename_i other
        rcases CommandTable.mem_hideFor mem with old | ⟨e, old, rfl⟩
        · exact h.reasons e' old r has
        · rw [Entry.hasReason_setReason, if_neg other] at has
          exact h.reasons e old r has
  | false =>
    refine h.move (CommandTable.names_restoreFor.symm ▸ h.names)
      (CommandTable.names_restoreFor.symm ▸ h.named) CommandTable.definitions_restoreFor
      (fun e' mem shown => ?_) fun e' mem r has => ?_
    · obtain ⟨e, old, ⟨rfl, -⟩ | ⟨hidden, rfl, free⟩⟩ := CommandTable.mem_restoreFor mem
      · exact h.shown e' old shown
      · exact free shown
    · obtain ⟨e, old, ⟨rfl, gone⟩ | ⟨hidden, rfl, -⟩⟩ := CommandTable.mem_restoreFor mem
      -- An entry that was left alone lacks the reason: if it is visible, it lacks all of them.
      · have other : r ≠ reason := by
          rintro rfl
          cases shown : e'.hidden with
          | true => simp [gone shown] at has
          | false => simp [Entry.isAutoHidden_eq_false_iff.mp (h.shown e' old shown) r] at has
        rw [Trust.marked_mark, if_neg other]
        exact h.reasons e' old r has
      · have has : (e.setReason reason false).hasReason r = true := by cases r <;> exact has
        rw [Entry.hasReason_setReason] at has
        split at has
        · cases has
        · rename_i other
          rw [Trust.marked_mark, if_neg other]
          exact h.reasons e old r has

end IsTidy

/-! ### The invariant of aliases -/

theorem mem_of_alias? {name : Text} {a : Alias} (h : n.alias? name = some a) :
    a ∈ n.aliases ∧ a.source = name :=
  ⟨List.mem_of_find?_eq_some h, by simpa using List.find?_some h⟩

theorem alias?_eq_none_iff {name : Text} :
    n.alias? name = none ↔ name ∉ n.aliases.map Alias.source := by
  simp [alias?]

theorem alias?_eq_some_iff (sources : (n.aliases.map Alias.source).Nodup) {name : Text}
    {a : Alias} : n.alias? name = some a ↔ a ∈ n.aliases ∧ a.source = name :=
  find?_key_eq_some_iff sources

/-- Aliases and shims belong together: each alias has a shim, each shim an alias with its number. -/
structure IsPaired (n : Node) : Prop where
  sources : (n.aliases.map Alias.source).Nodup
  shims : ∀ a ∈ n.aliases, ∃ c ∈ n.commands.definitions, c.alias? = some a
  registered : ∀ c ∈ n.commands.definitions, ∀ a, c.alias? = some a → a ∈ n.aliases ∧ a.seq = c.seq

/-- The command `c` has gone, and with it just the alias that it was the shim of. -/
structure Sheds (c : Command) (n m : Node) : Prop where
  commands : m.commands = n.commands.filter fun e => e.command ≠ c
  aliases : m.aliases = n.aliases.filter fun a => c.alias? ≠ some a

theorem IsTidy.seqs (h : n.IsTidy) : (n.commands.definitions.map Command.seq).Nodup :=
  List.pairwise_map.mpr (h.ordered.imp Nat.ne_of_lt)

theorem IsTidy.eq_of_seq (h : n.IsTidy) {c d : Command} (mem : c ∈ n.commands.definitions)
    (mem' : d ∈ n.commands.definitions) (same : c.seq = d.seq) : c = d :=
  List.inj_on_of_nodup_map h.seqs mem mem' same

/-- A command goes by one name. -/
theorem IsTidy.eq_of_command (h : n.IsTidy) {e e' : Entry} (mem : e ∈ n.commands)
    (mem' : e' ∈ n.commands) (same : e.command = e'.command) : e = e' :=
  List.inj_on_of_nodup_map (h.seqs.of_map Command.seq) mem mem' same

namespace IsPaired

theorem keep (h : n.IsPaired) (keeps : n.KeepsTables n') : n'.IsPaired := by
  refine ⟨?_, ?_, ?_⟩
  all_goals rw [keeps.aliases]
  · exact h.sources
  · exact keeps.commands ▸ h.shims
  · exact keeps.commands ▸ h.registered

theorem move (h : n.IsPaired) {t : CommandTable} (same : t.definitions = n.commands.definitions)
    (trust : Trust) : ({ n with commands := t, trust } : Node).IsPaired :=
  ⟨h.sources, same ▸ h.shims, same ▸ h.registered⟩

theorem put (h : n.IsPaired) {name : Text} {c : Command}
    (shim : ∀ a, c.alias? = some a → n.alias? a.source = none ∧ a.seq = c.seq) :
    ({ n with
      seq := n.seq + 1
      commands := n.commands ++ [{ name, command := c }]
      aliases := n.aliases ++ c.alias?.toList } : Node).IsPaired := by
  have definitions : (n.commands ++ [{ name, command := c }] : CommandTable).definitions =
      n.commands.definitions ++ [c] := List.map_append
  refine ⟨?sources, fun a mem => ?shims, ?registered⟩
  case sources =>
    rw [List.map_append]
    cases behind : c.alias? with
    | none => simpa using h.sources
    | some a =>
      rw [Option.toList_some, List.map_singleton, ← List.concat_eq_append]
      exact h.sources.concat (alias?_eq_none_iff.mp (shim a behind).1)
  case shims =>
    rw [definitions]
    rcases List.mem_append.mp mem with old | new
    · obtain ⟨d, memD, isShim⟩ := h.shims a old
      exact ⟨d, List.mem_append_left _ memD, isShim⟩
    · exact ⟨c, List.mem_append_right _ List.mem_cons_self, Option.mem_toList.mp new⟩
  case registered =>
    rw [definitions]
    intro d mem a isShim
    rcases List.mem_append.mp mem with old | new
    · obtain ⟨memA, same⟩ := h.registered d old a isShim
      exact ⟨List.mem_append_left _ memA, same⟩
    · obtain rfl := List.mem_singleton.mp new
      exact ⟨List.mem_append_right _ (Option.mem_toList.mpr isShim), (shim a isShim).2⟩

/-- A shim and its alias go together, so that what is left is paired. -/
theorem shed (h : n.IsPaired) (tidy : n.IsTidy) {c : Command}
    (mem : c ∈ n.commands.definitions) (sheds : n.Sheds c m) : m.IsPaired := by
  have mem_iff (d : Command) :
      d ∈ m.commands.definitions ↔ d ∈ n.commands.definitions ∧ d ≠ c := by
    rw [sheds.commands]
    simp only [CommandTable.definitions, List.mem_map, List.mem_filter, decide_eq_true_eq]
    constructor
    · rintro ⟨e, ⟨memE, other⟩, rfl⟩
      exact ⟨⟨e, memE, rfl⟩, other⟩
    · rintro ⟨⟨e, memE, rfl⟩, other⟩
      exact ⟨e, ⟨memE, other⟩, rfl⟩
  refine ⟨?_, fun a memA => ?_, fun d memD a isShim => ?_⟩
  · rw [sheds.aliases]
    exact (List.filter_sublist.map _).nodup h.sources
  · rw [sheds.aliases, List.mem_filter, decide_eq_true_eq] at memA
    obtain ⟨d, memD, isShim⟩ := h.shims a memA.1
    refine ⟨d, (mem_iff d).mpr ⟨memD, ?_⟩, isShim⟩
    rintro rfl
    exact memA.2 isShim
  · obtain ⟨memD, other⟩ := (mem_iff d).mp memD
    obtain ⟨memA, same⟩ := h.registered d memD a isShim
    rw [sheds.aliases, List.mem_filter, decide_eq_true_eq]
    refine ⟨⟨memA, fun shared => other ?_⟩, same⟩
    -- Two shims of one alias would have its number in common.
    exact tidy.eq_of_seq memD mem (same.symm.trans (h.registered c mem a shared).2)

end IsPaired

theorem sheds_erase (tidy : n.IsTidy) (paired : n.IsPaired) {name : Text} {c : Command}
    (found : n.commands.visible? name = some c) (erased : n.eraseCommand name c = .ok m) :
    c ∈ n.commands.definitions ∧ n.Sheds c m := by
  obtain ⟨e, mem, shown, rfl, rfl⟩ := CommandTable.mem_of_visible? found
  have inDefinitions : e.command ∈ n.commands.definitions := List.mem_map_of_mem mem
  obtain rfl := of_eraseCommand erased
  refine ⟨inDefinitions, List.filter_congr fun e' mem' => ?_, List.filter_congr fun b memB => ?_⟩
  -- The code picks the entry by its name and the alias by its source; both are unique.
  · have same : e'.command = e.command ↔ e'.hidden = false ∧ e'.name = e.name := by
      constructor
      · intro same
        obtain rfl := tidy.eq_of_command mem' mem same
        exact ⟨shown, rfl⟩
      · rintro ⟨-, same⟩
        rw [List.inj_on_of_nodup_map tidy.names mem' mem same]
    simp only [ne_eq, same, not_and_or, Bool.not_eq_false]
    rw [Bool.eq_iff_iff]
    simp
  · cases behind : e.command.alias? with
    | none => rfl
    | some a =>
      obtain ⟨memA, -⟩ := paired.registered e.command inDefinitions a behind
      have same : a.source = b.source ↔ a = b :=
        ⟨List.inj_on_of_nodup_map paired.sources memA memB, fun same => same ▸ rfl⟩
      rw [Bool.eq_iff_iff]
      simp [same]

theorem sheds_unalias (tidy : n.IsTidy) (paired : n.IsPaired) {name : Text} {a : Alias}
    (found : n.alias? name = some a) :
    ∃ c ∈ n.commands.definitions, c.alias? = some a ∧ n.Sheds c (n.dropAlias name a) := by
  obtain ⟨memA, rfl⟩ := mem_of_alias? found
  obtain ⟨c, mem, isShim⟩ := paired.shims a memA
  refine ⟨c, mem, isShim, List.filter_congr fun e memE => ?_, List.filter_congr fun b memB => ?_⟩
  · have same : e.command.alias?.map Alias.seq = some a.seq ↔ e.command = c := by
      constructor
      · intro same
        obtain ⟨b, behind, numbered⟩ := Option.map_eq_some_iff.mp same
        have memD : e.command ∈ n.commands.definitions := List.mem_map_of_mem memE
        refine tidy.eq_of_seq memD mem ?_
        rw [← (paired.registered e.command memD b behind).2, numbered,
          (paired.registered c mem a isShim).2]
      · rintro rfl
        rw [isShim]
        rfl
    rw [Bool.eq_iff_iff]
    simp [same]
  · have same : b.source = a.source ↔ a = b :=
      ⟨fun same => (List.inj_on_of_nodup_map paired.sources memB memA same).symm,
        fun same => same ▸ rfl⟩
    rw [isShim, Bool.eq_iff_iff]
    simp [same]

/-! ### Steps and runs -/

/-- Both invariants. -/
structure IsConsistent (n : Node) : Prop where
  tidy : n.IsTidy
  paired : n.IsPaired

namespace IsConsistent

theorem keep (h : n.IsConsistent) (keeps : n.KeepsTables n') : n'.IsConsistent :=
  ⟨h.tidy.keep keeps, h.paired.keep keeps⟩

theorem of_empty (commands : n.commands = []) (aliases : n.aliases = []) : n.IsConsistent := by
  refine ⟨⟨?_, ?_, ?_, ?_, ?_, ?_⟩, ?_, ?_, ?_⟩
  all_goals simp [commands, aliases, CommandTable.definitions]

theorem edits (h : n.IsConsistent) (step : n.Edits m) : m.IsConsistent := by
  obtain ⟨tidy, paired⟩ := h
  cases step with
  | erase found erased =>
    -- The one case besides `unalias` in which each invariant needs the other.
    obtain ⟨mem, sheds⟩ := sheds_erase tidy paired found erased
    obtain rfl := of_eraseCommand erased
    exact ⟨tidy.sublist List.filter_sublist rfl rfl, paired.shed tidy mem sheds⟩
  | put named visible hidden next shim =>
    exact ⟨tidy.put named visible hidden next _, paired.put shim⟩
  | hide named free apart =>
    refine ⟨tidy.move (CommandTable.nodup_names_hide tidy.names free apart)
      (CommandTable.nil_not_mem_names_hide tidy.named named) CommandTable.definitions_hide
      (fun e' mem shown => ?_) (fun e' mem => ?_),
      paired.move CommandTable.definitions_hide _⟩
    all_goals obtain ⟨e, old, rfl⟩ := List.mem_map.mp mem
    · split at shown
      · cases shown
      · rename_i other
        rw [if_neg other]
        exact tidy.shown e old shown
    · split
      · exact tidy.reasons e old
      · exact tidy.reasons e old
  | expose named free apart =>
    refine ⟨tidy.move (CommandTable.nodup_names_expose tidy.names free apart)
      (CommandTable.nil_not_mem_names_expose tidy.named named) CommandTable.definitions_expose
      (fun e' mem shown => ?_) (fun e' mem reason has => ?_),
      paired.move CommandTable.definitions_expose _⟩
    all_goals obtain ⟨e, old, rfl⟩ := List.mem_map.mp mem
    · split
      · rfl
      · rename_i other
        rw [if_neg other] at shown
        exact tidy.shown e old shown
    · split at has
      · cases reason <;> cases has
      · exact tidy.reasons e old reason has
  | unalias found =>
    obtain ⟨c, mem, -, sheds⟩ := sheds_unalias tidy paired found
    exact ⟨tidy.sublist List.filter_sublist rfl rfl, paired.shed tidy mem sheds⟩
  | remark reason on =>
    -- Hidden or restored, the definitions are the same; aliases do not see the marks.
    refine ⟨tidy.remark reason on, paired.move ?_ _⟩
    cases on with
    | true => exact CommandTable.definitions_hideFor
    | false => exact CommandTable.definitions_restoreFor

theorem evolves (h : n.IsConsistent) (run : n.Evolves m) : m.IsConsistent := by
  induction run with
  | refl => exact h
  | tail _ step ih => exact ih.edits step

end IsConsistent

end Node

end InterpTree
