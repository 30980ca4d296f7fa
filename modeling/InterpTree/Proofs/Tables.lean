import Mathlib.Data.List.Nodup
import InterpTree.Tree.Create

/-!
Command tables: what lookups find, and what hiding and exposing leave of names and definitions. The
two reasons that trust has to hide commands come from two marks of the node.
-/

namespace InterpTree

/-- Where all keys are different, a search by key finds each member of a list. -/
theorem find?_key_eq_some_iff {α κ : Type} [BEq κ] [LawfulBEq κ] {key : α → κ} {l : List α} {k : κ}
    {a : α} (distinct : (l.map key).Nodup) :
    l.find? (fun b => key b == k) = some a ↔ a ∈ l ∧ key a = k := by
  constructor
  · intro found
    exact ⟨List.mem_of_find?_eq_some found, by simpa using List.find?_some found⟩
  · rintro ⟨mem, rfl⟩
    cases found : l.find? (fun b => key b == key a) with
    | none => exact absurd (beq_self_eq_true (key a)) (List.find?_eq_none.mp found a mem)
    | some b =>
      have same : key b = key a := by simpa using List.find?_some found
      rw [List.inj_on_of_nodup_map distinct (List.mem_of_find?_eq_some found) mem same]

/-- Whether the node is marked with what makes trust hide commands for a reason. -/
def Trust.marked (t : Trust) : HideReason → Bool
  | .safe => t.safe
  | .standard => t.standard

def Trust.mark (t : Trust) (reason : HideReason) (on : Bool) : Trust :=
  match reason with
  | .safe => { t with safe := on }
  | .standard => { t with standard := on }

@[simp] theorem Trust.marked_mark (t : Trust) (reason : HideReason) (on : Bool)
    (r : HideReason) : (t.mark reason on).marked r = if r = reason then on else t.marked r := by
  cases reason <;> cases r <;> rfl

/-- Marks set again as they are. -/
theorem Trust.mark_eq_self {t : Trust} {reason : HideReason} {on : Bool}
    (same : t.marked reason = on) : t.mark reason on = t := by
  subst same
  cases reason <;> rfl

namespace Entry

variable {e : Entry} {reason : HideReason} {on : Bool}

@[simp] theorem name_setReason : (e.setReason reason on).name = e.name := by cases reason <;> rfl

@[simp] theorem command_setReason : (e.setReason reason on).command = e.command := by
  cases reason <;> rfl

@[simp] theorem hidden_setReason : (e.setReason reason on).hidden = e.hidden := by
  cases reason <;> rfl

@[simp] theorem hasReason_setReason (r : HideReason) :
    (e.setReason reason on).hasReason r = if r = reason then on else e.hasReason r := by
  cases reason <;> cases r <;> rfl

theorem isAutoHidden_eq_false_iff : e.isAutoHidden = false ↔ ∀ r, e.hasReason r = false := by
  constructor
  · intro none r
    obtain ⟨safe, standard⟩ := Bool.or_eq_false_iff.mp none
    cases r
    · exact safe
    · exact standard
  · intro none
    exact Bool.or_eq_false_iff.mpr ⟨none .safe, none .standard⟩

end Entry

namespace CommandTable

variable {t : CommandTable} {name newName : Text} {c : Command} {reason : HideReason} {e' : Entry}

/-- The commands of a table, without the names that they go by. -/
def definitions (t : CommandTable) : List Command := t.map Entry.command

/-- The definition of a name among the hidden commands, or among the visible ones. -/
def lookup (hidden : Bool) (name : Text) (t : CommandTable) : Option Command :=
  (t.find? fun e => (e.hidden, e.name) == (hidden, name)).map Entry.command

theorem visible?_eq_lookup : t.visible? name = t.lookup false name := by
  unfold visible? lookup
  congr 2
  funext e
  cases e.hidden <;> rfl

theorem hidden?_eq_lookup : t.hidden? name = t.lookup true name := by
  unfold hidden? lookup
  congr 2
  funext e
  cases e.hidden <;> rfl

theorem mem_of_lookup {hidden : Bool} (h : t.lookup hidden name = some c) :
    ∃ e ∈ t, e.hidden = hidden ∧ e.name = name ∧ e.command = c := by
  obtain ⟨e, found, rfl⟩ := Option.map_eq_some_iff.mp h
  have picked := List.find?_some found
  simp only [beq_iff_eq, Prod.mk.injEq] at picked
  exact ⟨e, List.mem_of_find?_eq_some found, picked.1, picked.2, rfl⟩

theorem lookup_eq_none_iff {hidden : Bool} :
    t.lookup hidden name = none ↔ ∀ e ∈ t, e.hidden = hidden → e.name ≠ name := by
  simp [lookup]

/-- Where no name is used twice, a lookup finds every entry. -/
theorem lookup_eq_some_iff (names : (t.map Entry.name).Nodup) {hidden : Bool} :
    t.lookup hidden name = some c ↔
      ∃ e ∈ t, e.hidden = hidden ∧ e.name = name ∧ e.command = c := by
  constructor
  · exact mem_of_lookup
  · rintro ⟨e, mem, here, named, rfl⟩
    have keys : (t.map fun e => (e.hidden, e.name)).Nodup :=
      List.Nodup.of_map Prod.snd (by simpa [Function.comp_def] using names)
    rw [lookup, (find?_key_eq_some_iff keys).mpr ⟨mem, by rw [here, named]⟩]
    rfl

/-- A name is that of a visible command or of a hidden one, and not of both. -/
theorem lookup_not_hidden (names : (t.map Entry.name).Nodup) {e : Entry} (mem : e ∈ t) :
    t.lookup (!e.hidden) e.name = none := by
  rw [lookup_eq_none_iff]
  intro e' mem' other same
  rw [List.inj_on_of_nodup_map names mem' mem same] at other
  simp at other

theorem mem_of_visible? (h : t.visible? name = some c) :
    ∃ e ∈ t, e.hidden = false ∧ e.name = name ∧ e.command = c :=
  mem_of_lookup (visible?_eq_lookup ▸ h)

theorem visible?_eq_none_iff :
    t.visible? name = none ↔ ∀ e ∈ t, e.hidden = false → e.name ≠ name := by
  rw [visible?_eq_lookup, lookup_eq_none_iff]

theorem hidden?_eq_none_iff :
    t.hidden? name = none ↔ ∀ e ∈ t, e.hidden = true → e.name ≠ name := by
  rw [hidden?_eq_lookup, lookup_eq_none_iff]

theorem isSome_hidden?_iff :
    (t.hidden? name).isSome = true ↔ ∃ e ∈ t, e.hidden = true ∧ e.name = name := by
  simp [hidden?]

theorem isSome_visible?_iff :
    (t.visible? name).isSome = true ↔ ∃ e ∈ t, e.hidden = false ∧ e.name = name := by
  simp [visible?]

/-- A name that neither a visible nor a hidden command goes by. -/
theorem not_mem_names (visible : t.visible? name = none) (hidden : t.hidden? name = none) :
    name ∉ t.map Entry.name := by
  intro mem
  obtain ⟨e, inTable, same⟩ := List.mem_map.mp mem
  cases h : e.hidden with
  | false => exact visible?_eq_none_iff.mp visible e inTable h same
  | true => exact hidden?_eq_none_iff.mp hidden e inTable h same

@[simp] theorem visible?_eraseVisible : (t.eraseVisible name).visible? name = none := by
  rw [visible?_eq_none_iff]
  intro e mem shown
  simpa [shown] using (List.mem_filter.mp mem).2

theorem hidden?_eraseVisible (hidden : t.hidden? newName = none) :
    (t.eraseVisible name).hidden? newName = none := by
  rw [hidden?_eq_none_iff] at hidden ⊢
  exact fun e mem => hidden e (List.mem_filter.mp mem).1

/-! ### Hiding and exposing -/

theorem map_map_eq {α : Type} {g : Entry → α} {f : Entry → Entry} (same : ∀ e, g (f e) = g e) :
    (t.map f).map g = t.map g := by
  rw [List.map_map]
  exact List.map_congr_left fun e _ => same e

@[simp] theorem definitions_hide : (t.hide name newName).definitions = t.definitions :=
  map_map_eq fun e => by split <;> rfl

@[simp] theorem definitions_expose : (t.expose name newName).definitions = t.definitions :=
  map_map_eq fun e => by split <;> rfl

@[simp] theorem definitions_hideFor : (t.hideFor reason).definitions = t.definitions :=
  map_map_eq fun e => by (repeat' split) <;> simp

@[simp] theorem definitions_restoreFor : (t.restoreFor reason).definitions = t.definitions :=
  map_map_eq fun e => by dsimp only; (repeat' split) <;> simp

@[simp] theorem names_hideFor : (t.hideFor reason).map Entry.name = t.map Entry.name :=
  map_map_eq fun e => by (repeat' split) <;> simp

@[simp] theorem names_restoreFor : (t.restoreFor reason).map Entry.name = t.map Entry.name :=
  map_map_eq fun e => by dsimp only; (repeat' split) <;> simp

/-- Names stay different when what goes by one of them moves to a name that is free. -/
theorem nodup_names_move {p : Entry → Bool} {f : Entry → Entry} (names : (t.map Entry.name).Nodup)
    (named : ∀ e, p e = true → e.name = name) (renamed : ∀ e, (f e).name = newName)
    (free : newName ≠ name → newName ∉ t.map Entry.name) :
    ((t.map fun e => if p e then f e else e).map Entry.name).Nodup := by
  -- An entry that stays has the new name only if nothing was renamed.
  have apart (e e' : Entry) (mem : e ∈ t) (mem' : e' ∈ t) (moved : p e = true)
      (same : newName = e'.name) : e = e' := by
    by_cases old : newName = name
    · exact List.inj_on_of_nodup_map names mem mem' ((named e moved).trans (old.symm.trans same))
    · exact absurd (same ▸ List.mem_map_of_mem mem') (free old)
  rw [List.map_map]
  refine List.Nodup.map_on (fun e mem e' mem' same => ?_) names.of_map
  dsimp only [Function.comp] at same
  split at same <;> split at same
  · rename_i moved moved'
    exact List.inj_on_of_nodup_map names mem mem' ((named e moved).trans (named e' moved').symm)
  · rename_i moved _
    exact apart e e' mem mem' moved ((renamed e).symm.trans same)
  · rename_i _ moved'
    exact (apart e' e mem' mem moved' ((renamed e').symm.trans same.symm)).symm
  · exact List.inj_on_of_nodup_map names mem mem' same

theorem nodup_names_hide (names : (t.map Entry.name).Nodup) (hidden : t.hidden? newName = none)
    (visible : newName ≠ name → t.visible? newName = none) :
    ((t.hide name newName).map Entry.name).Nodup := by
  refine nodup_names_move names (fun e moved => ?_) (fun _ => rfl) fun renamed =>
    not_mem_names (visible renamed) hidden
  simp only [Bool.and_eq_true, beq_iff_eq] at moved
  exact moved.2

theorem nodup_names_expose (names : (t.map Entry.name).Nodup) (visible : t.visible? newName = none)
    (hidden : newName ≠ name → t.hidden? newName = none) :
    ((t.expose name newName).map Entry.name).Nodup := by
  refine nodup_names_move names (fun e moved => ?_) (fun _ => rfl) fun renamed =>
    not_mem_names visible (hidden renamed)
  simp only [Bool.and_eq_true, beq_iff_eq] at moved
  exact moved.2

/-- No name becomes empty when what goes by one name moves to another. -/
theorem nil_not_mem_names_move {p : Entry → Bool} {f : Entry → Entry}
    (old : [] ∉ t.map Entry.name) (named : ∀ e, p e = true → e.name = name)
    (renamed : ∀ e, (f e).name = newName) (nonempty : newName = [] → name = []) :
    [] ∉ (t.map fun e => if p e then f e else e).map Entry.name := by
  intro mem
  obtain ⟨e', mem', none⟩ := List.mem_map.mp mem
  obtain ⟨e, inTable, rfl⟩ := List.mem_map.mp mem'
  split at none
  · rename_i moved
    have empty := (named e moved).trans (nonempty ((renamed e).symm.trans none))
    exact old (empty ▸ List.mem_map_of_mem inTable)
  · exact old (none ▸ List.mem_map_of_mem inTable)

theorem nil_not_mem_names_hide (old : [] ∉ t.map Entry.name) (nonempty : newName = [] → name = []) :
    [] ∉ (t.hide name newName).map Entry.name := by
  refine nil_not_mem_names_move old (fun e moved => ?_) (fun _ => rfl) nonempty
  simp only [Bool.and_eq_true, beq_iff_eq] at moved
  exact moved.2

theorem nil_not_mem_names_expose (old : [] ∉ t.map Entry.name)
    (nonempty : newName = [] → name = []) : [] ∉ (t.expose name newName).map Entry.name := by
  refine nil_not_mem_names_move old (fun e moved => ?_) (fun _ => rfl) nonempty
  simp only [Bool.and_eq_true, beq_iff_eq] at moved
  exact moved.2

/-- What is in a table with a command hidden: the command that went, or what was there otherwise. -/
theorem mem_hide (mem : e' ∈ t.hide name newName) :
    e'.hidden = true ∧ e'.name = newName ∨ e' ∈ t ∧ (e'.hidden = false → e'.name ≠ name) := by
  obtain ⟨e, inTable, rfl⟩ := List.mem_map.mp mem
  split
  · exact .inl ⟨rfl, rfl⟩
  · rename_i stays
    exact .inr ⟨inTable, by simpa using stays⟩

/-- Hiding keeps what is hidden, and hides what is visible under the name. -/
theorem isSome_hidden?_hide {k : Text} (h : (t.hidden? k).isSome = true ∨
    k = newName ∧ (t.visible? name).isSome = true) :
    ((t.hide name newName).hidden? k).isSome = true := by
  simp only [isSome_hidden?_iff, isSome_visible?_iff] at h ⊢
  rcases h with ⟨e, mem, hidden, rfl⟩ | ⟨rfl, e, mem, shown, rfl⟩
  all_goals refine ⟨_, List.mem_map_of_mem mem, ?_⟩
  · simp [hidden]
  · simp [shown]

theorem visible?_hide : (t.hide name newName).visible? name = none := by
  rw [visible?_eq_none_iff]
  intro e mem visible
  rcases mem_hide mem with ⟨hidden, -⟩ | ⟨-, other⟩
  · rw [visible] at hidden
    cases hidden
  · exact other visible

/-- A name that is visible is not hidden too, and hiding its command under another one leaves it free. -/
theorem hidden?_hide (names : (t.map Entry.name).Nodup) (there : (t.visible? name).isSome = true)
    (other : name ≠ newName) : (t.hide name newName).hidden? name = none := by
  obtain ⟨e, mem, visible, rfl⟩ := isSome_visible?_iff.mp there
  have free : t.hidden? e.name = none := by
    have none := lookup_not_hidden names mem
    rwa [visible, Bool.not_false, ← hidden?_eq_lookup] at none
  rw [hidden?_eq_none_iff]
  intro e' mem' hidden
  rcases mem_hide mem' with ⟨-, renamed⟩ | ⟨old, -⟩
  · rw [renamed]
    exact other.symm
  · exact hidden?_eq_none_iff.mp free e' old hidden

/-- Hiding for a reason leaves an entry as it was, or hides it and notes the reason. -/
theorem mem_hideFor (mem : e' ∈ t.hideFor reason) :
    e' ∈ t ∨ ∃ e ∈ t, e' = { e with hidden := true }.setReason reason true := by
  obtain ⟨e, inTable, rfl⟩ := List.mem_map.mp mem
  split
  · exact .inl inTable
  · split
    · split
      · exact .inl inTable
      · exact .inr ⟨e, inTable, rfl⟩
    · rename_i hidden
      split
      · refine .inr ⟨e, inTable, ?_⟩
        have same : { e with hidden := true } = e := by
          cases e
          simpa using hidden
        rw [same]
      · exact .inl inTable

/-- Taking a reason back leaves entries without it as they were, and strikes it from the others; what
is then visible is hidden for no other reason. -/
theorem mem_restoreFor (mem : e' ∈ t.restoreFor reason) :
    ∃ e ∈ t, e' = e ∧ (e.hidden = true → e.hasReason reason = false) ∨
      ∃ hidden, e' = { e.setReason reason false with hidden } ∧
        (hidden = false → e'.isAutoHidden = false) := by
  obtain ⟨e, inTable, rfl⟩ := List.mem_map.mp mem
  refine ⟨e, inTable, ?_⟩
  dsimp only
  split
  · refine .inr ?_
    split
    · rename_i marked _
      simp only [Bool.and_eq_true] at marked
      exact ⟨true, by cases reason <;> simp [Entry.setReason, marked.1], fun off => by cases off⟩
    · rename_i _ free
      simp only [Bool.or_eq_true, not_or, Bool.not_eq_true] at free
      exact ⟨false, rfl, fun _ => free.1⟩
  · rename_i kept
    refine .inl ⟨rfl, fun hidden => ?_⟩
    simpa [hidden] using kept

end CommandTable

end InterpTree
