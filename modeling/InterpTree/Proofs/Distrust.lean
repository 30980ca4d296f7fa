import InterpTree.Proofs.Upkeep

/-!
What the marks of trust hide. However often a node is marked safe or standard and the marks are taken
back, its commands are hidden as the marks say that it has in the end, and without marks its table is
the one from before.
-/

namespace InterpTree

/-- Whether the marks of trust leave a command visible. -/
def Trust.shows (t : Trust) (c : Command) : Prop :=
  ∀ reason, t.marked reason = true → c.passes reason = true

theorem Trust.shows_iff {t : Trust} {c : Command} :
    t.shows c ↔ (t.safe = true → c.flags.safe = true) ∧ (t.standard = true → c.flags.standard = true) := by
  constructor
  · intro shows
    exact ⟨shows .safe, shows .standard⟩
  · rintro ⟨safe, standard⟩ (_ | _)
    · exact safe
    · exact standard

namespace Entry

/-- Why marks of trust hide a command. -/
def isBarred (t : Trust) (e : Entry) (reason : HideReason) : Bool :=
  t.marked reason && !e.command.passes reason

/-- What marks of trust make of an entry that was there before them. -/
def under (t : Trust) (e : Entry) : Entry :=
  if e.hidden then e
  else
    { e with
      hidden := e.isBarred t .safe || e.isBarred t .standard
      bySafe := e.isBarred t .safe, byStandard := e.isBarred t .standard }

@[simp] theorem name_under (t : Trust) (e : Entry) : (e.under t).name = e.name := by
  unfold under
  split <;> rfl

@[simp] theorem command_under (t : Trust) (e : Entry) : (e.under t).command = e.command := by
  unfold under
  split <;> rfl

theorem under_of_hidden {t : Trust} {e : Entry} (hidden : e.hidden = true) : e.under t = e := by
  rw [under, if_pos hidden]

theorem hasReason_under {t : Trust} {e : Entry} (shown : e.hidden = false) (reason : HideReason) :
    (e.under t).hasReason reason = e.isBarred t reason := by
  cases reason <;> simp [under, shown, hasReason]

theorem hidden_under {t : Trust} {e : Entry} (shown : e.hidden = false) :
    (e.under t).hidden = (e.under t).isAutoHidden := by
  simp [under, shown, isAutoHidden]

theorem hidden_under_eq_false_iff {t : Trust} {e : Entry} :
    (e.under t).hidden = false ↔ e.hidden = false ∧ t.shows e.command := by
  cases hidden : e.hidden with
  | true => simp [under_of_hidden hidden, hidden]
  | false =>
    rw [hidden_under hidden, isAutoHidden_eq_false_iff]
    simp [hasReason_under hidden, isBarred, Trust.shows]

/-- What hiding for a reason does to an entry whose name is not taken. -/
def hideFor (reason : HideReason) (e : Entry) : Entry :=
  if e.command.passes reason then e
  else if !e.hidden || e.isAutoHidden then { e with hidden := true }.setReason reason true
  else e

/-- What taking a reason back does to an entry whose name is not taken. -/
def restoreFor (reason : HideReason) (e : Entry) : Entry :=
  if e.hidden && e.hasReason reason then
    { e.setReason reason false with hidden := (e.setReason reason false).isAutoHidden }
  else e

@[simp] theorem isBarred_mark {t : Trust} {e : Entry} {reason r : HideReason} {on : Bool} :
    e.isBarred (t.mark reason on) r =
      if r = reason then on && !e.command.passes r else e.isBarred t r := by
  unfold isBarred
  rw [Trust.marked_mark]
  split <;> rfl

theorem hideFor_under {t : Trust} {e : Entry} {reason : HideReason} (free : e.isAutoHidden = false)
    (marked : t.marked reason = false) :
    (e.under t).hideFor reason = e.under (t.mark reason true) := by
  have unbarred : e.isBarred t reason = false := by simp [isBarred, marked]
  unfold hideFor
  cases hidden : e.hidden with
  | true => simp [under, hidden, free]
  | false =>
    cases passes : e.command.passes reason with
    | true =>
      cases reason <;> simp [under, hidden, passes, unbarred]
    | false =>
      cases reason <;> simp [under, hidden, passes, unbarred, setReason, isAutoHidden]

theorem restoreFor_under {t : Trust} {e : Entry} {reason : HideReason} (free : e.isAutoHidden = false)
    (marked : t.marked reason = true) :
    (e.under t).restoreFor reason = e.under (t.mark reason false) := by
  have none := isAutoHidden_eq_false_iff.mp free reason
  have barred : e.isBarred t reason = !e.command.passes reason := by simp [isBarred, marked]
  unfold restoreFor
  cases hidden : e.hidden with
  | true => simp [under, hidden, none]
  | false =>
    cases passes : e.command.passes reason with
    | true =>
      cases reason <;> simp [under, hidden, passes, barred, hasReason]
    | false =>
      cases reason <;> simp [under, hidden, passes, barred, setReason, hasReason, isAutoHidden]

end Entry

namespace CommandTable

variable {t : CommandTable} {reason : HideReason}

/-- Where names are different, hiding finds no name taken. -/
theorem hideFor_eq_map (names : (t.map Entry.name).Nodup) :
    t.hideFor reason = t.map (Entry.hideFor reason) := by
  refine List.map_congr_left fun e mem => ?_
  have free := lookup_not_hidden names mem
  unfold Entry.hideFor
  cases hidden : e.hidden with
  | false =>
    rw [hidden, Bool.not_false, ← hidden?_eq_lookup] at free
    simp [free]
  | true =>
    have same : { e with hidden := true } = e := by rw [← hidden]
    simp [same]

theorem restoreFor_eq_map (names : (t.map Entry.name).Nodup) :
    t.restoreFor reason = t.map (Entry.restoreFor reason) := by
  refine List.map_congr_left fun e mem => ?_
  unfold Entry.restoreFor
  split
  · rename_i kept
    obtain ⟨hidden, -⟩ := Bool.and_eq_true_iff.mp kept
    -- The entry is hidden itself, so no visible one has its name.
    have free := lookup_not_hidden names mem
    rw [hidden, Bool.not_true, ← visible?_eq_lookup] at free
    have stays : (e.setReason reason false).hidden = true := by simpa using hidden
    have free : t.visible? (e.setReason reason false).name = none := by simpa using free
    simp only [free, Option.isSome_none, Bool.or_false]
    cases (e.setReason reason false).isAutoHidden with
    | false => rfl
    | true => rw [if_pos rfl, ← stays]
  · rfl

end CommandTable

namespace Node

variable {n n' : Node} {trust : Trust} {reason : HideReason} {on : Bool}

theorem IsTidy.free (tidy : n.IsTidy) (unmarked : ∀ reason, n.trust.marked reason = false) :
    ∀ e ∈ n.commands, e.isAutoHidden = false := by
  intro e mem
  rw [Entry.isAutoHidden_eq_false_iff]
  intro reason
  cases has : e.hasReason reason with
  | false => rfl
  | true =>
    have marked := tidy.reasons e mem reason has
    rw [unmarked reason] at marked
    cases marked

theorem map_under_of_unmarked {t : CommandTable} (free : ∀ e ∈ t, e.isAutoHidden = false)
    (unmarked : ∀ reason, trust.marked reason = false) : t.map (Entry.under trust) = t := by
  refine (List.map_congr_left fun e mem => ?_).trans (List.map_id t)
  have none := Entry.isAutoHidden_eq_false_iff.mp (free e mem)
  have bySafe : e.bySafe = false := none .safe
  have byStandard : e.byStandard = false := none .standard
  have unbarred (reason : HideReason) : e.isBarred trust reason = false := by
    simp [Entry.isBarred, unmarked reason]
  unfold Entry.under
  split
  · rfl
  · rename_i shown
    obtain ⟨name, hidden, safe, standard, command⟩ := e
    simp_all

theorem commands_remark {t : CommandTable} (names : (t.map Entry.name).Nodup)
    (free : ∀ e ∈ t, e.isAutoHidden = false) (under : n.commands = t.map (Entry.under n.trust))
    (changes : n.trust.marked reason ≠ on) :
    (n.remark reason on).commands = t.map (Entry.under (n.remark reason on).trust) := by
  have names : (n.commands.map Entry.name).Nodup := by
    rw [under, CommandTable.map_map_eq (Entry.name_under n.trust)]
    exact names
  -- With names apart both operations go entry by entry, where `under` says what comes of each.
  cases on with
  | true =>
    change n.commands.hideFor reason = _
    rw [CommandTable.hideFor_eq_map names, under, List.map_map]
    exact List.map_congr_left fun e mem =>
      Entry.hideFor_under (free e mem) (Bool.eq_false_iff.mpr changes)
  | false =>
    change n.commands.restoreFor reason = _
    rw [CommandTable.restoreFor_eq_map names, under, List.map_map]
    exact List.map_congr_left fun e mem =>
      Entry.restoreFor_under (free e mem) (Bool.ne_false_iff.mp changes)

/-- The commands of `n'` are those of `n`, hidden as the marks of `n'` say. -/
structure FollowsMarks (n n' : Node) : Prop where
  visible : ∀ name c, n'.commands.visible? name = some c ↔
    n.commands.visible? name = some c ∧ (n'.trust.safe = true → c.flags.safe = true) ∧
      (n'.trust.standard = true → c.flags.standard = true)
  hidden : ∀ name c, n'.commands.hidden? name = some c ↔
    n.commands.hidden? name = some c ∨ n.commands.visible? name = some c ∧
      ¬ ((n'.trust.safe = true → c.flags.safe = true) ∧
        (n'.trust.standard = true → c.flags.standard = true))
  /-- What was hidden stays as it was. -/
  stays : n.commands.filter Entry.hidden = n'.commands.filter fun e => e.hidden && !e.isAutoHidden
  /-- Trust hides for the reasons that there are. -/
  reasons : ∀ e ∈ n'.commands, e.isAutoHidden = true → ∀ reason,
    e.hasReason reason = (n'.trust.marked reason && !e.command.passes reason)
  /-- Without marks nothing is different. -/
  restored : n'.trust.safe = false → n'.trust.standard = false → n'.commands = n.commands

theorem IsTidy.followsMarks (tidy : n.IsTidy) (free : ∀ e ∈ n.commands, e.isAutoHidden = false)
    (under : n'.commands = n.commands.map (Entry.under n'.trust)) : n.FollowsMarks n' := by
  have names : (n'.commands.map Entry.name).Nodup := by
    rw [under, CommandTable.map_map_eq (Entry.name_under n'.trust)]
    exact tidy.names
  refine {
    visible := fun name c => ?visible, hidden := fun name c => ?hidden, stays := ?stays
    reasons := fun e' mem' auto reason => ?reasons, restored := fun safe standard => ?restored }
  case visible =>
    rw [CommandTable.visible?_eq_lookup, CommandTable.visible?_eq_lookup,
      CommandTable.lookup_eq_some_iff names, CommandTable.lookup_eq_some_iff tidy.names,
      ← Trust.shows_iff, under]
    constructor
    · rintro ⟨e', mem', shown, rfl, rfl⟩
      obtain ⟨e, mem, rfl⟩ := List.mem_map.mp mem'
      obtain ⟨was, shows⟩ := Entry.hidden_under_eq_false_iff.mp shown
      rw [Entry.command_under, Entry.name_under]
      exact ⟨⟨e, mem, was, rfl, rfl⟩, shows⟩
    · rintro ⟨⟨e, mem, shown, rfl, rfl⟩, shows⟩
      exact ⟨_, List.mem_map_of_mem mem, Entry.hidden_under_eq_false_iff.mpr ⟨shown, shows⟩,
        Entry.name_under _ e, Entry.command_under _ e⟩
  case hidden =>
    rw [CommandTable.hidden?_eq_lookup, CommandTable.hidden?_eq_lookup,
      CommandTable.visible?_eq_lookup, CommandTable.lookup_eq_some_iff names,
      CommandTable.lookup_eq_some_iff tidy.names, CommandTable.lookup_eq_some_iff tidy.names,
      ← Trust.shows_iff, under]
    constructor
    · rintro ⟨e', mem', hidden, rfl, rfl⟩
      obtain ⟨e, mem, rfl⟩ := List.mem_map.mp mem'
      rw [Entry.command_under, Entry.name_under]
      cases was : e.hidden with
      | true => exact .inl ⟨e, mem, was, rfl, rfl⟩
      | false =>
        refine .inr ⟨⟨e, mem, was, rfl, rfl⟩, fun shows => ?_⟩
        rw [Entry.hidden_under_eq_false_iff.mpr ⟨was, shows⟩] at hidden
        cases hidden
    · rintro (⟨e, mem, hidden, rfl, rfl⟩ | ⟨⟨e, mem, shown, rfl, rfl⟩, barred⟩)
      · refine ⟨e, List.mem_map.mpr ⟨e, mem, Entry.under_of_hidden hidden⟩, hidden, rfl, rfl⟩
      · refine ⟨_, List.mem_map_of_mem mem, ?_, Entry.name_under _ e, Entry.command_under _ e⟩
        cases hidden : (e.under n'.trust).hidden with
        | true => rfl
        | false => exact absurd (Entry.hidden_under_eq_false_iff.mp hidden).2 barred
  case stays =>
    have picked : ∀ e ∈ n.commands,
        ((e.under n'.trust).hidden && !(e.under n'.trust).isAutoHidden) = e.hidden := by
      intro e mem
      cases hidden : e.hidden with
      | true => simp [Entry.under_of_hidden hidden, hidden, free e mem]
      | false => simp [Entry.hidden_under hidden]
    have same : (n.commands.filter Entry.hidden).map (Entry.under n'.trust) =
        n.commands.filter Entry.hidden := by
      refine (List.map_congr_left fun e mem => ?_).trans (List.map_id _)
      exact Entry.under_of_hidden (List.mem_filter.mp mem).2
    rw [under, List.filter_map, ← same]
    exact congrArg _ (List.filter_congr fun e mem => (picked e mem).symm)
  case reasons =>
    rw [under] at mem'
    obtain ⟨e, mem, rfl⟩ := List.mem_map.mp mem'
    cases hidden : e.hidden with
    | true =>
      rw [Entry.under_of_hidden hidden, free e mem] at auto
      cases auto
    | false =>
      rw [Entry.hasReason_under hidden, Entry.command_under]
      rfl
  case restored =>
    rw [under]
    exact map_under_of_unmarked free fun reason => by cases reason <;> assumption

end Node

namespace World

variable {w v u : World} {i : NodeId} {n : Node}

/-- A call that succeeded in setting or taking back a mark of node `i`. -/
inductive Marks (i : NodeId) : World → World → Prop
  | safe {w v : World} {caller : NodeId} {path : Text} {on : Bool}
      (resolved : w.resolve? caller path = some i) (done : Op.makeSafe caller path on w = .ok () v) :
      Marks i w v
  | standard {w v : World} {caller : NodeId} {path : Text} {on : Bool}
      (resolved : w.resolve? caller path = some i)
      (done : Op.makeStandard caller path on w = .ok () v) : Marks i w v

theorem Marks.node? (marks : Marks i w v) (found : w.node? i = some n) :
    ∃ reason on, n.trust.marked reason ≠ on ∧ v.node? i = some (n.remark reason on) := by
  cases marks with
  | safe resolved done =>
    rename_i on
    obtain ⟨target, k, resolved', changes, amends⟩ := (Op.settles_makeSafe on).of_ok done
    obtain rfl := Option.some.inj (resolved'.symm.trans resolved)
    obtain rfl := Option.some.inj (found.symm.trans amends.found)
    exact ⟨.safe, on, changes, amends.node?⟩
  | standard resolved done =>
    rename_i on
    obtain ⟨target, k, resolved', changes, amends⟩ := (Op.settles_makeStandard on).of_ok done
    obtain rfl := Option.some.inj (resolved'.symm.trans resolved)
    obtain rfl := Option.some.inj (found.symm.trans amends.found)
    exact ⟨.standard, on, changes, amends.node?⟩

/-- Along any number of calls the table stays the one that the marks make of the first. -/
theorem marks_run (run : Relation.ReflTransGen (Marks i) w v) (found : w.node? i = some n)
    (tidy : n.IsTidy) (unmarked : ∀ reason, n.trust.marked reason = false) :
    ∃ trust, v.node? i = some
      { n with trust, commands := n.commands.map (Entry.under trust) } := by
  have free := tidy.free unmarked
  induction run with
  | refl =>
    refine ⟨n.trust, ?_⟩
    rw [Node.map_under_of_unmarked free unmarked]
    exact found
  | tail _ marks ih =>
    obtain ⟨trust, found'⟩ := ih
    obtain ⟨reason, on, changes, foundU⟩ := marks.node? found'
    have commands := Node.commands_remark tidy.names free rfl changes
    refine ⟨trust.mark reason on, foundU.trans (congrArg some ?_)⟩
    exact congrArg (fun t => ({ n with trust := trust.mark reason on, commands := t } : Node)) commands

/-- Whatever became of a fresh tree: calls that mark a live node without marks, and take the marks
back, leave its commands as the marks say that it has in the end. -/
theorem hiding_follows_marks_of_reachable (reachable : w.IsReachable) (live : w.live? i = some n)
    (notSafe : n.trust.safe = false) (nonstandard : n.trust.standard = false)
    (run : Relation.ReflTransGen (Marks i) w v) :
    ∃ n', v.live? i = some n' ∧ n.FollowsMarks n' := by
  have tidy := (reachable.tables live).tidy
  have unmarked (reason : HideReason) : n.trust.marked reason = false := by
    cases reason <;> assumption
  obtain ⟨found, isLive⟩ := Option.filter_eq_some_iff.mp live
  obtain ⟨trust, found'⟩ := marks_run run found tidy unmarked
  exact ⟨_, Option.filter_eq_some_iff.mpr ⟨found', isLive⟩,
    tidy.followsMarks (tidy.free unmarked) rfl⟩

/-- A child with a new command; one command is hidden by hand, and a hidden one exposed. -/
def unmarked : List TableOp :=
  [.define 2 { name := "greet", flags := { safe := true }, action := some (.host .echo) },
    .hide root "c" "set" "old", .safe root "c" true, .expose root "c" "exit" "quit",
    .safe root "c" false]

/-- The child is marked safe and standard, and then not safe any more. -/
theorem marks_unmarked : Relation.ReflTransGen (Marks 2) (nursed unmarked)
    (nursed (unmarked ++ [.safe root "c" true, .standard root "c" true, .safe root "c" false])) := by
  have first : Marks 2 (nursed unmarked) (nursed (unmarked ++ [.safe root "c" true])) :=
    @Marks.safe 2 _ _ root "c" true (by decide +kernel) (by decide +kernel)
  have second : Marks 2 (nursed (unmarked ++ [.safe root "c" true]))
      (nursed (unmarked ++ [.safe root "c" true, .standard root "c" true])) :=
    @Marks.standard 2 _ _ root "c" true (by decide +kernel) (by decide +kernel)
  have third : Marks 2 (nursed (unmarked ++ [.safe root "c" true, .standard root "c" true]))
      (nursed (unmarked ++
        [.safe root "c" true, .standard root "c" true, .safe root "c" false])) :=
    @Marks.safe 2 _ _ root "c" false (by decide +kernel) (by decide +kernel)
  exact ((Relation.ReflTransGen.single first).tail second).tail third

theorem hiding_follows_marks_of_reachable_unmarked :
    ∃ n v n', (nursed unmarked).live? 2 = some n ∧
      Relation.ReflTransGen (Marks 2) (nursed unmarked) v ∧ v.live? 2 = some n' ∧
      n.FollowsMarks n' ∧ n.commands.hiddenNames = ["old"] ∧
      n'.commands.hiddenNames = ["old", "quit", "greet"] := by
  have reachable : (nursed unmarked).IsReachable := isReachable_nursed (by decide)
  have before : ((nursed unmarked).live? 2).any (fun n => decide (n.trust.safe = false ∧
      n.trust.standard = false ∧ n.commands.hiddenNames = (["old"] : List Text))) = true := by
    decide +kernel
  obtain ⟨n, live, holds⟩ := (Option.any_eq_true _ _).mp before
  obtain ⟨notSafe, nonstandard, old⟩ := of_decide_eq_true holds
  obtain ⟨n', live', follows⟩ :=
    hiding_follows_marks_of_reachable reachable live notSafe nonstandard marks_unmarked
  have after : ((nursed (unmarked ++
      [.safe root "c" true, .standard root "c" true, .safe root "c" false])).live? 2).all
      (fun n => decide (n.commands.hiddenNames = (["old", "quit", "greet"] : List Text))) = true := by
    decide +kernel
  rw [live'] at after
  exact ⟨n, _, n', live, marks_unmarked, live', follows, old, of_decide_eq_true after⟩

end World

end InterpTree
