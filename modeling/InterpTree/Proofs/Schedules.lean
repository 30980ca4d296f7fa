import InterpTree.Schedule
import Mathlib.Data.List.Nodup
import Mathlib.Data.List.Perm.Basic

/-!
Schedules and the account they keep. The events of a schedule are told apart by when they were
scheduled. `popDue` takes the first event that may be served. `Leads` says of two schedules that the
one became the other by scheduling, serving and withdrawing events: what the history has more then
accounts for every event.
-/

namespace InterpTree

namespace Event

variable {a b c e : Event}

/-- The event may be served at the instant `now` by a loop that serves priorities from `floor` on. -/
def IsReady (now floor : Int) (e : Event) : Prop := e.due ≤ now ∧ floor ≤ e.priority

theorem before_iff : a.before b = true ↔ a.due < b.due ∨ a.due = b.due ∧ a.seq < b.seq := by
  simp [before]

theorem not_before_trans (h : ¬ a.before b = true) (h' : ¬ b.before c = true) :
    ¬ a.before c = true := by
  rw [before_iff] at *
  omega

theorem not_before_of_before (h : a.before b = true) : ¬ b.before a = true := by
  rw [before_iff] at *
  omega

/-- Two events that were not scheduled together are served one before the other. -/
theorem before_of_not_before (h : ¬ b.before a = true) (apart : b.seq ≠ a.seq) :
    a.before b = true := by
  rw [before_iff] at *
  omega

end Event

namespace Schedule

variable {q q' q'' : Schedule} {e : Event} {es : List Event} {now floor : Int}

/-! ### The first event -/

theorem least?_eq_none_iff : least? es = none ↔ es = [] := by
  cases es with
  | nil => simp [least?]
  | cons e es =>
    simp only [least?, reduceCtorEq, iff_false]
    split
    · simp
    · split <;> simp

/-- No event is before the least one. -/
theorem of_least? (h : least? es = some e) : e ∈ es ∧ ∀ x ∈ es, ¬ x.before e = true := by
  induction es generalizing e with
  | nil => cases h
  | cons first es ih =>
    have irrefl (x : Event) : ¬ x.before x = true := fun h => Event.not_before_of_before h h
    simp only [least?] at h
    split at h
    · rename_i none
      obtain rfl := Option.some.inj h
      rw [least?_eq_none_iff.1 none]
      exact ⟨List.mem_singleton_self _, fun x mem => List.mem_singleton.1 mem ▸ irrefl x⟩
    · rename_i m found
      obtain ⟨mem, least⟩ := ih found
      split at h
      · rename_i sooner
        obtain rfl := Option.some.inj h
        refine ⟨List.mem_cons_of_mem _ mem, List.forall_mem_cons.2 ⟨?_, least⟩⟩
        exact Event.not_before_of_before sooner
      · rename_i later
        obtain rfl := Option.some.inj h
        exact ⟨List.mem_cons_self, List.forall_mem_cons.2
          ⟨irrefl _, fun x mem => Event.not_before_trans (least x mem) later⟩⟩

/-- Events are told apart by when they were scheduled. -/
def AreApart (es : List Event) : Prop := (es.map Event.seq).Nodup

theorem AreApart.eq (apart : AreApart es) {x y : Event} (hx : x ∈ es) (hy : y ∈ es)
    (same : x.seq = y.seq) : x = y := List.inj_on_of_nodup_map apart hx hy same

theorem AreApart.sublist {es' : List Event} (apart : AreApart es) (h : es'.Sublist es) :
    AreApart es' := List.Nodup.sublist (h.map _) apart

theorem mem_without {x : Event} : x ∈ without e es ↔ x ∈ es ∧ x.seq ≠ e.seq := by
  simp [without]

/-- Of events that are apart, one is left out. -/
theorem perm_without (apart : AreApart es) (mem : e ∈ es) : es.Perm (e :: without e es) := by
  have distinct : es.Nodup := List.Nodup.of_map _ apart
  have same : without e es = es.erase e := by
    rw [distinct.erase_eq_filter, without]
    refine List.filter_congr fun x memX => ?_
    by_cases h : x = e
    · simp [h]
    · simp [bne, h, show ¬ x.seq = e.seq from fun same => h (apart.eq memX mem same)]
  rw [same]
  exact List.perm_cons_erase mem

theorem length_without_lt (mem : e ∈ es) : (without e es).length < es.length :=
  List.length_filter_lt_length_iff_exists.2 ⟨e, mem, by simp⟩

/-- The events taken off the bag on the way to one that may be served are of too low a priority. -/
theorem takeDue_spec (now floor : Int) (fuel : Nat) (enough : es.length ≤ fuel) (apart : AreApart es) :
    match takeDue now floor fuel es with
    | some e => e ∈ es ∧ e.IsReady now floor ∧
      ∀ x ∈ es, x.IsReady now floor → x ≠ e → e.before x = true
    | none => ∀ x ∈ es, ¬ x.IsReady now floor := by
  induction fuel generalizing es with
  | zero =>
    obtain rfl := List.length_eq_zero_iff.1 (Nat.le_zero.1 enough)
    simp [takeDue]
  | succ fuel ih =>
    unfold takeDue
    cases first : least? es with
    | none =>
      rw [least?_eq_none_iff.1 first]
      simp
    | some e =>
      obtain ⟨mem, least⟩ := of_least? first
      have later : ∀ x ∈ es, e.due ≤ x.due := fun x memX => by
        have := least x memX
        rw [Event.before_iff] at this
        omega
      dsimp only
      by_cases early : now < e.due
      · rw [if_pos early]
        intro x memX ready
        have := later x memX
        have := ready.1
        omega
      · rw [if_neg early]
        by_cases low : e.priority < floor
        · rw [if_pos low]
          have unready : ¬ e.IsReady now floor := fun ready => by
            have := ready.2
            omega
          -- An event that may be served is still there without the least one.
          have kept {x : Event} (memX : x ∈ es) (ready : x.IsReady now floor) :
              x ∈ without e es := by
            refine mem_without.2 ⟨memX, fun same => unready ?_⟩
            exact apart.eq memX mem same ▸ ready
          have spec := ih (Nat.le_of_lt_succ (Nat.lt_of_lt_of_le (length_without_lt mem) enough))
            (apart.sublist List.filter_sublist)
          split at spec
          · rename_i taken
            refine ⟨(mem_without.1 spec.1).1, spec.2.1, fun x memX ready => ?_⟩
            exact spec.2.2 x (kept memX ready) ready
          · exact fun x memX ready => spec x (kept memX ready) ready
        · rw [if_neg low]
          refine ⟨mem, ⟨by omega, by omega⟩, fun x memX _ other => ?_⟩
          exact Event.before_of_not_before (least x memX) fun same => other (apart.eq memX mem same)

/-! ### The account -/

/-- The events of one fate, the latest first. -/
def ofFate (fate : Fate) (history : List (Fate × Event)) : List Event :=
  (history.filter fun entry => entry.1 = fate).map Prod.snd

@[simp] theorem ofFate_nil (fate : Fate) : ofFate fate [] = [] := rfl

@[simp] theorem ofFate_append (fate : Fate) (h h' : List (Fate × Event)) :
    ofFate fate (h ++ h') = ofFate fate h ++ ofFate fate h' := by
  simp [ofFate]

theorem ofFate_cons (fate other : Fate) (e : Event) (h : List (Fate × Event)) :
    ofFate fate ((other, e) :: h) = if other = fate then e :: ofFate fate h else ofFate fate h := by
  unfold ofFate
  split <;> simp_all

theorem ofFate_map (fate other : Fate) (es : List Event) :
    ofFate fate (es.map (other, ·)) = if other = fate then es else [] := by
  induction es with
  | nil => simp
  | cons e es ih =>
    rw [List.map_cons, ofFate_cons, ih]
    split <;> rfl

/-- Events that are apart, numbered by when they were scheduled, all of them of the owner. -/
structure IsOrdered (q : Schedule) : Prop where
  apart : AreApart q.events
  counted : ∀ e ∈ q.events, e.seq ≤ q.seq
  owned : ∀ e ∈ q.events, e.owner = q.owner

theorem isOrdered_empty (owner : Nat) : IsOrdered { owner } := ⟨List.nodup_nil, nofun, nofun⟩

/-- The `news` of a history account for the events: those there were and those scheduled are those
that were served or withdrawn and those there are. No event is among them twice. -/
structure Accounts (q q' : Schedule) (news : List (Fate × Event)) : Prop where
  history : q'.history = news ++ q.history
  balance : (q.events ++ ofFate .scheduled news).Perm
    (ofFate .served news ++ (ofFate .withdrawn news ++ q'.events))
  apart : AreApart (q.events ++ ofFate .scheduled news)
  scheduled : ∀ e ∈ ofFate .scheduled news, q.seq < e.seq ∧ e.seq ≤ q'.seq ∧ e.owner = q.owner

/-- One schedule became another. -/
structure Leads (q q' : Schedule) : Prop where
  owner : q'.owner = q.owner
  seq : q.seq ≤ q'.seq
  account : q.IsOrdered → q'.IsOrdered ∧ ∃ news, Accounts q q' news

theorem AreApart.append {es es' : List Event} (h : AreApart es) (h' : AreApart es')
    (later : ∀ x ∈ es, ∀ y ∈ es', x.seq < y.seq) : AreApart (es ++ es') := by
  unfold AreApart at *
  rw [List.map_append, List.nodup_append]
  refine ⟨h, h', fun s memS t memT => ?_⟩
  obtain ⟨x, memX, rfl⟩ := List.mem_map.1 memS
  obtain ⟨y, memY, rfl⟩ := List.mem_map.1 memT
  exact Nat.ne_of_lt (later x memX y memY)

theorem AreApart.perm {es es' : List Event} (apart : AreApart es) (h : es.Perm es') :
    AreApart es' := (h.map Event.seq).nodup_iff.1 apart

theorem Accounts.trans {first second : List (Fate × Event)} (ordered : q.IsOrdered)
    (seq : q.seq ≤ q'.seq) (owner : q'.owner = q.owner) (h : Accounts q q' first)
    (seq' : q'.seq ≤ q''.seq) (h' : Accounts q' q'' second) :
    Accounts q q'' (second ++ first) where
  history := by rw [h'.history, h.history, List.append_assoc]
  balance := by
    have balance := h.balance
    have balance' := h'.balance
    simp only [List.perm_iff_count, ofFate_append, List.count_append] at balance balance' ⊢
    intro e
    have := balance e
    have := balance' e
    omega
  apart := by
    have later : ∀ x ∈ q.events ++ ofFate .scheduled first,
        ∀ y ∈ ofFate .scheduled second, x.seq < y.seq := fun x memX y memY => by
      have := (h'.scheduled y memY).1
      rcases List.mem_append.1 memX with old | new
      · have := ordered.counted x old
        omega
      · have := (h.scheduled x new).2.1
        omega
    have apart := h.apart.append (h'.apart.sublist (List.sublist_append_right _ _)) later
    refine apart.perm ?_
    rw [ofFate_append, List.append_assoc]
    exact List.perm_append_comm.append_left _
  scheduled e mem := by
    rw [ofFate_append] at mem
    rcases List.mem_append.1 mem with new | old
    · obtain ⟨after, counted, owned⟩ := h'.scheduled e new
      exact ⟨by omega, counted, owned.trans owner⟩
    · obtain ⟨after, counted, owned⟩ := h.scheduled e old
      exact ⟨after, by omega, owned⟩

/-- Only the notice is another one. -/
theorem Leads.of_same (owner : q'.owner = q.owner) (seq : q'.seq = q.seq)
    (events : q'.events = q.events) (history : q'.history = q.history) : q.Leads q' := by
  refine ⟨owner, Nat.le_of_eq seq.symm, fun ordered => ⟨⟨?_, ?_, ?_⟩, [], ?_, ?_, ?_, nofun⟩⟩
  · exact events ▸ ordered.apart
  · rw [events, seq]
    exact ordered.counted
  · rw [events, owner]
    exact ordered.owned
  · exact history
  · simp [events]
  · simpa using ordered.apart

theorem Leads.refl (q : Schedule) : q.Leads q := .of_same rfl rfl rfl rfl

theorem Leads.trans (h : q.Leads q') (h' : q'.Leads q'') : q.Leads q'' := by
  refine ⟨h'.owner.trans h.owner, Nat.le_trans h.seq h'.seq, fun ordered => ?_⟩
  obtain ⟨ordered', first, accounts⟩ := h.account ordered
  obtain ⟨ordered'', second, accounts'⟩ := h'.account ordered'
  exact ⟨ordered'', second ++ first, accounts.trans ordered h.seq h.owner h'.seq accounts'⟩

theorem leads_enqueue (id : EventId) (due : Int) (given : Bool) (script : Text) (priority : Int)
    (q : Schedule) : q.Leads (q.enqueue id due given script priority) := by
  refine ⟨rfl, Nat.le_succ _, fun ordered => ?_⟩
  have apart : AreApart (q.events ++ [⟨id, due, given, script, q.owner, priority, q.seq + 1⟩]) :=
    ordered.apart.append (List.nodup_singleton _) fun x mem y memY => by
      rw [List.mem_singleton.1 memY]
      exact Nat.lt_succ_of_le (ordered.counted x mem)
  refine ⟨⟨apart, fun x mem => ?_, fun x mem => ?_⟩, [_], rfl, ?_, ?_, fun x mem => ?_⟩
  · rcases List.mem_append.1 mem with old | new
    · exact Nat.le_succ_of_le (ordered.counted x old)
    · rw [List.mem_singleton.1 new]
      exact Nat.le_refl _
  · rcases List.mem_append.1 mem with old | new
    · exact ordered.owned x old
    · rw [List.mem_singleton.1 new]
      rfl
  · simp [ofFate_cons, enqueue]
  · simpa [ofFate_cons] using apart
  · simp only [ofFate_cons, if_true, ofFate_nil, List.mem_singleton] at mem
    rw [mem]
    exact ⟨Nat.lt_succ_self _, Nat.le_refl _, rfl⟩

theorem leads_withdraw (unwanted : Event → Bool) (q : Schedule) :
    q.Leads (q.withdraw unwanted) := by
  refine ⟨rfl, Nat.le_refl _, fun ordered => ?_⟩
  have fewer {x : Event} (mem : x ∈ (q.withdraw unwanted).events) : x ∈ q.events :=
    List.mem_of_mem_filter mem
  refine ⟨⟨ordered.apart.sublist List.filter_sublist, fun x mem => ordered.counted x (fewer mem),
    fun x mem => ordered.owned x (fewer mem)⟩, _, rfl, ?_, ?_, ?_⟩
  · simp only [ofFate_map, reduceCtorEq, if_true, if_false, List.append_nil, List.nil_append]
    exact (List.filter_append_perm unwanted q.events).symm
  · simpa [ofFate_map] using ordered.apart
  · simp [ofFate_map]

theorem leads_clear (q : Schedule) : q.Leads q.clear := leads_withdraw _ q

/-- What `popDue` takes is ready, and before every other event that is. -/
theorem of_popDue (ordered : q.IsOrdered) (h : q.popDue now floor = some (e, q')) :
    e ∈ q.events ∧ e.IsReady now floor ∧
      (∀ x ∈ q.events, x.IsReady now floor → x ≠ e → e.before x = true) ∧ q' = q.served e := by
  have spec := takeDue_spec now floor _ (Nat.le_refl _) ordered.apart
  simp only [popDue, Option.map_eq_some_iff, Prod.mk.injEq] at h
  obtain ⟨_, taken, rfl, rfl⟩ := h
  rw [taken] at spec
  exact ⟨spec.1, spec.2.1, spec.2.2, rfl⟩

theorem of_popDue_none (ordered : q.IsOrdered) (h : q.popDue now floor = none) :
    ∀ x ∈ q.events, ¬ x.IsReady now floor := by
  have spec := takeDue_spec now floor _ (Nat.le_refl _) ordered.apart
  rw [popDue, Option.map_eq_none_iff] at h
  rwa [h] at spec

theorem leads_served (mem : q.IsOrdered → e ∈ q.events) : q.Leads (q.served e) := by
  refine ⟨rfl, Nat.le_refl _, fun ordered => ?_⟩
  refine ⟨⟨ordered.apart.sublist List.filter_sublist,
    fun x mem => ordered.counted x (mem_without.1 mem).1,
    fun x mem => ordered.owned x (mem_without.1 mem).1⟩, [(.served, e)], rfl, ?_, ?_, nofun⟩
  · simpa [ofFate_cons, served] using perm_without ordered.apart (mem ordered)
  · simpa [ofFate_cons] using ordered.apart

theorem leads_popDue (h : q.popDue now floor = some (e, q')) : q.Leads q' := by
  have same : q' = q.served e := by
    simp only [popDue, Option.map_eq_some_iff, Prod.mk.injEq] at h
    obtain ⟨_, -, rfl, rfl⟩ := h
    rfl
  subst same
  exact leads_served fun ordered => (of_popDue ordered h).1

/-- One schedule became another, and some events are among those served meanwhile, in this order. -/
structure Yields (q q' : Schedule) (served : List Event) : Prop where
  leads : q.Leads q'
  among : q.IsOrdered → ∃ news, Accounts q q' news ∧ served.Sublist (ofFate .served news).reverse

theorem Leads.yields (h : q.Leads q') : q.Yields q' [] := by
  refine ⟨h, fun ordered => ?_⟩
  obtain ⟨-, news, accounts⟩ := h.account ordered
  exact ⟨news, accounts, List.nil_sublist _⟩

theorem Yields.trans {es es' : List Event} (h : q.Yields q' es) (h' : q'.Yields q'' es') :
    q.Yields q'' (es ++ es') := by
  refine ⟨h.leads.trans h'.leads, fun ordered => ?_⟩
  obtain ⟨first, accounts, among⟩ := h.among ordered
  obtain ⟨second, accounts', among'⟩ := h'.among (h.leads.account ordered).1
  refine ⟨second ++ first,
    accounts.trans ordered h.leads.seq h.leads.owner h'.leads.seq accounts', ?_⟩
  rw [ofFate_append, List.reverse_append]
  exact among.append among'

theorem yields_served (mem : e ∈ q.events) : q.Yields (q.served e) [e] := by
  have leads : q.Leads (q.served e) := leads_served fun _ => mem
  refine ⟨leads, fun ordered => ?_⟩
  obtain ⟨-, news, accounts⟩ := leads.account ordered
  obtain rfl : news = [(.served, e)] := List.append_cancel_right accounts.history.symm
  exact ⟨_, accounts, by simp [ofFate_cons]⟩

/-- There is one account of what happened. -/
theorem Accounts.unique {news news' : List (Fate × Event)} (h : Accounts q q' news)
    (h' : Accounts q q' news') : news = news' :=
  List.append_cancel_right (h.history.symm.trans h'.history)

end Schedule

end InterpTree
