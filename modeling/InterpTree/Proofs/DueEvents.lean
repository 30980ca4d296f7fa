import InterpTree.Proofs.Schedules

/-!
Due events in the order of service. A schedule may keep its events in any queue that hands out first
what is served first: taking a due event off it then means to take events of too low a priority off
before, and to put them back. `ServesFirst` says what a schedule owes to the sorted list of its
events, and both the schedule and any such queue meet it.
-/

namespace InterpTree

namespace Event

variable {e f : Event} {es es' rest : List Event} {now floor : Int}

instance : Decidable (e.IsReady now floor) := inferInstanceAs (Decidable (_ ∧ _))

theorem due_le_of_not_before (h : ¬ f.before e = true) : e.due ≤ f.due := by
  rw [before_iff] at h
  omega

theorem eq_of_not_before (apart : Schedule.AreApart es) (memE : e ∈ es) (memF : f ∈ es)
    (h : ¬ e.before f = true) (h' : ¬ f.before e = true) : e = f := by
  refine apart.eq memE memF ?_
  rw [before_iff] at h h'
  omega

/-- Events in the order of service. -/
def sorted (es : List Event) : List Event := es.mergeSort fun a b => !b.before a

theorem perm_sorted (es : List Event) : (sorted es).Perm es := List.mergeSort_perm ..

theorem mem_sorted : e ∈ sorted es ↔ e ∈ es := (perm_sorted es).mem_iff

theorem pairwise_sorted (es : List Event) :
    (sorted es).Pairwise fun a b => ¬ b.before a = true := by
  have sorts : (sorted es).Pairwise fun a b => (!b.before a) = true :=
    List.pairwise_mergeSort ?_ ?_ es
  · exact sorts.imp fun h => by simpa using h
  · intro a b c h h'
    have := not_before_trans (a := c) (b := b) (c := a) (by simpa using h') (by simpa using h)
    simpa using this
  · intro a b
    have := not_before_of_before (a := a) (b := b)
    cases before : a.before b <;> simp_all

/-- There is one order of service. -/
theorem eq_sorted (apart : Schedule.AreApart es) (perm : es'.Perm es)
    (ordered : es'.Pairwise fun a b => ¬ b.before a = true) : es' = sorted es := by
  have same := perm.trans (perm_sorted es).symm
  refine List.Perm.eq_of_pairwise (fun a b memA memB h h' => ?_) ordered (pairwise_sorted es) same
  exact eq_of_not_before apart (perm.mem_iff.1 memA) (mem_sorted.1 memB) h' h

theorem sorted_congr (apart : Schedule.AreApart es) (perm : es'.Perm es) : sorted es' = sorted es :=
  eq_sorted apart ((perm_sorted es').trans perm) (pairwise_sorted es')

/-- Where one event is taken off, the others keep their order. -/
theorem sorted_rest (apart : Schedule.AreApart es) (perm : es.Perm (e :: rest)) :
    sorted rest = (sorted es).erase e := by
  have fewer : ((sorted es).erase e).Perm rest := by
    simpa using ((perm_sorted es).trans perm).erase e
  have apart' : Schedule.AreApart rest :=
    (apart.perm perm).sublist (List.sublist_cons_self e rest)
  exact (eq_sorted apart' fewer ((pairwise_sorted es).sublist List.erase_sublist)).symm

/-- What comes first among the events that are looked for is served before all others of them. -/
theorem of_find?_sorted {p : Event → Bool} (h : (sorted es).find? p = some f) :
    f ∈ es ∧ p f = true ∧ ∀ x ∈ es, p x = true → ¬ x.before f = true := by
  have order := pairwise_sorted es
  have mem (x : Event) : x ∈ es ↔ x ∈ sorted es := mem_sorted.symm
  obtain ⟨wanted, before, after, split, skipped⟩ := List.find?_eq_some_iff_append.1 h
  simp only [mem]
  rw [split] at order ⊢
  refine ⟨by simp, wanted, fun x memX wantedX => ?_⟩
  simp only [List.mem_append, List.mem_cons] at memX
  rcases memX with earlier | rfl | later
  · have := skipped x earlier
    simp [wantedX] at this
  · exact fun h => not_before_of_before h h
  · exact (List.pairwise_cons.1 (List.pairwise_append.1 order).2.1).1 x later

theorem find?_sorted {p : Event → Bool} (apart : Schedule.AreApart es) (mem : e ∈ es)
    (wanted : p e = true) (least : ∀ x ∈ es, p x = true → ¬ x.before e = true) :
    (sorted es).find? p = some e := by
  cases found : (sorted es).find? p with
  | none => exact absurd wanted (List.find?_eq_none.1 found e (mem_sorted.2 mem))
  | some f =>
    obtain ⟨memF, wantedF, leastF⟩ := of_find?_sorted found
    rw [eq_of_not_before apart memF mem (least f memF wantedF) (leastF e mem wanted)]

end Event

open Event (sorted)

/-- What a schedule does about due events, given the sorted list of its events: it takes off the first
of those that are ready, and the others stay as they are; and the next instant is that of the first
event of a sufficient priority, so that there is something to take off just when that has come. -/
structure ServesFirst (events : List Event) (now floor : Int) (taken : Option Event)
    (left : List Event) (next : Option Int) : Prop where
  first : taken = events.find? fun e => e.IsReady now floor
  others : left = taken.elim events events.erase
  soonest : next = (events.find? fun e => floor ≤ e.priority).map Event.due
  come : taken.isSome = true ↔ ∃ instant, next = some instant ∧ instant ≤ now

/-- The next instant has come just when there is an event that is ready. -/
theorem Event.isSome_find?_ready (es : List Event) (now floor : Int) :
    ((sorted es).find? fun e => e.IsReady now floor).isSome = true ↔
      ∃ instant, ((sorted es).find? fun e => floor ≤ e.priority).map Event.due = some instant ∧
        instant ≤ now := by
  constructor
  · intro some
    obtain ⟨e, found⟩ := Option.isSome_iff_exists.1 some
    obtain ⟨mem, ready, -⟩ := of_find?_sorted found
    obtain ⟨due, priority⟩ : e.IsReady now floor := of_decide_eq_true ready
    cases first : (sorted es).find? fun e => floor ≤ e.priority with
    | none =>
      have := List.find?_eq_none.1 first e (mem_sorted.2 mem)
      simp [priority] at this
    | some f =>
      have order := due_le_of_not_before ((of_find?_sorted first).2.2 e mem (by simpa using priority))
      exact ⟨f.due, rfl, by omega⟩
  · rintro ⟨instant, next, come⟩
    obtain ⟨f, first, rfl⟩ := Option.map_eq_some_iff.1 next
    obtain ⟨mem, priority, -⟩ := of_find?_sorted first
    rw [List.find?_isSome]
    exact ⟨f, mem_sorted.2 mem, decide_eq_true ⟨come, of_decide_eq_true priority⟩⟩

namespace Schedule

variable {q : Schedule} {e : Event} {es es' : List Event} {now floor : Int}

/-! ### The next instant -/

/-- One event is looked at by the scan for the next instant. -/
def sooner (floor : Int) (earliest : Option Int) (e : Event) : Option Int :=
  if e.priority < floor then earliest
  else
    match earliest with
    | none => some e.due
    | some t => if e.due < t then some e.due else some t

theorem sooner_comm (floor : Int) (earliest : Option Int) (e f : Event) :
    sooner floor (sooner floor earliest e) f = sooner floor (sooner floor earliest f) e := by
  unfold sooner
  cases earliest <;> grind

theorem foldl_sooner_some {t : Int} (later : ∀ e ∈ es, t ≤ e.due) :
    es.foldl (sooner floor) (some t) = some t := by
  induction es with
  | nil => rfl
  | cons e es ih =>
    obtain ⟨first, rest⟩ := List.forall_mem_cons.1 later
    have same : sooner floor (some t) e = some t := by
      simp [sooner, Int.not_lt.2 first]
    rw [List.foldl_cons, same, ih rest]

theorem foldl_sooner_of_sorted (order : es.Pairwise fun a b => ¬ b.before a = true) :
    es.foldl (sooner floor) none = (es.find? fun e => floor ≤ e.priority).map Event.due := by
  induction es with
  | nil => rfl
  | cons e es ih =>
    obtain ⟨first, rest⟩ := List.pairwise_cons.1 order
    by_cases low : e.priority < floor
    · have skip : sooner floor none e = none := by simp [sooner, low]
      rw [List.foldl_cons, skip, ih rest, List.find?_cons_of_neg (by simpa using low)]
    · have start : sooner floor none e = some e.due := by simp [sooner, low]
      rw [List.foldl_cons, start, List.find?_cons_of_pos (by simpa using low)]
      exact foldl_sooner_some fun x mem => Event.due_le_of_not_before (first x mem)

/-- The scan may go over the events in any order. -/
theorem nextDue_eq (perm : es.Perm q.events) : ({ q with events := es } : Schedule).nextDue floor =
    (q.toList.find? fun e => floor ≤ e.priority).map Event.due := by
  have order : es.Perm q.toList := perm.trans (Event.perm_sorted q.events).symm
  have scan := order.foldl_eq' (f := sooner floor)
    (fun x _ y _ earliest => sooner_comm floor earliest x y) none
  exact scan.trans (foldl_sooner_of_sorted (Event.pairwise_sorted q.events))

/-! ### The schedule and its sorted list -/

theorem popDue_eq (ordered : q.IsOrdered) :
    q.popDue now floor =
      (q.toList.find? fun e => e.IsReady now floor).map fun e => (e, q.served e) := by
  have spec := takeDue_spec now floor _ (Nat.le_refl _) ordered.apart
  unfold popDue
  congr 1
  split at spec
  · rename_i e taken
    obtain ⟨mem, ready, first⟩ := spec
    rw [taken]
    refine (Event.find?_sorted ordered.apart mem (decide_eq_true ready) fun x memX readyX => ?_).symm
    by_cases same : x = e
    · rw [same]
      exact fun h => Event.not_before_of_before h h
    · exact Event.not_before_of_before (first x memX (of_decide_eq_true readyX) same)
  · rename_i none
    rw [none]
    refine (List.find?_eq_none.2 fun x memX ready => ?_).symm
    exact spec x (Event.mem_sorted.1 memX) (of_decide_eq_true ready)

theorem servesFirst_popDue (ordered : q.IsOrdered) (now floor : Int) :
    ServesFirst q.toList now floor ((q.popDue now floor).map Prod.fst)
      ((q.popDue now floor).elim q Prod.snd).toList (q.nextDue floor) := by
  have next : q.nextDue floor = (q.toList.find? fun e => floor ≤ e.priority).map Event.due :=
    nextDue_eq (List.Perm.refl _)
  have taken : (q.popDue now floor).map Prod.fst =
      q.toList.find? fun e => e.IsReady now floor := by
    rw [popDue_eq ordered, Option.map_map]
    exact Option.map_id' ..
  refine ⟨taken, ?_, next, ?_⟩
  · rw [taken, popDue_eq ordered]
    cases found : q.toList.find? fun e => e.IsReady now floor with
    | none => rfl
    | some e =>
      have mem : e ∈ q.events := Event.mem_sorted.1 (List.mem_of_find?_eq_some found)
      exact Event.sorted_rest ordered.apart (perm_without ordered.apart mem)
  · rw [taken, next]
    exact Event.isSome_find?_ready q.events now floor

end Schedule

/-! ### Schedules over a priority queue -/

/-- A queue of events, whichever way it is kept: it lists what it holds in some order, and nothing
that it holds is served before what is at its front. -/
structure PriorityQueue (σ : Type) where
  empty : σ
  values : σ → List Event
  enqueue : Event → σ → σ
  peek? : σ → Option Event
  dequeue : σ → σ
  values_empty : values empty = []
  perm_enqueue (e : Event) (s : σ) : (values (enqueue e s)).Perm (e :: values s)
  of_peek?_none {s : σ} : peek? s = none → values s = []
  perm_dequeue {s : σ} {e : Event} : peek? s = some e → (values s).Perm (e :: values (dequeue s))
  not_before_peek? {s : σ} {e : Event} : peek? s = some e → ∀ x ∈ values s, ¬ x.before e = true

/-- Events in a list that is searched for the first to serve. -/
def PriorityQueue.bag : PriorityQueue (List Event) where
  empty := []
  values es := es
  enqueue e es := e :: es
  peek? := Schedule.least?
  dequeue es := (Schedule.least? es).elim es es.erase
  values_empty := rfl
  perm_enqueue _ _ := .refl _
  of_peek?_none := Schedule.least?_eq_none_iff.1
  perm_dequeue front := by
    simp only [front, Option.elim_some]
    exact List.perm_cons_erase (Schedule.of_least? front).1
  not_before_peek? front := (Schedule.of_least? front).2

/-- What is done to a schedule. -/
inductive ScheduleUse
  | enqueue (id : EventId) (due : Int) (given : Bool) (script : Text) (priority : Int)
  | remove (id : EventId)
  | clear
  | popDue (now floor : Int)

def ScheduleUse.apply (q : Schedule) : ScheduleUse → Schedule
  | enqueue id due given script priority => q.enqueue id due given script priority
  | remove id => (q.remove id).2
  | clear => q.clear
  | popDue now floor => (q.popDue now floor).elim q Prod.snd

/-- A schedule whose events are in such a queue. -/
structure Agenda (σ : Type) where
  owner : Nat
  queue : σ
  seq : Nat := 0

namespace PriorityQueue

variable {σ : Type} (Q : PriorityQueue σ)

def putBack (es : List Event) (s : σ) : σ := es.foldl (fun s e => Q.enqueue e s) s

/-- Takes events off in the order of service until one is ready to be served. Those that were passed
over go back. -/
def popDue (now floor : Int) (s : σ) (passed : List Event) : Option Event × σ :=
  match _ : Q.peek? s with
  | none => (none, Q.putBack passed s)
  | some e =>
    if now < e.due then (none, Q.putBack passed s)
    else if e.priority < floor then popDue now floor (Q.dequeue s) (passed ++ [e])
    else (some e, Q.putBack passed (Q.dequeue s))
termination_by (Q.values s).length
decreasing_by
  have fewer := (Q.perm_dequeue ‹Q.peek? s = some e›).length_eq
  rw [List.length_cons] at fewer
  omega

/-- Scans the events as the queue lists them. -/
def nextDue (floor : Int) (s : σ) : Option Int := ({ events := Q.values s } : Schedule).nextDue floor

/-- What is done to a schedule whose events are in the queue. -/
def apply (a : Agenda σ) : ScheduleUse → Agenda σ
  | .enqueue id due given script priority =>
    { a with
      seq := a.seq + 1
      queue := Q.enqueue ⟨id, due, given, script, a.owner, priority, a.seq + 1⟩ a.queue }
  | .remove id => { a with queue := Q.putBack ((Q.values a.queue).filter fun e => e.id ≠ id) Q.empty }
  | .clear => { a with queue := Q.empty }
  | .popDue now floor => { a with queue := (Q.popDue now floor a.queue []).2 }

/-- Both are the same schedule. -/
structure Keeps (a : Agenda σ) (q : Schedule) : Prop where
  owner : a.owner = q.owner
  seq : a.seq = q.seq
  events : (Q.values a.queue).Perm q.events

variable {Q} {q : Schedule} {a : Agenda σ} {now floor : Int}

theorem perm_putBack (es : List Event) (s : σ) :
    (Q.values (Q.putBack es s)).Perm (es ++ Q.values s) := by
  induction es generalizing s with
  | nil => exact .refl _
  | cons e es ih =>
    calc (Q.values (Q.putBack es (Q.enqueue e s))).Perm (es ++ Q.values (Q.enqueue e s)) := ih _
      List.Perm _ (es ++ e :: Q.values s) := (Q.perm_enqueue e s).append_left es
      List.Perm _ (e :: (es ++ Q.values s)) := List.perm_middle

/-- Nothing is lost on the way to the event that is taken, which is the first that is ready. -/
theorem popDue_spec (now floor : Int) (s : σ) (passed : List Event) :
    (passed ++ Q.values s).Perm ((Q.popDue now floor s passed).1.toList ++
        Q.values (Q.popDue now floor s passed).2) ∧
      match (Q.popDue now floor s passed).1 with
      | none => ∀ x ∈ Q.values s, ¬ x.IsReady now floor
      | some e => e ∈ Q.values s ∧ e.IsReady now floor ∧
        ∀ x ∈ Q.values s, x.IsReady now floor → ¬ x.before e = true := by
  fun_induction Q.popDue now floor s passed with
  | case1 s passed front =>
    refine ⟨(perm_putBack passed s).symm, ?_⟩
    simp [Q.of_peek?_none front]
  | case2 s passed e front early =>
    -- What is at the front is not due, and nothing else is due before it.
    refine ⟨(perm_putBack passed s).symm, fun x mem ready => ?_⟩
    have := Event.due_le_of_not_before (Q.not_before_peek? front x mem)
    have := ready.1
    omega
  | case3 s passed e front come low ih =>
    -- What is at the front is passed over; whatever is ready stands behind it.
    obtain ⟨same, rest⟩ := ih
    have perm := Q.perm_dequeue front
    have unready : ¬ e.IsReady now floor := fun ready => Int.not_le.2 low ready.2
    have kept {x : Event} (mem : x ∈ Q.values s) (ready : x.IsReady now floor) :
        x ∈ Q.values (Q.dequeue s) := by
      rcases List.mem_cons.1 (perm.mem_iff.1 mem) with rfl | later
      · exact absurd ready unready
      · exact later
    refine ⟨?_, ?_⟩
    · refine List.Perm.trans ?_ same
      rw [List.append_assoc]
      exact perm.append_left passed
    · split at rest
      · exact fun x mem ready => rest x (kept mem ready) ready
      · obtain ⟨mem, ready, least⟩ := rest
        exact ⟨perm.mem_iff.2 (List.mem_cons_of_mem _ mem), ready,
          fun x memX readyX => least x (kept memX readyX) readyX⟩
  | case4 s passed e front come high =>
    have perm := Q.perm_dequeue front
    refine ⟨?_, perm.mem_iff.2 List.mem_cons_self, ⟨by omega, by omega⟩,
      fun x mem _ => Q.not_before_peek? front x mem⟩
    calc (passed ++ Q.values s).Perm (passed ++ e :: Q.values (Q.dequeue s)) :=
          perm.append_left passed
      List.Perm _ (e :: (passed ++ Q.values (Q.dequeue s))) := List.perm_middle
      List.Perm _ (e :: Q.values (Q.putBack passed (Q.dequeue s))) :=
          (perm_putBack passed _).symm.cons e

/-- The queue hands out what the sorted list says. -/
theorem Keeps.popDue (keeps : Q.Keeps a q) (ordered : q.IsOrdered) (now floor : Int) :
    (Q.popDue now floor a.queue []).1 = q.toList.find? (fun e => e.IsReady now floor) ∧
      (Q.values a.queue).Perm ((Q.popDue now floor a.queue []).1.toList ++
        Q.values (Q.popDue now floor a.queue []).2) := by
  obtain ⟨same, spec⟩ := popDue_spec (Q := Q) now floor a.queue []
  refine ⟨?_, same⟩
  cases taken : (Q.popDue now floor a.queue []).1 with
  | none =>
    rw [taken] at spec
    refine (List.find?_eq_none.2 fun x mem ready => ?_).symm
    exact spec x (keeps.events.mem_iff.2 (Event.mem_sorted.1 mem)) (of_decide_eq_true ready)
  | some e =>
    rw [taken] at spec
    obtain ⟨mem, ready, least⟩ := spec
    refine (Event.find?_sorted ordered.apart (keeps.events.mem_iff.1 mem) (decide_eq_true ready)
      fun x memX readyX => ?_).symm
    exact least x (keeps.events.mem_iff.2 memX) (of_decide_eq_true readyX)

theorem Keeps.apply (keeps : Q.Keeps a q) (ordered : q.IsOrdered) (u : ScheduleUse) :
    Q.Keeps (Q.apply a u) (u.apply q) := by
  cases u with
  | enqueue id due given script priority =>
    refine ⟨keeps.owner, congrArg (· + 1) keeps.seq, ?_⟩
    simp only [PriorityQueue.apply, ScheduleUse.apply, Schedule.enqueue, keeps.owner, keeps.seq]
    refine (Q.perm_enqueue _ _).trans ((keeps.events.cons _).trans ?_)
    exact List.perm_append_singleton _ _ |>.symm
  | remove id =>
    refine ⟨keeps.owner, keeps.seq, (perm_putBack _ _).trans ?_⟩
    rw [Q.values_empty, List.append_nil]
    simpa [ScheduleUse.apply, Schedule.remove, Schedule.withdraw] using
      keeps.events.filter fun e => e.id ≠ id
  | clear =>
    refine ⟨keeps.owner, keeps.seq, ?_⟩
    simp [PriorityQueue.apply, ScheduleUse.apply, Schedule.clear, Schedule.withdraw, Q.values_empty]
  | popDue now floor =>
    obtain ⟨taken, same⟩ := keeps.popDue ordered now floor
    simp only [PriorityQueue.apply, ScheduleUse.apply, Schedule.popDue_eq ordered]
    rw [taken] at same
    cases found : q.toList.find? fun e => e.IsReady now floor with
    | none =>
      rw [found] at same
      exact ⟨keeps.owner, keeps.seq, same.symm.trans keeps.events⟩
    | some e =>
      have mem : e ∈ q.events := Event.mem_sorted.1 (List.mem_of_find?_eq_some found)
      rw [found] at same
      refine ⟨keeps.owner, keeps.seq, List.Perm.cons_inv (a := e) ?_⟩
      exact same.symm.trans (keeps.events.trans (Schedule.perm_without ordered.apart mem))

theorem Keeps.servesFirst (keeps : Q.Keeps a q) (ordered : q.IsOrdered) (now floor : Int) :
    ServesFirst q.toList now floor (Q.popDue now floor a.queue []).1
      (sorted (Q.values (Q.popDue now floor a.queue []).2)) (Q.nextDue floor a.queue) := by
  obtain ⟨taken, same⟩ := keeps.popDue ordered now floor
  have next : Q.nextDue floor a.queue =
      (q.toList.find? fun e => floor ≤ e.priority).map Event.due :=
    (Schedule.nextDue_eq (q := { q with events := Q.values a.queue }) (List.Perm.refl _)).trans
      (by rw [Schedule.toList, ← sorted, Event.sorted_congr ordered.apart keeps.events]; rfl)
  have perm := keeps.events.symm.trans same
  refine ⟨taken, ?_, next, ?_⟩
  · cases found : (Q.popDue now floor a.queue []).1 with
    | none =>
      rw [found] at perm
      exact Event.sorted_congr ordered.apart perm.symm
    | some e =>
      rw [found] at perm
      exact Event.sorted_rest ordered.apart perm
  · rw [taken, next]
    exact Event.isSome_find?_ready q.events now floor

end PriorityQueue

theorem ScheduleUse.isOrdered {q : Schedule} (ordered : q.IsOrdered) (u : ScheduleUse) :
    (u.apply q).IsOrdered := by
  suffices leads : q.Leads (u.apply q) from (leads.account ordered).1
  cases u with
  | enqueue id due given script priority => exact Schedule.leads_enqueue ..
  | remove id => exact Schedule.leads_withdraw ..
  | clear => exact Schedule.leads_clear q
  | popDue now floor =>
    simp only [apply]
    cases popped : q.popDue now floor with
    | none => exact .refl q
    | some taken => exact Schedule.leads_popDue popped

/-- Used in the same way, both stay the same schedule. -/
theorem PriorityQueue.Keeps.run {σ : Type} {Q : PriorityQueue σ} {a : Agenda σ} {q : Schedule}
    (keeps : Q.Keeps a q) (ordered : q.IsOrdered) (uses : List ScheduleUse) :
    (uses.foldl ScheduleUse.apply q).IsOrdered ∧
      Q.Keeps (uses.foldl Q.apply a) (uses.foldl ScheduleUse.apply q) := by
  induction uses generalizing a q with
  | nil => exact ⟨ordered, keeps⟩
  | cons u uses ih => exact ih (keeps.apply ordered u) (u.isOrdered ordered)

namespace Schedule

variable {σ : Type}

/-- However a schedule was used, its events have one order of service, and `popDue` and `nextDue` do
what the events in this order say; and so it is for a schedule that keeps its events in a priority
queue and has to put back what it passes over. -/
theorem due_events_in_order (Q : PriorityQueue σ) (owner : Nat) (uses : List ScheduleUse)
    (now floor : Int) :
    let q := uses.foldl ScheduleUse.apply { owner }
    let a := uses.foldl Q.apply { owner, queue := Q.empty }
    q.toList.Perm q.events ∧ q.toList.Pairwise (fun e f => e.before f = true) ∧
      ServesFirst q.toList now floor ((q.popDue now floor).map Prod.fst)
        ((q.popDue now floor).elim q Prod.snd).toList (q.nextDue floor) ∧
      sorted (Q.values a.queue) = q.toList ∧
      ServesFirst q.toList now floor (Q.popDue now floor a.queue []).1
        (sorted (Q.values (Q.popDue now floor a.queue []).2)) (Q.nextDue floor a.queue) := by
  intro q a
  have start : Q.Keeps { owner, queue := Q.empty } { owner } :=
    ⟨rfl, rfl, Q.values_empty ▸ .refl _⟩
  obtain ⟨ordered, keeps⟩ : q.IsOrdered ∧ Q.Keeps a q := start.run (isOrdered_empty owner) uses
  have apart : AreApart q.toList := ordered.apart.perm (Event.perm_sorted q.events).symm
  refine ⟨Event.perm_sorted q.events, ?_, servesFirst_popDue ordered now floor,
    Event.sorted_congr ordered.apart keeps.events, keeps.servesFirst ordered now floor⟩
  refine ((Event.pairwise_sorted q.events).and (List.pairwise_map.1 apart)).imp fun h => ?_
  exact Event.before_of_not_before h.1 (Ne.symm h.2)

/-- Three events, the first of a low priority and the others at one instant, and one that was
removed. -/
def crowded : List ScheduleUse :=
  [.enqueue ⟨1⟩ 5 true "tie" 0, .enqueue ⟨2⟩ 1 true "low" (-1), .enqueue ⟨3⟩ 0 true "gone" 0,
    .enqueue ⟨4⟩ 5 true "tied" 0, .remove ⟨3⟩]

/-- The one of low priority is passed over and stays, for a schedule and for one in a list. -/
theorem due_events_in_order_crowded :
    let q := crowded.foldl ScheduleUse.apply {}
    let a := crowded.foldl PriorityQueue.bag.apply { owner := 0, queue := PriorityQueue.bag.empty }
    q.toList.map Event.seq = [2, 1, 4] ∧ q.nextDue 0 = some 5 ∧
      (PriorityQueue.bag.popDue 7 0 a.queue []).1.map Event.seq = some 1 ∧
      (sorted (PriorityQueue.bag.popDue 7 0 a.queue []).2).map Event.seq = [2, 4] := by
  intro q a
  obtain ⟨-, -, -, -, serves⟩ := due_events_in_order PriorityQueue.bag 0 crowded 7 0
  let tie : Event := ⟨⟨1⟩, 5, true, "tie", 0, 0, 1⟩
  let low : Event := ⟨⟨2⟩, 1, true, "low", 0, -1, 2⟩
  let tied : Event := ⟨⟨4⟩, 5, true, "tied", 0, 0, 4⟩
  have apart : AreApart q.events := by
    unfold AreApart
    decide
  have order : q.toList = [low, tie, tied] :=
    (Event.eq_sorted apart (by decide) (by decide)).symm
  have serves : ServesFirst q.toList 7 0 (PriorityQueue.bag.popDue 7 0 a.queue []).1
      (sorted (PriorityQueue.bag.popDue 7 0 a.queue []).2) (PriorityQueue.bag.nextDue 0 a.queue) :=
    serves
  rw [order] at serves ⊢
  have first : (PriorityQueue.bag.popDue 7 0 a.queue []).1 = some tie := by
    rw [serves.first]
    decide
  refine ⟨rfl, by decide, by rw [first]; rfl, ?_⟩
  rw [serves.others, first]
  decide

end Schedule

end InterpTree
