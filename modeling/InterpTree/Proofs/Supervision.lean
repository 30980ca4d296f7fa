import InterpTree.Proofs.Keeping

/-!
Scripts that do not lift the unwinding of a node. `Request.lifts` lists the calls that make a node lose
an unwinding cancellation; runs in which none of them is made keep to the regime of its supervision.
-/

namespace InterpTree

namespace Control

/-- Whether the node of a call may decide how the node `target` is supervised. -/
def Invocation.maySupervise (i : Invocation) (target : NodeId) (w : World) : Bool :=
  (w.node? i.node).any fun n => !(n.trust.safe && w.isWithin i.node target)

/-- Whether a cancel subcommand puts a weaker cancellation in the place of an unwinding one. -/
def weakens (id : NodeId) (i : Invocation) (words : List Text) (w : World) : Bool :=
  match cancelWords i words w with
  | .ok (target, force, unwind, _) _ =>
    target = id && !unwind &&
      (w.node? id).any fun n => n.cancel.IsUnwinding && (force || !n.cancel.isPending)
  | .error _ _ => false

/-- Whether a reset subcommand clears an unwinding cancellation by force. -/
def clears (id : NodeId) (i : Invocation) (words : List Text) (w : World) : Bool :=
  match resetCancelWords i words w with
  | .ok (target, force) _ =>
    target = id && force && i.maySupervise id w &&
      (w.node? id).any fun n => n.cancel.IsUnwinding
  | .error _ _ => false

/-- Whether a service subcommand starts a loop that clears any cancellation on its way out. -/
def serves (id : NodeId) (i : Invocation) (words : List Text) (w : World) : Bool :=
  match serviceWords i words w with
  | .ok (target, options, apart) _ =>
    target = id && options.noCancel && (w.node? id).any fun n => !n.dead &&
      if apart then i.maySupervise id w && !(n.worker.any Worker.closed)
      else !(options.errorOnEmpty && n.queue.size = 0)
  | .error _ _ => false

end Control

/-- Whether a request takes an unwinding cancellation from node `id`, or starts a service loop that
will. -/
def Request.lifts (id : NodeId) (r : Request) (w : World) : Bool :=
  match r with
  | .perform call .ensemble =>
    match call.args with
    | [] => false
    | name :: words =>
      if name = "cancel" then Control.weakens id (.of call name) words w
      else if name = "resetcancel" then Control.clears id (.of call name) words w
      else if name = "service" then Control.serves id (.of call name) words w
      else false
  | _ => false

/-- What may become of a node that is `watched`: if it is patient it stays so, and what it is being
unwound by lasts. -/
structure Node.Holds (watched : Prop) (n n' : Node) : Prop where
  id : n'.id = n.id
  held : watched → n.IsPatient → n'.IsPatient ∧ n.cancel.Outlasts n'.cancel

namespace Node.Holds

variable {watched : Prop} {n m k : Node}

theorem refl (watched : Prop) (n : Node) : Holds watched n n :=
  ⟨rfl, fun _ patient => ⟨patient, .refl _⟩⟩

theorem trans (h : Holds watched n m) (h' : Holds watched m k) : Holds watched n k := by
  refine ⟨h'.id.trans h.id, fun here patient => ?_⟩
  obtain ⟨patient', lasts⟩ := h.held here patient
  obtain ⟨patient'', lasts'⟩ := h'.held here patient'
  exact ⟨patient'', lasts.trans lasts'⟩

/-- A change of the cancellation, which lasts. -/
theorem of_cancel {c : Cancellation} (lasts : watched → n.cancel.Outlasts c) :
    Holds watched n { n with cancel := c } :=
  ⟨rfl, fun here patient => ⟨patient, lasts here⟩⟩

theorem of_frames (frames : CallStack) : Holds watched n { n with frames } :=
  ⟨rfl, fun _ patient => ⟨patient, .refl _⟩⟩

theorem of_unfinished (unfinished : Option Nat) : Holds watched n { n with unfinished } :=
  ⟨rfl, fun _ patient => ⟨patient, .refl _⟩⟩

theorem of_stirs (h : n.Stirs m) : Holds watched n m := by
  refine ⟨by rw [h.same], fun _ patient => ⟨?_, h.lasts.toOutlasts⟩⟩
  rw [h.same]
  exact patient

theorem of_isGoverned {caller : NodeId} (h : n.IsGoverned caller m) : Holds watched n m := by
  refine ⟨h.id, fun _ patient => ⟨?_, h.lasts.toOutlasts⟩⟩
  unfold IsPatient
  rw [h.worker, h.retiring]
  exact patient

theorem of_trustChange (c : TrustChange) (n : Node) : Holds watched n (c.amend n) := by
  rw [c.same_amend n]
  exact ⟨rfl, fun _ patient => ⟨patient, .refl _⟩⟩

theorem of_fades (h : n.Fades m) : Holds watched n m :=
  ⟨h.id, fun _ patient => ⟨(h.lasting patient).1 patient, (h.lasting patient).2.toOutlasts⟩⟩

end Node.Holds

namespace World

variable {s : NodeId} {w v u : World}

/-- Node `s` is being evaluated in, and no service loop on a worker of it is to clear its
cancellations. -/
structure Watches (s : NodeId) (w : World) : Prop where
  numbered : w.IsNumbered
  node : ∃ n, w.node? s = some n ∧ n.IsPatient ∧ 0 < n.cancel.depth

/-- What node `s` is being unwound by lasts. -/
def Supervises (s : NodeId) (w v : World) : Prop :=
  ∀ n, w.node? s = some n → ∃ n', v.node? s = some n' ∧ n.cancel.Outlasts n'.cancel

theorem Supervises.trans (h : Supervises s w v) (h' : Supervises s v u) : Supervises s w u := by
  intro n found
  obtain ⟨n', found', lasts⟩ := h n found
  obtain ⟨n'', found'', lasts'⟩ := h' n' found'
  exact ⟨n'', found'', lasts.trans lasts'⟩

/-- Nodes hold what they are being unwound by. -/
abbrev HoldsAt (s i : NodeId) : Node → Node → Prop := Node.Holds (i = s)

theorem composes_holdsAt (s : NodeId) : Composes (HoldsAt s) :=
  ⟨fun _ => .refl _, fun _ _ _ _ => .trans⟩

/-- Evaluating in a node of a world, between entering and leaving. -/
def entered (id : NodeId) (w : World) : World :=
  w.modifyNode id fun n => { n with cancel := n.cancel.enter w.clock }

theorem supervises_entered (s id : NodeId) (w : World) : Supervises s w (w.entered id) := by
  intro n found
  by_cases here : s = id
  · subst here
    exact ⟨_, node?_modifyNode_same _ found, Cancellation.outlasts_enter w.clock n.cancel⟩
  · exact ⟨n, (node?_modifyNode_ne _ here).trans found, .refl _⟩

theorem Supervises.of_entered {id : NodeId} (h : Supervises s (w.entered id) v) :
    Supervises s w (v.modifyNode id fun n => { n with cancel := n.cancel.exit }) := by
  intro n found
  by_cases here : s = id
  · subst here
    obtain ⟨n', found', lasts⟩ := h _ (node?_modifyNode_same _ found)
    exact ⟨_, node?_modifyNode_same _ found', Cancellation.outlasts_enter_exit lasts⟩
  · obtain ⟨n', found', lasts⟩ := h n ((node?_modifyNode_ne _ here).trans found)
    exact ⟨n', (node?_modifyNode_ne _ here).trans found', lasts⟩

end World

/-- Runs in which no request lifts the unwinding of node `s`. -/
def Regime.supervision (s : NodeId) : Regime where
  inv := World.Watches s
  rel := World.Supervises s
  zone _ := True
  admits _ _ := True
  serves id options := id = s → options.noCancel = false
  permits r w := r.lifts s w = false
  strays w v := v.Watches s ∧ w.Supervises s v

namespace Regime

variable {s : NodeId} {w v u : World}

/-- Nodes after a change that they hold what they are being unwound by. -/
theorem leads_of_node (inv : w.Watches s) (numbered : v.IsNumbered)
    (kept : ∀ n, w.node? s = some n → n.IsPatient →
      ∃ n', v.node? s = some n' ∧ n'.IsPatient ∧ n.cancel.Outlasts n'.cancel) :
    (supervision s).Leads w v := by
  obtain ⟨n, found, patient, deep⟩ := inv.node
  obtain ⟨n', found', patient', lasts⟩ := kept n found patient
  refine ⟨⟨numbered, n', found', patient', Nat.lt_of_lt_of_le deep lasts.deeper⟩, fun m foundM => ?_⟩
  obtain rfl : n = m := Option.some.inj (found.symm.trans foundM)
  exact ⟨n', found', lasts⟩

theorem allows_supervision (s : NodeId) : (supervision s).Allows (World.HoldsAt s) where
  composes := World.composes_holdsAt s
  leads {w v} inv each := by
    refine leads_of_node inv (each.isNumbered (fun _ _ _ holds => holds.id) inv.numbered) ?_
    intro n found patient
    obtain ⟨n', found', holds⟩ := each.node s n found
    exact ⟨n', found', holds.held rfl patient⟩

end Regime

namespace Control

variable {s target : NodeId} {i : Invocation} {words : List Text} {w v : World} {n : Node}

theorem supervise_eq_ok_iff {action : Text} :
    supervise i target action w = .ok () w ↔ i.maySupervise target w = true := by
  rw [Ends.eq_ok_iff]
  simp only [supervise, Invocation.maySupervise, Ends.bind_iff, Op.ends_node, Ends.get_iff,
    Op.ends_require]
  cases found : w.node? i.node with
  | none => simp
  | some n => cases safe : n.trust.safe <;> simp [safe]

/-- A cancel subcommand that does not weaken. -/
theorem lasts_of_not_weakens {force unwind : Bool} {message : Text} {c : Cancellation}
    (kept : weakens s i words w = false)
    (asked : cancelWords i words w = .ok (s, force, unwind, message) w)
    (found : w.node? s = some n) (posted : n.cancel.cancel force unwind message = .ok c) :
    n.cancel.Lasts c := by
  cases unwind with
  | true => exact Cancellation.lasts_cancel posted
  | false =>
    by_cases held : n.cancel.IsUnwinding
    · have refused : n.cancel.isPending = true ∧ force = false := by
        simpa [weakens, asked, found, held, and_comm] using kept
      simp [Cancellation.cancel, refused] at posted
    · exact Cancellation.lasts_cancel_of_not_unwinding held posted

/-- A reset subcommand, within an evaluation, that does not clear. -/
theorem lasts_of_not_clears {force : Bool} (kept : clears s i words w = false)
    (asked : resetCancelWords i words w = .ok (s, force) w)
    (supervised : force = true → i.maySupervise s w = true) (found : w.node? s = some n)
    (deep : 0 < n.cancel.depth) : n.cancel.Lasts (n.cancel.reset force).2 := by
  cases force with
  | false =>
    rw [Cancellation.reset_false_of_depth deep]
    exact .refl _
  | true =>
    have free : ¬ n.cancel.IsUnwinding := by
      simpa [clears, asked, found, supervised rfl] using kept
    exact Cancellation.lasts_reset_of_not_unwinding free true

/-- A service subcommand that hands a worker nothing to clear with. -/
theorem noCancel_of_not_serves {options : ServiceOptions} (kept : serves s i words w = false)
    (asked : serviceWords i words w = .ok (s, options, true) w)
    (supervised : i.maySupervise s w = true) (found : w.node? s = some n) (alive : n.dead = false)
    (opened : n.worker.any Worker.closed = false) : options.noCancel = false := by
  simpa [serves, asked, found, alive, supervised, opened] using kept

/-- A service subcommand that serves inline and does not clear. -/
theorem noCancel_of_serves_here {options : ServiceOptions} (kept : serves s i words w = false)
    (asked : serviceWords i words w = .ok (s, options, false) w) (found : w.node? s = some n)
    (alive : n.dead = false) (filled : (options.errorOnEmpty && n.queue.size = 0) = false) :
    options.noCancel = false := by
  cases clears : options.noCancel with
  | false => rfl
  | true =>
    have empty : options.errorOnEmpty = true ∧ n.queue.size = 0 := by
      simpa [serves, asked, found, alive, clears] using kept
    simp [empty] at filled

/-- A worker that was handed a service loop that does not clear. -/
theorem isPatient_of_hired {options : ServiceOptions} {worker : Worker ServiceJob}
    (kept : serves s i words w = false) (asked : serviceWords i words w = .ok (s, options, true) w)
    (supervised : i.maySupervise s w = true) (found : w.node? s = some n) (alive : n.dead = false)
    (submitted : (n.worker.getD {}).submit "service"
      (some { options := { options with wait := true, errorOnEmpty := false, background := true } })
        = .ok worker) (patient : n.IsPatient) :
    Node.IsPatient { n with worker := some worker } := by
  obtain ⟨opened, items⟩ := Worker.of_submit submitted
  have opened : n.worker.any Worker.closed = false := by
    cases hired : n.worker with
    | none => rfl
    | some old => simpa [hired] using opened
  have plain := noCancel_of_not_serves kept asked supervised found alive opened
  have before : ∀ item ∈ (n.worker.getD {}).items, item.2.options.noCancel = false := by
    cases hired : n.worker with
    | none =>
      intro item mem
      cases mem
    | some old => exact patient old (by simp [hired])
  intro loop mem item here
  rcases List.mem_append.mp mem with mine | retiring
  · obtain rfl : loop = worker := by simpa using mine
    rw [items] at here
    rcases List.mem_append.mp here with old | new
    · exact before item old
    · obtain rfl := List.mem_singleton.mp new
      exact plain
  · exact patient loop (List.mem_append_right _ retiring) item here

end Control

namespace Request

variable {s : NodeId} {call : Call} {words : List Text} {w : World}

theorem lifts_of_args {name : Text} (args : call.args = name :: words) :
    lifts s (.perform call .ensemble) w =
      if name = "cancel" then Control.weakens s (.of call name) words w
      else if name = "resetcancel" then Control.clears s (.of call name) words w
      else if name = "service" then Control.serves s (.of call name) words w
      else false := by
  simp only [lifts, args]

theorem lifts_cancel (args : call.args = ("cancel" : Text) :: words) :
    lifts s (.perform call .ensemble) w = Control.weakens s (.of call "cancel") words w := by
  rw [lifts_of_args args, if_pos rfl]

theorem lifts_resetCancel (args : call.args = ("resetcancel" : Text) :: words) :
    lifts s (.perform call .ensemble) w = Control.clears s (.of call "resetcancel") words w := by
  rw [lifts_of_args args, if_neg (by decide), if_pos rfl]

theorem lifts_service (args : call.args = ("service" : Text) :: words) :
    lifts s (.perform call .ensemble) w = Control.serves s (.of call "service") words w := by
  rw [lifts_of_args args, if_neg (by decide), if_neg (by decide), if_pos rfl]

theorem of_lifts {r : Request} (h : r.lifts s w = true) :
    ∃ call name words, r = .perform call .ensemble ∧ call.args = name :: words ∧
      (name = "cancel" ∧ Control.weakens s (.of call name) words w = true ∨
        name = "resetcancel" ∧ Control.clears s (.of call name) words w = true ∨
        name = "service" ∧ Control.serves s (.of call name) words w = true) := by
  unfold lifts at h
  split at h
  · rename_i call
    split at h
    · cases h
    · rename_i name words args
      refine ⟨call, name, words, rfl, args, ?_⟩
      split at h
      · exact .inl ⟨by assumption, h⟩
      · split at h
        · exact .inr (.inl ⟨by assumption, h⟩)
        · split at h
          · exact .inr (.inr ⟨by assumption, h⟩)
          · cases h
  · cases h

end Request

namespace Regime

variable {s : NodeId} {w v : World} {call : Call} {name : Text} {words : List Text}

/-- What a subcommand does that runs no scripts. -/
theorem leads_of_does (inv : w.Watches s) (kept : Request.lifts s (.perform call .ensemble) w = false)
    (args : call.args = name :: words) (did : Control.Does (.of call name) words w v) :
    (supervision s).Leads w v := by
  have allows := allows_supervision s
  cases did with
  | rests rests => exact allows.same inv rests.nodes
  | stirs target path resolved changes =>
    exact allows.changed inv changes fun _ _ _ stirs => .of_stirs stirs
  | grows options name path parent c p m asker resolved found grows child =>
    refine leads_of_node inv (grows.isNumbered child.id_eq inv.numbered) fun n found patient => ?_
    refine ⟨_, grows.node_old found, ?_⟩
    split <;> exact ⟨patient, .refl _⟩
  | spoils options path parent c p n m asker resolved found gains isNew detached bare strips _ =>
    refine leads_of_node inv (gains.isNumbered (strips.id.trans isNew.id) inv.numbered) ?_
    exact fun n found patient => ⟨n, gains.old found, patient, .refl _⟩
  | wanes wanes departs =>
    refine allows.leads inv ((wanes _ (World.isClosed_all w) trivial).nodes.mono ?_)
    exact fun _ _ _ fades => .of_fades fades.1
  | governs c asker trusted changes =>
    exact allows.leads inv (changes.mono fun _ _ _ governed => .of_isGoverned governed)
  | trusts change path target n asked takes =>
    exact allows.leads inv (takes.amends.each (World.composes_holdsAt s) (.of_trustChange change n))
  | posts named target path force unwind message asked resolved posted =>
    change name = "cancel" at named
    subst named
    rw [Request.lifts_cancel args] at kept
    refine allows.posted inv posted fun n c found canceled => .of_cancel fun watched => ?_
    subst watched
    exact (Control.lasts_of_not_weakens kept asked found canceled).toOutlasts
  | resets named target path force n asked resolved found supervised reset =>
    change name = "resetcancel" at named
    subst named reset
    rw [Request.lifts_resetCancel args] at kept
    refine allows.modify inv fun m here => .of_cancel fun watched => ?_
    obtain rfl : n = m := Option.some.inj (found.symm.trans here)
    subst watched
    obtain ⟨k, foundK, -, deep⟩ := inv.node
    obtain rfl : n = k := Option.some.inj (found.symm.trans foundK)
    exact (Control.lasts_of_not_clears kept asked
      (fun force => Control.supervise_eq_ok_iff.mp (supervised force)) found deep).toOutlasts
  | dedicates named target path options n worker asked resolved found alive supervised submitted
      hired =>
    change name = "service" at named
    subst named hired
    rw [Request.lifts_service args] at kept
    refine allows.modify inv fun m here => ⟨rfl, fun watched patient => ⟨?_, .refl _⟩⟩
    obtain rfl : n = m := Option.some.inj (found.symm.trans here)
    subst watched
    exact Control.isPatient_of_hired kept asked (Control.supervise_eq_ok_iff.mp supervised) found alive
      submitted patient

theorem lawful_supervision (s : NodeId) : (supervision s).Lawful where
  refl _ n found := ⟨n, found, .refl _⟩
  trans h h' := World.Supervises.trans h h'
  numbered inv := inv.numbered
  resolve _ _ _ := .inl trivial
  visible _ _ _ _ := ⟨trivial, trivial⟩
  hidden _ _ _ _ _ _ _ := trivial
  forward _ _ _ := .inl trivial
  asks _ _ _ _ _ := .inr fun _ _ _ => .inl ⟨trivial, trivial⟩
  barred closed := closed.elim
  shields _ _ _ closed := closed.elim
  gone denier := denier.elim
  attends _ _ _ _ _ := id
  onward_trans on _ := on
  onward_tidy _ _ on := on
  onward_strays on _ := on
  strays_trans led strayed := ⟨strayed.1, World.Supervises.trans led.2 strayed.2⟩
  strays_pushed inv _ _ strayed := ⟨strayed.1, World.Supervises.trans
    ((allows_supervision s).pushed (fun _ _ => .of_frames _) inv).2 strayed.2⟩
  strays_entered {w _ id} inv _ strayed :=
    ⟨strayed.1, World.Supervises.trans (World.supervises_entered s id w) strayed.2⟩
  overtakes _ _ _ _ strayed := (allows_supervision s).overtaken
    (fun {w v u} h h' => World.Supervises.trans (w := w) (v := v) (u := u) h h')
    (fun _ => .of_unfinished _) strayed
  staff {w id n} inv found loop mem := by
    refine ⟨trivial, fun item here watched => ?_⟩
    subst watched
    obtain ⟨m, foundM, patient, -⟩ := inv.node
    obtain rfl : n = m := Option.some.inj (found.symm.trans foundM)
    exact patient loop mem item here
  serve {w call target options n words} inv _ kept args asked found alive filled watched := by
    subst watched
    change Request.lifts target (.perform call .ensemble) w = false at kept
    rw [Request.lifts_service args] at kept
    exact Control.noCancel_of_serves_here kept asked found alive filled
  rests inv rests := (allows_supervision s).same inv rests.nodes
  host _ inv _ := (allows_supervision s).same inv rfl
  look {w id n} inv _ _ := (allows_supervision s).looked inv fun n =>
    .of_cancel fun _ => (Cancellation.lasts_tick w.clock n.cancel).toOutlasts
  stirs inv _ changes := (allows_supervision s).changed inv changes fun _ _ _ stirs =>
    .of_stirs stirs
  defines {w id n spec name params body c n'} inv _ found _ defined := by
    refine (allows_supervision s).replace inv found ?_
    rw [Node.same_of_define defined]
    exact ⟨rfl, fun _ patient => ⟨patient, .refl _⟩⟩
  push inv _ _ _ := ((allows_supervision s).pushed (fun _ _ => .of_frames _) inv).1
  pop inv _ _ led := (allows_supervision s).popped
    (fun {w v u} h h' => World.Supervises.trans (w := w) (v := v) (u := u) h h')
    (fun _ _ => .of_frames _) inv led
  enter {w _ id _ _} inv _ _ _ := by
    obtain ⟨n, found, patient, deep⟩ := inv.node
    refine ⟨inv.numbered.modifyNode fun _ _ => rfl, ?_⟩
    by_cases here : s = id
    · subst here
      exact ⟨_, World.node?_modifyNode_same _ found, patient, Nat.succ_pos _⟩
    · exact ⟨n, (World.node?_modifyNode_ne _ here).trans found, patient, deep⟩
  exit {w v id} inv _ led := by
    refine leads_of_node inv (led.1.numbered.modifyNode fun _ _ => rfl) fun n found _ => ?_
    obtain ⟨n', found', lasts⟩ := World.Supervises.of_entered led.2 n found
    obtain ⟨m, foundM, patient, -⟩ := led.1.node
    refine ⟨n', found', ?_, lasts⟩
    by_cases here : s = id
    · subst here
      rw [World.node?_modifyNode_same _ foundM] at found'
      obtain rfl := Option.some.inj found'
      exact patient
    · rw [World.node?_modifyNode_ne _ here, foundM] at found'
      obtain rfl := Option.some.inj found'
      exact patient
  leave inv _ served := (allows_supervision s).left inv fun clears n =>
    .of_cancel fun watched => by
      rw [served watched] at clears
      cases clears
  works inv _ h := (allows_supervision s).modify inv fun n found => by
    have works := h n found
    refine ⟨by rw [works.same], fun watched _ => ⟨fun loop mem item here => ?_, ?_⟩⟩
    · exact works.served loop mem item here watched
    · rw [works.same]
      exact .refl _
  retires inv _ found _ changes bare := (allows_supervision s).released inv found changes bare
    fun _ strips _ => ⟨strips.id, fun _ patient => ⟨(strips.lasting patient).1 patient,
      (strips.lasting patient).2.toOutlasts⟩⟩
  does inv _ kept args did := leads_of_does inv kept args did

end Regime

end InterpTree
