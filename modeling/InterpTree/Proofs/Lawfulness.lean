import InterpTree.Proofs.Regime

/-!
Actions that keep to a regime. Those that change nothing do, and so do sequences of actions that do,
and what is tidied up after them; and where a regime is about nodes one by one, so do changes that each
node allows.
-/

namespace InterpTree

namespace Regime

variable {w v u : World} {id : NodeId} {R : Regime} {α β : Type}

/-- What both actions start with is known. -/
theorem gives_get {f g : World → Act α} {Q : α → World → Prop}
    (next : R.inv w → R.Gives (f w) (g w) w Q) : R.Gives (get >>= f) (get >>= g) w Q :=
  fun inv => .after (next inv inv)

theorem keeps_get {f g : World → Act α} (next : R.inv w → R.Keeps (f w) (g w) w) :
    R.Keeps (get >>= f) (get >>= g) w := gives_get next

theorem keeps_ofNode {γ : Type} [Inhabited γ] {id : NodeId} {read : Node → γ} {f g : γ → Act α}
    (next : R.inv w → R.Keeps (f (((w.node? id).map read).getD default))
      (g (((w.node? id).map read).getD default)) w) :
    R.Keeps (Act.ofNode id read >>= f) (Act.ofNode id read >>= g) w := fun inv =>
  .after (next inv inv)

/-- A single change. -/
theorem keeps_modify {f : World → World} (h : R.inv w → R.Leads w (f w)) :
    R.Keeps (modify f) (modify f) w := fun inv => .refl ⟨h inv, fun _ _ => trivial⟩

/-- An operation that may be refused leaves the same world behind as a part of an action. -/
theorem ends_attempt {op : Op α} {P : World → Prop} (h : Ends op w fun _ v => P v) :
    Ends (Act.attempt op) w fun _ v => P v := Act.ends_attempt h

theorem ends_perform {op : Op Text} {P : World → Prop} (h : Ends op w fun _ v => P v) :
    Ends (Act.perform op) w fun _ v => P v :=
  .bind (ends_attempt h) (fun _ _ done => done) fun _ _ done => done

theorem keeps_of_ends {op : Op α} (h : R.inv w → Ends op w fun _ v => R.Leads w v) :
    R.Keeps (Act.attempt op) (Act.attempt op) w := fun inv =>
  .refl (Act.ends_attempt ((h inv).mono fun _ _ done => ⟨done, fun _ _ => trivial⟩))

/-- An operation that may be refused. -/
theorem keeps_perform {op : Op Text} (h : R.inv w → Ends op w fun _ v => R.Leads w v) :
    R.Keeps (Act.perform op) (Act.perform op) w := fun inv =>
  .refl (.bind (keeps_of_ends h inv).ends (fun _ _ done => ⟨done.1, fun _ _ => trivial⟩)
    fun stop _ done => ⟨by cases stop <;> exact done.1, fun _ _ => trivial⟩)

/-- An operation that only reads, and what its outcome leads to. -/
theorem keeps_attempt {op : Op β} {f g : Except Fault β → Act α} (reads : Op.Reads op)
    (ok : ∀ b, op w = .ok b w → R.Keeps (f (.ok b)) (g (.ok b)) w)
    (error : ∀ fault, R.Keeps (f (.error fault)) (g (.error fault)) w) :
    R.Keeps (Act.attempt op >>= f) (Act.attempt op >>= g) w := by
  intro inv
  refine .after ?_
  have same := reads w
  simp only [Act.attempt, Ends] at same ⊢
  cases result : op w with
  | ok b v =>
    simp only [result] at same ⊢
    subst same
    exact ok b result inv
  | error fault v =>
    simp only [result] at same ⊢
    subst same
    exact error fault inv

/-- A crash is an outcome like any other. -/
theorem ends_guarded {x : Act α} {P : Except Stop α → World → Prop} (h : Ends x w P) :
    Ends (Act.guarded x) w fun r v =>
      match r with
      | .ok (.ok a) => P (.ok a) v
      | .ok (.error message) => P (.error (.crash message)) v
      | .error stop => P (.error stop) v := by
  unfold Ends at h ⊢
  unfold Act.guarded
  cases result : x w with
  | ok a v =>
    rw [result] at h
    exact h
  | error stop v =>
    rw [result] at h
    cases stop <;> exact h

theorem Gives.guarded {x y : Act α} {Q : α → World → Prop} (h : R.Gives x y w Q) :
    R.Gives (Act.guarded x) (Act.guarded y) w fun r v => ∀ a, r = .ok a → Q a v := by
  intro inv
  obtain ⟨ends, same⟩ := h inv
  refine ⟨(ends_guarded ends).mono fun r v done => ?_, same.imp (fun same => ?_) ?_⟩
  · rcases r with stop | message | a
    · exact ⟨by cases stop <;> exact done.1, fun _ h => nomatch h⟩
    · exact ⟨done.1, fun _ h _ h' => by cases h; cases h'⟩
    · exact ⟨done.1, fun _ h b h' => by cases h; cases h'; exact done.2 a rfl⟩
  · simp only [Act.guarded, same]
  · rintro ⟨u, given, on⟩
    refine ⟨u, by simp only [Act.guarded, given], (ends_guarded on).mono fun r v led => ?_⟩
    rcases r with stop | message | a <;> exact led

/-- Whatever an action comes to, it is tidied up after, unless it is overtaken. -/
theorem ends_ensuring {x : Act α} {cleanup : World → World} {P Q : Except Stop α → World → Prop}
    (h : Ends x w P) (strayed : ∀ pending v, P (.error (.overtaken pending)) v →
      Q (.error (.overtaken (pending + 1))) v)
    (ended : ∀ r v, P r v → (∀ pending, r ≠ .error (.overtaken pending)) → Q r (cleanup v)) :
    Ends (Act.ensuring cleanup x) w Q := by
  unfold Ends at h ⊢
  unfold Act.ensuring
  cases result : x w with
  | ok a v =>
    rw [result] at h
    exact ended _ _ h nofun
  | error stop v =>
    rw [result] at h
    cases stop with
    | overtaken pending => exact strayed _ _ h
    | crash message => exact ended _ _ h nofun
    | exhausted => exact ended _ _ h nofun

namespace Lawful

variable (law : R.Lawful)

include law

theorem leads_refl (inv : R.inv w) : R.Leads w w := ⟨inv, law.refl inv⟩

theorem leads_trans (h : R.Leads w v) (h' : R.Leads v u) : R.Leads w u :=
  ⟨h'.1, law.trans h.2 h'.2⟩

/-- Whatever two actions come to, it is tidied up after both. -/
theorem tracks_ensuring {x y : Act α} {cleanup : World → World} {S P : World → Prop}
    (tidies : ∀ v : World, v.Tidies (cleanup v)) (h : Tracks R.onward x y w (Reached S P)) :
    Tracks R.onward (Act.ensuring cleanup x) (Act.ensuring cleanup y) w
      (Reached S fun v => ∃ u, P u ∧ v = cleanup u) := by
  refine ⟨ends_ensuring h.ends (fun _ _ stray => stray) fun r v done ended => ?_,
    h.same.imp (fun same => ?_) ?_⟩
  · match r, done with
    | .error (.overtaken pending), _ => exact (ended pending rfl).elim
    | .error (.crash _), done | .error .exhausted, done | .ok _, done => exact ⟨v, done, rfl⟩
  · simp only [Act.ensuring, same]
  · rintro ⟨u, given, on⟩
    exact ⟨cleanup u, by simp only [Act.ensuring, given], ends_ensuring on
      (fun _ v on => law.onward_tidy (tidies u) (.refl World.composes_tidies v) on)
      fun _ v on _ => law.onward_tidy (tidies u) (tidies v) on⟩

theorem gives_pure {a : α} {Q : α → World → Prop} (h : Q a w) : R.Gives (pure a) (pure a) w Q :=
  fun inv => .refl ⟨law.leads_refl inv, fun _ same => Except.ok.inj same ▸ h⟩

theorem pure (a : α) : R.Keeps (Pure.pure a) (Pure.pure a) w := law.gives_pure trivial

theorem gives_throw {stop : Stop} {Q : α → World → Prop}
    (ended : ∀ pending, stop ≠ .overtaken pending) :
    R.Gives (throw stop : Act α) (throw stop) w Q := fun inv => by
  refine .refl ⟨?_, fun _ h => nomatch h⟩
  cases stop with
  | overtaken pending => exact (ended pending rfl).elim
  | crash message => exact law.leads_refl inv
  | exhausted => exact law.leads_refl inv

theorem exhausted : R.Keeps (throw .exhausted : Act α) (throw .exhausted) w := law.gives_throw nofun

theorem crash (message : Text) :
    R.Keeps (throw (.crash message) : Act α) (throw (.crash message)) w := law.gives_throw nofun

/-- What an action reaches that follows one. -/
theorem reaches_trans {r : Except Stop α} {v' : World} (led : R.Leads w v) (reached : R.Reaches v r v') :
    R.Reaches w r v' :=
  reached.imp (law.strays_trans led) (law.leads_trans led)

/-- Where a run that was given up would have gone on to, it goes on from there. -/
theorem onward_reaches {r : Except Stop α} {v' : World} (on : R.onward u v)
    (reached : R.Reaches v r v') : R.onward u v' := by
  match r, reached with
  | .error (.overtaken _), strayed => exact law.onward_strays on strayed
  | .error (.crash _), led | .error .exhausted, led | .ok _, led => exact law.onward_trans on led

/-- One action after another. -/
theorem gives_bind {x y : Act α} {f g : α → Act β} {P : α → World → Prop} {Q : β → World → Prop}
    (first : R.Gives x y w P) (next : ∀ a v, R.Leads w v → P a v → R.Gives (f a) (g a) v Q) :
    R.Gives (x >>= f) (y >>= g) w Q := by
  intro inv
  obtain ⟨ends, same⟩ := first inv
  refine ⟨.bind ends (fun a v done => ?_) fun e v done => ⟨?_, fun _ h => nomatch h⟩, ?_⟩
  · exact (next a v done.1 (done.2 a rfl) done.1.1).ends.mono fun _ _ rest =>
      ⟨law.reaches_trans done.1 rest.1, rest.2⟩
  · cases e <;> exact done.1
  · rcases same with same | ⟨u, given, on⟩
    · unfold Ends at ends ⊢
      simp only [Bind.bind, EStateM.bind, same]
      cases result : y w with
      | ok a v =>
        simp only [result] at ends
        exact (next a v ends.1 (ends.2 a rfl) ends.1.1).same
      | error e v => exact .inl rfl
    · -- The first action was given up: what follows it leads on from where the second came to.
      refine .inr ⟨u, by simp only [Bind.bind, EStateM.bind, given], ?_⟩
      refine .bind (ends.and on) (fun a v done => ?_) fun e v done => done.2
      obtain ⟨⟨led, value⟩, on⟩ := done
      exact (next a v led (value a rfl) led.1).ends.mono fun _ _ rest =>
        law.onward_reaches on rest.1

theorem bind {x y : Act α} {f g : α → Act β} (first : R.Keeps x y w)
    (next : ∀ a v, R.Keeps (f a) (g a) v) : R.Keeps (x >>= f) (y >>= g) w :=
  law.gives_bind first fun a v _ _ => next a v

theorem log (level : Level) (id : NodeId) (message : Text) (fields : List (Text × Text)) :
    R.Keeps (Act.log level id message fields) (Act.log level id message fields) w :=
  keeps_modify fun inv => law.rests inv (.logNode level id message fields w)

theorem ensuring {x y : Act α} {cleanup : World → World} (h : R.Keeps x y w)
    (tidies : ∀ v : World, v.Tidies (cleanup v)) (clean : ∀ v, R.inv v → R.Leads v (cleanup v)) :
    R.Keeps (Act.ensuring cleanup x) (Act.ensuring cleanup y) w := fun inv =>
  (law.tracks_ensuring tidies ((h inv).mono fun _ _ done => done.1)).mono fun _ _ done =>
    ⟨done.mono (fun ⟨u, led, same⟩ => same ▸ law.leads_trans led (clean u led.1)),
      fun _ _ => trivial⟩

/-- Watchdogs that run look one after the other; none stops meanwhile. -/
theorem leads_lookAll {nodes : List Node} (inv : R.inv w)
    (running : ∀ n ∈ nodes, n.cancel.watchdog.isSome = true →
      ∃ m, w.node? n.id = some m ∧ m.cancel.watchdog.isSome = true) :
    R.Leads w (nodes.foldl
      (fun v n => if n.cancel.watchdog.any (· ≤ v.clock) then v.lookWatchdog n.id else v) w) := by
  induction nodes generalizing w with
  | nil => exact law.leads_refl inv
  | cons n nodes ih =>
    rw [List.foldl_cons]
    have later := fun k mem => running k (List.mem_cons_of_mem n mem)
    split
    · rename_i due
      have due : n.cancel.watchdog.isSome = true := by
        cases set : n.cancel.watchdog with
        | none => simp [set] at due
        | some instant => rfl
      obtain ⟨m, found, on⟩ := running n List.mem_cons_self due
      have first := law.look inv found on
      refine law.leads_trans first (ih first.1 fun k mem set => ?_)
      obtain ⟨j, foundJ, onJ⟩ := later k mem set
      obtain ⟨j', foundJ', change⟩ :=
        (World.changes_lookWatchdog n.id w).nodes.node k.id j foundJ
      refine ⟨j', foundJ', ?_⟩
      by_cases same : k.id = n.id
      · rw [same] at change
        rw [World.at_same.mp change]
        rfl
      · rw [(World.at_ne same).mp change]
        exact onJ
    · exact ih inv later

/-- A moment passes, and the watchdogs that are due look. -/
theorem leads_pass (inv : R.inv w) : R.Leads w w.pass := by
  have waited : R.Leads w { w with clock := w.clock + World.moment } :=
    law.rests inv ⟨rfl, rfl, .refl _⟩
  refine law.leads_trans waited ?_
  unfold World.pass World.lookDue
  rw [← Array.foldl_toList]
  refine law.leads_lookAll waited.1 fun n mem set => ?_
  obtain ⟨i, found⟩ := List.mem_iff_getElem?.mp mem
  have there : w.node? (i + 1) = some n := by simpa [World.node?_succ] using found
  rw [law.numbered inv _ n there]
  exact ⟨n, there, set⟩

theorem leads_reach (instant : Int) (inv : R.inv w) : R.Leads w (w.reach instant) :=
  law.rests inv ⟨rfl, rfl, .refl _⟩

/-- A change of the work of a node. -/
theorem leads_stir {f : Node → Node} (inv : R.inv w) (near : R.Near id)
    (h : ∀ n, w.node? id = some n → n.Stirs (f n)) : R.Leads w (w.modifyNode id f) :=
  law.stirs inv near (.modifyNode (World.composes_stirs id) fun n found =>
    World.at_same.mpr (h n found))

end Lawful

/-! ### Changes node by node -/

/-- The regime allows changes by which each node becomes what `P` says. -/
structure Allows (R : Regime) (P : NodeId → Node → Node → Prop) : Prop where
  composes : World.Composes P
  leads : ∀ {w v}, R.inv w → World.Each P w v → R.Leads w v

namespace Allows

variable {P : NodeId → Node → Node → Prop} {n : Node} (allows : R.Allows P)

include allows

theorem same (inv : R.inv w) (nodes : v.nodes = w.nodes) : R.Leads w v :=
  allows.leads inv (.of_nodes_eq allows.composes nodes)

theorem modify {f : Node → Node} (inv : R.inv w)
    (h : ∀ n, w.node? id = some n → P id n (f n)) : R.Leads w (w.modifyNode id f) :=
  allows.leads inv (.modifyNode allows.composes f h)

/-- A node that is there is replaced. -/
theorem replace {n' : Node} (inv : R.inv w) (found : w.node? id = some n) (h : P id n n') :
    R.Leads w (w.modifyNode id fun _ => n') :=
  allows.modify inv fun m here => by
    obtain rfl : n = m := Option.some.inj (found.symm.trans here)
    exact h

theorem changed {Q : Node → Node → Prop} (inv : R.inv w)
    (changes : World.Changes (World.At id Q) w v)
    (h : ∀ n n', w.node? id = some n → Q n n' → P id n n') : R.Leads w v :=
  allows.leads inv (changes.nodes.of_at allows.composes fun n n' found _ => h n n' found)

theorem released (inv : R.inv w) (found : w.node? id = some n)
    (changes : World.Changes (World.Released n id) w v)
    (bare : ∀ n', v.node? id = some n' → n'.IsBare)
    (h : ∀ n', n.Strips n n' → n'.IsBare → P id n n') : R.Leads w v :=
  allows.leads inv (changes.nodes.of_at allows.composes fun m m' here found' strips => by
    obtain rfl : n = m := Option.some.inj (found.symm.trans here)
    exact h m' strips (bare m' found'))

theorem looked (inv : R.inv w)
    (h : ∀ n : Node, P id n { n with cancel := (n.cancel.tick w.clock).2 }) :
    R.Leads w (w.lookWatchdog id) :=
  allows.changed inv (World.changes_lookWatchdog id w) fun n _ _ ticked => ticked ▸ h n

theorem posted {force unwind : Bool} {message : Text} (inv : R.inv w)
    (posted : w.postCancel id force unwind message = .ok v)
    (h : ∀ n c, w.node? id = some n → n.cancel.cancel force unwind message = .ok c →
      P id n { n with cancel := c }) : R.Leads w v := by
  obtain ⟨n, c, found, canceled, changes⟩ := World.of_postCancel posted
  refine allows.changed inv changes fun m m' _ change => ?_
  obtain ⟨rfl, rfl⟩ := change
  exact h m c found canceled

theorem left {options : ServiceOptions} (inv : R.inv w)
    (h : options.noCancel = true →
      ∀ n : Node, P id n { n with cancel := (n.cancel.reset true).2 }) :
    R.Leads w (options.leave id w) := by
  unfold ServiceOptions.leave
  split
  · rename_i clears
    exact allows.modify inv fun n _ => h clears n
  · exact allows.same inv rfl

/-- A frame may be pushed, and is popped again, where it does not matter which frames a node has. -/
theorem pushed {name : Text} {flags : Nat} (calm : ∀ (n : Node) frames, P id n { n with frames })
    (inv : R.inv w) : R.Leads w (w.framed id name flags n) :=
  allows.modify inv fun m _ => calm m _

theorem popped {name : Text} {flags : Nat} (trans : ∀ {w v u}, R.rel w v → R.rel v u → R.rel w u)
    (calm : ∀ (n : Node) frames, P id n { n with frames }) (inv : R.inv w)
    (led : R.Leads (w.framed id name flags n) v) : R.Leads w (v.unframed id name flags n) := by
  have entered : R.Leads w (w.framed id name flags n) := allows.pushed calm inv
  have left := allows.modify led.1 fun m _ =>
    calm m (m.frames.popThrough (n.frames.push name flags).1).2
  exact ⟨left.1, trans (trans entered.2 led.2) left.2⟩

/-- A worker is overtaken where it does not matter whether it is in the middle of an item. -/
theorem overtaken {pending : Nat} (trans : ∀ {w v u}, R.rel w v → R.rel v u → R.rel w u)
    (calm : ∀ n : Node, P id n { n with unfinished := some pending }) (strayed : R.Leads w v) :
    R.Leads w (World.overtake id pending { v with horizon := w.horizon }) := by
  have back : R.Leads v { v with horizon := w.horizon } := allows.same strayed.1 rfl
  have left : R.Leads _ (World.overtake id pending _) := allows.modify back.1 fun n _ => calm n
  exact ⟨left.1, trans (trans strayed.2 back.2) left.2⟩

/-- An evaluation is entered and left again, and what becomes of the controllers does not matter. -/
theorem evaluated (trans : ∀ {w v u}, R.rel w v → R.rel v u → R.rel w u)
    (calm : ∀ (n : Node) c, P id n { n with cancel := c }) (inv : R.inv w)
    (led : R.Leads (w.modifyNode id fun n => { n with cancel := n.cancel.enter w.clock }) v) :
    R.Leads w (v.modifyNode id fun n => { n with cancel := n.cancel.exit }) := by
  have entered := allows.modify inv fun n _ => calm n (n.cancel.enter w.clock)
  have left := allows.modify led.1 fun n _ => calm n n.cancel.exit
  exact ⟨left.1, trans (trans entered.2 led.2) left.2⟩

end Allows

end Regime

end InterpTree
