import InterpTree.Proofs.Deeds

/-!
Moments in the history of a tree. Main statement: whatever hosts and scripts do, from any moment on
trust that was made immutable stays as it is, nodes once trusted stay trusted, and namespaces and
profiles never change.
-/

namespace InterpTree

/-- The world after a deed. Runs have some pace and fuel. -/
def Deed.apply (pace : Pace) (fuel : Nat) (w : World) (d : Deed) : World :=
  w.after (d.act (.upTo pace (fun _ _ => false) fuel))

/-- The world after some deeds, one after the other. -/
def World.aged (pace : Pace) (fuel : Nat) (w : World) (deeds : List Deed) : World :=
  deeds.foldl (Deed.apply pace fuel) w

/-- A moment in the history of a tree: some deeds are done, and one more is, or is under way up to
the first request that `stops`. -/
structure Moment where
  past : List Deed
  deed : Deed
  stops : Request → World → Bool := fun _ _ => false

namespace Moment

/-- The world at a moment. -/
def world (pace : Pace) (fuel : Nat) (w : World) (m : Moment) : World :=
  (w.aged pace fuel m.past).after (m.deed.act (.upTo pace m.stops fuel))

/-- The second moment is no earlier than the first. -/
inductive Precedes (m m' : Moment) : Prop
  | within (past : m'.past = m.past) (deed : m'.deed = m.deed)
      (later : ∀ r v, m'.stops r v = true → m.stops r v = true)
  | past (done : m.past ++ [m.deed] <+: m'.past)

end Moment

namespace Regime

variable {frozen : NodeId → Prop} {stops stops' : Request → World → Bool} {w : World}

/-- Runs that are given up before a frozen node is thawed, one of them no later than the other. -/
theorem heeding_twins (pace : Pace) (later : ∀ r v, stops' r v = true → stops r v = true)
    (cold : ∀ s, frozen s → ∀ r v, r.thaws s v = true → stops' r v = true) (fuel : Nat) :
    (heeding frozen).Twins (.upTo pace stops fuel) (.upTo pace stops' fuel) := by
  have paces : (heeding frozen).Paces pace := fun _ _ inv => ⟨inv, .refl _⟩
  refine ⟨rfl, fun r v meets => ?_, fun _ _ _ _ denier _ _ => denier.elim, rfl, paces⟩
  refine (lawful_heeding frozen).runUntil stops stops' paces (fun r v _ _ _ => ?_)
    (fun r v _ _ kept s held => ?_)
    (fun _ _ closed => closed.elim) (fun _ _ _ _ _ denier _ _ => denier.elim) fuel r v meets
  · cases stopped : stops r v with
    | true => exact .inr ⟨rfl, .refl _⟩
    | false =>
      refine .inl (Eq.symm ?_)
      cases stopped' : stops' r v with
      | true => rw [later r v stopped'] at stopped; cases stopped
      | false => rfl
  · cases thaws : r.thaws s v with
    | true => rw [cold s held r v thaws] at kept; cases kept
    | false => rfl

/-- The later of two moments of a deed heeds the earlier. -/
theorem heeds_of_tracks {α : Type} {x y : Act α} (inv : w.IsHeedful)
    (h : (heeding frozen).Keeps x y w) : World.Heeds frozen (w.after x) (w.after y) := by
  rcases (h inv).same with same | ⟨u, given, on⟩
  · have same : w.after x = w.after y := by simp only [World.after, same]
    rw [same]
    exact .refl _
  · have there : w.after x = u := by simp only [World.after, given]
    rw [there]
    exact on.after

end Regime

namespace World

variable {w : World} (pace : Pace) (fuel : Nat) {i : NodeId} {n : Node}

theorem isHeedful_plant {settings : Settings} {host : Host} (h : plant settings host = .ok w) :
    w.IsHeedful := by
  obtain ⟨k, isNew, -, -, foundRoot, only⟩ := plant_root h
  refine ⟨(isKept_plant h).numbered, ⟨_, foundRoot, .inl rfl⟩, fun i n found => ?_⟩
  obtain ⟨-, rfl⟩ := only i n found
  exact .of_attached rfl isNew.released isNew.retiring

variable {frozen : NodeId → Prop} {stops : Request → World → Bool}

/-- A deed, as far as it is done, heeds. -/
theorem leads_deed (inv : w.IsHeedful) {d : Deed} (held : ∀ s, frozen s → d.thaws s w = false)
    (cold : ∀ s, frozen s → ∀ r v, r.thaws s v = true → stops r v = true) :
    (Regime.heeding frozen).Leads w (w.after (d.act (.upTo pace stops fuel))) := by
  have twins := Regime.heeding_twins pace (fun _ _ stopped => stopped) cold fuel
  exact ((d.keeps_act (Regime.lawful_heeding frozen) twins held inv).ends.mono fun _ _ done => done.1.elim id).after

/-- A request, as far as it is answered, heeds. -/
theorem leads_request (inv : w.IsHeedful)
    (cold : ∀ s, frozen s → ∀ r v, r.thaws s v = true → stops r v = true) (r : Request) :
    (Regime.heeding frozen).Leads w (w.after (Engine.runUntil pace stops fuel r)) := by
  have law := Regime.lawful_heeding frozen
  have may : (Regime.heeding frozen).May r := by cases r <;> simp [Regime.May, Regime.heeding]
  have kept : (Regime.heeding frozen).Keeps (Engine.runUntil pace stops fuel r)
      (Engine.runUntil pace stops fuel r) w := by
    -- Who asks for a command from outside need not have found it.
    cases fuel with
    | zero => exact law.exhausted
    | succ fuel =>
      have twins := Regime.heeding_twins pace (fun _ _ stopped => stopped) cold fuel
      refine Regime.keeps_get fun _ => ?_
      split
      · exact law.exhausted
      · rename_i going
        refine law.step twins r may fun s held => ?_
        cases thaws : r.thaws s w with
        | true => exact absurd (cold s held r w thaws) going
        | false => rfl
  exact ((kept inv).ends.mono fun _ _ done => done.1.elim id).after

/-- A deed, as far as it is done, heeds where no tables are frozen. -/
theorem leads_any (inv : w.IsHeedful) (d : Deed) (stops : Request → World → Bool) :
    (Regime.heeding fun _ => False).Leads w (w.after (d.act (.upTo pace stops fuel))) :=
  leads_deed pace fuel inv (fun _ never => never.elim) fun _ never => never.elim

theorem leads_aged (inv : w.IsHeedful) (deeds : List Deed) :
    (Regime.heeding fun _ => False).Leads w (w.aged pace fuel deeds) :=
  foldl_induction (I := (Regime.heeding fun _ => False).Leads w)
    (fun _ d led => (Regime.lawful_heeding _).leads_trans led (leads_any pace fuel led.1 d _))
    ((Regime.lawful_heeding _).leads_refl inv) deeds

theorem isHeedful_world (inv : w.IsHeedful) (m : Moment) : (m.world pace fuel w).IsHeedful :=
  (leads_any pace fuel (leads_aged pace fuel inv m.past).1 m.deed m.stops).1

/-- Of two moments the later heeds the earlier. -/
theorem heeds_moment (inv : w.IsHeedful) {m m' : Moment} (order : m.Precedes m') :
    Heeds (fun _ => False) (m.world pace fuel w) (m'.world pace fuel w) := by
  have start := (leads_aged pace fuel inv m.past).1
  have within (stops : Request → World → Bool) (later : ∀ r v, stops r v = true → m.stops r v = true) :
      Heeds (fun _ => False) (m.world pace fuel w)
        ((w.aged pace fuel m.past).after (m.deed.act (.upTo pace stops fuel))) :=
    have twins : (Regime.heeding fun _ => False).Twins _ _ :=
      Regime.heeding_twins pace later (fun _ never => never.elim) fuel
    Regime.heeds_of_tracks start (m.deed.keeps_act (Regime.lawful_heeding _) twins fun _ never => never.elim)
  cases order with
  | within past deed later =>
    unfold Moment.world
    rw [past, deed]
    exact within _ later
  | past done =>
    -- First the deed of the earlier moment is done, then the others up to the deed of the later one.
    obtain ⟨rest, same⟩ := done
    have whole := leads_any pace fuel start m.deed fun _ _ => false
    have second := leads_aged pace fuel whole.1 rest
    have third := leads_any pace fuel second.1 m'.deed m'.stops
    have split : w.aged pace fuel m'.past = ((w.aged pace fuel m.past).after
        (m.deed.act (.upTo pace (fun _ _ => false) fuel))).aged pace fuel rest := by
      rw [← same]
      simp only [aged, List.foldl_append, List.foldl_cons, List.foldl_nil, Deed.apply]
    refine ((within (fun _ _ => false) fun _ _ never => nomatch never).trans second.2).trans ?_
    rw [Moment.world, split]
    exact third.2

end World

/-! ### Toggles -/

namespace Control

/-- The subcommands that change trust. -/
def toggles : List Text := ["immutable", "makesafe", "makestandard", "marktrusted", "readonly"]

variable {i : Invocation} {w : World} {α : Type}

/-- The operation changes the trust of a node, or nothing. -/
def Toggles (i : Invocation) (x : Op α) : Prop :=
  ∀ w, Ends x w fun _ v => v = w ∨ ∃ c path, v = TrustChange.apply i.node path c w

theorem toggles_of_reads {x : Op α} (h : Op.Reads x) : Toggles i x := fun w =>
  (h w).mono fun _ _ same => .inl same

theorem Toggles.after {β : Type} {x : Op β} {f : β → Op α} (h : Op.Reads x)
    (next : ∀ a, Toggles i (f a)) : Toggles i (x >>= f) := fun w =>
  .bind (h w) (fun a v same => same ▸ next a v) fun _ _ same => .inl same

theorem toggles_run (c : TrustChange) (path result : Text) :
    Toggles i (do c.run i.node path; return result : Op Text) := fun w =>
  .bind (c.ends_apply i.node path w) (fun _ _ done => .inr ⟨c, path, done⟩) fun _ _ done =>
    .inr ⟨c, path, done⟩

theorem toggles_toggle (get : Trust → Bool) (change : Bool → TrustChange) (words : List Text) :
    Toggles i (toggle get (fun caller path on => (change on).run caller path) i words) := by
  unfold toggle
  split
  · exact .after (Op.reads_lift _) fun on => toggles_run _ _ _
  · exact toggles_of_reads ((Op.reads_resolve _ _).bind fun target => (Op.reads_node target).bind
      fun n => Op.Reads.pure _)

theorem toggles_switchOn (get : Trust → Bool) (change : Bool → TrustChange) (words : List Text) :
    Toggles i (switchOn get (fun caller path on => (change on).run caller path) i words) := by
  unfold switchOn
  split <;> exact toggles_toggle get change _

/-- A call that names a subcommand, with as many words as that takes. -/
theorem dispatch_of_find {e : Engine} {call : Call} {name : Text} {words : List Text} {s : Subcommand}
    (args : call.args = name :: words) (found : (subcommands.find? fun s => s.name == name) = some s)
    (enough : s.least ≤ words.length) (few : s.most.any (· < words.length) = false) :
    dispatch e call = s.run e (.of call s.name) words := by
  unfold dispatch
  rw [args]
  dsimp only
  rw [found]
  dsimp only
  rw [Subcommand.apply, decide_eq_false (Nat.not_lt.mpr enough), few]
  rfl

/-- A subcommand that changes trust does nothing else. -/
theorem ends_dispatch_toggle (e : Engine) {call : Call} {name : Text} {words : List Text}
    (args : call.args = name :: words) (named : name ∈ toggles) (w : World) :
    Ends (dispatch e call) w fun _ v =>
      v = w ∨ ∃ c path, v = TrustChange.apply call.node path c w := by
  have applied {s : Subcommand} {f : Invocation → List Text → Op Text} (run : s.run = plain f)
      (h : ∀ words, Toggles (.of call s.name) (f (.of call s.name) words)) :
      Ends (s.apply e call words) w fun _ v =>
        v = w ∨ ∃ c path, v = TrustChange.apply call.node path c w := by
    unfold Subcommand.apply
    split
    · exact .inl rfl
    · rw [run]
      exact Regime.ends_perform (h words w)
  unfold dispatch
  rw [args]
  simp only [toggles, List.mem_cons, List.not_mem_nil, or_false] at named
  rcases named with rfl | rfl | rfl | rfl | rfl
  · exact applied rfl fun words => toggles_toggle Trust.immutable .immutable words
  · exact applied rfl fun words => toggles_switchOn Trust.safe .safe words
  · exact applied rfl fun words => toggles_switchOn Trust.standard .standard words
  · exact applied rfl fun words => toggles_run .trusted _ _
  · exact applied rfl fun words => toggles_toggle Trust.readOnly .readOnly words

end Control

/-- A change of trust does nothing to a node whose trust is immutable. -/
theorem TrustChange.node?_apply {w : World} {i : NodeId} {n : Node} (found : w.node? i = some n)
    (immutable : n.trust.immutable = true) (caller : NodeId) (path : Text) (c : TrustChange) :
    (c.apply caller path w).node? i = some n := by
  rcases c.apply_cases caller path w with ⟨same, -⟩ | ⟨-, target, m, takes⟩
  · rw [same]
    exact found
  · refine (takes.amends.node?_ne fun here => ?_).trans found
    subst here
    obtain rfl : n = m := Option.some.inj (found.symm.trans takes.amends.found)
    rw [takes.mutable] at immutable
    cases immutable

/-! ### What is for good -/

namespace World

/-- Whatever is done to a fresh tree, by operations or by scripts: from any moment on the trust of a
node that is immutable stays as it is, and no change of trust does anything to that node; a node that
is trusted stays trusted; and namespaces and profiles stay as they are. -/
theorem trust_monotone_from_plant {settings : Settings} {host : Host} {w : World}
    (planted : plant settings host = .ok w) (pace : Pace) (fuel : Nat) {m m' : Moment} (order : m.Precedes m')
    {i : NodeId} {n : Node} (found : (m.world pace fuel w).node? i = some n) :
    (∃ n', (m'.world pace fuel w).node? i = some n' ∧
      (n.trust.immutable = true → n'.trust = n.trust) ∧
      (n.trust.trusted = true → n'.trust.trusted = true) ∧
      n'.trust.namespaces = n.trust.namespaces ∧ n'.trust.profile = n.trust.profile) ∧
    (n.trust.immutable = true →
      (∀ caller path (c : TrustChange),
        (c.apply caller path (m.world pace fuel w)).node? i = some n) ∧
      ∀ e call name words, call.args = name :: words → name ∈ Control.toggles →
        Ends (Control.dispatch e call) (m.world pace fuel w) fun _ v => v.node? i = some n) := by
  obtain ⟨n', found', heeds⟩ := heeds_moment pace fuel (isHeedful_plant planted) order i n found
  refine ⟨⟨n', found', heeds.immutable, heeds.trusted, heeds.namespaces, heeds.profile⟩,
    fun immutable => ⟨TrustChange.node?_apply found immutable, ?_⟩⟩
  intro e call name words args named
  refine (Control.ends_dispatch_toggle e args named _).mono fun _ v done => ?_
  rcases done with rfl | ⟨c, path, rfl⟩
  · exact found
  · exact TrustChange.node?_apply found immutable call.node path c

/-- A child of the root is created and trusted, and then sealed. -/
def sealing : Moment where
  past := [.tree (.create root [] "a" {}), .trust root "a" .trusted]
  deed := .trust root "a" (.immutable true)

/-- The child is sealed, and a script of the root makes it safe, which is refused, and hides one of
its commands. -/
def meddling : Moment where
  past := sealing.past ++ [sealing.deed]
  deed := .evaluate none root "catch {interp makesafe a}; interp hide a set"

/-- The trust of the child lasts, and its commands can be hidden one by one, but not by a change of
trust. -/
theorem trust_monotone_from_plant_sealed :
    ∃ n n', (sealing.world .timely 20 sapling).node? 2 = some n ∧ (meddling.world .timely 20 sapling).node? 2 = some n' ∧
      n.trust.immutable = true ∧ n.trust.trusted = true ∧ n'.trust = n.trust ∧
      n'.commands ≠ n.commands ∧
      (TrustChange.apply root "a" (.safe true) (sealing.world .timely 20 sapling)).node? 2 = some n := by
  have sealed : ((sealing.world .timely 20 sapling).node? 2).any
      (fun n => n.trust.immutable && n.trust.trusted &&
        ((meddling.world .timely 20 sapling).node? 2).any fun n' => n'.commands != n.commands) = true := by
    decide +kernel
  obtain ⟨n, found, marked⟩ := Option.any_eq_true _ _ |>.mp sealed
  simp only [Bool.and_eq_true] at marked
  obtain ⟨⟨immutable, trusted⟩, hidden⟩ := marked
  have order : sealing.Precedes meddling := .past (List.prefix_refl _)
  obtain ⟨⟨n', found', same, -⟩, still⟩ := trust_monotone_from_plant plant_sapling .timely 20 order found
  rw [found', Option.any_some, bne_iff_ne] at hidden
  exact ⟨n, n', found, found', immutable, trusted, same immutable, hidden,
    (still immutable).1 root "a" (.safe true)⟩

end World

end InterpTree
