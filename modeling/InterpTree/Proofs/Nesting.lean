import Mathlib.Algebra.GroupWithZero.Nat
import Mathlib.Algebra.Order.BigOperators.Group.List
import Mathlib.Algebra.Order.Group.Nat
import InterpTree.Proofs.Leveling
import InterpTree.Proofs.Mediation

/-!
How deep requests nest. While a request is being answered others are made. An evaluation that is
being answered counts once in the depth of its node, and a call through an alias by one frame; so
what the two limits say of depths and frames bounds how many requests there are at a time. `Always`
says what holds whenever a request comes, up to where a limit is changed.
-/

namespace InterpTree

theorem FrameFlags.isAlias_forwarding : isAlias (restricted + viaAlias) = true := by decide

/-- The limit on the nesting in a node; there is none unless it is positive. -/
def Node.limit (n : Node) : Int := n.cancel.limits.recursionLimit

/-- How many frames of calls through aliases a node has. -/
def Node.aliasFrames (n : Node) : Nat := n.frames.frames.countP fun f => FrameFlags.isAlias f.flags

namespace Request

/-- Whether the request is a call through an alias of node `i`. -/
def forwards (i : NodeId) : Request → Bool
  | .perform call (.forward _) => call.node = i
  | _ => false

/-- Whether the request is an evaluation or a call through an alias. -/
def nests : Request → Bool
  | .evaluate .. => true
  | .perform _ (.forward _) => true
  | _ => false

/-- The requests that are being answered once the request has come. One for a node that was never
made does not count. -/
def joins (active : List Request) (w : World) (r : Request) : List Request :=
  if (w.node? r.node).isSome then r :: active else active

section
variable {r : Request} {active : List Request}

/-- A request that is neither counts for nothing. -/
theorem countP_of_not_nests (plain : r.nests = false) (i : NodeId) :
    (r :: active).countP (evaluates i) = active.countP (evaluates i) ∧
      (r :: active).countP (forwards i) = active.countP (forwards i) := by
  cases r with
  | evaluate context id script => cases plain
  | perform call action =>
    cases action with
    | forward a => cases plain
    | _ => simp [evaluates, forwards]

/-- One request counts at most once. -/
theorem countP_cons_le (i : NodeId) :
    (r :: active).countP (evaluates i) + (r :: active).countP (forwards i) ≤
      active.countP (evaluates i) + active.countP (forwards i) + 1 := by
  cases plain : r.nests with
  | false =>
    obtain ⟨evaluates, forwards⟩ := @countP_of_not_nests r active plain i
    omega
  | true =>
    simp only [List.countP_cons]
    cases r with
    | evaluate context id script =>
      simp only [forwards, Bool.false_eq_true, if_false]
      split <;> omega
    | perform call action =>
      simp only [evaluates, Bool.false_eq_true, if_false]
      split <;> omega

theorem countP_joins_le (r : Request) (active : List Request) (w : World) (i : NodeId) :
    (r.joins active w).countP (evaluates i) + (r.joins active w).countP (forwards i) ≤
      active.countP (evaluates i) + active.countP (forwards i) + 1 := by
  unfold joins
  split
  · exact countP_cons_le i
  · exact Nat.le_succ _

/-- An evaluation or a call through an alias counts for its node. -/
theorem counts_of_nests (nests : r.nests = true) :
    evaluates r.node r = true ∨ forwards r.node r = true := by
  cases r with
  | evaluate context id script => exact .inl (by simp [evaluates, node])
  | perform call action =>
    cases action with
    | forward a => exact .inr (by simp [forwards, node])
    | _ => cases nests

/-- Evaluations and calls through aliases, counted node by node. -/
theorem countP_nests_le {ids : List NodeId} (there : ∀ r ∈ active, r.nests = true → r.node ∈ ids) :
    active.countP nests ≤
      (ids.map fun i => active.countP (evaluates i) + active.countP (forwards i)).sum := by
  induction active with
  | nil => simp
  | cons r rest ih =>
    have before := ih fun r' mem => there r' (List.mem_cons_of_mem r mem)
    cases counted : r.nests with
    | false =>
      rw [List.countP_cons_of_neg (by simp [counted])]
      simpa only [(countP_of_not_nests counted _).1, (countP_of_not_nests counted _).2] using before
    | true =>
      rw [List.countP_cons_of_pos counted]
      -- The request counts for its own node, which is one of those that are summed over.
      refine Nat.succ_le_of_lt (before.trans_lt (List.sum_lt_sum _ _ (fun i _ => ?_)
        ⟨r.node, there r List.mem_cons_self counted, ?_⟩))
      · simp only [List.countP_cons]
        omega
      · simp only [List.countP_cons]
        rcases counts_of_nests counted with here | here <;> simp only [here, if_true] <;> omega

end

/-- The world once the request has begun: unless it is refused, the evaluation is entered, or the
frame of the alias is pushed. -/
def begun (w : World) : Request → World
  | .evaluate _ id _ =>
    match w.node? id with
    | none => w
    | some n =>
      if n.dead || !w.settings.hasEvaluator then w
      else w.modifyNode id fun n => { n with cancel := n.cancel.enter w.clock }
  | .perform call (.forward a) =>
    match w.resolve? World.root a.targetPath, w.node? call.node with
    | some _, some n =>
      if 0 < n.limit ∧ n.limit ≤ n.frames.depth then w
      else w.framed call.node ("alias " ++ a.source) (FrameFlags.restricted + FrameFlags.viaAlias) n
    | _, _ => w
  | _ => w

end Request

namespace Engine

/-- Answers a request as `run` does, unless `watch` has something else done instead, which is told the
requests that are being answered, the latest first. -/
def runWatched (pace : Pace) (watch : Request → List Request → World → Option (Act Completion)) :
    Nat → List Request → Request → Act Completion
  | 0, _, _ => throw .exhausted
  | fuel + 1, active, request => do
    let w ← get
    match watch request (request.joins active w) w with
    | some instead => instead
    | none => step ⟨fuel, runWatched pace watch fuel (request.joins active w), pace⟩ request

/-- Whenever a request comes in a run that is given up where `stops` holds, `holds` is true of it, of
the requests that are being answered and of the world: it makes no difference to the run what is done
`instead` where it is not. -/
def Always (stops : World → Prop) (holds : World → Request → List Request → Prop)
    [DecidablePred stops] [∀ w r active, Decidable (holds w r active)] (pace : Pace) (fuel : Nat)
    (r : Request) (w : World) : Prop :=
  ∀ instead : Act Completion,
    runWatched pace (fun r active v =>
        if stops v then some (throw .exhausted) else if holds v r active then none else some instead)
      fuel [] r w =
    runWatched pace (fun _ _ v => if stops v then some (throw .exhausted) else none) fuel [] r w

end Engine

namespace World

variable {w v : World} {active : List Request} {r : Request} {ℓ : NodeId → Int}

/-- The limits of the nodes are as `ℓ` says. -/
def HasLimits (ℓ : NodeId → Int) (w : World) : Prop := ∀ n ∈ w.nodes.toList, n.limit = ℓ n.id

instance : Decidable (HasLimits ℓ w) :=
  inferInstanceAs (Decidable (∀ n ∈ w.nodes.toList, n.limit = ℓ n.id))

/-- What holds when request `r` comes, with which the `active` requests are being answered. -/
structure IsBounded (w : World) (r : Request) (active : List Request) : Prop where
  /-- Before it begins: in particular a script has a command called only within the limit. -/
  coming : ∀ n ∈ w.nodes.toList, 0 < n.limit →
    n.cancel.depth ≤ n.limit ∧ n.aliasFrames ≤ n.limit
  begun : ∀ n ∈ (r.begun w).nodes.toList, 0 < n.limit →
    n.cancel.depth ≤ n.limit + 1 ∧ n.aliasFrames ≤ n.limit
  /-- Unless a worker was overtaken, whose requests would count too. -/
  total : w.hasUnfinished = false → (∀ n ∈ w.nodes.toList, 0 < n.limit) →
    active.countP Request.nests ≤ (w.nodes.toList.map fun n => 2 * n.limit.toNat + 1).sum

instance : Decidable (IsBounded w r active) :=
  decidable_of_iff
    ((∀ n ∈ w.nodes.toList, 0 < n.limit → n.cancel.depth ≤ n.limit ∧ n.aliasFrames ≤ n.limit) ∧
      (∀ n ∈ (r.begun w).nodes.toList, 0 < n.limit →
        n.cancel.depth ≤ n.limit + 1 ∧ n.aliasFrames ≤ n.limit) ∧
      (w.hasUnfinished = false → (∀ n ∈ w.nodes.toList, 0 < n.limit) →
        active.countP Request.nests ≤ (w.nodes.toList.map fun n => 2 * n.limit.toNat + 1).sum))
    ⟨fun h => ⟨h.1, h.2.1, h.2.2⟩, fun h => ⟨h.coming, h.begun, h.total⟩⟩

/-- The levels of the nodes are those of the requests that are being answered. -/
structure Nests (w : World) (active : List Request) : Prop where
  depth : ∀ i, (w.level i).1 = active.countP (Request.evaluates i)
  frames : ∀ i, ((w.level i).2.countP fun f => FrameFlags.isAlias f.flags) =
    active.countP (Request.forwards i)

theorem Nests.levels (h : Nests w active) (levels : w.Levels v) : Nests v active :=
  ⟨fun i => by rw [levels.level, h.depth], fun i => by rw [levels.level, h.frames]⟩

/-- As many requests are being answered as the limits `ℓ` allow. -/
def Fits (ℓ : NodeId → Int) (active : List Request) : Prop := ∀ i, 0 < ℓ i →
  active.countP (Request.evaluates i) ≤ ℓ i ∧ active.countP (Request.forwards i) ≤ ℓ i

theorem Nests.plain (h : Nests w active) (plain : r.nests = false) : Nests w (r :: active) :=
  ⟨fun i => by rw [h.depth, (Request.countP_of_not_nests plain i).1],
    fun i => by rw [h.frames, (Request.countP_of_not_nests plain i).2]⟩

theorem Nests.entered {context : Option Context} {id : NodeId} {script : Text} {n : Node}
    (h : Nests w active) (found : w.node? id = some n) :
    Nests (w.modifyNode id fun n => { n with cancel := n.cancel.enter w.clock })
      (.evaluate context id script :: active) := by
  refine ⟨fun i => ?_, fun i => ?_⟩
  · rw [level_entered found, List.countP_cons, ← h.depth]
    by_cases here : i = id
    · simp [Request.evaluates, here]
    · simp [Request.evaluates, here, Ne.symm here]
  · rw [level_entered found, List.countP_cons, ← h.frames]
    by_cases here : i = id <;> simp [Request.forwards, here]

/-- A frame is pushed that is not that of an alias. -/
theorem Nests.framed {id : NodeId} {name : Text} {flags : Nat} {n : Node} (h : Nests w active)
    (found : w.node? id = some n) (plain : FrameFlags.isAlias flags = false) :
    Nests (w.framed id name flags n) active := by
  refine ⟨fun i => ?_, fun i => ?_⟩
  · rw [level_framed found, ← h.depth]
    split <;> rfl
  · rw [level_framed found, ← h.frames]
    split
    · simp [plain]
    · rfl

theorem Nests.forwarded {call : Call} {a : Alias} {name : Text} {flags : Nat} {n : Node}
    (h : Nests w active) (found : w.node? call.node = some n)
    (marked : FrameFlags.isAlias flags = true) :
    Nests (w.framed call.node name flags n) (.perform call (.forward a) :: active) := by
  refine ⟨fun i => ?_, fun i => ?_⟩
  · rw [level_framed found, List.countP_cons, ← h.depth]
    by_cases here : i = call.node <;> simp [Request.evaluates, here]
  · rw [level_framed found, List.countP_cons, ← h.frames]
    by_cases here : i = call.node
    · simp [Request.forwards, here, marked]
    · simp [Request.forwards, here, Ne.symm here]

/-- Who is being answered is there. -/
theorem Nests.made (h : Nests w active) (mem : r ∈ active) (nests : r.nests = true) :
    ∃ n, w.node? r.node = some n := by
  cases found : w.node? r.node with
  | some n => exact ⟨n, rfl⟩
  | none =>
    have depth := h.depth r.node
    have frames := h.frames r.node
    rw [level_none found] at depth frames
    have evaluates := List.countP_eq_zero.mp depth.symm r mem
    have forwards := List.countP_eq_zero.mp frames.symm r mem
    exact (Request.counts_of_nests nests).elim (absurd · evaluates) (absurd · forwards)

theorem Within.node (h : w.Within ℓ) {i : NodeId} {n : Node} (found : w.node? i = some n)
    (positive : 0 < ℓ i) : n.cancel.depth ≤ ℓ i ∧ n.aliasFrames ≤ ℓ i := by
  have within := h i positive
  rwa [level_eq found] at within

/-- There is room for an evaluation. -/
theorem Within.entered {id : NodeId} {n : Node} (h : w.Within ℓ) (found : w.node? id = some n)
    (room : 0 < ℓ id → n.cancel.depth < ℓ id) :
    (w.modifyNode id fun n => { n with cancel := n.cancel.enter w.clock }).Within ℓ := by
  intro i positive
  rw [level_entered found]
  split
  · rename_i here
    subst here
    have shallow := room positive
    rw [level_eq found]
    exact ⟨shallow, (h.node found positive).2⟩
  · exact h i positive

/-- A frame is pushed that is not that of an alias, or for which there is room. -/
theorem Within.framed {id : NodeId} {name : Text} {flags : Nat} {n : Node} (h : w.Within ℓ)
    (found : w.node? id = some n)
    (room : 0 < ℓ id → FrameFlags.isAlias flags = true → n.aliasFrames < ℓ id) :
    (w.framed id name flags n).Within ℓ := by
  intro i positive
  rw [level_framed found]
  split
  · rename_i here
    subst here
    obtain ⟨depth, frames⟩ := h.node found positive
    rw [level_eq found, List.countP_cons]
    refine ⟨depth, ?_⟩
    change ((n.aliasFrames + _ : Nat) : Int) ≤ _
    split
    · rename_i marked
      have := room positive marked
      omega
    · exact frames
  · exact h i positive

theorem HasLimits.node (limits : w.HasLimits ℓ) (numbered : w.IsNumbered) {i : NodeId} {n : Node}
    (found : w.node? i = some n) : n.limit = ℓ i := by
  rw [limits n (mem_of_node? found), numbered i n found]

/-- There is room for one request more. -/
theorem Fits.cons (h : Fits ℓ active)
    (evaluation : ∀ i, r.evaluates i = true → 0 < ℓ i →
      active.countP (Request.evaluates i) < ℓ i)
    (forwarding : ∀ i, r.forwards i = true → 0 < ℓ i →
      active.countP (Request.forwards i) < ℓ i) :
    Fits ℓ (r :: active) := by
  intro i positive
  have fit := h i positive
  rw [List.countP_cons, List.countP_cons]
  refine ⟨?_, ?_⟩
  · split
    · rename_i counted
      have := evaluation i counted positive
      omega
    · exact fit.1
  · split
    · rename_i counted
      have := forwarding i counted positive
      omega
    · exact fit.2

theorem Fits.plain (h : Fits ℓ active) (plain : r.nests = false) : Fits ℓ (r :: active) :=
  fun i positive => by
    rw [(Request.countP_of_not_nests plain i).1, (Request.countP_of_not_nests plain i).2]
    exact h i positive

/-- There are no more evaluations and calls through aliases than the limits of the nodes allow
together, and one. -/
theorem Nests.total (h : Nests w active) (fits : Fits ℓ active) (numbered : w.IsNumbered)
    (limits : w.HasLimits ℓ) (positive : ∀ n ∈ w.nodes.toList, 0 < n.limit) :
    (r.joins active w).countP Request.nests ≤
      (w.nodes.toList.map fun n => 2 * n.limit.toNat + 1).sum := by
  have there (r' : Request) (mem : r' ∈ r.joins active w) (nests : r'.nests = true) :
      r'.node ∈ w.nodes.toList.map Node.id := by
    obtain ⟨n, found⟩ : ∃ n, w.node? r'.node = some n := by
      unfold Request.joins at mem
      split at mem
      · rename_i made
        rcases List.mem_cons.mp mem with rfl | mem
        · exact Option.isSome_iff_exists.mp made
        · exact h.made mem nests
      · exact h.made mem nests
    exact List.mem_map.mpr ⟨n, mem_of_node? found, numbered _ n found⟩
  refine (Request.countP_nests_le there).trans ?_
  rw [List.map_map]
  refine List.sum_le_sum fun n mem => ?_
  -- Both kinds are within the limit among those under way; the request that has come is one more.
  have fit := fits n.id (limits n mem ▸ positive n mem)
  have once := r.countP_joins_le active w n.id
  rw [← limits n mem] at fit
  simp only [Function.comp_apply]
  omega

/-- What the beginning of a request does to a node: one evaluation more, or one frame more of an
alias, for which there is room. -/
theorem of_begun {i : NodeId} {n' : Node} (found' : (r.begun w).node? i = some n') :
    ∃ n, w.node? i = some n ∧ n'.limit = n.limit ∧ n'.cancel.depth ≤ n.cancel.depth + 1 ∧
      (n'.aliasFrames = n.aliasFrames ∨
        n'.aliasFrames = n.aliasFrames + 1 ∧ (0 < n.limit → n.frames.depth < n.limit)) := by
  have same (found : w.node? i = some n') : ∃ n, w.node? i = some n ∧ n'.limit = n.limit ∧
      n'.cancel.depth ≤ n.cancel.depth + 1 ∧ (n'.aliasFrames = n.aliasFrames ∨
        n'.aliasFrames = n.aliasFrames + 1 ∧ (0 < n.limit → n.frames.depth < n.limit)) :=
    ⟨n', found, rfl, Nat.le_succ _, .inl rfl⟩
  cases r with
  | evaluate context id script =>
    simp only [Request.begun] at found'
    split at found'
    · exact same found'
    · rename_i n found
      split at found'
      · exact same found'
      · by_cases here : i = id
        · subst here
          rw [node?_modifyNode_same _ found] at found'
          obtain rfl := Option.some.inj found'
          exact ⟨n, found, rfl, Nat.le_refl _, .inl rfl⟩
        · exact same ((node?_modifyNode_ne _ here).symm.trans found')
  | perform call action =>
    cases action with
    | forward a =>
      simp only [Request.begun] at found'
      split at found'
      · rename_i target n resolved found
        split at found'
        · exact same found'
        · rename_i room
          by_cases here : i = call.node
          · subst here
            rw [framed, node?_modifyNode_same _ found] at found'
            obtain rfl := Option.some.inj found'
            refine ⟨n, found, rfl, Nat.le_succ _, .inr ⟨?_, fun limited => ?_⟩⟩
            · exact List.countP_cons_of_pos FrameFlags.isAlias_forwarding
            · omega
          · exact same ((node?_modifyNode_ne _ here).symm.trans found')
      · exact same found'
    | _ => exact same found'

/-- What is counted is right, or a worker was overtaken. -/
def Counts (pace : Pace) (ℓ : NodeId → Int) (active : List Request) (w : World) : Prop :=
  pace = .timely ∧ (∃ i, w.IsUnfinished i) ∨ w.Nests active ∧ Fits ℓ active

theorem Counts.isBounded {pace : Pace} (h : w.Counts pace ℓ active) (within : w.Within ℓ)
    (numbered : w.IsNumbered) (limits : w.HasLimits ℓ) : IsBounded w r (r.joins active w) := by
  have within : ∀ n ∈ w.nodes.toList, 0 < n.limit →
      n.cancel.depth ≤ n.limit ∧ n.aliasFrames ≤ n.limit :=
    forall_node?_iff.mp fun i n found positive => by
      have same := limits.node numbered found
      rw [same] at positive ⊢
      exact within.node found positive
  refine ⟨within, forall_node?_iff.mp fun i n' found' positive => ?_, fun fresh => ?_⟩
  rotate_left
  · rcases h with ⟨-, i, overtaken⟩ | ⟨nests, fits⟩
    · exact (not_isUnfinished fresh i overtaken).elim
    · exact nests.total fits numbered limits
  obtain ⟨n, found, limit, depth, frames⟩ := of_begun found'
  rw [limit] at positive ⊢
  obtain ⟨depth', frames'⟩ := within n (mem_of_node? found) positive
  refine ⟨by omega, ?_⟩
  rcases frames with same | ⟨more, room⟩
  · rwa [same]
  · have room := room positive
    have : n.aliasFrames ≤ n.frames.depth := List.countP_le_length
    omega

end World

end InterpTree
