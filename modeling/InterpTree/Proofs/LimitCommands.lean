import InterpTree.Proofs.Moments

/-!
The subcommands of `interp` that ask for limits and set them. Main statement: at any moment an unsafe
caller can set a limit to an integer, and read it back, exactly if the integer is a count or its span
fits a signed word of 64 bits. A number of milliseconds is multiplied before its sign is looked at, so
one that does not fit may be refused although it is not negative, or read back as another, or taken
although it is negative.
-/

namespace InterpTree

/-! ### Spans -/

section Spans

variable (ms : Int)

theorem span_le : spanOfMilliseconds ms ≤ maxWord := by
  have := Int.bmod_le (show 0 < wordCount by decide) (x := ms * millisecond)
  unfold spanOfMilliseconds wrap64 maxWord
  unfold wordCount at *
  omega

variable {ms}

/-- What fits a word is not wrapped. -/
theorem span_of_fits (low : 0 ≤ ms) (fits : ms * millisecond ≤ maxWord) :
    spanOfMilliseconds ms = ms * millisecond := by
  unfold maxWord millisecond at fits
  unfold spanOfMilliseconds wrap64 wordCount millisecond
  exact Int.bmod_eq_of_le (by omega) (by omega)

/-- Only what fits a word reads back in milliseconds. -/
theorem span_tdiv_iff (low : 0 ≤ ms) (taken : 0 ≤ spanOfMilliseconds ms) :
    (spanOfMilliseconds ms).tdiv millisecond = ms ↔ ms * millisecond ≤ maxWord := by
  constructor
  · intro back
    have bound := span_le ms
    rw [Int.tdiv_eq_ediv_of_nonneg taken] at back
    unfold millisecond at *
    omega
  · intro fits
    rw [span_of_fits low fits]
    exact Int.mul_tdiv_cancel ms (by decide)

end Spans

namespace Text

theorem ofString_injective : Function.Injective ofString := by
  intro s t same
  refine String.toByteArray_inj.mp (ByteArray.ext ?_)
  exact Array.toList_inj.mp same

theorem ofNat_injective : Function.Injective ofNat := by
  intro n m same
  have digits : Nat.toDigits 10 n = Nat.toDigits 10 m := by
    rw [← Nat.toList_repr, ← Nat.toList_repr, ofString_injective same]
  rw [← Nat.ofDigitChars_ten_toDigits (n := n), digits, Nat.ofDigitChars_ten_toDigits]

/-- An integer is told by its decimal text. -/
theorem ofInt_injective : Function.Injective ofInt := by
  have unsigned (n : Nat) (s : Text) : ofNat n ≠ ofString "-" ++ s := by
    intro same
    have sign : (45 : UInt8) ∈ ofNat n := by
      rw [same]
      exact List.mem_append_left s (by decide)
    exact absurd (mem_ofNat sign).1 (by decide)
  intro i j same
  unfold ofInt at same
  split at same
  · rename_i negative
    split at same
    · have := ofNat_injective (List.append_cancel_left same)
      omega
    · exact absurd same.symm (unsigned _ _)
  · split at same
    · exact absurd same (unsigned _ _)
    · have := ofNat_injective same
      omega

end Text

namespace Limits

theorem get_set (l : Limits) (f g : Field) (v : Int) :
    (l.set f v).get g = if g = f then v else l.get g := by
  cases f <;> cases g <;> rfl

namespace Field

/-- The subcommand of a limit. -/
def command : Field → Text
  | .timeout => "timeout"
  | .finallyTimeout => "finallytimeout"
  | .readyLimit => "readylimit"
  | .recursionLimit => "recursionlimit"
  | .sleepTime => "sleeptime"
  | .resultLimit => "resultlimit"

variable (f : Field) (v : Int)

/-- What a limit becomes that a script sets. -/
def bound : Int := if f.isSpan then spanOfMilliseconds v else v

/-- The bound for an integer is negative with it, and stands for it if it is not. -/
def Fits : Prop :=
  f.isSpan = true → if 0 ≤ v then v * millisecond ≤ maxWord else spanOfMilliseconds v < 0

instance : Decidable (f.Fits v) := inferInstanceAs (Decidable (_ → _))

variable {f v}

theorem shownLimit_set (l : Limits) :
    Control.shownLimit f (l.set f (f.bound v)) =
      if f.isSpan then (spanOfMilliseconds v).tdiv millisecond else v := by
  unfold Control.shownLimit bound
  rw [get_set, if_pos rfl]
  split <;> rfl

/-- An integer fits if and only if its bound is taken when it should be, and then reads back. -/
theorem fits_iff (l : Limits) :
    f.Fits v ↔ (0 ≤ f.bound v ↔ 0 ≤ v) ∧
      (0 ≤ f.bound v → Control.shownLimit f (l.set f (f.bound v)) = v) := by
  rw [shownLimit_set]
  unfold Fits bound
  cases f.isSpan with
  | false => simp
  | true =>
    simp only [forall_const, if_true]
    by_cases low : 0 ≤ v
    · simp only [low, if_true, iff_true]
      refine ⟨fun fits => ?_, fun ⟨taken, back⟩ => (span_tdiv_iff low taken).mp (back taken)⟩
      have taken : 0 ≤ spanOfMilliseconds v := by
        rw [span_of_fits low fits]
        exact Int.mul_nonneg low (by decide)
      exact ⟨taken, fun _ => (span_tdiv_iff low taken).mpr fits⟩
    · simp only [low, if_false, iff_false, Int.not_le]
      exact ⟨fun negative => ⟨negative, fun taken => absurd negative (by omega)⟩, fun h => h.1⟩

end Field

end Limits

/-! ### Calls -/

/-- A call with the subcommand of a limit in place of what it asks for. -/
def Call.limit (call : Call) (f : Limits.Field) (words : List Text) : Call :=
  { call with args := f.command :: words }

namespace World

/-- The limits of a node. -/
def limits? (w : World) (i : NodeId) : Option Limits := (w.node? i).map fun n => n.cancel.limits

/-- The world in which a limit of a node is replaced. -/
def setLimit (w : World) (i : NodeId) (f : Limits.Field) (bound : Int) : World :=
  w.modifyNode i fun n => { n with cancel := { n.cancel with limits := n.cancel.limits.set f bound } }

variable {w : World} {i : NodeId} {f : Limits.Field} {bound : Int}

theorem limits?_setLimit (w : World) (i j : NodeId) (f : Limits.Field) (bound : Int) :
    (w.setLimit i f bound).limits? j =
      if j = i then (w.limits? j).map fun l => l.set f bound else w.limits? j := by
  unfold limits? setLimit
  rw [node?_modifyNode]
  split
  · cases w.node? j <;> rfl
  · rfl

end World

namespace Control

open Limits (Field)

variable {e : Engine} {call : Call} {f : Field} {path word : Text} {words : List Text}
  {w : World} {target : NodeId} {n c : Node} {v : Int}

theorem perform_ok {op : Op Text} {a : Text} {v : World} (h : op w = .ok a v) :
    Act.perform op w = .ok (.ok a) v := by
  simp [Act.perform, Act.attempt, bind, EStateM.bind, h, pure, EStateM.pure, Completion.ofExcept]

theorem perform_error {op : Op Text} {fault : Fault} {v : World} (h : op w = .error fault v) :
    Act.perform op w = .ok (.fail fault) v := by
  simp [Act.perform, Act.attempt, bind, EStateM.bind, h, pure, EStateM.pure, Completion.ofExcept]

theorem dispatch_limit (few : words.length ≤ 2) :
    dispatch e (call.limit f words) = Act.perform (limit f (.of (call.limit f words) f.command) words) := by
  obtain ⟨usage, found⟩ : ∃ usage, (subcommands.find? fun s => s.name == f.command) =
      some ⟨f.command, usage, 0, some 2, plain (limit f)⟩ := by
    cases f <;> exact ⟨_, rfl⟩
  exact dispatch_of_find rfl found (Nat.zero_le _) (decide_eq_false (Nat.not_lt.mpr few))

variable {i : Invocation}

/-- Anybody may ask for the limits of a node. -/
theorem limit_query (resolved : w.resolve? i.node path = some target)
    (found : w.node? target = some n) :
    limit f i [path] w = .ok (Text.ofInt (shownLimit f n.cancel.limits)) w := by
  rw [Ends.eq_ok_iff]
  simp [limit, resolved, found, Except.map]

/-- The record of a change of a limit. -/
def noteLimit (i : Invocation) (path : Text) (v : Int) : World → World :=
  World.log .debug "limit changed"
    [field "node" (Text.ofNat i.node), field "path" path, field "subcommand" i.name,
      field "value" (Text.ofInt v)]

/-- What is left to do once the caller and the words are accepted. -/
theorem limit_trusted (asks : w.node? i.node = some c) (trusted : c.trust.safe = false)
    (resolved : w.resolve? i.node path = some target) (found : w.node? target = some n)
    (read : Text.toInt word = .ok v) :
    limit f i [path, word] w = (do
      let c ← Op.lift (n.cancel.setLimit f (f.bound v))
      Op.change (World.modifyNode n.id fun m => { m with cancel := c })
      logAbout i "limit changed" n.path [field "value" (Text.ofInt v)]
      return Text.ofInt v : Op Text) w := by
  unfold limit
  rw [List.headD_cons, Op.bind_of_ok (Op.resolve_ok resolved), Op.bind_of_ok (Op.node_ok found)]
  dsimp only
  rw [Op.bind_of_ok (Op.node_ok asks), Op.bind_of_ok (a := ()) (v := w) (by rw [trusted]; rfl), read]
  rfl

/-- A bound that is not negative is set. -/
theorem limit_set (asks : w.node? i.node = some c) (trusted : c.trust.safe = false)
    (resolved : w.resolve? i.node path = some target) (found : w.node? target = some n)
    (numbered : w.IsNumbered) (read : Text.toInt word = .ok v) (taken : 0 ≤ f.bound v) :
    limit f i [path, word] w =
      .ok (Text.ofInt v) (noteLimit i n.path v (w.setLimit target f (f.bound v))) := by
  have same : w.setLimit target f (f.bound v) = w.modifyNode n.id fun m =>
      { m with cancel := { n.cancel with limits := n.cancel.limits.set f (f.bound v) } } := by
    rw [numbered target n found]
    exact World.modifyNode_congr found rfl
  rw [limit_trusted asks trusted resolved found read, same, Cancellation.setLimit, Limits.set?,
    if_neg (Int.not_lt.mpr taken)]
  rfl

/-- A bound that is negative is refused. -/
theorem limit_refused (asks : w.node? i.node = some c) (trusted : c.trust.safe = false)
    (resolved : w.resolve? i.node path = some target) (found : w.node? target = some n)
    (read : Text.toInt word = .ok v) (negative : f.bound v < 0) :
    limit f i [path, word] w =
      .error (.of .invalidArgument ("bad " ++ f.title ++ ": must not be negative")) w := by
  rw [limit_trusted asks trusted resolved found read, Cancellation.setLimit, Limits.set?, if_pos negative]
  rfl

/-- Setting a limit of the target to an integer keeps what it promises. It succeeds if and only if the
integer is not negative. Where it fails the limits are as they were; where it succeeds, whoever asks
for that limit is told the integer, and the other limits are as they were. -/
def ReadsBack (e : Engine) (f : Field) (call : Call) (path word : Text) (target : NodeId) (v : Int)
    (w : World) : Prop :=
  ∃ answer u, dispatch e (call.limit f [path, word]) w = .ok answer u ∧
    (answer.isError = false ↔ 0 ≤ v) ∧
    (answer.isError = true → ∀ i, u.limits? i = w.limits? i) ∧
    (answer.isError = false →
      (∀ (e' : Engine) (asker : Call) path', u.resolve? asker.node path' = some target →
        dispatch e' (asker.limit f [path']) u = .ok (.ok (Text.ofInt v)) u) ∧
      (∀ i, i ≠ target → u.limits? i = w.limits? i) ∧
      ∀ g, g ≠ f → (u.limits? target).map (·.get g) = (w.limits? target).map (·.get g))

/-- The world after an accepted call. -/
def afterLimit (call : Call) (f : Field) (words : List Text) (target : NodeId) (n : Node) (v : Int)
    (w : World) : World :=
  noteLimit (.of (call.limit f words) f.command) n.path v (w.setLimit target f (f.bound v))

theorem limits?_afterLimit (i : NodeId) :
    (afterLimit call f words target n v w).limits? i = (w.setLimit target f (f.bound v)).limits? i :=
  congrArg (Option.map _) (World.node?_log _ _ _ _ i)

theorem sameWays_afterLimit : w.SameWays (afterLimit call f words target n v w) := by
  have composes := World.composes_sameWays
  have set : w.SameWays (w.setLimit target f (f.bound v)) :=
    .modifyNode composes _ fun _ _ => ⟨rfl, rfl, rfl, rfl⟩
  exact set.trans composes (.of_nodes_eq composes (World.nodes_log _ _ _ _))

/-- What an accepted call leaves to be read. -/
theorem dispatch_afterLimit (found : w.node? target = some n) {asker : Call}
    (resolved : (afterLimit call f words target n v w).resolve? asker.node path = some target) :
    dispatch e (asker.limit f [path]) (afterLimit call f words target n v w) =
      .ok (.ok (Text.ofInt (shownLimit f (n.cancel.limits.set f (f.bound v)))))
        (afterLimit call f words target n v w) := by
  rw [dispatch_limit (by simp)]
  refine perform_ok (limit_query (i := .of (asker.limit f [path]) f.command) resolved
    (n := { n with cancel := { n.cancel with limits := n.cancel.limits.set f (f.bound v) } }) ?_)
  rw [afterLimit, noteLimit, World.node?_log]
  exact World.node?_modifyNode_same _ found

section Setting

variable (asks : w.node? call.node = some c) (trusted : c.trust.safe = false)
  (resolved : w.resolve? call.node path = some target) (found : w.node? target = some n)
  (read : Text.toInt word = .ok v)

include asks trusted resolved found read

theorem dispatch_limit_set (numbered : w.IsNumbered) (taken : 0 ≤ f.bound v) :
    dispatch e (call.limit f [path, word]) w =
      .ok (.ok (Text.ofInt v)) (afterLimit call f [path, word] target n v w) := by
  rw [dispatch_limit (by simp)]
  exact perform_ok (limit_set (i := .of (call.limit f [path, word]) f.command) asks trusted resolved
    found numbered read taken)

theorem dispatch_limit_refused (negative : f.bound v < 0) :
    dispatch e (call.limit f [path, word]) w =
      .ok (.fail (.of .invalidArgument ("bad " ++ f.title ++ ": must not be negative"))) w := by
  rw [dispatch_limit (by simp)]
  exact perform_error (limit_refused (i := .of (call.limit f [path, word]) f.command) asks trusted
    resolved found read negative)

theorem readsBack_of_taken (numbered : w.IsNumbered) (taken : 0 ≤ f.bound v) :
    ReadsBack e f call path word target v w ↔
      0 ≤ v ∧ shownLimit f (n.cancel.limits.set f (f.bound v)) = v := by
  have answered := dispatch_limit_set (e := e) asks trusted resolved found read numbered taken
  have there : (afterLimit call f [path, word] target n v w).resolve? call.node path = some target :=
    (sameWays_afterLimit.resolve? _ _).trans resolved
  constructor
  · rintro ⟨answer, u, did, granted, -, kept⟩
    obtain ⟨rfl, rfl⟩ := EStateM.Result.ok.inj (answered.symm.trans did)
    have told := ((kept rfl).1 e call path there).symm.trans (dispatch_afterLimit found there)
    refine ⟨granted.mp rfl, ?_⟩
    exact (Text.ofInt_injective (congrArg Completion.value (EStateM.Result.ok.inj told).1)).symm
  · rintro ⟨low, back⟩
    refine ⟨_, _, answered, ⟨fun _ => low, fun _ => rfl⟩, nofun, fun _ => ⟨?told, ?others, ?fields⟩⟩
    case told =>
      intro e' asker path' leads
      have told := dispatch_afterLimit (e := e') found leads
      rwa [back] at told
    case others =>
      intro i other
      rw [limits?_afterLimit, World.limits?_setLimit, if_neg other]
    case fields =>
      intro g other
      rw [limits?_afterLimit, World.limits?_setLimit, if_pos rfl, World.limits?, found]
      exact congrArg some ((Limits.get_set _ _ _ _).trans (if_neg other))

theorem readsBack_of_refused (negative : f.bound v < 0) :
    ReadsBack e f call path word target v w ↔ v < 0 := by
  have answered := dispatch_limit_refused (e := e) asks trusted resolved found read negative
  have failed (fault : Fault) : ¬ (Completion.fail fault).isError = false := nofun
  constructor
  · rintro ⟨answer, u, did, granted, -⟩
    obtain ⟨rfl, rfl⟩ := EStateM.Result.ok.inj (answered.symm.trans did)
    exact Int.not_le.mp fun low => failed _ (granted.mpr low)
  · intro below
    exact ⟨_, _, answered, ⟨fun fine => absurd fine (failed _), fun low => absurd below (by omega)⟩,
      fun _ _ => rfl, fun fine => absurd fine (failed _)⟩

/-- Setting a limit keeps its promise for the integers that fit. -/
theorem readsBack_iff (numbered : w.IsNumbered) :
    ReadsBack e f call path word target v w ↔ f.Fits v := by
  rw [Field.fits_iff n.cancel.limits]
  by_cases taken : 0 ≤ f.bound v
  · rw [readsBack_of_taken asks trusted resolved found read numbered taken]
    simp [taken]
  · rw [readsBack_of_refused asks trusted resolved found read (Int.not_le.mp taken)]
    simp [taken]

end Setting

end Control

namespace World

variable {w : World}

/-- At any moment in the history of a tree, let an unsafe caller set a limit of a node to the integer
that a word stands for. A negative bound is refused, and nothing changes. Any other is set, which is
logged, and nothing else changes; whoever then asks for that limit is told the bound, a span in whole
milliseconds. Hence the call keeps its promise if and only if the integer fits. -/
theorem limits_read_back_from_plant_iff {settings : Settings} {host : Host}
    (planted : plant settings host = .ok w) (pace : Pace) (fuel : Nat) (m : Moment) {call : Call} {c : Node}
    (asks : (m.world pace fuel w).node? call.node = some c) (trusted : c.trust.safe = false)
    {path : Text} {target : NodeId} (resolved : (m.world pace fuel w).resolve? call.node path = some target)
    {word : Text} {v : Int} (read : Text.toInt word = .ok v) (e : Engine) (f : Limits.Field) :
    (∃ n, (m.world pace fuel w).node? target = some n ∧
      (f.bound v < 0 → Control.dispatch e (call.limit f [path, word]) (m.world pace fuel w) =
        .ok (.fail (.of .invalidArgument ("bad " ++ f.title ++ ": must not be negative")))
          (m.world pace fuel w)) ∧
      (0 ≤ f.bound v →
        let after := Control.afterLimit call f [path, word] target n v (m.world pace fuel w)
        Control.dispatch e (call.limit f [path, word]) (m.world pace fuel w) =
          .ok (.ok (Text.ofInt v)) after ∧
        ∀ (e' : Engine) (asker : Call) path', after.resolve? asker.node path' = some target →
          Control.dispatch e' (asker.limit f [path']) after =
            .ok (.ok (Text.ofInt
              (if f.isSpan then (spanOfMilliseconds v).tdiv millisecond else v))) after)) ∧
    (Control.ReadsBack e f call path word target v (m.world pace fuel w) ↔ f.Fits v) := by
  have numbered := (isHeedful_world pace fuel (isHeedful_plant planted) m).numbered
  obtain ⟨n, found, -⟩ := alive_of_resolve? numbered resolved
  refine ⟨⟨n, found, fun negative => ?_, fun taken => ⟨?_, fun e' asker path' leads => ?_⟩⟩, ?_⟩
  · exact Control.dispatch_limit_refused asks trusted resolved found read negative
  · exact Control.dispatch_limit_set asks trusted resolved found read numbered taken
  · rw [Control.dispatch_afterLimit found leads, Limits.Field.shownLimit_set]
  · exact Control.readsBack_iff asks trusted resolved found read numbered

/-- A child of the root is created. -/
def sprouting : Moment where
  past := []
  deed := .tree (.create root [] "a" {})

/-- A call of the root. -/
def rootCall : Call := { context := none, node := root, name := "interp", args := [] }

/-- A timeout of a second is kept. The first number of milliseconds that does not fit a word is refused
as negative, its double is taken for less than a millisecond, and its opposite is taken. Counts are kept
up to the largest word. -/
theorem limits_read_back_from_plant_iff_wrapped :
    let e := Engine.upTo .timely (fun _ _ => false) 20
    let w := sprouting.world .timely 20 sapling
    Control.ReadsBack e .timeout rootCall "a" "1000" 2 1000 w ∧
      ¬ Control.ReadsBack e .timeout rootCall "a" "9223372036855" 2 9223372036855 w ∧
      Control.dispatch e (rootCall.limit .timeout ["a", "9223372036855"]) w =
        .ok (.fail (.of .invalidArgument "bad timeout: must not be negative")) w ∧
      ¬ Control.ReadsBack e .timeout rootCall "a" "18446744073710" 2 18446744073710 w ∧
      ¬ Control.ReadsBack e .timeout rootCall "a" "-9223372036855" 2 (-9223372036855) w ∧
      Control.ReadsBack e .readyLimit rootCall "a" "9223372036854775807" 2 9223372036854775807 w := by
  intro e w
  have asks : (w.node? rootCall.node).any (fun c => !c.trust.safe) = true := by decide +kernel
  have resolved : w.resolve? root "a" = some 2 := by decide +kernel
  obtain ⟨c, asks, trusted⟩ := Option.any_eq_true _ _ |>.mp asks
  rw [Bool.not_eq_true'] at trusted
  have told {word : Text} {v : Int} (read : Text.toInt word = .ok v) (f : Limits.Field) :=
    limits_read_back_from_plant_iff plant_sapling .timely 20 sprouting asks trusted resolved read e f
  have wrapped : Text.toInt "9223372036855" = .ok 9223372036855 := by decide +kernel
  obtain ⟨⟨n, -, refused, -⟩, -⟩ := told wrapped .timeout
  refine ⟨?_, ?_, refused (by decide +kernel), ?_, ?_, ?_⟩
  · exact (told (by decide +kernel) .timeout).2.mpr (by decide +kernel)
  · exact (told wrapped .timeout).2.not.mpr (by decide +kernel)
  · exact (told (by decide +kernel) .timeout).2.not.mpr (by decide +kernel)
  · exact (told (by decide +kernel) .timeout).2.not.mpr (by decide +kernel)
  · exact (told (by decide +kernel) .readyLimit).2.mpr (by decide +kernel)

end World

end InterpTree
