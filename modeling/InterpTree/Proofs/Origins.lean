import InterpTree.Proofs.Hosting
import InterpTree.Proofs.RelayedCalls

/-!
Where errors come from. What `Relays` tells of one request goes on from one to the next: an error that
a request is answered with, however deep down, comes out of all those around it as it is, with lines
added to its trail. And of every error that comes out one can tell where it began.
-/

namespace InterpTree

/-- The request runs a script or a command of its caller, and hands on the errors of that. -/
def Request.isLevel : Request → Bool
  | .evaluate .. => true
  | .perform _ (.builtin b) => b = .eval || b = .source || b = .repeating || b = .conditional
  | .perform _ (.procedure ..) => true
  | .perform _ (.forward _) => true
  | .perform call .ensemble =>
    call.args.head? == some (Text.ofString "eval") ||
      call.args.head? == some (Text.ofString "invokehidden")
  | .perform _ (.host _) => false

namespace Engine

/-- Where an error that a request is answered with comes from: the request has made it up, with a line
at most, or it is that of another request, which was handed on. -/
inductive Comes (e : Engine) (outer : Request) (w : World) : Completion → Prop
  | own {c : Completion} (short : c.trail.length ≤ 1) : Comes e outer w c
  | relayed {inner : Request} {v : World} {lines : List Text} {r : Completion}
      (relays : e.Relays outer w inner v lines) (answered : Act.Answers (e.call inner) v r)
      (error : r.isError = true) : Comes e outer w (r.relayed lines)

section

variable {e : Engine} {context : Option Context} {id : NodeId} {w v : World} {c : Completion}
  {call : Call}

theorem Comes.bare {outer : Request} (bare : c.trail = []) : e.Comes outer w c :=
  .own (by simp [bare])

theorem Comes.of_pure {outer : Request} {d : Completion} (bare : d.trail = [])
    (answered : Act.Answers (pure d) w c) : e.Comes outer w c :=
  .bare (Act.answers_pure_iff.mp answered ▸ bare)

/-- Where only errors get lines, an error that comes out was one before. -/
theorem eq_relayed_of_error {r : Completion} {lines : List Text} (error : c.isError = true)
    (came : (if r.isError then r.relayed lines else r) = c) : r.isError = true ∧ c = r.relayed lines := by
  split at came
  · rename_i unwell
    exact ⟨unwell, came.symm⟩
  · rename_i well
    exact absurd (came ▸ error) well

theorem called_of_answers (call : Call) (shown : call.hidden = false)
    (answered : Act.Answers (e.invoke call.context call.node call.name call.args) w c) :
    c.trail = [] ∨ ∃ command, w.called? call = some command ∧
      Act.Answers (e.call (.perform call command.action)) w c := by
  cases called : w.called? call with
  | none =>
    rw [Act.answers_congr (v := w) (y := pure _) (invoke_of_unknown e call called)] at answered
    exact .inl (Act.answers_pure_iff.mp answered ▸ rfl)
  | some command =>
    rw [Act.answers_congr (invoke_of_called? e call shown called)] at answered
    exact .inr ⟨command, rfl, answered⟩

theorem comes_of_evaluate {script : Text} (error : c.isError = true)
    (answered : Act.Answers (e.runEvaluate context id script) w c) :
    e.Comes (.evaluate context id script) w c := by
  obtain bare | ⟨command, u, reaches, v, called⟩ := reaches_of_answers error answered
  · exact .bare bare
  · obtain ⟨words, t, substituted, came⟩ := Act.bind_ok_iff.mp called
    rcases words with s | _ | ⟨name, args⟩
    · cases came
      have unwell : s.isError = true := isError_leaveCommand command s ▸ error
      rw [leaveCommand_of_error unwell]
      obtain ⟨-, bare⟩ | ⟨source, v, brackets, evaluated⟩ := bracketsOf_of_stopped substituted
      · exact .own (by simp [Completion.relayed, bare])
      · exact .relayed (.brackets reaches brackets) ⟨_, evaluated⟩ unwell
    · cases came
    · obtain ⟨r, t', invoked, came⟩ := Act.bind_ok_iff.mp came
      cases came
      have unwell : r.isError = true := isError_leaveCommand command r ▸ error
      rw [leaveCommand_of_error unwell]
      obtain bare | ⟨command', called, answered⟩ := called_of_answers
        { context := some (context.getD (.ofNode id)), node := id, name, args } rfl ⟨_, invoked⟩
      · exact .own (by simp [Completion.relayed, bare])
      · exact .relayed (.command reaches substituted called) answered unwell

/-- A script of the call, the errors of which are handed on as they are. -/
theorem Comes.evaluated {outer : Request} {script : Text}
    (relays : e.Relays outer w (.evaluate call.context call.node script) v [])
    (answered : Act.Answers (call.evaluate e script) v c) (error : c.isError = true) :
    e.Comes outer w c := by
  rw [← Completion.relayed_nil c]
  exact .relayed relays answered error

theorem comes_of_eval (error : c.isError = true) (answered : Act.Answers (call.eval e) w c) :
    e.Comes (.perform call (.builtin .eval)) w c := by
  unfold Call.eval at answered
  split at answered
  · exact .of_pure rfl answered
  · rename_i some
    exact .evaluated (.eval (by simpa using some)) answered error

theorem comes_of_source (error : c.isError = true) (answered : Act.Answers (call.source e) w c) :
    e.Comes (.perform call (.builtin .source)) w c := by
  unfold Call.source at answered
  split at answered
  · rename_i name named
    rw [Act.answers_get_iff] at answered
    cases mounted : w.host.files with
    | none =>
      rw [mounted] at answered
      exact .of_pure rfl answered
    | some files =>
      rw [mounted] at answered
      dsimp only at answered
      cases read : files.read name with
      | error reason =>
        rw [read] at answered
        exact .of_pure rfl answered
      | ok script =>
        rw [read] at answered
        obtain ⟨r, u, evaluated, came⟩ := Act.answers_bind_iff.mp answered
        obtain ⟨unwell, rfl⟩ := eq_relayed_of_error error (Act.answers_pure_iff.mp came)
        exact .relayed (.source named mounted read) ⟨u, evaluated⟩ unwell
  · exact .of_pure rfl answered

/-- An error that comes out of a loop is that of a turn. -/
theorem turns_of_answers {body : Text} {able : Nat} {left : Option Nat} (error : c.isError = true)
    (answered : Act.Answers (call.repeatBody e body able left) w c) :
    ∃ turns v, e.Turns call body turns w v ∧ turns < able ∧ (∀ n ∈ left, turns < n) ∧
      Act.Answers (call.evaluate e body) v c := by
  -- On the turns that the engine is able to make, each of which may be the last one.
  induction able generalizing w left with
  | zero =>
    rcases left with _ | _ | n
    · exact absurd answered Act.not_answers_throw
    · rw [Call.repeatBody] at answered
      cases Act.answers_pure_iff.mp answered
      cases error
    · exact absurd answered Act.not_answers_throw
  | succ able ih =>
    by_cases none : left = some 0
    · subst none
      rw [Call.repeatBody] at answered
      cases Act.answers_pure_iff.mp answered
      cases error
    · rw [Call.repeatBody] at answered
      · obtain ⟨r, u, turned, came⟩ := Act.answers_bind_iff.mp answered
        have further (going : r.status = .ok ∨ r.status = .next)
            (came : Act.Answers (call.repeatBody e body able (left.map Nat.pred)) u c) :
            ∃ turns v, e.Turns call body turns w v ∧ turns < able + 1 ∧ (∀ n ∈ left, turns < n) ∧
              Act.Answers (call.evaluate e body) v c := by
          obtain ⟨turns, v, rest, able, enough, last⟩ := ih came
          refine ⟨turns + 1, v, .more turned going rest, by omega, fun n mem => ?_, last⟩
          have := enough n.pred (Option.mem_map_of_mem _ mem)
          simp only [Nat.pred_eq_sub_one] at this
          omega
        cases status : r.status with
        | ok =>
          rw [status] at came
          exact further (.inl status) came
        | next =>
          rw [status] at came
          exact further (.inr status) came
        | leave =>
          rw [status] at came
          cases Act.answers_pure_iff.mp came
          cases error
        | error =>
          rw [status] at came
          cases Act.answers_pure_iff.mp came
          refine ⟨0, w, .none, by omega, fun n mem => ?_, u, turned⟩
          have : n ≠ 0 := by
            rintro rfl
            exact none mem
          omega
        | _ =>
          rw [status] at came
          cases Act.answers_pure_iff.mp came
          simp [Completion.isError, status] at error
      · exact none

/-- An error that comes out of conditions and branches has no line, or is that of a script that they
come to. -/
theorem tries_of_answers {words : List Text}
    (answered : Act.Answers (call.branches e words) w c) :
    c.trail = [] ∨ ∃ script v, e.Tries call words w script v ∧
      Act.Answers (call.evaluate e script) v c := by
  induction words using Call.branches.induct generalizing w with
  | case1 condition body rest ih =>
    rw [branches_cons, Act.answers_bind_iff] at answered
    obtain ⟨value | value, u, substituted, came⟩ := answered
    · cases Act.answers_pure_iff.mp came
      obtain ⟨-, bare⟩ | ⟨source, v, brackets, evaluated⟩ := brackets_of_stopped substituted
      · exact .inl bare
      · exact .inr ⟨source, v, .condition brackets, _, evaluated⟩
    · dsimp only at came
      rcases truth : Call.truth? value with f | holds
      · rw [truth] at came
        exact .inl (Act.answers_pure_iff.mp came ▸ rfl)
      · rw [truth] at came
        cases holds with
        | true => exact .inr ⟨body, u, .holds substituted truth, came⟩
        | false =>
          cases rest with
          | nil => exact .inl (Act.answers_pure_iff.mp came ▸ rfl)
          | cons word rest =>
            dsimp only [otherwise] at came
            split at came
            · rename_i chained
              obtain rfl := eq_of_beq chained
              obtain bare | ⟨script, v, tries, evaluated⟩ := ih came
              · exact .inl bare
              · exact .inr ⟨script, v, .next substituted truth tries, evaluated⟩
            · split at came
              · split at came
                · rename_i last closing
                  obtain rfl := eq_of_beq closing
                  exact .inr ⟨last, u, .otherwise substituted truth, came⟩
                · exact .inl (Act.answers_pure_iff.mp came ▸ rfl)
              · exact .inl (Act.answers_pure_iff.mp came ▸ rfl)
  | case2 words none =>
    unfold Call.branches at answered
    split at answered
    · exact absurd rfl (none _ _ _)
    · exact .inl (Act.answers_pure_iff.mp answered ▸ rfl)

theorem comes_of_repeating (error : c.isError = true)
    (answered : Act.Answers (call.repeating e) w c) :
    e.Comes (.perform call (.builtin .repeating)) w c := by
  unfold Call.repeating at answered
  split at answered
  · rename_i count body named
    cases number : Text.toInt? count with
    | none =>
      rw [number] at answered
      exact .of_pure rfl answered
    | some i =>
      rw [number] at answered
      obtain ⟨turns, v, turned, able, enough, evaluated⟩ := turns_of_answers error answered
      refine .evaluated (.repeating named number ?_ able turned) evaluated error
      by_cases endless : i < 0
      · exact .inl endless
      · exact .inr (enough _ (by simp [endless]))
  · exact .of_pure rfl answered

theorem comes_of_branches (error : c.isError = true)
    (answered : Act.Answers (call.branches e call.args) w c) :
    e.Comes (.perform call (.builtin .conditional)) w c := by
  obtain bare | ⟨script, v, tries, evaluated⟩ := tries_of_answers answered
  · exact .bare bare
  · exact .evaluated (.branch tries) evaluated error

/-- An error that a procedure makes of what is none has no line. -/
theorem trail_leaveProcedure {name : Text} {r : Completion} (well : ¬ r.isError = true)
    (error : (leaveProcedure name r).isError = true) : (leaveProcedure name r).trail = [] := by
  unfold leaveProcedure at error ⊢
  cases status : r.status with
  | leave => rfl
  | next => rfl
  | error => simp [Completion.isError, status] at well
  | ok => simp [Completion.isError, status] at error
  | other code => simp [Completion.isError, status] at error

theorem comes_of_procedure {name body : Text} {params : List Text} (error : c.isError = true)
    (answered : Act.Answers (call.procedure e name params body) w c) :
    e.Comes (.perform call (.procedure name params body)) w c := by
  rw [procedure_eq] at answered
  split at answered
  · rename_i fits
    obtain ⟨⟨⟩, v, bound, answered⟩ := Act.answers_bind_iff.mp answered
    obtain ⟨r, u, evaluated, came⟩ := Act.answers_bind_iff.mp answered
    cases Act.answers_pure_iff.mp came
    by_cases unwell : r.isError = true
    · rw [leaveProcedure_of_error unwell]
      exact .relayed (.procedure fits bound) ⟨u, evaluated⟩ unwell
    · exact .bare (trail_leaveProcedure unwell error)
  · exact .of_pure rfl answered

theorem comes_of_forward {h : Hop} (error : c.isError = true)
    (answered : Act.Answers (e.forward h.call h.shim) w c) : e.Comes h.request w c := by
  cases resolved : w.resolve? World.root h.shim.targetPath with
  | none =>
    unfold forward at answered
    rw [Act.answers_get_iff, resolved] at answered
    exact .of_pure rfl answered
  | some target =>
    obtain ⟨-, rfl⟩ | ⟨room, r, u, invoked, came⟩ := (answers_forward_iff resolved).mp answered
    · exact .bare rfl
    · have invoked := answers_inFrame_iff.mp ⟨u, invoked⟩
      obtain ⟨unwell, rfl⟩ := eq_relayed_of_error error came
      obtain bare | ⟨command, called, answered⟩ :=
        called_of_answers (h.onward target) rfl invoked
      · exact .own (by simp [Completion.relayed, bare])
      · exact .relayed (.forward resolved room called) answered unwell

theorem comes_of_evaluateIn {words : List Text} (named : call.args = ("eval" : Text) :: words)
    (enough : 2 ≤ words.length) (error : c.isError = true)
    (answered : Act.Answers (e.evaluateIn (some (call.context.getD (.ofNode call.node))) call.node
      (words.headD []) (Text.words (words.drop 1))) w c) :
    e.Comes (.perform call .ensemble) w c := by
  cases resolved : w.resolve? call.node (words.headD []) with
  | none =>
    unfold evaluateIn at answered
    rw [Act.answers_get_iff, resolved] at answered
    exact .of_pure rfl answered
  | some target =>
    obtain ⟨refusal, u, asked, came⟩ := (answers_evaluateIn_iff resolved).mp answered
    obtain ⟨f, -, rfl⟩ | ⟨rfl, r, v, evaluated, came⟩ := came
    · exact .bare rfl
    · have evaluated := answers_inFrame_iff.mp ⟨v, evaluated⟩
      obtain ⟨unwell, rfl⟩ := eq_relayed_of_error error came
      refine .relayed (.evaluation named enough resolved ?_) evaluated unwell
      split at asked
      · rename_i here
        cases asked
        exact .inl ⟨here, rfl⟩
      · rename_i away
        exact .inr ⟨away, asked⟩

/-- Only who is entitled reaches a hidden command, and only in a node that has one of the name. -/
theorem reaches_of_invokeHidden {caller : NodeId} {path name : Text} {args : List Text} {global : Bool}
    (answered : Act.Answers (e.invokeHidden context caller path name args global) w c) :
    c.trail = [] ∨ (w.node? caller).any (fun n => !n.trust.safe) = true ∧ ∃ target command,
      w.resolve? caller path = some target ∧
        ((w.node? target).bind fun n => n.commands.hidden? name) = some command := by
  unfold invokeHidden at answered
  obtain ⟨f | target, v, asked, came⟩ := Act.answers_bind_iff.mp answered
  · exact .inl (Act.answers_pure_iff.mp came ▸ rfl)
  · obtain ⟨rfl, entitled, resolved⟩ := Act.privileged_of_ok asked
    dsimp only at came
    rw [Act.answers_ofNode_iff] at came
    cases hidden : (v.node? target).bind fun n => n.commands.hidden? name with
    | some command => exact .inr ⟨entitled, target, command, resolved, hidden⟩
    | none =>
      have none : ((v.node? target).map fun n => n.commands.hidden? name).getD default = none := by
        cases found : v.node? target with
        | none => rfl
        | some n => simpa [found] using hidden
      rw [none] at came
      exact .inl (Act.answers_pure_iff.mp came ▸ rfl)

theorem comes_of_invokeHidden {words : List Text}
    (named : call.args = ("invokehidden" : Text) :: words) (enough : 2 ≤ words.length)
    (error : c.isError = true)
    (answered : Act.Answers (Control.invokeHidden e (.of call "invokehidden") words) w c) :
    e.Comes (.perform call .ensemble) w c := by
  unfold Control.invokeHidden at answered
  rcases parsed : Options.parse [⟨"-global", false⟩] (words.drop 1) with
    f | ⟨options, _ | ⟨name, args⟩⟩
  · rw [parsed] at answered
    exact .of_pure rfl answered
  · rw [parsed] at answered
    exact .of_pure rfl answered
  · rw [parsed] at answered
    dsimp only at answered
    obtain bare | ⟨entitled, target, command, resolved, hidden⟩ := reaches_of_invokeHidden answered
    · exact .bare bare
    · obtain ⟨refusal, u, vetted, came⟩ :=
        (answers_invokeHidden_iff entitled resolved hidden).mp answered
      obtain ⟨f, -, rfl⟩ | ⟨rfl, answered⟩ := came
      · exact .bare rfl
      · rw [← Completion.relayed_nil c]
        exact .relayed (.hidden named enough parsed entitled resolved hidden vetted) answered error

/-- An error of a request that hands on others begins there, and has a line at most, or is one that it
hands on. -/
theorem comes_of_answers {outer : Request} (level : outer.isLevel = true) (error : c.isError = true)
    (answered : Act.Answers (step e outer) w c) : e.Comes outer w c := by
  cases outer with
  | evaluate context id script => exact comes_of_evaluate error answered
  | perform call action =>
    cases action with
    | builtin b =>
      cases b with
      | eval => exact comes_of_eval error answered
      | source => exact comes_of_source error answered
      | repeating => exact comes_of_repeating error answered
      | conditional => exact comes_of_branches error answered
      | _ => simp [Request.isLevel] at level
    | procedure name params body => exact comes_of_procedure error answered
    | forward shim => exact comes_of_forward (h := ⟨call, shim⟩) error answered
    | host action => cases level
    | ensemble =>
      change Act.Answers (Control.dispatch e call) w c at answered
      cases named : call.args with
      | nil => simp [Request.isLevel, named] at level
      | cons name words =>
        have level : name = Text.ofString "eval" ∨ name = Text.ofString "invokehidden" := by
          simpa [Request.isLevel, named] using level
        by_cases enough : 2 ≤ words.length
        · obtain rfl | rfl := level
          · rw [dispatch_of_find named rfl rfl rfl enough] at answered
            exact comes_of_evaluateIn named enough error answered
          · rw [dispatch_of_find named rfl rfl rfl enough] at answered
            exact comes_of_invokeHidden named enough error answered
        · refine .bare ?_
          obtain rfl | rfl := level
          · rw [dispatch_of_few named rfl (Nat.lt_of_not_le enough)] at answered
            exact Act.answers_pure_iff.mp answered ▸ rfl
          · rw [dispatch_of_few named rfl (Nat.lt_of_not_le enough)] at answered
            exact Act.answers_pure_iff.mp answered ▸ rfl

theorem Relays.isLevel {outer inner : Request} {lines : List Text}
    (relays : e.Relays outer w inner v lines) : outer.isLevel = true := by
  cases relays with
  | evaluation named => simp [Request.isLevel, named]
  | hidden named => simp [Request.isLevel, named]
  | _ => rfl

end

/-! ### Nests -/

/-- A request is answered by making another, that one by making a third, and so on. When the last is
answered with an error, the lines are added to its trail on the way back to the first. -/
inductive Nests (hosting : Hosting) (pace : Pace) (fuel : Nat) :
    Nat → Request → World → Request → World → List Text → Prop
  | bottom {request : Request} {w : World} : Nests hosting pace fuel 0 request w request w []
  | level {depth : Nat} {outer middle inner : Request} {w u v : World} {lines last : List Text}
      (relays : Relays ⟨fuel + depth, runHosted hosting pace (fuel + depth), pace⟩ outer w middle u last)
      (rest : Nests hosting pace fuel depth middle u inner v lines) :
      Nests hosting pace fuel (depth + 1) outer w inner v (lines ++ last)

section

variable {hosting : Hosting} {pace : Pace} {e : Engine} {outer inner : Request} {w v : World} {r c : Completion}
  {lines : List Text} {fuel depth : Nat}

theorem stepHosted_of_isLevel (level : outer.isLevel = true) :
    stepHosted hosting e outer = step e outer := by
  unfold stepHosted
  split
  · cases level
  · rfl

theorem Nests.answers (nests : Nests hosting pace fuel depth outer w inner v lines)
    (bottom : Act.Answers (runHosted hosting pace fuel inner) v r) (error : r.isError = true) :
    Act.Answers (runHosted hosting pace (fuel + depth) outer) w (r.relayed lines) := by
  -- From the bottom up: the level above gets what has come out so far.
  induction nests with
  | bottom => simpa using bottom
  | level relays rest ih =>
    obtain ⟨t, answered⟩ := ih bottom
    rw [← Completion.relayed_relayed]
    change Act.Answers (stepHosted hosting _ _) _ _
    rw [stepHosted_of_isLevel relays.isLevel]
    exact relays.answers answered error

/-- An error has come out of requests that nest, and it began at the bottom of them. -/
theorem nests_of_answers (error : c.isError = true)
    (answered : Act.Answers (runHosted hosting pace fuel outer) w c) :
    ∃ rest depth inner v lines r, fuel = rest + depth ∧
      Nests hosting pace rest depth outer w inner v lines ∧
      Act.Answers (runHosted hosting pace rest inner) v r ∧ r.isError = true ∧ c = r.relayed lines ∧
      (r.trail.length ≤ 1 ∨ inner.isLevel = false) := by
  induction fuel generalizing outer w c with
  | zero => exact absurd answered Act.not_answers_throw
  | succ fuel ih =>
    have here (own : c.trail.length ≤ 1 ∨ outer.isLevel = false) :
        ∃ rest depth inner v lines r, fuel + 1 = rest + depth ∧
          Nests hosting pace rest depth outer w inner v lines ∧
          Act.Answers (runHosted hosting pace rest inner) v r ∧ r.isError = true ∧ c = r.relayed lines ∧
          (r.trail.length ≤ 1 ∨ inner.isLevel = false) :=
      ⟨fuel + 1, 0, outer, w, [], c, rfl, .bottom, answered, error, (c.relayed_nil).symm, own⟩
    cases level : outer.isLevel with
    | false => exact here (.inr level)
    | true =>
      -- What is handed on was answered with less fuel; there the nest goes on.
      have stepped := answered
      rw [runHosted, stepHosted_of_isLevel level] at stepped
      cases comes_of_answers level error stepped with
      | own short => exact here (.inl short)
      | @relayed middle u last r relays came unwell =>
        obtain ⟨rest, depth, inner, v, lines, r, rfl, nests, bottom, unwell, rfl, own⟩ :=
          ih unwell came
        exact ⟨rest, depth + 1, inner, v, lines ++ last, r, rfl, .level relays nests, bottom, unwell,
          Completion.relayed_relayed .., own⟩

/-- Errors pass through unaltered. However requests nest, an error of the last comes out of the first
as it is, with lines added to its trail; and every error that comes out of a request has come in this
way from where it began: from a request that is of no kind that hands on errors, or from one that has
made it up with a line at most. This holds whatever the commands of the host do. -/
theorem errors_pass_unaltered (hosting : Hosting) (pace : Pace) (outer : Request) (w : World) :
    (∀ fuel depth inner v lines r, Nests hosting pace fuel depth outer w inner v lines →
      Act.Answers (runHosted hosting pace fuel inner) v r → r.isError = true →
      Act.Answers (runHosted hosting pace (fuel + depth) outer) w (r.relayed lines)) ∧
    (∀ fuel c, Act.Answers (runHosted hosting pace fuel outer) w c → c.isError = true →
      ∃ rest depth inner v lines r, fuel = rest + depth ∧
        Nests hosting pace rest depth outer w inner v lines ∧
        Act.Answers (runHosted hosting pace rest inner) v r ∧ r.isError = true ∧ c = r.relayed lines ∧
        (r.trail.length ≤ 1 ∨ inner.isLevel = false)) ∧
    runHosted (fun _ => hostAction) pace = run pace :=
  ⟨fun _ _ _ _ _ _ nests bottom error => nests.answers bottom error,
    fun _ _ answered error => nests_of_answers error answered, runHosted_hostAction⟩

/-- A procedure of the root and an alias of a child that leads to it. -/
def branching : World :=
  ((World.plant {} {}).toOption.getD {}).after (run .timely 20 (.evaluate none World.root
    ("interp create c; proc p m {if 1 {repeat 2 {error $m}}}; interp alias c q {} p" : String)))

/-- The alias is called in a bracketed script of the child, and the procedure fails. -/
def failing : Request :=
  .evaluate none World.root ("interp eval c {set x [eval q boom]}" : String)

/-- The error that comes out has come up through other requests, with the wording that it began with. -/
theorem errors_pass_unaltered_branching :
    ∃ rest depth inner v lines r, 0 < depth ∧
      Nests (fun _ => hostAction) .timely rest depth failing branching inner v lines ∧
      Act.Answers (run .timely rest inner) v r ∧ r.value = ("boom" : Text) ∧
      Act.Answers (run .timely (rest + depth) failing) branching (r.relayed lines) ∧
      (r.relayed lines).trail.length = 10 := by
  have ran : Ends (run .timely 40 failing) branching fun r _ => r.toOption.any (fun c =>
      c.isError ∧ c.value = ("boom" : Text) ∧ c.trail.length = 10) = true := by decide +kernel
  obtain ⟨back, origins, same⟩ := errors_pass_unaltered (fun _ => hostAction) .timely failing branching
  rw [same] at back origins
  obtain ⟨c, answered, error, value, trail⟩ : ∃ c, Act.Answers (run .timely 40 failing) branching c ∧
      c.isError = true ∧ c.value = ("boom" : Text) ∧ c.trail.length = 10 := by
    unfold Ends at ran
    split at ran
    · rename_i c v came
      exact ⟨c, ⟨v, came⟩, of_decide_eq_true ran⟩
    · cases ran
  obtain ⟨rest, depth, inner, v, lines, r, -, nests, bottom, unwell, rfl, own⟩ :=
    origins 40 c answered error
  refine ⟨rest, depth, inner, v, lines, r, ?_, nests, bottom, value, ?_, trail⟩
  · cases nests with
    | bottom =>
      rw [Completion.relayed_nil] at trail
      obtain short | none := own
      · omega
      · cases none
    | level => exact Nat.succ_pos _
  · exact back rest depth inner v lines r nests bottom unwell

end

end Engine

end InterpTree
