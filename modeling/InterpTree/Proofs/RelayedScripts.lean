import InterpTree.Proofs.Relays

/-!
Errors of scripts, loops and branches. An error of a command or of a bracketed script is that of the
script around it, and an error of a turn or of a branch is that of the loop or of the conditional; no
other has a line on its trail.
-/

namespace InterpTree

namespace Engine

variable {e : Engine} {context : Option Context} {id : NodeId} {w v : World} {c : Completion}

/-! ### Scripts -/

theorem runScript_eq (context : Context) (id : NodeId) (script : Text) (w : World) :
    e.runScript context id script w =
      if w.isDeep id then .ok tooDeep w
      else
        match Script.parse script with
        | .error f => .ok (.fail (.because .invalidArgument f.message (.malformed f))) w
        | .ok commands => e.runCommands context id {} commands w := by
  have read : Act.ofNode id (fun n => (n.cancel.limits.recursionLimit, n.cancel.depth)) w =
      .ok (((w.node? id).map fun n => (n.limit, n.cancel.depth)).getD default) w := rfl
  unfold runScript World.isDeep
  rw [Act.bind_of_ok read]
  cases w.node? id with
  | none =>
    cases Script.parse script <;> rfl
  | some n =>
    simp only [Option.map_some, Option.getD_some, Option.any_some]
    split
    · rfl
    · cases Script.parse script <;> rfl

theorem limitResult_of_error (limit : Int) (error : c.isError = true) : limitResult limit c = c := by
  simp [limitResult, Completion.status_of_isError error]

/-- A result that is over the limit is refused with an error that has no line. -/
theorem limitResult_cases (limit : Int) (c : Completion) :
    limitResult limit c = c ∨ (limitResult limit c).trail = [] := by
  unfold limitResult
  split
  · exact .inr rfl
  · exact .inl rfl

theorem runCommand_error_iff {context : Context} {last : Completion} {command : Script.Command}
    (well : last.status = .ok) (error : c.isError = true) :
    e.runCommand context id last command w = .ok c v ↔
      (∃ reason, Act.checkpoint id w.pass = .ok (some reason) v ∧ c = .fail (.canceled reason)) ∨
      ∃ u, Act.checkpoint id w.pass = .ok none u ∧
        (context.hasEnded u = true ∧ c = .fail .contextEnded ∧ u = v ∨
          context.hasEnded u = false ∧ e.callCommand context id command u = .ok (some c) v) := by
  have passed : (modify World.pass : Act Unit) w = .ok () w.pass := rfl
  unfold runCommand
  rw [Act.bind_of_ok passed, Act.bind_ok_iff]
  constructor
  · rintro ⟨met, u, checked, came⟩
    cases met with
    | some reason =>
      cases came
      exact .inl ⟨reason, checked, rfl⟩
    | none =>
      dsimp only at came
      rw [Act.bind_of_ok (Act.get_apply u)] at came
      refine .inr ⟨u, checked, ?_⟩
      split at came
      · rename_i ended
        cases came
        exact .inl ⟨ended, rfl, rfl⟩
      · rename_i going
        obtain ⟨r, v', called, came⟩ := Act.bind_ok_iff.mp came
        cases r with
        | none =>
          cases came
          exact absurd well (Completion.status_ne_ok_of_isError error)
        | some r =>
          cases came
          exact .inr ⟨by simpa using going, called⟩
  · rintro (⟨reason, checked, rfl⟩ | ⟨u, checked, ⟨ended, rfl, rfl⟩ | ⟨going, called⟩⟩)
    · exact ⟨some reason, v, checked, rfl⟩
    · refine ⟨none, u, checked, ?_⟩
      dsimp only
      rw [Act.bind_of_ok (Act.get_apply u), if_pos ended]
      rfl
    · refine ⟨none, u, checked, ?_⟩
      dsimp only
      rw [Act.bind_of_ok (Act.get_apply u), if_neg (by simp [going]), Act.bind_of_ok called]
      rfl

/-- What the command that a script comes to is answered with. -/
theorem Reaches.answers {script : Text} {command : Script.Command}
    (reaches : e.Reaches context id script w command v) (error : c.isError = true)
    (came : Act.Answers (e.callCommand (context.getD (.ofNode id)) id command) v (some c)) :
    Act.Answers (e.runEvaluate context id script) w c := by
  obtain ⟨found, ready, room, parsed, earlier, well, met, going⟩ := reaches
  obtain ⟨v', came⟩ := came
  unfold Act.Answers
  rw [runEvaluate_eq_begun found ready]
  refine Act.answers_ensuring_iff.mpr (Act.answers_bind_iff.mpr ⟨c, v', ?_, ?_⟩)
  · rw [runScript_eq, if_neg (by simp [room]), parsed]
    refine (runCommands_stopped_iff rfl (Completion.status_ne_ok_of_isError error)).mpr
      ⟨_, _, _, _, _, rfl, earlier, well, ?_⟩
    exact (runCommand_error_iff well error).mpr (.inr ⟨v, met, .inr ⟨going, came⟩⟩)
  · rw [Act.answers_ofNode_iff, Act.answers_pure_iff, limitResult_of_error _ error]

/-- An error of a script has no line, or comes from one of its commands. -/
theorem reaches_of_answers {script : Text} (error : c.isError = true)
    (answered : Act.Answers (e.runEvaluate context id script) w c) :
    c.trail = [] ∨ ∃ command v, e.Reaches context id script w command v ∧
      Act.Answers (e.callCommand (context.getD (.ofNode id)) id command) v (some c) := by
  cases found : w.node? id with
  | none =>
    unfold runEvaluate at answered
    rw [Act.answers_get_iff, found] at answered
    exact .inl (Act.answers_pure_iff.mp answered ▸ rfl)
  | some n =>
    cases ready : n.dead || !w.settings.hasEvaluator with
    | true =>
      unfold runEvaluate at answered
      rw [Act.answers_get_iff, found] at answered
      dsimp only at answered
      split at answered
      · exact .inl (Act.answers_pure_iff.mp answered ▸ rfl)
      · rename_i alive
        have unable : (!w.settings.hasEvaluator) = true := by simpa [alive] using ready
        rw [if_pos unable] at answered
        exact .inl (Act.answers_pure_iff.mp answered ▸ rfl)
    | false =>
      unfold Act.Answers at answered
      rw [runEvaluate_eq_begun found ready] at answered
      obtain ⟨r, u, ran, limited⟩ :=
        Act.answers_bind_iff.mp (Act.answers_ensuring_iff.mp answered)
      rw [Act.answers_ofNode_iff, Act.answers_pure_iff] at limited
      obtain same | bare := limitResult_cases _ r
      · rw [same] at limited
        subst limited
        rw [runScript_eq] at ran
        split at ran
        · cases ran
          exact .inl rfl
        · rename_i room
          split at ran
          · cases ran
            exact .inl rfl
          · rename_i commands parsed
            obtain ⟨before, command, after, last, v, rfl, earlier, well, stops⟩ :=
              (runCommands_stopped_iff rfl (Completion.status_ne_ok_of_isError error)).mp ran
            obtain ⟨reason, -, rfl⟩ | ⟨t, met, ⟨-, rfl, -⟩ | ⟨going, called⟩⟩ :=
              (runCommand_error_iff well error).mp stops
            · exact .inl rfl
            · exact .inl rfl
            · exact .inr ⟨command, t, .intro found ready (by simpa using room) parsed earlier well met
                going, u, called⟩
      · rw [limited] at bare
        exact .inl bare

theorem Brackets.stops {text source : Text} {u : World}
    (brackets : e.Brackets context id text w source u)
    (came : e.evaluate context id source u = .ok c v) (unwell : c.status ≠ .ok) :
    e.substitute context id text w = .ok (.error c) v := by
  obtain ⟨split, earlier⟩ := brackets
  refine substitute_stopped_iff.mpr ⟨_, _, _, _, u, split, earlier, ?_⟩
  dsimp only [substitutePiece]
  rw [Act.bind_of_ok came, if_neg unwell]
  rfl

theorem brackets_of_stopped {text : Text} (stops : e.substitute context id text w = .ok (.error c) v) :
    c.isError = true ∧ c.trail = [] ∨ ∃ source u, e.Brackets context id text w source u ∧
      e.evaluate context id source u = .ok c v := by
  obtain ⟨before, piece, after, value, u, split, earlier, stops⟩ := substitute_stopped_iff.mp stops
  obtain own | ⟨source, rfl, came, -⟩ := substitutePiece_stopped stops
  · exact .inl own
  · exact .inr ⟨source, u, .intro split earlier, came⟩

theorem BracketsOf.stops {words : List Script.Word} {source : Text} {u : World}
    (brackets : e.BracketsOf context id words w source u)
    (came : e.evaluate context id source u = .ok c v) (unwell : c.status ≠ .ok) :
    e.substituteWords context id words w = .ok (.error c) v := by
  obtain ⟨split, earlier, bare, brackets⟩ := brackets
  rw [substituteWords_eq] at earlier ⊢
  exact collect_stopped_iff.mpr ⟨_, _, _, _, _, split, earlier,
    substituteWord_stopped_iff.mpr ⟨bare, brackets.stops came unwell⟩⟩

theorem bracketsOf_of_stopped {words : List Script.Word}
    (stops : e.substituteWords context id words w = .ok (.error c) v) :
    c.isError = true ∧ c.trail = [] ∨ ∃ source u, e.BracketsOf context id words w source u ∧
      e.evaluate context id source u = .ok c v := by
  rw [substituteWords_eq] at stops
  obtain ⟨before, word, after, values, t, split, earlier, stops⟩ := collect_stopped_iff.mp stops
  rw [← substituteWords_eq] at earlier
  obtain ⟨bare, stops⟩ := substituteWord_stopped_iff.mp stops
  obtain own | ⟨source, u, brackets, came⟩ := brackets_of_stopped stops
  · exact .inl own
  · exact .inr ⟨source, u, .intro split earlier bare brackets, came⟩

/-! ### Loops and branches -/

section

variable {call : Call} {body script : Text} {u : World} {r : Completion}

/-- A loop that has made some turns goes on with those that are left. -/
theorem Turns.repeatBody {turns : Nat} (turned : e.Turns call body turns w v) (more : Nat)
    {left : Option Nat} (enough : ∀ n ∈ left, turns ≤ n) :
    call.repeatBody e body (turns + more) left w =
      call.repeatBody e body more (left.map (· - turns)) v := by
  -- A turn takes one from what is left, where that is counted at all.
  induction turned generalizing left with
  | none => simp
  | @more turns w t v c turned going rest ih =>
    have next : ∀ n ∈ left.map Nat.pred, turns ≤ n := by
      intro n mem
      obtain ⟨m, same, rfl⟩ := Option.map_eq_some_iff.mp mem
      have := enough m same
      simp only [Nat.pred_eq_sub_one]
      omega
    have shift : (left.map Nat.pred).map (· - turns) = left.map (· - (turns + 1)) := by
      cases left with
      | none => rfl
      | some n =>
        simp only [Option.map_some, Nat.pred_eq_sub_one, Option.some_inj]
        omega
    rw [← shift, ← ih next, Nat.add_right_comm]
    have some : left ≠ some 0 := by
      rintro rfl
      have := enough 0 rfl
      omega
    rw [Call.repeatBody, Act.bind_of_ok turned]
    · rcases going with ok | again
      · rw [ok]
      · rw [again]
    · exact some

/-- An error ends the loop. -/
theorem repeatBody_of_error {turns : Nat} {left : Option Nat} (some : left ≠ some 0)
    (came : call.evaluate e body w = .ok r u) (error : r.isError = true) :
    call.repeatBody e body (turns + 1) left w = .ok r u := by
  rw [Call.repeatBody, Act.bind_of_ok came, Completion.status_of_isError error]
  · rfl
  · exact some

theorem Turns.answers {count : Text} {i : Int} {turns : Nat} (turned : e.Turns call body turns w v)
    (named : call.args = [count, body]) (number : Text.toInt? count = some i)
    (left : i < 0 ∨ turns < i.toNat) (able : turns < e.turns)
    (came : call.evaluate e body v = .ok r u) (error : r.isError = true) :
    Act.Answers (call.repeating e) w r := by
  obtain ⟨more, able⟩ := Nat.exists_eq_add_of_lt able
  unfold Call.repeating
  rw [named]
  dsimp only
  rw [number]
  refine ⟨u, ?_⟩
  dsimp only
  rw [able, Nat.add_assoc, turned.repeatBody (more + 1)]
  · refine repeatBody_of_error ?_ came error
    split
    · exact nofun
    · simp only [Option.map_some, ne_eq, Option.some_inj]
      omega
  · intro n mem
    split at mem
    · cases mem
    · obtain rfl := Option.some.inj mem
      omega

/-- What follows a branch whose condition does not hold. -/
def otherwise (e : Engine) (call : Call) : List Text → Act Completion
  | [] => return .ok []
  | word :: rest =>
    if word == Text.ofString "elseif" then call.branches e rest
    else
      match rest with
      | [body] =>
        if word == Text.ofString "else" then call.evaluate e body else return Call.branches.usage
      | _ => return Call.branches.usage

theorem branches_cons (condition body : Text) (rest : List Text) :
    call.branches e (condition :: body :: rest) = (do
      match ← e.substitute call.context call.node condition with
      | .error stopped => return stopped
      | .ok value =>
        match Call.truth? value with
        | .error f => return .fail f
        | .ok true => call.evaluate e body
        | .ok false => e.otherwise call rest) := by
  conv_lhs => unfold Call.branches
  refine bind_congr fun value => ?_
  cases value with
  | error stopped => rfl
  | ok value =>
    dsimp only
    cases Call.truth? value with
    | error f => rfl
    | ok holds =>
      cases holds with
      | true => rfl
      | false => cases rest <;> rfl

theorem Tries.answers {words : List Text} (tries : e.Tries call words w script v)
    (came : call.evaluate e script v = .ok r u) (error : r.isError = true) :
    Act.Answers (call.branches e words) w r := by
  induction tries with
  | @condition condition body source rest w v brackets =>
    have unwell := Completion.status_ne_ok_of_isError error
    rw [branches_cons, Act.answers_bind_iff]
    exact ⟨_, u, brackets.stops came unwell, Act.answers_pure_iff.mpr rfl⟩
  | @holds condition body value rest w v substituted truth =>
    rw [branches_cons, Act.answers_bind_iff]
    refine ⟨_, v, substituted, ?_⟩
    dsimp only
    rw [truth]
    exact ⟨u, came⟩
  | @otherwise condition body value last w v substituted truth =>
    rw [branches_cons, Act.answers_bind_iff]
    refine ⟨_, v, substituted, ?_⟩
    dsimp only
    rw [truth]
    exact ⟨u, came⟩
  | @next condition body value script rest w t v substituted truth tries ih =>
    rw [branches_cons, Act.answers_bind_iff]
    refine ⟨_, t, substituted, ?_⟩
    dsimp only
    rw [truth]
    exact ih came

end

end Engine

end InterpTree
