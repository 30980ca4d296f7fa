import InterpTree.Proofs.Disposal

/-!
Shares of objects that are refused. To share an object is to mark it and then to register it with
another node, where its name may be taken: then the share is refused, but the mark stays, and the
object is not disposed of any more, although no other node has it. Main statement: in any run of the
operations on objects and on the tree this is the one way in which a refused share does harm.
-/

namespace InterpTree

/-- The object once it has been lent, which is disposed of with no node. -/
def Object.lent (o : Object) : Object := { o with noDispose := true, shared := true }

theorem Object.lent_eq_self_iff {o : Object} :
    o.lent = o ↔ o.noDispose = true ∧ o.shared = true := by
  cases o
  simp [lent, eq_comm]

namespace World

variable {w v : World} {caller : NodeId} {path name : Text} {o : Object} {t : Nat}

/-- The object that a caller may share with the node at a path, but that node has another object of
the same name. -/
def clash? (w : World) (caller : NodeId) (path name : Text) : Option Object := do
  let n ← w.node? caller
  let target ← w.resolve? caller path
  let o ← (n.objects.lookup name).bind w.object?
  let token ← (w.objectsAt target).lookup name
  if n.trust.safe || target = caller || token = o.token then none else some o

theorem object?_of_clash? (clashes : w.clash? caller path name = some o) :
    ∃ t, (w.objectsAt caller).lookup name = some t ∧ w.object? t = some o := by
  simp only [clash?, Option.bind_eq_bind, Option.bind_eq_some_iff] at clashes
  obtain ⟨n, found, target, -, o', ⟨t, named, there⟩, token, -, same⟩ := clashes
  split at same
  · cases same
  · obtain rfl := Option.some.inj same
    exact ⟨t, by rw [objectsAt_of_node? found, named], there⟩

end World

namespace Op

open World

variable {w v : World} {caller : NodeId} {path name : Text} {o : Object} {t : Nat}

/-- A share is granted, or refused without a trace, or it clashes and leaves the object marked. -/
theorem ends_shareObject_clash (numbered : w.IsNumbered) (caller : NodeId) (path name : Text) :
    Ends (shareObject caller path name) w fun r v =>
      match w.clash? caller path name with
      | some o => r = .error (.objectExists name) ∧ v = w.modifyObject o.token Object.lent
      | none => (∃ token, r = .ok token) ∨ v = w := by
  simp only [shareObject, Ends.bind_iff, ends_requirePrivilege, ends_resolve, ends_object?]
  refine ⟨fun n found => ⟨fun trusted => ⟨fun target resolved => ⟨fun n' found' => ?_,
    fun none => ?_⟩, fun none => ?_⟩, fun safe => ?_⟩, fun none => ?_⟩
  · obtain rfl : n = n' := Option.some.inj (found.symm.trans found')
    cases there : (n.objects.lookup name).bind w.object? with
    | none => simp [clash?, found, resolved, there]
    | some o =>
      rw [Ends.bind_iff, ends_change]
      generalize marked : World.modifyObject o.token _ w = u
      have nodes : u.nodes = w.nodes := by
        rw [← marked]
        exact nodes_modifyObject o.token _ w
      by_cases here : target = caller
      · simp [here, clash?, found, resolved]
      · obtain ⟨m, reached, -⟩ := alive_of_resolve? numbered resolved
        have reached' := (node?_congr nodes target).trans reached
        have clash : w.clash? caller path name =
            (m.objects.lookup name).bind fun token => if token = o.token then none else some o := by
          simp [clash?, found, trusted, resolved, there, here, objectsAt_of_node? reached]
        simp only [if_pos here, Ends.bind_iff, ends_node, clash]
        refine ⟨fun m' there' => ?_, fun none => ?_⟩
        · obtain rfl : m = m' := Option.some.inj (reached'.symm.trans there')
          cases taken : m.objects.lookup name with
          | none => exact .inl ⟨o.token, rfl⟩
          | some token =>
            by_cases own : token = o.token
            · simp only [Option.bind_some, if_pos own, decide_eq_true own]
              exact .inl ⟨o.token, rfl⟩
            · simp only [Option.bind_some, if_neg own, decide_eq_false own]
              exact ⟨rfl, marked.symm⟩
        · rw [reached'] at none
          cases none
  · rw [found] at none
    cases none
  · simp [clash?, found, none]
  · simp [clash?, found, safe]
  · simp [clash?, none]

theorem shareObject_of_clash (numbered : w.IsNumbered)
    (clash : w.clash? caller path name = some o) : shareObject caller path name w =
      .error (.objectExists name) (w.modifyObject o.token Object.lent) := by
  have ending := ends_shareObject_clash numbered caller path name
  simp only [clash, Ends] at ending
  split at ending
  · cases ending.1
  · rename_i f v result
    rw [result, Except.error.inj ending.1, ending.2]

/-- What a refused share leaves behind. -/
theorem shareObject_refused (numbered : w.IsNumbered) {f : Fault}
    (refused : shareObject caller path name w = .error f v) :
    v = (w.clash? caller path name).elim w fun o => w.modifyObject o.token Object.lent := by
  cases clash : w.clash? caller path name with
  | some o =>
    rw [shareObject_of_clash numbered clash] at refused
    cases refused
    rfl
  | none =>
    have ending := ends_shareObject_clash numbered caller path name
    simp only [clash, Ends, refused] at ending
    obtain ⟨token, granted⟩ | same := ending
    · cases granted
    · exact same

end Op

namespace Handling

/-- The step is a share of the object that is granted, or the host exempts the object itself. -/
def Frees (t : Nat) : Handling → World → Prop
  | share caller path name, w => (w.objectsAt caller).lookup name = some t ∧
      Ends (Op.shareObject caller path name) w fun r _ => r.isOk = true
  | exempt token, _ => token = t
  | add .., _ | remove .., _ | tree _, _ | close _, _ => False

instance (t : Nat) : (s : Handling) → (w : World) → Decidable (s.Frees t w)
  | add .., _ | tree _, _ | close _, _ | remove .., _ | share .., _ | exempt _, _ => by
    unfold Frees
    infer_instance

/-- The step is a share of the object that clashes with another one. -/
def Clashes (t : Nat) : Handling → World → Prop
  | share caller path name, w => (w.clash? caller path name).map Object.token = some t
  | add .., _ | remove .., _ | exempt _, _ | tree _, _ | close _, _ => False

instance (t : Nat) : (s : Handling) → (w : World) → Decidable (s.Clashes t w)
  | add .., _ | tree _, _ | close _, _ | remove .., _ | share .., _ | exempt _, _ => by
    unfold Clashes
    infer_instance

end Handling

namespace World

variable {w v : World} {caller id h : NodeId} {path name : Text} {o : Object} {t : Nat}
  {value : HostValue} {s : Handling} {steps : List Handling}

theorem held_pos_of_lookup {i : NodeId} (named : (w.objectsAt i).lookup name = some t) :
    0 < w.held i t := by
  obtain ⟨before, after, split, -⟩ := List.lookup_eq_some_iff.mp named
  exact List.count_pos_iff.mpr (List.mem_map.mpr ⟨(name, t), by simp [split], rfl⟩)

/-- A share that clashes exempts an object that has not been closed. -/
theorem IsLodged.of_clash {gone : Prop} (lodged : w.IsLodged h t gone) (housed : w.IsHoused)
    (clashes : s.Clashes t w) : (s.apply w).IsExempt t ∧ (s.apply w).closings t = 0 := by
  cases s with
  | share caller path name =>
    obtain ⟨o, clash, rfl⟩ := Option.map_eq_some_iff.mp clashes
    obtain ⟨t, named, there⟩ := object?_of_clash? clash
    obtain rfl := housed.labeled t o there
    have left : (Handling.share caller path name).apply w = w.modifyObject o.token Object.lent := by
      simp only [Handling.apply, after, Op.shareObject_of_clash housed.numbered clash]
    -- Only the node where the object is lodged has it to share.
    have here : caller = h := by
      by_contra away
      have := held_pos_of_lookup named
      rw [lodged.only caller away] at this
      omega
    rw [left]
    refine ⟨⟨o.lent, ?_, rfl⟩, ?_⟩
    · rw [object?_modifyObject, if_pos rfl, there]
      rfl
    · rw [closings_congr (congrArg Host.closed (host_modifyObject _ _ w))]
      have := held_pos_of_lookup named
      have sum := lodged.sum
      rw [here] at this
      omega
  | add | remove | exempt | tree | close => exact clashes.elim

/-- A share that is refused without a clash leaves everything as it was. -/
theorem apply_of_spared (housed : w.IsHoused) (asked : s.Exempts t w) (kept : ¬ s.Frees t w)
    (apart : ¬ s.Clashes t w) : s.apply w = w := by
  cases s with
  | share caller path name =>
    cases result : Op.shareObject caller path name w with
    | ok token v => exact absurd ⟨asked, .of_ok result rfl⟩ kept
    | error f v =>
      have left := Op.shareObject_refused housed.numbered result
      cases clash : w.clash? caller path name with
      | none =>
        rw [clash] at left
        simp only [Handling.apply, after, result]
        exact left
      | some o =>
        obtain ⟨t', named, there⟩ := object?_of_clash? clash
        obtain rfl : t' = t := Option.some.inj (named.symm.trans asked)
        exact absurd (by simp [Handling.Clashes, clash, housed.labeled t' o there]) apart
  | exempt token => exact absurd asked kept
  | add | remove | tree | close => exact asked.elim

/-- What is not lent, and not shared in vain, is lodged as ever. -/
theorem IsLodged.of_spared {gone : Prop} (lodged : w.IsLodged h t gone) (housed : w.IsHoused)
    (fits : s.Fits w) (kept : ¬ s.Frees t w) (apart : ¬ s.Clashes t w) :
    (s.apply w).IsLodged h t (gone ∨ s.Removes t w) := by
  by_cases asked : s.Exempts t w
  · rw [apply_of_spared housed asked kept apart]
    have stays : ¬ s.Removes t w := by
      cases s with
      | share | exempt => exact id
      | add | remove | tree | close => exact asked.elim
    rwa [or_iff_left stays]
  · exact lodged.step housed fits asked

/-- An object that is never lent: either a share of it clashed, and it is not closed, or it is lodged
as ever. -/
theorem IsLodged.unlent {gone : Prop} (lodged : w.IsLodged h t gone) (accounted : w.IsAccounted)
    (allowed : w.Allows steps) (kept : ¬ w.Sees (Handling.Frees t) steps) :
    w.Sees (Handling.Clashes t) steps ∧ (w.handled steps).closings t = 0 ∨
      ¬ w.Sees (Handling.Clashes t) steps ∧
        (w.handled steps).IsLodged h t (gone ∨ w.Sees (Handling.Removes t) steps) := by
  -- After the first clash the object is exempt, and what follows does not matter any more.
  induction steps generalizing w gone with
  | nil => exact .inr ⟨id, (or_false gone).symm ▸ lodged⟩
  | cons s steps ih =>
    obtain ⟨kept, later⟩ := not_or.mp kept
    have accounted' := accounted.step allowed.1
    by_cases clashes : s.Clashes t w
    · obtain ⟨exempt, none⟩ := lodged.of_clash accounted.housed clashes
      exact .inl ⟨.inl clashes, (exempt.handled accounted' allowed.2).trans none⟩
    · have rest := ih (lodged.of_spared accounted.housed allowed.1 kept clashes) accounted'
        allowed.2 later
      rw [or_assoc] at rest
      exact rest.imp (And.imp_left .inr) (And.imp_left fun never => not_or.mpr ⟨clashes, never⟩)

theorem adds_of_ok (housed : w.IsHoused) (fits : (Handling.add id name value).Fits w)
    (result : Op.addObject id name value w = .ok t v) : w.Adds id name value t v := by
  have ending := Op.ends_addObject name value housed fits
  simp only [Ends, result] at ending
  obtain ⟨⟨f, refused⟩, -⟩ | ⟨t', done, adds⟩ := ending
  · cases refused
  · exact Except.ok.inj done ▸ adds

/-- What becomes of an object that is never lent. -/
theorem closings_of_unlent (accounted : w.IsAccounted)
    (fits : (Handling.add id name value).Fits w)
    (result : Op.addObject id name value w = .ok t v) (allowed : v.Allows steps)
    (kept : ¬ v.Sees (Handling.Frees t) steps) :
    (v.handled steps).closings t =
      if value.disposal ≠ .ignored ∧ ¬ v.Sees (Handling.Clashes t) steps ∧
        (v.Sees (Handling.Removes t) steps ∨ (v.handled steps).attached? id = none) then 1 else 0 := by
  have accounted' : v.IsAccounted := apply_add result ▸ accounted.step fits
  have later := accounted'.handled allowed
  have adds := adds_of_ok accounted.housed fits result
  by_cases ignored : value.disposal = .ignored
  · obtain ⟨o, found, same⟩ := disposal_handled accounted' allowed adds.added
    rw [if_neg fun h => h.1 ignored]
    exact later.ignored t o found (same.trans ignored)
  · obtain ⟨clashes, none⟩ | ⟨apart, lodged⟩ :=
      (adds.isLodged accounted.housed ignored).unlent accounted' allowed kept
    · rw [if_neg fun h => h.2.1 clashes]
      exact none
    · have left := lodged.left_iff later.housed
      have sum := lodged.sum
      rw [false_or] at left
      simp only [ne_eq, ignored, not_false_eq_true, apart, true_and, ← left]
      split <;> omega

theorem modifyObject_eq_self {f : Object → Object} (there : w.object? t = some o)
    (same : f o = o) : w.modifyObject t f = w := by
  unfold object? at there
  unfold modifyObject
  split
  · rfl
  · rename_i some
    rw [if_neg some] at there
    have kept : w.objects.modify (t - 1) f = w.objects := by
      refine Array.ext_getElem? fun i => ?_
      rw [Array.getElem?_modify]
      split
      · rename_i here
        rw [← here, there, Option.map_some, same]
      · rfl
    rw [kept]

/-- A share that is refused leaves everything as it was, unless it clashes with an object in the other
node that has the same name. Then it leaves the object that was to be shared marked as lent, and
nothing else; so in a run on a fresh tree a refused share leaves everything as it was if and only if
what it clashes with, if anything, bears both marks already. An object that no share of it that was
granted has lent, and that the host has not exempted, has been closed once at the end of the run if
its value can be closed, no share of it clashed, and it was removed or its node has left the tree; and
otherwise it has not been closed. -/
theorem refused_share_keeps_unless_clash {settings : Settings} {host : Host}
    (planted : plant settings host = .ok w) (unclosed : host.closed = [])
    (allowed : w.Allows steps) :
    (∀ u : World, u.IsNumbered → ∀ caller path name f v,
      Op.shareObject caller path name u = .error f v →
      v.nodes = u.nodes ∧
        v = (u.clash? caller path name).elim u fun o => u.modifyObject o.token Object.lent) ∧
    (∀ caller path name f v, Op.shareObject caller path name (w.handled steps) = .error f v →
      (v = w.handled steps ↔ ∀ o, (w.handled steps).clash? caller path name = some o →
        o.noDispose = true ∧ o.shared = true)) ∧
    (∀ before id name value after t v, steps = before ++ .add id name value :: after →
      Op.addObject id name value (w.handled before) = .ok t v →
      ¬ v.Sees (Handling.Frees t) after →
      (w.handled steps).closings t =
        if value.disposal ≠ .ignored ∧ ¬ v.Sees (Handling.Clashes t) after ∧
          (v.Sees (Handling.Removes t) after ∨ (w.handled steps).attached? id = none) then 1
        else 0) := by
  have start := isAccounted_plant planted unclosed
  refine ⟨fun u numbered caller path name f v refused => ?_, fun caller path name f v refused => ?_,
    ?_⟩
  · have left := Op.shareObject_refused numbered refused
    refine ⟨?_, left⟩
    cases clash : u.clash? caller path name with
    | none => rw [left, clash, Option.elim_none]
    | some o => rw [left, clash, Option.elim_some, nodes_modifyObject]
  · have housed := (start.handled allowed).housed
    have left := Op.shareObject_refused housed.numbered refused
    cases clash : (w.handled steps).clash? caller path name with
    | none => simp [left, clash]
    | some o =>
      obtain ⟨t, -, there⟩ := object?_of_clash? clash
      obtain rfl := housed.labeled t o there
      rw [clash, Option.elim_some] at left
      refine ⟨fun same o' this => ?_, fun marked => ?_⟩
      · obtain rfl : o = o' := Option.some.inj this
        have lent : v.object? o.token = some o.lent := by
          rw [left, object?_modifyObject, if_pos rfl, there]
          rfl
        rw [same, there] at lent
        exact Object.lent_eq_self_iff.mp (Option.some.inj lent).symm
      · rw [left]
        exact modifyObject_eq_self there (Object.lent_eq_self_iff.mpr (marked o rfl))
  · rintro before id name value after t v rfl result kept
    obtain ⟨first, fits, rest⟩ := allows_append.mp allowed
    have same := apply_add result
    have whole : w.handled (before ++ .add id name value :: after) = v.handled after := by
      rw [handled_append]
      exact congrArg (fun u => u.handled after) same
    rw [whole]
    exact closings_of_unlent (start.handled first) fits result (same ▸ rest) kept

/-- Node `a` asks to share an object with `a.b`, which has one of the same name, and then both are
torn down. -/
def lending : List Handling :=
  [.tree (.create root [] "a" {}), .tree (.create 2 [] "b" {}), .add 2 "conn" ⟨1, .closes⟩,
    .add 3 "conn" ⟨2, .closes⟩, .share 2 "b" "conn", .tree (.delete none root "a")]

/-- The share is refused, and the object of `a` is left over. -/
theorem refused_share_keeps_unless_clash_lending :
    sapling.Allows lending ∧ sapling.host.closed = [] ∧
      (∃ v, Op.shareObject 2 "b" "conn" (sapling.handled (lending.take 4)) =
        .error (.objectExists "conn") v ∧ v ≠ sapling.handled (lending.take 4)) ∧
      (sapling.handled lending).attached? 2 = none ∧ (sapling.handled lending).closings 1 = 0 ∧
      (sapling.handled lending).closings 2 = 1 := by
  have allowed : sapling.Allows lending := by decide +kernel
  have early : sapling.Allows (lending.take 4) := by decide +kernel
  let o : Object := { name := "conn", token := 1, value := ⟨1, .closes⟩ }
  have clash : (sapling.handled (lending.take 4)).clash? 2 "b" "conn" = some o := by decide +kernel
  have refused : Op.shareObject 2 "b" "conn" (sapling.handled (lending.take 4)) =
    .error (.objectExists "conn") ((sapling.handled (lending.take 4)).modifyObject 1 Object.lent) := by
    decide +kernel
  obtain ⟨-, harm, -⟩ := refused_share_keeps_unless_clash plant_sapling rfl early
  obtain ⟨-, -, added⟩ := refused_share_keeps_unless_clash plant_sapling rfl allowed
  have first : Op.addObject 2 "conn" ⟨1, .closes⟩ (sapling.handled (lending.take 2)) =
    .ok 1 (sapling.handled (lending.take 3)) := by decide +kernel
  have second : Op.addObject 3 "conn" ⟨2, .closes⟩ (sapling.handled (lending.take 3)) =
    .ok 2 (sapling.handled (lending.take 4)) := by decide +kernel
  have lost := added _ 2 "conn" ⟨1, .closes⟩ (lending.drop 3) 1 _ rfl first (by decide +kernel)
  have kept := added _ 3 "conn" ⟨2, .closes⟩ (lending.drop 4) 2 _ rfl second (by decide +kernel)
  refine ⟨allowed, rfl, ⟨_, refused, fun same => ?_⟩, by decide +kernel,
    lost.trans (by decide +kernel), kept.trans (by decide +kernel)⟩
  exact Bool.false_ne_true ((harm _ _ _ _ _ refused).mp same o clash).1

end World

end InterpTree
