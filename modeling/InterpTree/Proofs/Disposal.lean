import InterpTree.Proofs.Handling

/-!
The disposal of objects. Main statement: along any run of the operations on objects and on the tree
nothing is closed twice through one object, and what was never exempt from disposal is closed exactly
when it has to be. A value that was registered several times is closed through each of its objects.
-/

namespace InterpTree

namespace World

variable {w v u : World} {id i h : NodeId} {n m : Node} {t : Nat} {o : Object} {name : Text}

/-! ### Runs -/

theorem handled_append (w : World) (before after : List Handling) :
    w.handled (before ++ after) = (w.handled before).handled after := List.foldl_append

theorem allows_append {before after : List Handling} :
    w.Allows (before ++ after) ↔ w.Allows before ∧ (w.handled before).Allows after := by
  induction before generalizing w with
  | nil => simp [Allows, handled]
  | cons s before ih =>
    simp only [List.cons_append, Allows, ih, and_assoc]
    rfl

variable {steps : List Handling}

/-- What every step keeps holds after any run. -/
theorem handled_induction {I : World → Prop}
    (step : ∀ v (s : Handling), v.IsAccounted → s.Fits v → I v → I (s.apply v))
    (accounted : w.IsAccounted) (allowed : w.Allows steps) (start : I w) :
    (w.handled steps).IsAccounted ∧ I (w.handled steps) := by
  induction steps generalizing w with
  | nil => exact ⟨accounted, start⟩
  | cons s steps ih =>
    exact ih (accounted.step allowed.1) allowed.2 (step w s accounted allowed.1 start)

theorem IsAccounted.handled (accounted : w.IsAccounted) (allowed : w.Allows steps) :
    (w.handled steps).IsAccounted :=
  (handled_induction (I := fun _ => True) (fun _ _ _ _ => id) accounted allowed trivial).1

/-- What is exempt from disposal is never closed again. -/
theorem IsExempt.handled (exempt : w.IsExempt t) (accounted : w.IsAccounted)
    (allowed : w.Allows steps) : (w.handled steps).closings t = w.closings t := by
  refine (handled_induction (I := fun v => v.IsExempt t ∧ v.closings t = w.closings t)
    (fun v s accounted fits inv => ?_) accounted allowed ⟨exempt, rfl⟩).2.2
  obtain ⟨exempt, same⟩ := inv.1.step accounted fits
  exact ⟨exempt, same.trans inv.2⟩

theorem disposal_handled (accounted : w.IsAccounted) (allowed : w.Allows steps)
    (found : w.object? t = some o) :
    ∃ o', (w.handled steps).object? t = some o' ∧ o'.value.disposal = o.value.disposal := by
  refine (handled_induction (I := fun v => ∃ o', v.object? t = some o' ∧ o'.value.disposal = o.value.disposal)
    (fun v s accounted fits inv => ?_) accounted allowed ⟨o, found, rfl⟩).2
  obtain ⟨o', found', same⟩ := inv
  obtain ⟨k, there, same'⟩ := disposal_apply accounted.housed fits found'
  exact ⟨k, there, same'.trans same⟩

/-- A tree stays closed. -/
theorem closed_handled (accounted : w.IsAccounted) (allowed : w.Allows steps)
    (closed : w.closed = true) : (w.handled steps).closed = true :=
  (handled_induction (I := fun v => v.closed = true)
    (fun _ _ accounted fits => (lasts_apply accounted.housed fits).shut) accounted allowed closed).2

/-- Of a run it matters whether it takes the object out. -/
theorem IsLodged.handled {gone : Prop} (lodged : w.IsLodged h t gone) (accounted : w.IsAccounted)
    (allowed : w.Allows steps) (spared : ¬ w.Sees (Handling.Exempts t) steps) :
    (w.handled steps).IsLodged h t (gone ∨ w.Sees (Handling.Removes t) steps) := by
  induction steps generalizing w gone with
  | nil => exact (or_false gone).symm ▸ lodged
  | cons s steps ih =>
    obtain ⟨spared, later⟩ := not_or.mp spared
    have rest := ih (lodged.step accounted.housed allowed.1 spared) (accounted.step allowed.1)
      allowed.2 later
    rwa [or_assoc] at rest

theorem attached?_of_node? (found : w.node? i = some n) : w.attached? i = none ↔ n.attached = false := by
  rw [attached?, found, Option.filter_eq_none_iff]
  simp

/-- An object is registered no more when it was taken out or its node has left the tree. -/
theorem IsLodged.left_iff {gone : Prop} (lodged : w.IsLodged h t gone) (housed : w.IsHoused) :
    w.held h t = 0 ↔ gone ∨ w.attached? h = none := by
  cases found : w.node? h with
  | none =>
    refine iff_of_true ?_ (.inr (by rw [attached?, found]; rfl))
    rw [held, objectsAt, found]
    rfl
  | some n =>
    rw [lodged.left, attached?_of_node? found, (housed.nodes h n found).part]
    simp [IsReleased, found]

theorem Adds.isLodged (adds : w.Adds id name value t v) (housed : w.IsHoused)
    (closable : value.disposal ≠ .ignored) : v.IsLodged id t False where
  closes := by
    rw [closes_of_object? adds.added]
    simp [Object.closes, closable]
  only := adds.only
  sum := by
    rw [closings_congr adds.concerns.closed, housed.closings_eq_zero adds.new, adds.once]
  left := by
    rw [adds.once]
    simp [adds.stays]

/-! ### From the start -/

/-- A new tree has no objects. -/
theorem isAccounted_plant {settings : Settings} {host : Host} (planted : plant settings host = .ok w)
    (unclosed : host.closed = []) : w.IsAccounted := by
  have empty (i : NodeId) : ({ settings, host } : World).node? i = none := by simp [node?]
  have bare : ({ settings, host } : World).IsHoused := by
    refine ⟨fun i n found => ?_, fun i n found => ?_, fun t o found => ?_, fun i e mem => ?_,
      fun t mem => ?_⟩
    · rw [empty] at found
      cases found
    · rw [empty] at found
      cases found
    · simp [object?] at found
    · rw [objectsAt, empty] at mem
      cases mem
    · rw [unclosed] at mem
      cases mem
  have sweeps : Sweeps { settings, host } w := by
    unfold plant at planted
    split at planted
    · rename_i id u introduced
      obtain rfl := Except.ok.inj planted
      have made : (({ settings, host } : World).introduce [] 0 [] {}).1 = .ok id := by rw [introduced]
      have joined := sweeps_join (f := fun n => { n with attached := true }) bare made fun _ => rfl
      rwa [introduced] at joined
    · cases planted
  have never (t : Nat) : w.object? t = none := by
    rw [object?_congr sweeps.objects]
    simp [object?]
  refine ⟨sweeps.housed, fun t => ?_, fun t closes => ?_, fun t o found => ?_, fun closed => ?_⟩
  · rw [sweeps.housed.closings_eq_zero (never t)]
    exact Nat.zero_le 1
  · rw [World.closes, never] at closes
    cases closes
  · rw [never] at found
    cases found
  · rw [sweeps.shut] at closed
    cases closed

theorem apply_add (result : Op.addObject id name value w = .ok t v) :
    (Handling.add id name value).apply w = v := by
  simp only [Handling.apply, after, result]

/-- What becomes of an object that is not exempted. -/
theorem closings_of_add (accounted : w.IsAccounted)
    (fits : (Handling.add id name value).Fits w)
    (result : Op.addObject id name value w = .ok t v) (allowed : v.Allows steps)
    (spared : ¬ v.Sees (Handling.Exempts t) steps) :
    (v.handled steps).closings t =
      if value.disposal ≠ .ignored ∧
        (v.Sees (Handling.Removes t) steps ∨ (v.handled steps).attached? id = none) then 1 else 0 := by
  have same := apply_add result
  have accounted' : v.IsAccounted := same ▸ accounted.step fits
  have adds : w.Adds id name value t v := by
    have ending := Op.ends_addObject name value accounted.housed fits
    unfold Ends at ending
    rw [result] at ending
    obtain ⟨⟨f, refused⟩, -⟩ | ⟨t', done, adds⟩ := ending
    · cases refused
    · obtain rfl := Except.ok.inj done
      exact adds
  by_cases ignored : value.disposal = .ignored
  · obtain ⟨o', found, keep⟩ := disposal_handled accounted' allowed adds.added
    rw [if_neg fun h => h.1 ignored]
    exact (accounted'.handled allowed).ignored t o' found (keep.trans ignored)
  · have lodged := (adds.isLodged accounted.housed ignored).handled accounted' allowed spared
    have left := lodged.left_iff (accounted'.handled allowed).housed
    have sum := lodged.sum
    rw [false_or] at left
    split
    · rename_i gone
      have := left.mpr gone.2
      omega
    · rename_i stays
      have : (v.handled steps).held id t ≠ 0 := fun none => stays ⟨ignored, left.mp none⟩
      omega

/-- A value is closed at most as often as it was registered, and not at all if it cannot be. -/
theorem IsAccounted.closingsOf_le (accounted : w.IsAccounted) (x : HostValue) :
    w.closingsOf x ≤ if x.disposal = .ignored then 0 else w.registrations x := by
  have read {t : Nat} (of : (w.object? t).any (fun o => o.value = x) = true) :
      ∃ o, w.object? t = some o ∧ o.value = x := by
    obtain ⟨o, found, same⟩ := (Option.any_eq_true _ _).mp of
    exact ⟨o, found, of_decide_eq_true same⟩
  unfold closingsOf
  split
  · rename_i ignored
    refine Nat.le_of_eq (List.countP_eq_zero.mpr fun t mem of => ?_)
    obtain ⟨o, found, rfl⟩ := read of
    exact absurd mem (List.count_eq_zero.mp (accounted.ignored t o found ignored))
  · -- No object is in the list twice, and each of those that count is an object of the value.
    have nodup : w.host.closed.Nodup := List.nodup_iff_count_le_one.mpr accounted.once
    rw [List.countP_eq_length_filter, registrations, List.countP_eq_length_filter,
      ← List.length_map Object.token]
    refine (List.subperm_of_subset (nodup.filter _) fun t mem => ?_).length_le
    obtain ⟨o, found, same⟩ := read (List.mem_filter.mp mem).2
    refine List.mem_map.mpr ⟨o, List.mem_filter.mpr ⟨?_, by simpa using same⟩,
      accounted.housed.labeled t o found⟩
    unfold object? at found
    split at found
    · cases found
    · exact Array.mem_def.mp (Array.mem_of_getElem? found)

/-- Objects of `a` and of `a.c`, one of them removed and one shared. Both nodes are handed over to the
host, and when the tree is closed they are visited last one first. -/
def furnishing : List Handling :=
  [.tree (.create root [] "a" {}), .tree (.create root [] "b" {}), .tree (.create 2 [] "c" {}),
    .add 2 "kept" ⟨1, .closes⟩, .add 2 "lent" ⟨2, .closes⟩, .add 4 "gone" ⟨3, .fails⟩, .share 2 "c" "lent",
    .remove 4 "gone", .tree (.share root "b" "a"), .tree (.share root "b" "a.c"), .close [4, 2]]

/-- One value is registered twice in `a`, and one that cannot be closed is registered there too. Then
the tree is closed. -/
def doubling : List Handling :=
  [.tree (.create root [] "a" {}), .add 2 "x" ⟨1, .closes⟩, .add 2 "y" ⟨1, .closes⟩,
    .add 2 "conn" ⟨2, .ignored⟩, .close []]

end World

end InterpTree
