import GroundLink.Proofs.VehicleLists

/-! Which item of its list a simulated vehicle takes for the current one. The number it keeps is 0 or
that of an item it holds. Every way in which the list is replaced or emptied sets the number back, but
one: when an empty list is announced the items go and the number stays. It then names an item that is no
longer there, until a list is stored or cleared again (`Dangles`), and a peer that asks for another
current item is told that number. -/

namespace GroundLink

namespace VehicleMission

variable {acts : List Act} {act : Act} {v : VehicleMission}

/-- An empty list is announced. -/
def Act.AnnouncesNone : Act → Prop
  | .message _ (.missionCount m) => m.count = 0
  | _ => False

/-- The current item is one of the list, or the number is 0. -/
def CurrentHeld (v : VehicleMission) : Prop := v.current = 0 ∨ v.current.toNat < v.items.length

instance (v : VehicleMission) : Decidable v.CurrentHeld := inferInstanceAs (Decidable (_ ∨ _))

/-- A number that an empty list left behind: it named an item, other than the first, when an empty list was
announced, and since then the vehicle has held no items and kept the number. -/
structure Dangles (done : List Act) (act : Act) (later : List Act) : Prop where
  announced : act.AnnouncesNone
  held : (initial.run done).current.toNat < (initial.run done).items.length
  ne_zero : (initial.run done).current ≠ 0
  since : ∀ part, part <+: later →
    (initial.run (done ++ act :: part)).items = [] ∧
      (initial.run (done ++ act :: part)).current = (initial.run done).current

def Dangling (acts : List Act) : Prop :=
  ∃ done act later, acts = done ++ act :: later ∧ Dangles done act later

/-- What one act makes of the list and of the number of the current item. -/
inductive Points (act : Act) (v v' : VehicleMission) : Prop
  | kept (hitems : v'.items = v.items) (hcurrent : v'.current = v.current)
  | chosen (hitems : v'.items = v.items) (hcurrent : v'.current.toNat < v'.items.length)
  | reset (hcurrent : v'.current = 0)
  | emptied (h : act.AnnouncesNone) (hitems : v'.items = []) (hcurrent : v'.current = v.current)

section Acts

variable (v : VehicleMission) (peer : Address)

theorem points_count (m : MissionCount) :
    Points (.message peer (.missionCount m)) v (v.onCount peer m).state := by
  unfold onCount
  split
  · rename_i hzero
    exact .emptied hzero rfl rfl
  · exact .kept rfl rfl

theorem points_item (m : MissionItemInt) :
    Points (.message peer (.missionItemInt m)) v (v.onItem m).state := by
  unfold onItem
  split
  · split
    · exact .kept rfl rfl
    · dsimp only
      split
      · exact .reset rfl
      · exact .kept rfl rfl
  · exact .kept rfl rfl

theorem points_requestList (m : MissionList) :
    Points (.message peer (.missionRequestList m)) v (v.onRequestList peer m).state := by
  unfold onRequestList
  split <;> exact .kept rfl rfl

theorem points_request (m : MissionRequest) :
    Points (.message peer (.missionRequestInt m)) v (v.onRequest peer m).state := by
  unfold onRequest
  split <;> exact .kept rfl rfl

theorem points_setCurrent (m : MissionSetCurrent) :
    Points (.message peer (.missionSetCurrent m)) v (v.onSetCurrent m).state := by
  simp only [onSetCurrent]
  split
  · rename_i hlt
    exact .chosen rfl hlt
  · exact .kept rfl rfl

theorem points_perform (act : Act) : Points act v (v.perform act).state := by
  cases act with
  | store items => exact .reset rfl
  | requestLegacy on => exact .kept rfl rfl
  | message peer m =>
      cases m with
      | missionCount m => exact points_count v peer m
      | missionItemInt m => exact points_item v peer m
      | missionRequestList m => exact points_requestList v peer m
      | missionRequestInt m => exact points_request v peer m
      | missionSetCurrent m => exact points_setCurrent v peer m
      | missionAck m => exact .kept rfl rfl
      | missionClearAll m => exact .reset rfl
      | _ => exact .kept rfl rfl

end Acts

theorem run_split_concat (done : List Act) (mid act : Act) (later : List Act) :
    initial.run (done ++ mid :: (later ++ [act])) =
      ((initial.run (done ++ mid :: later)).perform act).state := by
  rw [← List.cons_append, ← List.append_assoc, run_concat]

/-- A number that dangles does so until an act sets it back. -/
theorem Dangles.concat {done : List Act} {mid : Act} {later : List Act}
    (h : Dangles done mid later) {act : Act}
    (hitems : (initial.run (done ++ mid :: (later ++ [act]))).items = [])
    (hcurrent : (initial.run (done ++ mid :: (later ++ [act]))).current =
      (initial.run (done ++ mid :: later)).current) :
    Dangles done mid (later ++ [act]) := by
  refine ⟨h.announced, h.held, h.ne_zero, ?_⟩
  intro part hpart
  rcases List.prefix_concat_iff.mp hpart with rfl | hbefore
  · exact ⟨hitems, hcurrent.trans (h.since later (List.prefix_refl later)).2⟩
  · exact h.since part hbefore

theorem Dangles.not_held {done : List Act} {mid : Act} {later : List Act} (h : Dangles done mid later) :
    ¬ (initial.run (done ++ mid :: later)).CurrentHeld := by
  obtain ⟨hitems, hcurrent⟩ := h.since later (List.prefix_refl later)
  rintro (hzero | hlt)
  · exact h.ne_zero (hcurrent.symm.trans hzero)
  · rw [hitems] at hlt
    exact Nat.not_lt_zero _ hlt

/-- An empty list is announced while the current item is one of the list. -/
theorem held_or_dangling_of_emptied (h : (initial.run acts).CurrentHeld) (hact : act.AnnouncesNone)
    (hitems : ((initial.run acts).perform act).state.items = [])
    (hcurrent : ((initial.run acts).perform act).state.current = (initial.run acts).current) :
    ((initial.run acts).perform act).state.CurrentHeld ∨ Dangling (acts ++ [act]) := by
  by_cases hzero : (initial.run acts).current = 0
  · exact .inl (.inl (hcurrent.trans hzero))
  · refine .inr ⟨acts, act, [], rfl, hact, h.resolve_left hzero, hzero, ?_⟩
    intro part hpart
    rw [List.prefix_nil.mp hpart, run_concat]
    exact ⟨hitems, hcurrent⟩

theorem Dangling.concat (h : Dangling acts) (act : Act) :
    ((initial.run acts).perform act).state.CurrentHeld ∨ Dangling (acts ++ [act]) := by
  obtain ⟨done, mid, later, rfl, hdangles⟩ := h
  have hempty : (initial.run (done ++ mid :: later)).items = [] :=
    (hdangles.since later (List.prefix_refl later)).1
  have hrun := run_split_concat done mid act later
  have hlist : done ++ mid :: later ++ [act] = done ++ mid :: (later ++ [act]) := by
    rw [List.append_assoc, List.cons_append]
  rw [hlist]
  cases points_perform (initial.run (done ++ mid :: later)) act with
  | kept hitems hcurrent =>
      rw [← hrun] at hitems hcurrent
      exact .inr ⟨done, mid, _, rfl, hdangles.concat (hitems.trans hempty) hcurrent⟩
  | chosen hitems hcurrent => exact .inl (.inr hcurrent)
  | reset hcurrent => exact .inl (.inl hcurrent)
  | emptied _ hitems hcurrent =>
      rw [← hrun] at hitems hcurrent
      exact .inr ⟨done, mid, _, rfl, hdangles.concat hitems hcurrent⟩

theorem held_or_dangling (acts : List Act) : (initial.run acts).CurrentHeld ∨ Dangling acts := by
  induction acts using List.reverseRecOn with
  | nil => exact .inl (.inl rfl)
  | append_singleton acts act ih =>
      rw [run_concat]
      rcases ih with hheld | hdangling
      · cases points_perform (initial.run acts) act with
        | kept hitems hcurrent =>
            unfold CurrentHeld
            rw [hitems, hcurrent]
            exact .inl hheld
        | chosen _ hcurrent => exact .inl (.inr hcurrent)
        | reset hcurrent => exact .inl (.inl hcurrent)
        | emptied hact hitems hcurrent => exact held_or_dangling_of_emptied hheld hact hitems hcurrent
      · exact hdangling.concat act

theorem held_iff_not_dangling (acts : List Act) : (initial.run acts).CurrentHeld ↔ ¬ Dangling acts := by
  constructor
  · rintro hheld ⟨done, mid, later, rfl, hdangles⟩
    exact hdangles.not_held hheld
  · intro hnot
    exact (held_or_dangling acts).resolve_right hnot

/-- A peer that chooses the current item is told the number the vehicle keeps from then on: the one it asked
for if there is such an item, and otherwise the one from before. -/
structure Answers (v : VehicleMission) (m : MissionSetCurrent) (r : Replied VehicleMission) : Prop where
  replies : r.replies = [.missionCurrent ⟨r.state.current, 0, 0, 0⟩]
  taken : m.seq.toNat < v.items.length → r.state = { v with current := m.seq }
  refused : v.items.length ≤ m.seq.toNat → r.state = v

theorem answers_setCurrent (v : VehicleMission) (m : MissionSetCurrent) : Answers v m (v.onSetCurrent m) := by
  constructor
  · simp only [onSetCurrent]
  · intro hlt
    simp only [onSetCurrent, if_pos hlt]
  · intro hle
    simp only [onSetCurrent, if_neg (Nat.not_lt.mpr hle)]

/-- Whatever comes to a vehicle, its current item is one of its list or 0, unless an empty list has been
announced while the current item was another than the first and since then no list has been stored or cleared.
The number in an answer to a peer that chooses the current item is the one the vehicle keeps, so it too is
that of an item or 0, with the same exception. -/
theorem current_held_unless_emptied (acts : List Act) (peer : Address) (m : MissionSetCurrent) :
    let v := initial.run acts
    let r := v.handle peer (.missionSetCurrent m)
    (v.CurrentHeld ↔ ¬ Dangling acts) ∧ Answers v m r ∧
      (r.state.CurrentHeld ↔ ¬ Dangling (acts ++ [.message peer (.missionSetCurrent m)])) := by
  intro v r
  have hrun : initial.run (acts ++ [.message peer (.missionSetCurrent m)]) = r.state := run_concat _ _ _
  refine ⟨held_iff_not_dangling acts, answers_setCurrent v m, ?_⟩
  rw [← hrun]
  exact held_iff_not_dangling _

/-- An empty list leaves the number of an item behind that is gone, and a peer is told it. -/
theorem empty_list_leaves_current :
    let gcs : Address := ⟨255, 190⟩
    let v := initial.run
      [.store (List.replicate 3 (MissionItem.encode ⟨1, 1⟩ MissionItem.blank)),
        .message gcs (.missionSetCurrent ⟨2, ⟨1, 1⟩⟩), .message gcs (.missionCount ⟨0, ⟨1, 1⟩, .mission⟩)]
    v.items = [] ∧ v.current = 2 ∧ ¬ v.CurrentHeld ∧
      (v.handle gcs (.missionSetCurrent ⟨7, ⟨1, 1⟩⟩)).replies = [.missionCurrent ⟨2, 0, 0, 0⟩] := by
  decide +kernel

end VehicleMission

end GroundLink
