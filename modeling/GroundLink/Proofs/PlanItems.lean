import GroundLink.Engine.Order
import GroundLink.Mission.Plan
import GroundLink.Proofs.Screening

/-! How a plan becomes a list that may go up. Every waypoint has its item at its own place, and the item says
all that the waypoint says (`Plan.Lists`); this determines the list, and no such list has a fault unless it is
empty or too long. The places are counted in a word of 16 bits, which has to have a next number whenever it
gives one away. It has one up to the longest list that may go up, and not beyond
(`Waypoint.number?_eq_some_iff`). -/

namespace GroundLink

namespace Waypoint

/-- An item at a place in a list that says what a waypoint says: fly there, and hold, and go on. -/
structure Carried (w : Waypoint) (place : Nat) (item : MissionItem) : Prop where
  seq : item.seq.toNat = place
  current : item.current = true ↔ place = 0
  params : item.params = #v[w.hold, .zero, .zero, .zero]
  latitude : item.x = MissionItem.degrees w.latitude
  longitude : item.y = MissionItem.degrees w.longitude
  altitude : item.z = w.altitude
  command : item.command = .navWaypoint
  frame : item.frame = .globalRelativeAlt
  autocontinue : item.autocontinue = true
  missionType : item.missionType = .mission

variable {w : Waypoint} {place : Nat} {item : MissionItem}

theorem carried_item (w : Waypoint) (h : place < UInt16.size) : w.Carried place (w.item place) where
  seq := UInt16.toNat_ofNat_of_lt h
  current := by
    have hzero : UInt16.ofNat place = 0 ↔ place = 0 := by
      rw [← UInt16.toNat_inj, UInt16.toNat_ofNat_of_lt' h, UInt16.toNat_zero]
    exact decide_eq_true_iff.trans hzero
  params := rfl
  latitude := rfl
  longitude := rfl
  altitude := rfl
  command := rfl
  frame := rfl
  autocontinue := rfl
  missionType := rfl

theorem Carried.eq_item (h : w.Carried place item) : item = w.item place := by
  have hitem : w.Carried place (w.item place) := w.carried_item (h.seq ▸ item.seq.toNat_lt)
  have hseq : item.seq = (w.item place).seq := UInt16.toNat_inj.mp (h.seq.trans hitem.seq.symm)
  have hcurrent : item.current = (w.item place).current :=
    Bool.eq_iff_iff.mpr (h.current.trans hitem.current.symm)
  obtain ⟨seq, frame, command, current, autocontinue, params, x, y, z, missionType⟩ := item
  obtain ⟨-, -, rfl, rfl, rfl, rfl, rfl, rfl, rfl, rfl⟩ := h
  cases hseq
  cases hcurrent
  rfl

/-- The items of waypoints, counted from a number on. The counter moves on as it gives a number away, and
there is no moving on from the last number of a word. -/
def number? (first : UInt16) : List Waypoint → Option (List MissionItem)
  | [] => some []
  | w :: rest =>
    if first.toNat + 1 < UInt16.size then (number? (first + 1) rest).map (w.item first.toNat :: ·) else none

/-- The counter gets past all waypoints just if it has a number left then, and it has
counted their places right. -/
theorem number?_eq_some_iff {first : UInt16} {waypoints : List Waypoint} {items : List MissionItem} :
    number? first waypoints = some items ↔
      first.toNat + waypoints.length < UInt16.size ∧
        items = waypoints.mapIdx fun i w => w.item (first.toNat + i) := by
  induction waypoints generalizing first items with
  | nil =>
      rw [number?, Option.some_inj, List.mapIdx_nil, eq_comm]
      exact (and_iff_right first.toNat_lt).symm
  | cons w rest ih =>
      rw [number?, List.length_cons, List.mapIdx_cons]
      -- the rest is counted from the next number on, if there is one
      by_cases hnext : first.toNat + 1 < UInt16.size
      · have hsucc : (first + 1).toNat = first.toNat + 1 := by
          rw [UInt16.toNat_add, UInt16.toNat_one, Nat.mod_eq_of_lt hnext]
        have hplaces : ∀ i, first.toNat + 1 + i = first.toNat + (i + 1) := fun i => by omega
        simp only [if_pos hnext, Option.map_eq_some_iff, ih, hsucc, hplaces, Nat.add_zero]
        constructor
        · rintro ⟨later, ⟨hroom, rfl⟩, rfl⟩
          exact ⟨hroom, rfl⟩
        · rintro ⟨hroom, rfl⟩
          exact ⟨_, ⟨hroom, rfl⟩, rfl⟩
      · rw [if_neg hnext]
        exact iff_of_false (fun h => nomatch h) fun h => by omega

end Waypoint

namespace Plan

/-- A list with an item for every waypoint, at the place of the waypoint. -/
structure Lists (p : Plan) (items : List MissionItem) : Prop where
  length : items.length = p.waypoints.length
  carried : ∀ i (w : Waypoint) item, p.waypoints[i]? = some w → items[i]? = some item → w.Carried i item

namespace Lists

variable {p : Plan} {items items' : List MissionItem}

/-- What is in the list has been planned. -/
theorem planned (h : p.Lists items) {i : Nat} {item : MissionItem} (hi : items[i]? = some item) :
    ∃ w, p.waypoints[i]? = some w ∧ w.Carried i item := by
  have hlt : i < p.waypoints.length := h.length ▸ (List.getElem?_eq_some_iff.mp hi).1
  have hw : p.waypoints[i]? = some p.waypoints[i] := List.getElem?_eq_getElem hlt
  exact ⟨_, hw, h.carried i _ item hw hi⟩

/-- A plan says everything about its list. -/
theorem unique (h : p.Lists items) (h' : p.Lists items') : items = items' := by
  refine List.ext_getElem (h.length.trans h'.length.symm) fun i hi hi' => ?_
  obtain ⟨w, hw, hcarried⟩ := h.planned (List.getElem?_eq_getElem hi)
  exact hcarried.eq_item.trans (h'.carried i w _ hw (List.getElem?_eq_getElem hi')).eq_item.symm

theorem numbered (h : p.Lists items) : Numbered items := by
  intro i item hi
  obtain ⟨w, -, hcarried⟩ := h.planned hi
  exact hcarried.seq

theorem marked (h : p.Lists items) (hfilled : 1 ≤ p.waypoints.length) : Marked items := by
  refine ⟨0, h.length.symm ▸ hfilled, fun i item hi => ?_⟩
  obtain ⟨w, -, hcarried⟩ := h.planned hi
  exact hcarried.current

theorem ofType (h : p.Lists items) : OfType .mission items := by
  intro item hmem
  obtain ⟨i, hi⟩ := List.mem_iff_getElem?.mp hmem
  obtain ⟨w, -, hcarried⟩ := h.planned hi
  exact hcarried.missionType

/-- Whoever the list of a plan is for, and whether or not it has to have a current item, it may go up. -/
theorem uploadable (h : p.Lists items) (hfilled : 1 ≤ p.waypoints.length) (hfits : p.waypoints.length ≤ 65535)
    {u : Upload} (hitems : u.items = items) (htype : u.list.missionType = .mission) : u.Uploadable where
  filled := by rw [hitems, h.length]; exact hfilled
  fits := by rw [hitems, h.length]; exact hfits
  numbered := hitems ▸ h.numbered
  marked _ := hitems ▸ h.marked hfilled
  typed := by rw [hitems, htype]; exact h.ofType

end Lists

/-- Places are told apart as long as the word that numbers them has room. -/
theorem lists_items {p : Plan} (h : p.waypoints.length ≤ UInt16.size) : p.Lists p.items where
  length := List.length_mapIdx
  carried i w item hw hi := by
    have hlt : i < p.waypoints.length := (List.getElem?_eq_some_iff.mp hw).1
    rw [items, List.getElem?_mapIdx, hw] at hi
    obtain rfl := Option.some.inj hi
    exact w.carried_item (hlt.trans_le h)

theorem number?_zero {p : Plan} (h : p.waypoints.length ≤ 65535) :
    Waypoint.number? 0 p.waypoints = some p.items := by
  rw [Waypoint.number?_eq_some_iff, UInt16.toNat_zero]
  refine ⟨by simp only [UInt16.size]; omega, ?_⟩
  simp only [items, Nat.zero_add]

/-- A plan that is neither empty nor too long becomes the one list that lists it, and that may go
up, whoever orders it. -/
theorem items_go_up (p : Plan) (hfilled : 1 ≤ p.waypoints.length) (hfits : p.waypoints.length ≤ 65535) :
    p.Lists p.items ∧ (∀ items, p.Lists items → items = p.items) ∧
      Waypoint.number? 0 p.waypoints = some p.items ∧ uploadFault? p.items .mission true = none ∧
        ∀ system autopilot wantsProgress, ∃ u,
          (Order.upload .mission system p.items wantsProgress).task autopilot = .transfer (.upload u) ∧
            u.Uploadable := by
  have hlists : p.Lists p.items := lists_items (by simp only [UInt16.size]; omega)
  have huploadable : ∀ u : Upload, u.items = p.items → u.list.missionType = .mission → u.Uploadable :=
    fun u => hlists.uploadable hfilled hfits
  let bare : Upload := ⟨p.items, ⟨default, .mission⟩, default, true, false⟩
  have hfaultless : bare.Faultless := Upload.uploadable_iff.mp (huploadable bare rfl rfl)
  refine ⟨hlists, fun items h => h.unique hlists, number?_zero hfits, hfaultless, ?_⟩
  intro system autopilot wantsProgress
  exact ⟨_, rfl, huploadable _ rfl rfl⟩

/-- The longest plan that may go up, which climbs from waypoint to waypoint: its last item has the last number
that the counter can give away. -/
theorem items_go_up_longest :
    let leg (i : Nat) : Waypoint := ⟨.ofInt 47, .ofInt 8, .ofInt i, .zero⟩
    let p : Plan := ⟨(List.range 65535).map leg⟩
    (1 ≤ p.waypoints.length ∧ p.waypoints.length = 65535) ∧ uploadFault? p.items .mission true = none ∧
      ∃ item, p.items[65534]? = some item ∧ item.seq = 65534 ∧ item.current = false ∧
        item.z = .ofInt 65534 ∧ p.items[65535]? = none := by
  intro leg p
  have hlength : p.waypoints.length = 65535 := by rw [List.length_map, List.length_range]
  have hfilled : 1 ≤ p.waypoints.length := by rw [hlength]; omega
  obtain ⟨hlists, -, -, hfaultless, -⟩ := items_go_up p hfilled hlength.le
  have hlast : p.waypoints[65534]? = some (leg 65534) := by
    rw [List.getElem?_map, List.getElem?_range (by omega)]
    rfl
  have hlt : 65534 < p.items.length := by rw [hlists.length, hlength]; omega
  have hcarried := hlists.carried 65534 _ _ hlast (List.getElem?_eq_getElem hlt)
  refine ⟨⟨hfilled, hlength⟩, hfaultless, _, List.getElem?_eq_getElem hlt, ?_, ?_, hcarried.altitude, ?_⟩
  · exact UInt16.toNat_inj.mp hcarried.seq
  · exact Bool.eq_false_iff.mpr fun hcurrent => nomatch hcarried.current.mp hcurrent
  · rw [List.getElem?_eq_none_iff, hlists.length, hlength]

end Plan

end GroundLink
