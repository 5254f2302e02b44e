import Mathlib.Data.List.Infix
import GroundLink.Proofs.Exchange

/-! A download that is reported with a list has the list the vehicle stored. The vehicle's counts and
items tell of nothing else, and the engine takes only the item it asked for, so what it has collected is
always a beginning of the stored list; it hands the list over when it has as many items as were counted. -/

namespace GroundLink

/-- The list a vehicle has stored, without addressees. -/
def VehicleMission.list (v : VehicleMission) : List MissionItem := v.items.map MissionItem.decode

/-- Whether every stored item carries its place. -/
def VehicleMission.Placed (v : VehicleMission) : Prop :=
  ∀ i (item : MissionItemInt), v.items[i]? = some item → item.seq.toNat = i

namespace Download

/-- What goes out for a download: requests and acknowledgements. -/
inductive Sends : Message → Prop
  | list (m : MissionList) : Sends (.missionRequestList m)
  | item (m : MissionRequest) : Sends (.missionRequestInt m)
  | ack (a : MissionAck) : Sends (.missionAck a)

/-- Whether a message tells of a stored list what is true of it. -/
structure Tells (v : VehicleMission) (m : Message) : Prop where
  count : ∀ fields, m = .missionCount fields → fields.count.toNat = v.list.length
  item : ∀ fields, m = .missionItemInt fields → v.list[fields.seq.toNat]? = some (.decode fields)

/-- Whether a collection is to become a stored list and has a beginning of it. -/
structure Collects (v : VehicleMission) (c : Collection) : Prop where
  expected : c.expected = v.list.length
  items : c.items <+: v.list

/-- The contract of one download. Only what a vehicle has stored is handed over. -/
def contract (d : Download) (v : VehicleMission) : Contract where
  task t := t = .transfer (.download d)
  activity a := ∃ s, a = .download d s ∧ ∀ c, s = .collecting c → Collects v c
  heard := Tells v
  sent := Sends
  value x := x = .items v.list

variable {d : Download} {v : VehicleMission}

structure Fetches (v : VehicleMission) (move : Move Collection) : Prop where
  sent : ∀ m, move.message? = some m → Sends m
  next : ∀ c, move.next? = some c → Collects v c
  value : ∀ x, move.value? = some x → x = .items v.list

theorem allows_map {move : Move State} (hsent : ∀ m, move.message? = some m → Sends m)
    (hnext : ∀ s, move.next? = some s → ∀ c, s = .collecting c → Collects v c)
    (hvalue : ∀ x, move.value? = some x → x = .items v.list) :
    (d.contract v).Allows (move.map (.download d)) where
  sent m hm := hsent m (by rwa [Move.message?_map] at hm)
  activity a ha := by
    rw [Move.next?_map, Option.map_eq_some_iff] at ha
    obtain ⟨s, hs, rfl⟩ := ha
    exact ⟨s, rfl, hnext s hs⟩
  value x hx := hvalue x (by rwa [Move.value?_map] at hx)

theorem Fetches.allows {move : Move Collection} (h : Fetches v move) :
    (d.contract v).Allows ((move.map .collecting).map (.download d)) := by
  refine allows_map (fun m hm => h.sent m ?_) (fun s hs c hc => ?_) fun x hx => h.value x ?_
  · rwa [Move.message?_map] at hm
  · rw [Move.next?_map, Option.map_eq_some_iff] at hs
    obtain ⟨c', hc', rfl⟩ := hs
    cases hc
    exact h.next c hc'
  · rwa [Move.value?_map] at hx

/-- An item that was asked for is the next of the list, and the last one makes it whole. -/
theorem fetches_item {c : Collection} (hc : Collects v c) (l : ListRef) {m : MissionItemInt}
    (hm : v.list[m.seq.toNat]? = some (.decode m)) : Fetches v (c.onItem l m) := by
  rw [Collection.onItem]
  by_cases hseq : m.seq.toNat = c.items.length
  · rw [if_neg (not_not_intro hseq)]
    have hbegins : c.items ++ [MissionItem.decode m] <+: v.list := by
      rw [hseq] at hm
      obtain ⟨hlt, hget⟩ := List.getElem?_eq_some_iff.mp hm
      exact hget ▸ List.concat_get_prefix hc.items hlt
    by_cases hlast : (c.items ++ [MissionItem.decode m]).length = c.expected
    · have hfull := hbegins.eq_of_length (hlast.trans hc.expected)
      simp only [if_pos hlast]
      refine ⟨fun x hx => ?_, fun c hc => (by cases hc), fun x hx => ?_⟩
      · cases hx
        exact .ack _
      · cases hx
        rw [hfull]
    · simp only [if_neg hlast]
      refine ⟨fun x hx => ?_, fun c' hc' => ?_, fun x hx => (by cases hx)⟩
      · cases hx
        exact .item _
      · cases hc'
        exact ⟨hc.expected, hbegins⟩
  · rw [if_pos hseq]
    refine ⟨fun x hx => (by cases hx), fun c' hc' => ?_, fun x hx => (by cases hx)⟩
    cases hc'
    exact hc

theorem fetches_timeout {c : Collection} (hc : Collects v c) (p : Policy) (l : ListRef) :
    Fetches v (c.onTimeout p l) := by
  unfold Collection.onTimeout
  split
  · exact ⟨fun x hx => (by cases hx), fun c hc => (by cases hc), fun x hx => (by cases hx)⟩
  · refine ⟨fun x hx => ?_, fun c' hc' => ?_, fun x hx => (by cases hx)⟩
    · cases hx
      exact .item _
    · cases hc'
      exact ⟨hc.expected, hc.items⟩

theorem allows_count {s : State} (hs : ∀ c, s = .collecting c → Collects v c) {count : Nat}
    (hcount : count = v.list.length) : (d.contract v).Allows ((d.onCount count s).map (.download d)) := by
  cases s with
  | collecting c => exact Contract.allows_ignore _
  | listing retries =>
      rw [onCount]
      by_cases hzero : count = 0
      · rw [if_pos hzero]
        refine allows_map (fun m hm => ?_) (fun s hs => (by cases hs)) fun x hx => ?_
        · cases hm
          exact .ack _
        · cases hx
          rw [List.length_eq_zero_iff.mp (hcount.symm.trans hzero)]
      · rw [if_neg hzero]
        refine allows_map (fun m hm => ?_) (fun s hs c hc => ?_) fun x hx => (by cases hx)
        · cases hm
          exact .item _
        · cases hs
          cases hc
          exact ⟨hcount, List.nil_prefix⟩

theorem lawful (d : Download) (v : VehicleMission) : (d.contract v).Lawful where
  initial s t ht := by
    rw [ht]
    exact ⟨_, rfl, fun c hc => by cases hc⟩
  start s t ht := by
    rw [ht, Task.start, Download.start]
    refine allows_map (fun m hm => ?_) (fun s hs c hc => ?_) fun x hx => (by cases hx)
    · cases hm
      exact .list _
    · cases hs
      cases hc
  message s sender m a ha hm := by
    obtain ⟨state, rfl, hstate⟩ := ha
    cases m with
    | missionCount fields => exact allows_count hstate (hm.count fields rfl)
    | missionItemInt fields =>
        cases state with
        | listing retries => exact Contract.allows_ignore _
        | collecting c => exact (fetches_item (hstate c rfl) d.list (hm.item fields rfl)).allows
    | _ => exact Contract.allows_ignore _
  timeout s a ha := by
    obtain ⟨state, rfl, hstate⟩ := ha
    cases state with
    | listing retries =>
        rw [Activity.onTimeout, onTimeout]
        split
        · exact Contract.allows_failure _ _
        · refine allows_map (fun m hm => ?_) (fun s hs c hc => ?_) fun x hx => (by cases hx)
          · cases hm
            exact .list _
          · cases hs
            cases hc
    | collecting c => exact (fetches_timeout (hstate c rfl) _ d.list).allows
  farewell a m ha hm := by
    obtain ⟨state, rfl, _⟩ := ha
    cases hm
    exact .ack _

/-- Whether a vehicle has a list stored, every item under its place. -/
structure Stores (items : List MissionItemInt) (v : VehicleMission) : Prop where
  items : v.items = items
  placed : v.Placed

/-- What a vehicle does with a message of the download: it keeps its list and tells the truth about it. -/
structure Answered (v : VehicleMission) (r : Replied VehicleMission) : Prop where
  kept : r.state.items = v.items
  answers : ∀ answer ∈ r.replies, Tells v answer

theorem tells_ack (v : VehicleMission) (a : MissionAck) : Tells v (.missionAck a) where
  count _ h := by cases h
  item _ h := by cases h

theorem answered_list (peer : Address) (m : MissionList) : Answered v (v.onRequestList peer m) := by
  unfold VehicleMission.onRequestList
  split
  · refine ⟨rfl, fun answer ha => ?_⟩
    rw [List.mem_singleton.mp ha]
    exact tells_ack v _
  · rename_i hlength
    refine ⟨rfl, fun answer ha => ?_⟩
    rw [List.mem_singleton.mp ha]
    refine ⟨fun fields h => ?_, fun fields h => (by cases h)⟩
    cases h
    simp only [maxItems] at hlength
    rw [UInt16.toNat_ofNat', VehicleMission.list, List.length_map]
    omega

theorem answered_item (hplaced : v.Placed) (peer : Address)
    (m : MissionRequest) : Answered v (v.onRequest peer m) := by
  unfold VehicleMission.onRequest
  split
  · rename_i item hitem
    refine ⟨rfl, fun answer ha => ?_⟩
    rw [List.mem_singleton.mp ha]
    refine ⟨fun fields h => (by cases h), fun fields h => ?_⟩
    cases h
    show v.list[item.seq.toNat]? = _
    rw [hplaced _ item hitem, VehicleMission.list, List.getElem?_map, hitem]
    rfl
  · refine ⟨rfl, fun answer ha => ?_⟩
    rw [List.mem_singleton.mp ha]
    exact tells_ack v _

theorem answered (hplaced : v.Placed) (peer : Address) {m : Message}
    (hm : Sends m) : Answered v (v.handle peer m) := by
  cases hm with
  | list m => exact answered_list peer m
  | item m => exact answered_item hplaced peer m
  | ack a => exact ⟨rfl, fun answer ha => absurd ha List.not_mem_nil⟩

theorem contract_congr {v' : VehicleMission} (h : v'.items = v.items) : d.contract v' = d.contract v := by
  have hlist : v'.list = v.list := by rw [VehicleMission.list, h, VehicleMission.list]
  have hcollects : Collects v' = Collects v := by
    funext c
    exact propext ⟨fun hc => ⟨hlist ▸ hc.expected, hlist ▸ hc.items⟩,
      fun hc => ⟨hlist ▸ hc.expected, hlist ▸ hc.items⟩⟩
  have htells : Tells v' = Tells v := by
    funext m
    exact propext ⟨fun hm => ⟨hlist ▸ hm.count, hlist ▸ hm.item⟩,
      fun hm => ⟨hlist ▸ hm.count, hlist ▸ hm.item⟩⟩
  rw [contract, hlist, hcollects, htells, contract]

theorem accord (d : Download) (items : List MissionItemInt) : Accord d.contract (Stores items) where
  lawful v _ := lawful d v
  mission v m hm := by
    cases hm <;> rfl
  remains v peer m hv hm := by
    have hkept := (answered hv.placed peer hm).kept
    exact ⟨hkept.trans hv.items, fun i item hi => hv.placed i item (hkept ▸ hi)⟩
  grows v peer m hv hm := by
    rw [contract_congr (answered hv.placed peer hm).kept]
    exact Contract.Extends.refl _
  answers v peer m hv hm := by
    rw [contract_congr (answered hv.placed peer hm).kept]
    exact (answered hv.placed peer hm).answers

end Download

namespace Exchange

/-- Whatever becomes of the messages between an engine and a vehicle, a download that is reported with a
list has the list the vehicle stored, item for item and as a whole. So a list that went up comes down. -/
theorem download_agrees (config : Config) (link : Link) (clock : Instant) (vehicle : Vehicle)
    (missionType : MissionType) (system : UInt8) (wantsProgress : Bool) (admission : Admission)
    (happenings : List Happening)
    (hplaced : vehicle.mission.Placed) :
    let order : Order := .download missionType system wantsProgress
    let x := (ofOrder (.idle config link clock) vehicle order admission).run happenings
    ∀ list, .result ⟨.mission .client, 0⟩ (.success (.items list)) ∈ x.effects →
      x.vehicle.mission.items = vehicle.mission.items ∧
        list = x.vehicle.mission.items.map MissionItem.decode ∧
        ∀ target items, vehicle.mission.items = items.map (MissionItem.encode target) → list = items := by
  intro order x list hdone
  let d : Download := ⟨⟨.pilotOf system, missionType⟩, wantsProgress⟩
  have hstores : Download.Stores vehicle.mission.items vehicle.mission := ⟨rfl, hplaced⟩
  have haccord : Accord d.contract (Download.Stores vehicle.mission.items) := Download.accord d _
  have hbegun : Obeys d.contract (Download.Stores vehicle.mission.items)
      (ofOrder (.idle config link clock) vehicle order admission) :=
    Obeys.ofOrder haccord config link clock hstores rfl rfl rfl admission
  have hx : Obeys d.contract (Download.Stores vehicle.mission.items) x :=
    Obeys.run haccord happenings _ hbegun
  have hvalue : Value.items list = .items x.vehicle.mission.list := hx.engine.effects _ hdone
  have hlist : list = x.vehicle.mission.items.map MissionItem.decode := Value.items.inj hvalue
  refine ⟨hx.vehicle.items, hlist, fun target items hitems => ?_⟩
  rw [hlist, hx.vehicle.items, hitems, List.map_map]
  have hround : MissionItem.decode ∘ MissionItem.encode target = id :=
    funext (MissionItem.decode_encode target)
  rw [hround, List.map_id]

def stockedVehicle : Vehicle :=
  { Vehicle.create (.pilotOf 1) with
    mission := VehicleMission.initial.store (stops.map (MissionItem.encode (.pilotOf 1))) }

theorem placed_stockedVehicle : stockedVehicle.mission.Placed := by
  intro i item hi
  match i with
  | 0 =>
      cases hi
      rfl
  | 1 =>
      cases hi
      rfl
  | i + 2 => cases hi

/-- A download to which the count comes twice, the second time after an item. The first request for an item is
answered twice, and the first answer to the second request is lost. -/
def downloadResent : List Happening :=
  [.tick, .outbound 0 .arrives, .inbound 0 .doubled, .inbound 0 .arrives, .tick,
    .outbound 0 .doubled, .outbound 0 .arrives, .outbound 0 .arrives, .inbound 1 .arrives, .tick,
    .outbound 0 .arrives, .inbound 2 .lost, .inbound 1 .arrives, .inbound 0 .arrives, .tick,
    .pass 500000, .tick, .outbound 0 .arrives, .inbound 0 .arrives, .tick]

theorem download_agrees_resent :
    let x := (ofOrder (.idle .default default 0) stockedVehicle (.download .mission 1 false) .queue).run
        downloadResent
    .result ⟨.mission .client, 0⟩ (.success (.items stops)) ∈ x.effects ∧
      stops = x.vehicle.mission.items.map MissionItem.decode := by
  have hagree := download_agrees .default default 0 stockedVehicle .mission 1 false .queue downloadResent
    placed_stockedVehicle stops
  refine ⟨?_, (hagree ?_).2.1⟩ <;> decide +kernel

end Exchange

end GroundLink
