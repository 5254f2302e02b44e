import Mathlib.Data.List.Infix
import GroundLink.Proofs.Exchange

/-! An upload that is reported as done has been stored. The vehicle collects items in their order only,
so what it has of a list is always a beginning of that list; it stores the list when it is complete, and
only then accepts it. The engine reports the upload as done only when it has been told so. -/

namespace GroundLink

namespace Upload

/-- What goes out for an upload: its count, its items, and acknowledgements. -/
inductive Sends (u : Upload) : Message → Prop
  | count : Sends u u.count
  | item {seq : Nat} {item : MissionItem} (h : u.items[seq]? = some item) :
      Sends u (.missionItemInt (item.encode u.list.peer))
  | ack (a : MissionAck) : Sends u (.missionAck a)

def encoded (u : Upload) : List MissionItemInt := u.items.map (MissionItem.encode u.list.peer)

/-- The contract of one upload. Only what a vehicle has stored is accepted. -/
def contract (u : Upload) (v : VehicleMission) : Contract where
  task t := t = .transfer (.upload u)
  activity a := ∃ s, a = .upload u s
  heard m := ∀ a, m = .missionAck a → a.result = .accepted → v.items = u.encoded
  sent := Sends u
  value _ := v.items = u.encoded

variable {u : Upload} {v : VehicleMission}

/-- What a step sends, and what must be so if it ends the upload with success. -/
structure Speaks (u : Upload) (stored : Prop) (move : Move State) : Prop where
  sent : ∀ m, move.message? = some m → Sends u m
  value : ∀ x, move.value? = some x → stored

theorem Speaks.allows {move : Move State} (h : u.Speaks (v.items = u.encoded) move) :
    (u.contract v).Allows (move.map (.upload u)) where
  sent m hm := h.sent m (by rwa [Move.message?_map] at hm)
  activity a ha := by
    rw [Move.next?_map, Option.map_eq_some_iff] at ha
    obtain ⟨s, _, rfl⟩ := ha
    exact ⟨s, rfl⟩
  value x hx := h.value x (by rwa [Move.value?_map] at hx)

section Steps

variable {stored : Prop}

theorem start_speaks (p : Policy) : u.Speaks stored (u.start p) := by
  unfold start
  split
  · constructor <;> (intro x hx; cases hx)
  · constructor
    · intro m hm
      cases hm
      exact .count
    · intro x hx
      cases hx

theorem onTimeout_speaks (p : Policy) (s : State) : u.Speaks stored (u.onTimeout p s) := by
  unfold onTimeout
  split
  · constructor <;> (intro x hx; cases hx)
  · constructor
    · intro m hm
      simp only [Move.message?] at hm
      split at hm
      · cases hm
        exact .count
      · cases hm
    · intro x hx
      cases hx

theorem onRequest_speaks (p : Policy) (s : State) (seq : Nat) : u.Speaks stored (u.onRequest p s seq) := by
  unfold onRequest
  split
  · constructor <;> (intro x hx; cases hx)
  · rename_i item hitem
    split
    · constructor <;> (intro x hx; cases hx)
    · split
      · constructor <;> (intro x hx; cases hx)
      · constructor
        · intro m hm
          cases hm
          exact .item hitem
        · intro x hx
          cases hx

/-- An acknowledgement is not answered, and one that ends an upload with success accepts it. -/
theorem onAck_speaks (s : State) {result : MissionResult} (h : result = .accepted → stored) :
    u.Speaks stored (u.onAck s result) := by
  constructor
  · intro m hm
    rw [onAck] at hm
    split at hm
    · cases hm
    · split at hm <;> cases hm
  · intro x hx
    apply h
    cases result <;> first | rfl | cases hx

end Steps

theorem onMessage_allows (p : Policy) (s : State) (sender : Address) (m : Message)
    (hm : (u.contract v).heard m) :
    (u.contract v).Allows ((u.onMessage p s sender m).map (.upload u)) := by
  cases m with
  | missionRequest r =>
      rw [onMessage]
      split
      · exact (onRequest_speaks p s _).allows
      · apply Speaks.allows
        constructor
        · intro m hm
          cases hm
          exact .ack _
        · intro x hx
          cases hx
  | missionRequestInt r => exact (onRequest_speaks p s _).allows
  | missionAck a => exact (onAck_speaks s (hm a rfl)).allows
  | _ => exact Contract.allows_ignore _

theorem lawful (u : Upload) (v : VehicleMission) : (u.contract v).Lawful where
  initial s t ht := by
    rw [ht]
    exact ⟨_, rfl⟩
  start s t ht := by
    rw [ht]
    exact (start_speaks _).allows
  message s sender m a ha hm := by
    obtain ⟨state, rfl⟩ := ha
    exact onMessage_allows _ _ _ m hm
  timeout s a ha := by
    obtain ⟨state, rfl⟩ := ha
    exact (onTimeout_speaks _ _).allows
  farewell a m ha hm := by
    obtain ⟨state, rfl⟩ := ha
    cases hm
    exact .ack _

/-- Whether a vehicle that collects a list collects this one and has a beginning of it. -/
def Collects (u : Upload) (v : VehicleMission) : Prop :=
  ∀ count pending peer missionType, v.phase = .receiving count pending peer missionType →
    count.toNat = u.items.length ∧ pending <+: u.encoded

theorem contract_extends {v' : VehicleMission} (h : v.items = u.encoded → v'.items = u.encoded) :
    (u.contract v).Extends (u.contract v') where
  task _ := id
  activity _ := id
  heard _ hm a ha hresult := h (hm a ha hresult)
  sent _ := id
  value _ := h

theorem heard_request (v v' : VehicleMission) (peer : Address) (seq : Nat) (missionType : MissionType) :
    (u.contract v').heard (v.request peer seq missionType) := by
  intro a ha
  rw [VehicleMission.request] at ha
  split at ha <;> cases ha

end Upload

theorem seq_of_numberedFrom {items : List MissionItem} {first : Nat} (h : numberedFrom first items = true)
    {k : Nat} {item : MissionItem} (hk : items[k]? = some item) : item.seq.toNat = first + k := by
  induction items generalizing first k with
  | nil => cases hk
  | cons i rest ih =>
      simp only [numberedFrom, Bool.and_eq_true, decide_eq_true_eq] at h
      cases k with
      | zero =>
          cases hk
          exact h.1
      | succ k =>
          rw [ih h.2 hk]
          omega

/-- A list without fault is not empty, fits a count, and its items carry their places. -/
theorem of_uploadFault?_eq_none {items : List MissionItem} {missionType : MissionType} {requireCurrent : Bool}
    (h : uploadFault? items missionType requireCurrent = none) :
    items ≠ [] ∧ items.length ≤ maxItems ∧ numberedFrom 0 items = true := by
  simp only [uploadFault?] at h
  split at h
  · cases h
  · rename_i hempty
    split at h
    · cases h
    · rename_i hlength
      split at h
      · cases h
      · rename_i hnumbered
        exact ⟨by simpa using hempty, Nat.le_of_not_lt hlength, by simpa using hnumbered⟩

namespace Upload

variable {u : Upload} {v : VehicleMission}

theorem toNat_count (h : u.items.length ≤ maxItems) :
    (UInt16.ofNat (min u.items.length maxItems)).toNat = u.items.length := by
  rw [Nat.min_eq_left h, UInt16.toNat_ofNat']
  simp only [maxItems] at h
  omega

theorem collects_of_phase {v' : VehicleMission} {phase : MissionPhase} (hphase : v'.phase = phase)
    (h : ∀ count pending peer missionType, phase = .receiving count pending peer missionType →
      count.toNat = u.items.length ∧ pending <+: u.encoded) : u.Collects v' :=
  fun count pending peer missionType hr => h count pending peer missionType (hphase.symm.trans hr)

/-- What a vehicle does with a message of the upload: what it has collected stays a beginning of the list,
a list that is stored stays stored, and only then is one accepted. -/
structure Answered (u : Upload) (v : VehicleMission) (r : Replied VehicleMission) : Prop where
  collects : u.Collects r.state
  stored : v.items = u.encoded → r.state.items = u.encoded
  answers : ∀ answer ∈ r.replies, (u.contract r.state).heard answer

theorem answered_count (hlength : u.items.length ≤ maxItems) (hempty : u.items ≠ []) (peer : Address) :
    u.Answered v (v.handle peer u.count) := by
  have hcount := toNat_count hlength
  have hne : UInt16.ofNat (min u.items.length maxItems) ≠ 0 := by
    intro hzero
    rw [hzero] at hcount
    exact hempty (List.length_eq_zero_iff.mp hcount.symm)
  rw [count, VehicleMission.handle, VehicleMission.onCount, if_neg hne]
  refine ⟨collects_of_phase rfl fun count pending peer missionType hr => ?_, id, fun answer ha => ?_⟩
  · cases hr
    exact ⟨hcount, List.nil_prefix⟩
  · rw [List.mem_singleton.mp ha]
    exact heard_request _ _ _ _ _

/-- An item that was asked for is taken; the last one completes the list. -/
theorem answered_next {count : UInt16} {pending : List MissionItemInt} {peer : Address}
    {missionType : MissionType} (hphase : v.phase = .receiving count pending peer missionType)
    (hcount : count.toNat = u.items.length) {m : MissionItemInt} (hseq : m.seq.toNat = pending.length)
    (hbegins : pending ++ [m] <+: u.encoded) :
    u.Answered v (v.onItem m) := by
  simp only [VehicleMission.onItem, hphase]
  rw [if_neg (not_not_intro hseq)]
  by_cases hlast : count.toNat ≤ (pending ++ [m]).length
  · rw [if_pos hlast]
    have hfull : pending ++ [m] = u.encoded := by
      refine hbegins.eq_of_length_le ?_
      rw [encoded, List.length_map, ← hcount]
      exact hlast
    exact ⟨collects_of_phase rfl fun _ _ _ _ hr => (by cases hr), fun _ => hfull, fun _ _ _ _ _ => hfull⟩
  · rw [if_neg hlast]
    refine ⟨collects_of_phase rfl fun _ _ _ _ hr => ?_, id, fun answer ha => ?_⟩
    · cases hr
      exact ⟨hcount, hbegins⟩
    · rw [List.mem_singleton.mp ha]
      exact heard_request _ _ _ _ _

theorem answered_item (hc : u.Collects v) (hnumbered : numberedFrom 0 u.items = true) {seq : Nat}
    {item : MissionItem} (hitem : u.items[seq]? = some item) (peer : Address) :
    u.Answered v (v.handle peer (.missionItemInt (item.encode u.list.peer))) := by
  have hidle : (∀ count pending peer missionType, v.phase ≠ .receiving count pending peer missionType) →
      u.Answered v (v.onItem (item.encode u.list.peer)) := by
    intro hphase
    have hsame : v.onItem (item.encode u.list.peer) = ⟨v, []⟩ := by
      unfold VehicleMission.onItem
      split
      · rename_i hr
        exact absurd hr (hphase _ _ _ _)
      · rfl
    rw [hsame]
    exact ⟨hc, id, fun answer ha => absurd ha List.not_mem_nil⟩
  show u.Answered v (v.onItem (item.encode u.list.peer))
  cases hphase : v.phase with
  | idle => exact hidle fun _ _ _ _ hr => by rw [hphase] at hr; cases hr
  | sending other => exact hidle fun _ _ _ _ hr => by rw [hphase] at hr; cases hr
  | receiving count pending other missionType =>
      obtain ⟨hcount, hbegins⟩ := hc count pending other missionType hphase
      have hnumber : (item.encode u.list.peer).seq.toNat = seq := by
        rw [← Nat.zero_add seq]
        exact seq_of_numberedFrom hnumbered hitem
      by_cases hseq : (item.encode u.list.peer).seq.toNat = pending.length
      · have hnext : u.encoded[pending.length]? = some (item.encode u.list.peer) := by
          rw [← hseq, hnumber, encoded, List.getElem?_map, hitem]
          rfl
        obtain ⟨hlt, hget⟩ := List.getElem?_eq_some_iff.mp hnext
        exact answered_next hphase hcount hseq (hget ▸ List.concat_get_prefix hbegins hlt)
      -- an item out of turn is not taken; the one that is due is asked for again
      · simp only [VehicleMission.onItem, hphase]
        rw [if_pos hseq]
        refine ⟨hc, id, fun answer ha => ?_⟩
        rw [List.mem_singleton.mp ha]
        exact heard_request _ _ _ _ _

theorem answered (hc : u.Collects v) {missionType : MissionType} {requireCurrent : Bool}
    (hvalid : uploadFault? u.items missionType requireCurrent = none) (peer : Address) {m : Message}
    (hm : Sends u m) : u.Answered v (v.handle peer m) := by
  obtain ⟨hempty, hlength, hnumbered⟩ := of_uploadFault?_eq_none hvalid
  cases hm with
  | count => exact answered_count hlength hempty peer
  | item hitem => exact answered_item hc hnumbered hitem peer
  | ack a =>
      refine ⟨collects_of_phase rfl fun _ _ _ _ hr => (by cases hr), id, fun answer ha => ?_⟩
      exact absurd ha List.not_mem_nil

theorem accord {missionType : MissionType} {requireCurrent : Bool}
    (hvalid : uploadFault? u.items missionType requireCurrent = none) : Accord u.contract u.Collects where
  lawful v _ := lawful u v
  mission v m hm := by
    cases hm <;> rfl
  remains v peer m hc hm := (answered hc hvalid peer hm).collects
  grows v peer m hc hm := contract_extends (answered hc hvalid peer hm).stored
  answers v peer m hc hm := (answered hc hvalid peer hm).answers

end Upload

namespace Exchange

def uploadOf (autopilot : Autopilot) (missionType : MissionType) (system : UInt8) (items : List MissionItem)
    (wantsProgress : Bool) : Upload :=
  { items, list := ⟨.pilotOf system, missionType⟩, autopilot, requireCurrent := true, wantsProgress }

/-- Whatever becomes of the messages between an engine and a vehicle, an upload that is reported as done
has been stored, item for item and as a whole. -/
theorem upload_agrees (config : Config) (link : Link) (clock : Instant) (vehicle : Vehicle)
    (missionType : MissionType) (system : UInt8) (items : List MissionItem) (wantsProgress : Bool)
    (admission : Admission) (happenings : List Happening)
    (hvalid : uploadFault? items missionType true = none) (hidle : vehicle.mission.phase = .idle) :
    let order : Order := .upload missionType system items wantsProgress
    let x := (ofOrder (.idle config link clock) vehicle order admission).run happenings
    .result ⟨.mission .client, 0⟩ (.success .done) ∈ x.effects →
      x.vehicle.mission.items = items.map (MissionItem.encode (.pilotOf system)) := by
  intro order x hdone
  let u := uploadOf link.autopilot missionType system items wantsProgress
  have hcollects : u.Collects vehicle.mission := fun _ _ _ _ hr => by rw [hidle] at hr; cases hr
  have haccord : Accord u.contract u.Collects := Upload.accord hvalid
  have hbegun : Obeys u.contract u.Collects (ofOrder (.idle config link clock) vehicle order admission) :=
    Obeys.ofOrder haccord config link clock hcollects rfl rfl rfl admission
  have hx : Obeys u.contract u.Collects x := Obeys.run haccord happenings _ hbegun
  exact hx.engine.effects _ hdone

/-- An upload whose count is lost once. The vehicle's first request comes twice, the second time after the
request behind it, so the first item goes out again after the second, and arrives before it. -/
def uploadResent : List Happening :=
  [.tick, .outbound 0 .lost, .pass 500000, .tick, .outbound 0 .arrives,
    .inbound 0 .doubled, .inbound 0 .arrives, .tick, .outbound 0 .arrives,
    .inbound 1 .arrives, .inbound 0 .arrives, .tick, .outbound 1 .arrives,
    .inbound 0 .arrives, .tick, .outbound 0 .arrives, .outbound 0 .arrives,
    .inbound 0 .arrives, .tick]

theorem upload_agrees_resent :
    let x :=
      (ofOrder (.idle .default default 0) (.create (.pilotOf 1)) (.upload .mission 1 stops false) .queue).run
        uploadResent
    .result ⟨.mission .client, 0⟩ (.success .done) ∈ x.effects ∧
      x.vehicle.mission.items = stops.map (MissionItem.encode (.pilotOf 1)) := by
  have hagree :=
    upload_agrees .default default 0 (.create (.pilotOf 1)) .mission 1 stops false .queue uploadResent
      (by decide) rfl
  refine ⟨?_, hagree ?_⟩ <;> decide +kernel

end Exchange

end GroundLink
