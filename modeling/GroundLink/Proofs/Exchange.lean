import GroundLink.Engine.Order
import GroundLink.Proofs.Contract
import GroundLink.Script.Polling
import GroundLink.Vehicle.Round

/-! An engine and a vehicle that talk over two channels, one each way. At any time a message on its way
may arrive, be lost or be doubled, whichever place it has; so channels lose, repeat, delay and reorder.
If the messages each end sends keep to a contract that the other end takes for granted, then all that
happens does (`Exchange.Obeys.run`). -/

namespace GroundLink

/-- Whether an input neither submits a job nor brings a message. -/
def Input.isLocal : Input → Bool
  | command _ => false
  | transfer .. => false
  | receive .. => false
  | _ => true

/-- Whether a message is for the command side of a vehicle. -/
def Message.isCommand : Message → Bool
  | commandLong _ => true
  | commandInt _ => true
  | _ => false

/-- An engine, a vehicle and what is on its way between them. -/
structure Exchange where
  engine : Engine
  vehicle : Vehicle
  outbound : List Message
  inbound : List (Header × Message)
  effects : List Effect

/-- What becomes of a message on its way. -/
inductive Fate
  | arrives
  | lost
  | doubled
  deriving DecidableEq, Inhabited

/-- Something that happens: at the engine, or to the message at a place of a channel. -/
inductive Happening
  | engine (i : Input) (isLocal : i.isLocal = true)
  | outbound (place : Nat) (fate : Fate)
  | inbound (place : Nat) (fate : Fate)

namespace Happening

def tick : Happening := .engine .tick rfl

def pass (us : UInt64) : Happening := .engine (.advance us) rfl

end Happening

namespace Exchange

def react (x : Exchange) (r : Reaction) : Exchange where
  engine := r.engine
  vehicle := x.vehicle
  outbound := x.outbound ++ r.effects.filterMap Script.sentMessage?
  inbound := x.inbound
  effects := x.effects ++ r.effects

/-- A message reaches the vehicle, whose answers go on their way. -/
def answer (x : Exchange) (m : Message) : Exchange :=
  let r := x.vehicle.handle x.engine.hub.link.own m
  let e := r.state.emit .none 0 r.replies
  { x with vehicle := e.1, inbound := x.inbound ++ e.2 }

def withOutbound (x : Exchange) (outbound : List Message) : Exchange := { x with outbound }

def withInbound (x : Exchange) (inbound : List (Header × Message)) : Exchange := { x with inbound }

/-- One thing happens; nothing does at a place where there is no message. -/
def happen (x : Exchange) : Happening → Exchange
  | .engine i _ => x.react (x.engine.step i)
  | .outbound place fate =>
    match x.outbound[place]?, fate with
    | none, _ => x
    | some m, .arrives => (x.withOutbound (x.outbound.eraseIdx place)).answer m
    | some _, .lost => x.withOutbound (x.outbound.eraseIdx place)
    | some m, .doubled => x.withOutbound (x.outbound ++ [m])
  | .inbound place fate =>
    match x.inbound[place]?, fate with
    | none, _ => x
    | some (header, m), .arrives =>
      (x.withInbound (x.inbound.eraseIdx place)).react (x.engine.step (.receive header m))
    | some _, .lost => x.withInbound (x.inbound.eraseIdx place)
    | some answer, .doubled => x.withInbound (x.inbound ++ [answer])

def run (x : Exchange) : List Happening → Exchange
  | [] => x
  | h :: rest => (x.happen h).run rest

/-- An exchange over empty channels, begun with an order. -/
def ofOrder (e : Engine) (v : Vehicle) (o : Order) (admission : Admission) : Exchange :=
  react ⟨e, v, [], [], []⟩ (e.place o admission)

/-- A list of two items that are not alike. -/
def stops : List MissionItem :=
  [{ MissionItem.blank with current := true },
    { MissionItem.blank with seq := 1, x := 473977420, y := 85455940 }]

end Exchange

namespace Vehicle

/-- A mission message is either left unanswered or handed to the mission side. -/
theorem handle_mission (v : Vehicle) (peer : Address) {m : Message} (hm : m.isCommand = false) :
    (v.handle peer m).state.mission = v.mission ∧ (v.handle peer m).replies = [] ∨
      (v.handle peer m).state.mission = (v.mission.handle peer m).state ∧
        (v.handle peer m).replies = (v.mission.handle peer m).replies := by
  unfold handle
  split
  · exact .inl ⟨rfl, rfl⟩
  · split
    · exact .inl ⟨rfl, rfl⟩
    · cases m with
      | commandLong fields => cases hm
      | commandInt fields => cases hm
      | _ => exact .inr ⟨rfl, rfl⟩

theorem mission_emit (faults : Faults) (answers : List Message) :
    ∀ (v : Vehicle) (place : Nat), (v.emit faults place answers).1.mission = v.mission := by
  induction answers with
  | nil =>
      intro v place
      exact rfl
  | cons m rest ih =>
      intro v place
      exact ih v.counted (place + 1)

theorem mem_of_emit (faults : Faults) (answers : List Message) {x : Header × Message} :
    ∀ (v : Vehicle) (place : Nat), x ∈ (v.emit faults place answers).2 → x.2 ∈ answers := by
  induction answers with
  | nil =>
      intro v place hx
      exact absurd hx List.not_mem_nil
  | cons m rest ih =>
      intro v place hx
      rcases List.mem_append.mp hx with hx | hx
      · rw [(List.mem_replicate.mp hx).2]
        exact List.mem_cons_self
      · exact List.mem_cons_of_mem _ (ih v.counted (place + 1) hx)

end Vehicle

namespace Contract

theorem Extends.refl (c : Contract) : c.Extends c :=
  ⟨fun _ => id, fun _ => id, fun _ => id, fun _ => id, fun _ => id⟩

theorem admits_of_isLocal (c : Contract) {i : Input} (hi : i.isLocal = true) : c.Admits i := by
  have htask : ∀ s, i.task? s = none := by
    intro s
    cases i with
    | command a => cases hi
    | transfer side t admission => cases hi
    | _ => rfl
  refine ⟨fun s t ht => ?_, fun header m hreceive => ?_⟩
  · rw [htask] at ht
    cases ht
  · rw [hreceive] at hi
    cases hi

end Contract

/-- Whether a vehicle answers what keeps to a contract with what the contract takes for granted. The
contract may allow more as time goes on. -/
structure Accord (c : VehicleMission → Contract) (fit : VehicleMission → Prop) : Prop where
  lawful : ∀ v, fit v → (c v).Lawful
  mission : ∀ v m, (c v).sent m → m.isCommand = false
  remains : ∀ v peer m, fit v → (c v).sent m → fit (v.handle peer m).state
  grows : ∀ v peer m, fit v → (c v).sent m → (c v).Extends (c (v.handle peer m).state)
  answers : ∀ v peer m, fit v → (c v).sent m →
    ∀ answer ∈ (v.handle peer m).replies, (c (v.handle peer m).state).heard answer

namespace Exchange

/-- Whether an exchange keeps to a contract. -/
structure Obeys (c : VehicleMission → Contract) (fit : VehicleMission → Prop) (x : Exchange) : Prop where
  vehicle : fit x.vehicle.mission
  engine : (c x.vehicle.mission).Holds (x.engine.desk x.effects fun _ => [])
  outbound : ∀ m ∈ x.outbound, (c x.vehicle.mission).sent m
  inbound : ∀ a ∈ x.inbound, (c x.vehicle.mission).heard a.2

variable {c : VehicleMission → Contract} {fit : VehicleMission → Prop} {x : Exchange}

namespace Obeys

theorem react (hx : Obeys c fit x) (hl : (c x.vehicle.mission).Lawful) {i : Input}
    (hi : (c x.vehicle.mission).Admits i) : Obeys c fit (x.react (x.engine.step i)) := by
  have hengine := Contract.engine_step hl hi x.engine hx.engine
  refine ⟨hx.vehicle, ⟨hengine.queue, hengine.owing, hengine.effects⟩, fun m hm => ?_, hx.inbound⟩
  rcases List.mem_append.mp hm with hm | hm
  · exact hx.outbound m hm
  · obtain ⟨e, he, hsent⟩ := List.mem_filterMap.mp hm
    have hshows := hengine.effects e (List.mem_append_right _ he)
    cases e with
    | sent t m' =>
        cases hsent
        exact hshows
    | _ => cases hsent

theorem answer (ha : Accord c fit) (hx : Obeys c fit x) {m : Message} (hm : (c x.vehicle.mission).sent m) :
    Obeys c fit (x.answer m) := by
  have hmission : (x.answer m).vehicle.mission = (x.vehicle.handle x.engine.hub.link.own m).state.mission :=
    Vehicle.mission_emit _ _ _ _
  have hstate : fit (x.answer m).vehicle.mission ∧
      (c x.vehicle.mission).Extends (c (x.answer m).vehicle.mission) ∧
        ∀ a ∈ (x.vehicle.handle x.engine.hub.link.own m).replies,
          (c (x.answer m).vehicle.mission).heard a := by
    rw [hmission]
    rcases x.vehicle.handle_mission x.engine.hub.link.own (ha.mission _ m hm) with
      ⟨hsame, hnone⟩ | ⟨hnext, hreplies⟩
    · rw [hsame, hnone]
      exact ⟨hx.vehicle, Contract.Extends.refl _, fun a ha => absurd ha List.not_mem_nil⟩
    · rw [hnext, hreplies]
      exact ⟨ha.remains _ _ m hx.vehicle hm, ha.grows _ _ m hx.vehicle hm, ha.answers _ _ m hx.vehicle hm⟩
  obtain ⟨hfit, hextends, hheard⟩ := hstate
  refine ⟨hfit, hx.engine.mono hextends, fun m' hm' => hextends.sent m' (hx.outbound m' hm'), fun a hin => ?_⟩
  rcases List.mem_append.mp hin with hin | hin
  · exact hextends.heard _ (hx.inbound a hin)
  · exact hheard _ (Vehicle.mem_of_emit _ _ _ _ hin)

theorem withOutbound (hx : Obeys c fit x) {outbound : List Message} (h : outbound ⊆ x.outbound) :
    Obeys c fit (x.withOutbound outbound) :=
  ⟨hx.vehicle, hx.engine, fun m hm => hx.outbound m (h hm), hx.inbound⟩

theorem withInbound (hx : Obeys c fit x) {inbound : List (Header × Message)} (h : inbound ⊆ x.inbound) :
    Obeys c fit (x.withInbound inbound) :=
  ⟨hx.vehicle, hx.engine, hx.outbound, fun a ha => hx.inbound a (h ha)⟩

/-- An answer reaches the engine. -/
theorem receive (ha : Accord c fit) (hx : Obeys c fit x) {a : Header × Message}
    (hheard : (c x.vehicle.mission).heard a.2) :
    Obeys c fit (x.react (x.engine.step (.receive a.1 a.2))) := by
  apply hx.react (ha.lawful _ hx.vehicle)
  constructor
  · intro s t ht
    cases ht
  · intro header m hreceive
    cases hreceive
    exact hheard

theorem again_subset {α : Type} {channel : List α} {m : α} (h : m ∈ channel) : channel ++ [m] ⊆ channel :=
  List.append_subset.mpr ⟨List.Subset.refl _, List.cons_subset.mpr ⟨h, List.nil_subset _⟩⟩

theorem happen (ha : Accord c fit) (hx : Obeys c fit x) (h : Happening) : Obeys c fit (x.happen h) := by
  cases h with
  | engine i isLocal => exact hx.react (ha.lawful _ hx.vehicle) (Contract.admits_of_isLocal _ isLocal)
  | outbound place fate =>
      cases hm : x.outbound[place]? with
      | none => simpa only [Exchange.happen, hm] using hx
      | some m =>
          have hmem := List.mem_of_getElem? hm
          have hless : Obeys c fit (x.withOutbound (x.outbound.eraseIdx place)) :=
            hx.withOutbound List.eraseIdx_subset
          cases fate with
          | arrives => simpa only [Exchange.happen, hm] using hless.answer ha (hx.outbound m hmem)
          | lost => simpa only [Exchange.happen, hm] using hless
          | doubled =>
              simpa only [Exchange.happen, hm] using hx.withOutbound (again_subset hmem)
  | inbound place fate =>
      cases hm : x.inbound[place]? with
      | none => simpa only [Exchange.happen, hm] using hx
      | some a =>
          have hmem := List.mem_of_getElem? hm
          have hless : Obeys c fit (x.withInbound (x.inbound.eraseIdx place)) :=
            hx.withInbound List.eraseIdx_subset
          cases fate with
          | arrives =>
              have harrived : Obeys c fit ((x.withInbound (x.inbound.eraseIdx place)).react
                  (x.engine.step (.receive a.1 a.2))) := hless.receive ha (hx.inbound a hmem)
              simpa only [Exchange.happen, hm] using harrived
          | lost => simpa only [Exchange.happen, hm] using hless
          | doubled =>
              simpa only [Exchange.happen, hm] using hx.withInbound (again_subset hmem)

theorem run (ha : Accord c fit) (happenings : List Happening) :
    ∀ x, Obeys c fit x → Obeys c fit (x.run happenings) := by
  induction happenings with
  | nil =>
      intro x hx
      exact hx
  | cons h rest ih =>
      intro x hx
      exact ih _ (hx.happen ha h)

/-- An engine at rest is given an order for a transfer that the contract allows. -/
theorem ofOrder (ha : Accord c fit) (config : Config) (link : Link) (clock : Instant) {v : Vehicle}
    (hv : fit v.mission) {o : Order} {t : Transfer} (hservice : o.service = .mission .client)
    (hmakes : o.task link.autopilot = .transfer t) (ht : (c v.mission).task (.transfer t))
    (admission : Admission) :
    Obeys c fit (ofOrder (.idle config link clock) v o admission) := by
  have hrest : Obeys c fit ⟨.idle config link clock, v, [], [], []⟩ := by
    refine ⟨hv, Contract.holds_idle _ config link clock, ?_, ?_⟩
    · intro m hm
      exact absurd hm List.not_mem_nil
    · intro a ha
      exact absurd ha List.not_mem_nil
  have hadmits : (c v.mission).Admits (.transfer .client t admission) := by
    refine ⟨fun s task htask => ?_, fun header m hreceive => (by cases hreceive)⟩
    rw [Input.task?] at htask
    split at htask
    · cases htask
      exact ht
    · cases htask
  have hplace : (Engine.idle config link clock).place o admission =
      (Engine.idle config link clock).step (.transfer .client t admission) := by
    have htask : o.task (Engine.idle config link clock).hub.link.autopilot = .transfer t := hmakes
    rw [Engine.place, htask]
    show Engine.submit _ o.service _ _ = _
    rw [hservice]
    rfl
  rw [Exchange.ofOrder, hplace]
  exact hrest.react (ha.lawful _ hv) hadmits

end Obeys

end Exchange

end GroundLink
