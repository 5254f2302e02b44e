import GroundLink.Proofs.Exchange
import GroundLink.Proofs.SoleTransfer
import GroundLink.Script.Session

/-! An engine and a vehicle are driven in rounds. What the engine has sent goes to the vehicle and the answers
come back, unless they are lost; if nothing was sent, time passes until the next timer runs out; then the
engine looks after everything. While the engine does nothing but one transfer of its own, a round is one step
of the transfer (`Script.Session.Serves`): its message is lost, or is answered and the transfer goes on or
ends; and when it is lost, the next round is the one in which the time of the transfer is up. -/

namespace GroundLink

theorem toNat_ofNat_of_le_maxItems {n : Nat} (h : n ≤ maxItems) : (UInt16.ofNat n).toNat = n := by
  rw [UInt16.toNat_ofNat']
  exact Nat.mod_eq_of_lt (Nat.lt_succ_of_le h)

/-- What is lost of a round: messages that were sent and answers to them, by their place. -/
structure Losses where
  out : List Nat
  back : List Nat
  deriving DecidableEq, Inhabited

namespace Losses

def none : Losses := ⟨[], []⟩

def faults (l : Losses) : Faults := ⟨l.out, l.back, [], false⟩

end Losses

/-- When the next timer runs out; now, if none is armed. -/
def Engine.nextDeadline (e : Engine) : Instant :=
  (Timers.first? e.hub.timers.armed).elim e.hub.clock (·.deadline)

/-- Whether the one message that was sent is lost in a round, on its way or by the vehicle,
or the answer to it is. -/
def Vehicle.loses (v : Vehicle) (l : Losses) : Bool :=
  decide (0 ∈ l.out) || decide (0 < v.losses) || decide (0 ∈ l.back)

namespace Script.Session

/-- A session that begins with an order. -/
def ofOrder (e : Engine) (v : Vehicle) (o : Order) (admission : Admission) : Session :=
  (start e v).follow (e.place o admission)

/-- Time passes until the next timer runs out, and everything is looked after. -/
def wait (s : Session) : Session :=
  match s.engine with
  | none => s
  | some e => s.follow ((e.step (.setClock e.nextDeadline)).next (·.step .tick))

/-- One round. -/
def round (l : Losses) (s : Session) : Session := if s.outbox = [] then s.wait else (s.exchange l.faults).2

/-- A session after so many rounds; in each of them is lost what the schedule says. -/
def drive (σ : Nat → Losses) (s : Session) : Nat → Session
  | 0 => s
  | k + 1 => (drive σ s k).round (σ k)

/-- Whether a message is sent in a round, and both it and its answer arrive. -/
def GetsThrough (σ : Nat → Losses) (s : Session) (m : Message) (k : Nat) : Prop :=
  (s.drive σ k).outbox = [m] ∧ (s.drive σ k).vehicle.loses (σ k) = false

/-- Whether something is sent in vain in a round. -/
def LosesAt (σ : Nat → Losses) (s : Session) (k : Nat) : Prop :=
  (s.drive σ k).outbox ≠ [] ∧ (s.drive σ k).vehicle.loses (σ k) = true

instance (σ : Nat → Losses) (s : Session) (m : Message) (k : Nat) : Decidable (s.GetsThrough σ m k) :=
  inferInstanceAs (Decidable (_ ∧ _))

instance (σ : Nat → Losses) (s : Session) (k : Nat) : Decidable (s.LosesAt σ k) :=
  inferInstanceAs (Decidable (_ ∧ _))

/-- Whether a timer that is set now can run to its end. -/
def HasTime (config : Config) (s : Session) : Prop :=
  ∀ e ∈ s.engine, e.hub.clock.toNat + config.timeoutSpan.micros < 2 ^ 64

instance (config : Config) (s : Session) : Decidable (s.HasTime config) :=
  inferInstanceAs (Decidable (∀ e ∈ s.engine, _))

/-- Whether nothing is left to do. -/
def atRest (s : Session) : Bool := s.outbox.isEmpty && s.engine.any Engine.atRest

/-- In how many of the first rounds a message was sent in vain. -/
def lostAttempts (σ : Nat → Losses) (s : Session) (m : Message) : Nat → Nat
  | 0 => 0
  | k + 1 => lostAttempts σ s m k +
      if (s.drive σ k).outbox = [m] ∧ (s.drive σ k).vehicle.loses (σ k) = true then 1 else 0

end Script.Session

namespace Vehicle

variable {v : Vehicle} {peer : Address} {l : Losses} {m answer : Message}

theorem isFor_of_target {target : Address} (hack : ∀ a, m ≠ .commandAck a)
    (hrequest : ∀ r, m ≠ .missionRequest r) (htarget : m.target? = some target)
    (hsystem : target.system = 0 ∨ v.address.system = target.system) :
    v.isFor m = true := by
  have hmeant : (decide (target.system = 0) || decide (target.system = v.address.system)) = true := by
    rw [Bool.or_eq_true, decide_eq_true_eq, decide_eq_true_eq,
      eq_comm (a := target.system) (b := v.address.system)]
    exact hsystem
  rw [isFor, htarget]
  · exact hmeant
  · exact hack
  · exact hrequest

theorem round_lost (h : 0 ∈ l.out) : v.round peer l.faults [m] = ⟨v, [], []⟩ := by
  simp [round, Losses.faults, h, handleAll, emit]

theorem round_arrived (h : 0 ∉ l.out) : v.round peer l.faults [m] =
    let r := v.handle peer m
    let sent := r.state.emit l.faults 0 r.replies
    ⟨sent.1, r.replies, sent.2⟩ := by
  simp [round, Losses.faults, h, handleAll]

theorem round_dropped (h : 0 ∉ l.out) (hfor : v.isFor m = true) (hlosses : 0 < v.losses) :
    v.round peer l.faults [m] = ⟨{ v with losses := v.losses - 1 }, [], []⟩ := by
  have hhandle : v.handle peer m = ⟨{ v with losses := v.losses - 1 }, []⟩ := by
    unfold handle
    rw [hfor, Bool.not_true, if_neg Bool.false_ne_true, if_pos hlosses]
  rw [round_arrived h, hhandle]
  rfl

/-- An acknowledgement is not answered. -/
theorem round_ack (v : Vehicle) (l : Losses) (a : MissionAck) :
    ∃ v', (∀ peer, v.round peer l.faults [.missionAck a] = ⟨v', [], []⟩) ∧
      v'.mission.items = v.mission.items := by
  by_cases hout : 0 ∈ l.out
  · exact ⟨v, fun peer => round_lost hout, rfl⟩
  · have hhandle : ∃ v', (∀ peer, v.handle peer (.missionAck a) = ⟨v', []⟩) ∧
        v'.mission.items = v.mission.items := by
      unfold handle
      split
      · exact ⟨v, fun peer => rfl, rfl⟩
      · split
        · exact ⟨{ v with losses := v.losses - 1 }, fun peer => rfl, rfl⟩
        · exact ⟨{ v with mission := { v.mission with phase := .idle } }, fun peer => rfl, rfl⟩
    obtain ⟨v', hv', hitems⟩ := hhandle
    refine ⟨v', fun peer => ?_, hitems⟩
    rw [round_arrived hout, hv']
    rfl

section Answered

variable {mission : VehicleMission} (hfor : v.isFor m = true) (hm : m.isCommand = false)
  (hanswer : v.mission.handle peer m = ⟨mission, [answer]⟩)

include hfor hm hanswer

theorem round_answered (h : 0 ∉ l.out) (hlosses : v.losses = 0) :
    v.round peer l.faults [m] =
      ⟨{ v with mission }.counted, [answer], if 0 ∈ l.back then [] else [(v.header, answer)]⟩ := by
  have hhandle : v.handle peer m = ⟨{ v with mission }, [answer]⟩ := by
    unfold handle
    rw [hfor, Bool.not_true, if_neg Bool.false_ne_true, hlosses, if_neg (Nat.lt_irrefl 0)]
    cases m with
    | commandLong fields => cases hm
    | commandInt fields => cases hm
    | _ => simp only [hanswer]
  rw [round_arrived h, hhandle]
  by_cases hback : 0 ∈ l.back
  · simp [emit, Losses.faults, hback]
  · simp [emit, Losses.faults, hback, header]

/-- A message is sent in vain: nothing arrives, but the vehicle may have heard it. -/
theorem round_of_loses (h : v.loses l = true) : ∃ v' replies, v.round peer l.faults [m] = ⟨v', replies, []⟩ ∧
    v'.address = v.address ∧ (v'.mission = v.mission ∨ v'.mission = mission) := by
  by_cases hout : 0 ∈ l.out
  · exact ⟨v, [], round_lost hout, rfl, .inl rfl⟩
  · by_cases hlosses : v.losses = 0
    · have hback : 0 ∈ l.back := by simpa [loses, hout, hlosses] using h
      have hround := round_answered (l := l) hfor hm hanswer hout hlosses
      rw [if_pos hback] at hround
      exact ⟨_, _, hround, rfl, .inr rfl⟩
    · exact ⟨_, _, round_dropped hout hfor (Nat.pos_of_ne_zero hlosses), rfl, .inl rfl⟩

/-- A message is sent and the answer arrives. -/
theorem round_of_not_loses (h : v.loses l = false) :
    v.round peer l.faults [m] = ⟨{ v with mission }.counted, [answer], [(v.header, answer)]⟩ := by
  simp only [loses, Bool.or_eq_false_iff, decide_eq_false_iff_not, Nat.not_lt, Nat.le_zero] at h
  obtain ⟨⟨hout, hlosses⟩, hback⟩ := h
  rw [round_answered hfor hm hanswer hout hlosses, if_neg hback]

end Answered

end Vehicle

namespace Script.Session

/-- What comes of a session in which effects are noted that nobody waits for. -/
structure Notes (s : Session) (effects : List Effect) (s' : Session) : Prop where
  engine : s'.engine = s.engine
  vehicle : s'.vehicle = s.vehicle
  labels : s'.labels = []
  outbox : s'.outbox = s.outbox ++ effects.filterMap sentMessage?
  sent : s'.seen.sent = s.seen.sent ++ effects.filterMap sentMessage?
  outcomes : ∀ t o, (t, o) ∈ s.outcomes ∨ .result t o ∈ effects → (t, o) ∈ s'.outcomes

theorem notes_nil {s : Session} (hs : s.labels = []) : s.Notes [] s :=
  ⟨rfl, rfl, hs, (List.append_nil _).symm, (List.append_nil _).symm,
    fun _ _ h => h.resolve_right List.not_mem_nil⟩

theorem Notes.trans {s s' s'' : Session} {effects more : List Effect} (h : s.Notes effects s')
    (h' : s'.Notes more s'') : s.Notes (effects ++ more) s'' where
  engine := h'.engine.trans h.engine
  vehicle := h'.vehicle.trans h.vehicle
  labels := h'.labels
  outbox := by rw [h'.outbox, h.outbox, List.append_assoc, ← List.filterMap_append]
  sent := by rw [h'.sent, h.sent, List.append_assoc, ← List.filterMap_append]
  outcomes t o hmem := by
    refine h'.outcomes t o ?_
    rw [List.mem_append, ← or_assoc] at hmem
    exact hmem.imp_left (h.outcomes t o)

theorem notes_note {s : Session} (hs : s.labels = []) (e : Effect) : s.Notes [e] (s.note e) := by
  have hkept : ∀ (t : Ticket) (o : Outcome), e ≠ .result t o → (t, o) ∈ s.outcomes ∨ .result t o ∈ [e] →
      (t, o) ∈ s.outcomes := by
    intro t o hne h
    exact h.resolve_right fun hmem => hne (List.mem_singleton.mp hmem).symm
  cases e with
  | sent t m => exact ⟨rfl, rfl, hs, rfl, rfl, fun t o => hkept t o nofun⟩
  | refused t m =>
      exact ⟨rfl, rfl, hs, (List.append_nil _).symm, (List.append_nil _).symm, fun t o => hkept t o nofun⟩
  | progress t f =>
      simp only [note, hs, List.lookup_nil]
      exact ⟨rfl, rfl, hs, (List.append_nil _).symm, (List.append_nil _).symm, fun t o => hkept t o nofun⟩
  | result t o =>
      simp only [note, hs, List.lookup_nil]
      refine ⟨rfl, rfl, rfl, (List.append_nil _).symm, (List.append_nil _).symm, fun t' o' h => ?_⟩
      simpa [or_comm] using h

theorem notes_foldl (effects : List Effect) :
    ∀ s : Session, s.labels = [] → s.Notes effects (effects.foldl note s) := by
  induction effects with
  | nil => exact fun s => notes_nil
  | cons e rest ih =>
      intro s hs
      have hone := notes_note hs e
      exact hone.trans (ih (s.note e) hone.labels)

theorem notes_follow {s : Session} (hs : s.labels = []) (r : Reaction) :
    { s with engine := some r.engine }.Notes r.effects (s.follow r) :=
  notes_foldl r.effects _ hs

/-- Whether the engine of a session only does a transfer of its own, in the given state and with its timer
just set; what it has sent, what of that is on its way, and the vehicle. -/
structure Serves (config : Config) (link : Link) (s : Session) (clock : Instant) (c : Cookie) (a : Activity)
    (sent outbox : List Message) (v : Vehicle) : Prop where
  engine : s.engine = some (.underWay config link clock c a)
  vehicle : s.vehicle = v
  outbox : s.outbox = outbox
  sent : s.seen.sent = sent
  labels : s.labels = []

/-- Whether the transfer of a session has ended in the given way, and left the engine nothing to do. -/
structure Concludes (s : Session) (o : Outcome) (sent outbox : List Message) (v : Vehicle) : Prop where
  engine : s.engine.any Engine.atRest = true
  outcome : (Engine.firstTicket, o) ∈ s.outcomes
  outbox : s.outbox = outbox
  sent : s.seen.sent = sent
  vehicle : s.vehicle = v

theorem filterMap_shown (r : Running) (service : Service) (f : Option Fraction) (message : Option Message)
    (t : Ticket) :
    (r.report service f ++ message.toList.map (Effect.sent t)).filterMap sentMessage? = message.toList := by
  have hreport : (r.report service f).filterMap sentMessage? = [] := by
    rw [List.filterMap_eq_nil_iff]
    intro e he
    obtain ⟨x, _, rfl⟩ := Running.mem_report he
    rfl
  rw [List.filterMap_append, hreport]
  cases message <;> rfl

theorem filterMap_closing (r : Running) (service : Service) (f : Option Fraction) (message : Option Message)
    (t : Ticket) (o : Outcome) :
    (message.toList.map (Effect.sent t) ++ r.report service f ++ [Effect.result t o]).filterMap sentMessage? =
      message.toList := by
  have hreport := filterMap_shown r service f none t
  rw [Option.toList_none, List.map_nil, List.append_nil] at hreport
  rw [List.filterMap_append, List.filterMap_append, hreport]
  cases message <;> rfl

namespace Serves

variable {config : Config} {link : Link} {s : Session} {clock : Instant} {c : Cookie} {a b : Activity}
    {v v' : Vehicle}
  {sent outbox replies : List Message} {l : Losses} {m answer : Message} {arrivals : List (Header × Message)}
  {header : Header} {f : Option Fraction} {message : Option Message} {o : Outcome}

/-- What is noted of a step of the transfer after which it goes on. -/
theorem of_follow (hlabels : s.labels = []) (hvehicle : s.vehicle = v) (houtbox : s.outbox = [])
    (hsent : s.seen.sent = sent) (r : Running) :
    (s.follow ⟨.underWay config link clock c a,
      r.report (.mission .client) f ++ message.toList.map (.sent Engine.firstTicket)⟩).Serves
      config link clock c a
        (sent ++ message.toList) message.toList v := by
  have hnotes := notes_follow hlabels ⟨.underWay config link clock c a,
    r.report (.mission .client) f ++ message.toList.map (.sent Engine.firstTicket)⟩
  have hout := hnotes.outbox
  have hall := hnotes.sent
  rw [filterMap_shown] at hout hall
  exact ⟨hnotes.engine, hnotes.vehicle.trans hvehicle, hout.trans (congrArg (· ++ _) houtbox),
    hall.trans (congrArg (· ++ _) hsent), hnotes.labels⟩

/-- What was sent goes to the vehicle, and what arrives of the answers is taken in. -/
theorem exchange (hs : s.Serves config link clock c a sent [m] v)
    (hround : v.round link.own l.faults [m] = ⟨v', replies, arrivals⟩) :
    s.round l = { s with vehicle := v', outbox := [] }.follow
      (arrivals.foldl (fun (e : Engine) (x : Header × Message) => e.receive x.1 x.2)
        (Engine.underWay config link clock c a)).tick := by
  have hround' : s.vehicle.round (Engine.underWay config link clock c a).hub.link.own l.faults s.outbox =
      ⟨v', replies, arrivals⟩ := by
    rw [hs.vehicle, hs.outbox]
    exact hround
  have hnot : s.outbox ≠ [] := by simp [hs.outbox]
  rw [round, if_neg hnot, Session.exchange, hs.engine]
  simp only [hround']

/-- Nothing arrives. -/
theorem lost (hs : s.Serves config link clock c a sent [m] v)
    (hround : v.round link.own l.faults [m] = ⟨v', replies, []⟩)
    (hearly : clock < clock.after config.timeoutSpan) :
    (s.round l).Serves config link clock c a sent [] v' := by
  rw [hs.exchange hround, List.foldl_nil, Engine.tick_quiet hearly]
  have hnotes := notes_follow (s := { s with vehicle := v', outbox := [] }) hs.labels
    ⟨.underWay config link clock c a, []⟩
  exact ⟨hnotes.engine, hnotes.vehicle, hnotes.outbox, hnotes.sent.trans (by simpa using hs.sent),
    hnotes.labels⟩

section Heard

variable (hs : s.Serves config link clock c a sent [m] v)
  (hround : v.round link.own l.faults [m] = ⟨v', replies, [(header, answer)]⟩)
  (hearly : clock < clock.after config.timeoutSpan) (hlink : link.acceptance = .always)
  (hkind : answer.kind ∈ a.task.kinds)
  (hsystem : a.task.peer.system = 0 ∨ header.sender.system = a.task.peer.system)

include hs hround hearly hlink hkind hsystem

/-- An answer arrives, and the transfer goes on. -/
theorem heard
    (hmove : a.onMessage ((Engine.idle config link clock).hub.setting (.mission .client)) header.sender
      answer = .proceed .extend f message b) :
    (s.round l).Serves config link clock c b (sent ++ message.toList) message.toList v' := by
  rw [hs.exchange hround, List.foldl_cons, List.foldl_nil, Engine.receive_underWay hkind hsystem,
    Engine.tick_heard hearly hlink hmove]
  exact of_follow (s := { s with vehicle := v', outbox := [] }) hs.labels rfl rfl hs.sent _

/-- An answer arrives that ends the transfer. -/
theorem ended
    (hmove : a.onMessage ((Engine.idle config link clock).hub.setting (.mission .client)) header.sender
      answer = .finish message f o) :
    (s.round l).Concludes o (sent ++ message.toList) message.toList v' := by
  rw [hs.exchange hround, List.foldl_cons, List.foldl_nil, Engine.receive_underWay hkind hsystem,
    Engine.tick_ended hearly hlink hmove]
  have hnotes := notes_follow (s := { s with vehicle := v', outbox := [] }) hs.labels
    ⟨.finished config link clock c a.task,
      message.toList.map (.sent Engine.firstTicket) ++
        (Engine.firstJob (some c) a).report (.mission .client) f ++
        [.result Engine.firstTicket o]⟩
  have hout := hnotes.outbox
  have hall := hnotes.sent
  rw [filterMap_closing] at hout hall
  refine ⟨?_, hnotes.outcomes _ _ (.inr ?_), hout, hall.trans (congrArg (· ++ _) hs.sent), hnotes.vehicle⟩
  · rw [hnotes.engine]
    exact Engine.atRest_finished config link clock c a.task
  · exact List.mem_append_right _ (List.mem_singleton_self _)

end Heard

/-- Nothing was sent: time passes until the timer runs out. -/
theorem waited (hlink : link.acceptance = .always) (hs : s.Serves config link clock c a sent [] v)
    (hmove : a.onTimeout ((Engine.idle config link clock).hub.setting (.mission .client)) =
      .proceed (.restart config.timeoutSpan) f message b) :
    (s.round l).Serves config link (clock.after config.timeoutSpan) (c + 1) b
      (sent ++ message.toList) message.toList v := by
  have hstep : ((Engine.underWay config link clock c a).step
      (.setClock (Engine.underWay config link clock c a).nextDeadline)).next (·.step .tick) =
      ((Engine.underWay config link clock c a).withClock (clock.after config.timeoutSpan)).tick := rfl
  have hround : s.round l = s.follow
      ((Engine.underWay config link clock c a).withClock (clock.after config.timeoutSpan)).tick := by
    rw [round, if_pos hs.outbox, wait, hs.engine]
    exact congrArg s.follow hstep
  rw [hround, Engine.wait_underWay hlink hmove]
  exact of_follow hs.labels hs.vehicle hs.outbox hs.sent _

/-- An order for a transfer is given to an engine at rest. -/
theorem ofOrder_eq {t : Transfer} {order : Order} (hservice : order.service = .mission .client)
    (htask : order.task link.autopilot = .transfer t) (admission : Admission) :
    ofOrder (.idle config link clock) v order admission = start (.enlisted config link clock t) v := by
  have hplace : (Engine.idle config link clock).place order admission =
      ⟨.enlisted config link clock t, []⟩ := by
    have horder : order.task (Engine.idle config link clock).hub.link.autopilot = .transfer t := htask
    rw [Engine.place, horder]
    show Engine.submit _ order.service _ _ = _
    rw [hservice]
    exact Engine.transfer_idle t admission
  rw [ofOrder, hplace]
  rfl

end Serves

section LostAttempts

variable {σ : Nat → Losses} {s : Session} {m : Message} {k : Nat}

theorem lostAttempts_succ_of_loses (houtbox : (s.drive σ k).outbox = [m])
    (hloses : (s.drive σ k).vehicle.loses (σ k) = true) :
    s.lostAttempts σ m (k + 1) = s.lostAttempts σ m k + 1 := by
  rw [lostAttempts, if_pos ⟨houtbox, hloses⟩]

theorem lostAttempts_succ_of_ne (houtbox : (s.drive σ k).outbox ≠ [m]) :
    s.lostAttempts σ m (k + 1) = s.lostAttempts σ m k := by
  rw [lostAttempts, if_neg fun h => houtbox h.1, Nat.add_zero]

/-- A message that is sent in vain, and not as often as there are retries, may be sent once more. -/
theorem retry_left {tries retries : Nat} (houtbox : (s.drive σ k).outbox = [m])
    (hloses : (s.drive σ k).vehicle.loses (σ k) = true) (htries : s.lostAttempts σ m k + 1 = tries)
    (hlost : ∀ k, s.lostAttempts σ m k < max 1 retries) : tries < retries := by
  have hnext := hlost (k + 1)
  rw [lostAttempts_succ_of_loses houtbox hloses] at hnext
  omega

theorem lostAttempts_start (σ : Nat → Losses) (e : Engine) (v : Vehicle) (m : Message) :
    (start e v).lostAttempts σ m 1 = 0 :=
  lostAttempts_succ_of_ne (k := 0) (List.cons_ne_nil m []).symm

/-- A transfer that is ordered starts in the first round, before which nothing is lost. -/
theorem Serves.begun {config : Config} {link : Link} {clock : Instant} {t : Transfer} {order : Order}
    {b : Activity} {f : Option Fraction} {message : Option Message} (hlink : link.acceptance = .always)
    (hservice : order.service = .mission .client) (htask : order.task link.autopilot = .transfer t)
    (hmove : (Task.transfer t).start ((Engine.idle config link clock).hub.setting (.mission .client)) =
      .proceed (.restart config.timeoutSpan) f message b) (v : Vehicle) (admission : Admission)
      (σ : Nat → Losses) :
    ((ofOrder (.idle config link clock) v order admission).drive σ 1).Serves config link clock 0 b
      message.toList
        message.toList v ∧
      ∀ m, (ofOrder (.idle config link clock) v order admission).lostAttempts σ m 1 = 0 := by
  rw [ofOrder_eq hservice htask admission]
  refine ⟨?_, lostAttempts_start σ _ v⟩
  show ((start (.enlisted config link clock t) v).follow (Engine.enlisted config link clock t).tick).Serves
    config link clock 0 b message.toList message.toList v
  rw [Engine.tick_enlisted hlink hmove]
  exact of_follow rfl rfl rfl rfl _

end LostAttempts

/-- What a drive takes for granted: the link takes all messages, and a timer that is
set has some time to run. -/
structure Unhurried (config : Config) (link : Link) (σ : Nat → Losses) (s : Session) : Prop where
  accepts : link.acceptance = .always
  timeout : 1 ≤ config.timeoutSpan.micros
  time : ∀ k, (s.drive σ k).HasTime config

theorem Unhurried.early {config : Config} {link : Link} {σ : Nat → Losses} {s : Session}
    (hs : Unhurried config link σ s) {k : Nat} {clock : Instant} {c : Cookie} {a : Activity}
    {sent outbox : List Message} {v : Vehicle}
    (hk : (s.drive σ k).Serves config link clock c a sent outbox v) :
    clock < clock.after config.timeoutSpan := by
  have hlate : clock.toNat + config.timeoutSpan.micros < 2 ^ 64 := hs.time k _ hk.engine
  have htimeout := hs.timeout
  rw [UInt64.lt_iff_toNat_lt, Instant.toNat_after]
  simp only [UInt64.size]
  omega

section Retried

variable {config : Config} {link : Link} {σ : Nat → Losses} {s : Session} {k : Nat}
    {clock : Instant} {c : Cookie}
  {a b : Activity} {f : Option Fraction} {sent : List Message} {m answer : Message} {v : Vehicle}
  {mission : VehicleMission}

/-- A message that was sent in vain goes out once more when the timer has run out. -/
theorem Serves.retried (hs : Unhurried config link σ s)
    (hserves : (s.drive σ k).Serves config link clock c a sent [m] v)
    (hfor : v.isFor m = true) (hm : m.isCommand = false)
    (hanswer : v.mission.handle link.own m = ⟨mission, [answer]⟩) (hloses : v.loses (σ k) = true)
    (hmove : a.onTimeout ((Engine.idle config link clock).hub.setting (.mission .client)) =
      .proceed (.restart config.timeoutSpan) f (some m) b) :
    ∃ v', (s.drive σ (k + 2)).Serves config link (clock.after config.timeoutSpan) (c + 1) b
        (sent ++ [m]) [m] v' ∧
      v'.address = v.address ∧ (v'.mission = v.mission ∨ v'.mission = mission) ∧
      s.lostAttempts σ m (k + 2) = s.lostAttempts σ m k + 1 ∧
      ∀ m', m' ≠ m → s.lostAttempts σ m' (k + 2) = s.lostAttempts σ m' k := by
  obtain ⟨v', replies, hround, haddress, hmission⟩ := v.round_of_loses hfor hm hanswer hloses
  have hsilent : (s.drive σ (k + 1)).Serves config link clock c a sent [] v' :=
    hserves.lost hround (hs.early hserves)
  have hidle : ∀ m', (s.drive σ (k + 1)).outbox ≠ [m'] := by
    intro m'
    rw [hsilent.outbox]
    exact (List.cons_ne_nil _ _).symm
  refine ⟨v', hsilent.waited hs.accepts hmove, haddress, hmission, ?_, fun m' hm' => ?_⟩
  · rw [lostAttempts_succ_of_ne (hidle m),
      lostAttempts_succ_of_loses hserves.outbox (hserves.vehicle ▸ hloses)]
  · rw [lostAttempts_succ_of_ne (hidle m'), lostAttempts_succ_of_ne]
    rw [hserves.outbox]
    exact fun heq => hm' (List.cons.inj heq).1.symm

end Retried

section Rest

variable {σ : Nat → Losses} {s : Session} {n : Nat} {o : Outcome} {sent : List Message} {m : Message}
  {v v' : Vehicle} {l : Losses}

theorem Concludes.atRest (h : s.Concludes o sent [] v) : s.atRest = true :=
  Bool.and_eq_true_iff.mpr ⟨List.isEmpty_iff.mpr h.outbox, h.engine⟩

/-- The last message goes out, and is not answered. -/
theorem Concludes.closed (h : s.Concludes o sent [m] v)
    (hround : ∀ peer, v.round peer l.faults [m] = ⟨v', [], []⟩) :
    (s.round l).Concludes o sent [] v' := by
  obtain ⟨e, hengine, hrest⟩ := (Option.any_eq_true ..).mp h.engine
  have hround' : s.vehicle.round e.hub.link.own l.faults s.outbox = ⟨v', [], []⟩ := by
    rw [h.vehicle, h.outbox]
    exact hround _
  have hexchange : s.round l = { s with engine := some e, vehicle := v', outbox := [] } := by
    rw [round, if_neg (by simp [h.outbox]), exchange, hengine]
    simp only [hround', List.foldl_nil, Engine.tick_of_rest hrest]
    rfl
  rw [hexchange]
  exact ⟨hrest, h.outcome, rfl, h.sent, rfl⟩

theorem wait_of_rest (h : s.atRest = true) : s.wait = s := by
  obtain ⟨_ | e, vehicle, labels, transfers, outcomes, callbacks, outbox, seen⟩ := s
  · rfl
  · have hrest : e.atRest = true := (Bool.and_eq_true_iff.mp h).2
    have hclock : e.withClock e.nextDeadline = e := by
      rw [Engine.nextDeadline, Engine.armed_of_rest hrest]
      rfl
    have hstep : (e.step (.setClock e.nextDeadline)).next (·.step .tick) = ⟨e, []⟩ := by
      show (Reaction.mk (e.withClock e.nextDeadline) []).next (·.tick) = _
      rw [hclock, Reaction.next, Engine.tick_of_rest hrest, List.append_nil]
    show follow _ ((e.step (.setClock e.nextDeadline)).next (·.step .tick)) = _
    rw [hstep]
    rfl

/-- At rest nothing happens any more. -/
theorem drive_of_rest (h : (s.drive σ n).atRest = true) {k : Nat} (hk : n ≤ k) :
    s.drive σ k = s.drive σ n := by
  have houtbox : (s.drive σ n).outbox = [] := List.isEmpty_iff.mp (Bool.and_eq_true_iff.mp h).1
  induction hk with
  | refl => rfl
  | step hk ih => rw [drive, ih, round, if_pos houtbox, wait_of_rest h]

/-- What holds until a session is at rest holds at all times. -/
theorem drive_all_of_rest (h : (s.drive σ n).atRest = true) {p : Session → Prop}
    (hp : ∀ k ≤ n, p (s.drive σ k)) (k : Nat) : p (s.drive σ k) := by
  rcases Nat.le_total k n with hk | hk
  · exact hp k hk
  · rw [drive_of_rest h hk]
    exact hp n (Nat.le_refl n)

theorem not_losesAt_of_rest (h : (s.drive σ n).atRest = true) {k : Nat} (hk : n ≤ k) : ¬s.LosesAt σ k := by
  intro hloses
  rw [LosesAt, drive_of_rest h hk] at hloses
  exact hloses.1 (List.isEmpty_iff.mp (Bool.and_eq_true_iff.mp h).1)

theorem lostAttempts_le_of_rest (h : (s.drive σ n).atRest = true) (m : Message) (k : Nat) :
    s.lostAttempts σ m k ≤ s.lostAttempts σ m n := by
  have hmono : Monotone (s.lostAttempts σ m) := monotone_nat_of_le_succ fun k => Nat.le_add_right _ _
  rcases Nat.le_total k n with hk | hk
  · exact hmono hk
  · have houtbox : (s.drive σ n).outbox = [] := List.isEmpty_iff.mp (Bool.and_eq_true_iff.mp h).1
    induction hk with
    | refl => exact Nat.le_refl _
    | @step k hk ih =>
        have hnothing : (s.drive σ k).outbox ≠ [m] := by
          rw [drive_of_rest h hk, houtbox]
          exact (List.cons_ne_nil _ _).symm
        rw [lostAttempts_succ_of_ne hnothing]
        exact ih

end Rest

end Script.Session

end GroundLink
