import GroundLink.Proofs.Acceptance
import GroundLink.Proofs.Exchange

/-! Commands that a vehicle carries out. What the engine sends is marked with the command it is sent for, and
it is noted of which commands the vehicle has handled a message. The channels lose and delay messages, but
double none; one that keeps the order is one of which the message at the first place arrives each time.

An answer does not tell to which transmission it is one. If a command was sent again although it had arrived,
the vehicle answers it twice, and the second answer may be taken for one to the next command
(`Relay.resending`). That is all that can go wrong: each success is covered by a transmission of its own, of
that command or of one before it (`Relay.Covered`). So of the first commands, however many, no more succeed
than the vehicle has handled transmissions of them, and whenever it is told that a command succeeded of which
the vehicle has handled nothing, it has handled more of an earlier one than that has had successes. -/

namespace GroundLink

open Function

theorem Input.isLocal_tick : Input.tick.isLocal = true := rfl

theorem Input.isLocal_advance (us : UInt64) : (Input.advance us).isLocal = true := rfl

def Effect.transmission? : Effect → Option (Ticket × Message)
  | sent t m => some (t, m)
  | _ => none

/-- Whether a vehicle takes a message in: it is for the vehicle, and not one of those
that the vehicle loses. -/
def Vehicle.heeds (v : Vehicle) (m : Message) : Bool := v.isFor m && v.losses = 0

/-- An engine whose commands a vehicle answers, with what is on its way between them. -/
structure Relay where
  engine : Engine
  vehicle : Vehicle
  outbound : List (Ticket × Message)
  inbound : List (Header × Message)
  effects : List Effect
  /-- The job of every message that the vehicle has handled. -/
  handled : List Ticket

namespace Relay

/-- Something that happens: a command is submitted, something else is done at the engine, or the message at a
place of a channel arrives or is lost. -/
inductive Happening
  | submit (system : UInt8) (armed wantsProgress : Bool)
  | engine (i : Input) (isLocal : i.isLocal = true)
  | outbound (place : Nat) (arrives : Bool)
  | inbound (place : Nat) (arrives : Bool)

namespace Happening

def tick : Happening := .engine .tick Input.isLocal_tick

def pass (us : UInt64) : Happening := .engine (.advance us) (Input.isLocal_advance us)

end Happening

def ofEngine (e : Engine) (v : Vehicle) : Relay := ⟨e, v, [], [], [], []⟩

def react (x : Relay) (r : Reaction) : Relay :=
  { x with engine := r.engine, outbound := x.outbound ++ r.effects.filterMap Effect.transmission?
           effects := x.effects ++ r.effects }

/-- A message reaches the vehicle, whose answers go on their way. -/
def answer (x : Relay) (t : Ticket) (m : Message) : Relay :=
  let r := x.vehicle.handle x.engine.hub.link.own m
  let e := r.state.emit .none 0 r.replies
  { x with vehicle := e.1, inbound := x.inbound ++ e.2
           handled := x.handled ++ if x.vehicle.heeds m then [t] else [] }

def arming (system : UInt8) (armed wantsProgress : Bool) : Input :=
  .command ⟨.long (.arm system armed), wantsProgress⟩

def withOutbound (x : Relay) (outbound : List (Ticket × Message)) : Relay := { x with outbound }

def withInbound (x : Relay) (inbound : List (Header × Message)) : Relay := { x with inbound }

/-- One thing happens; nothing does at a place where there is no message. -/
def happen (x : Relay) : Happening → Relay
  | .submit system armed wantsProgress => x.react (x.engine.step (arming system armed wantsProgress))
  | .engine i _ => x.react (x.engine.step i)
  | .outbound place arrives =>
    match x.outbound[place]?, arrives with
    | none, _ => x
    | some (t, m), true => (x.withOutbound (x.outbound.eraseIdx place)).answer t m
    | some _, false => x.withOutbound (x.outbound.eraseIdx place)
  | .inbound place arrives =>
    match x.inbound[place]?, arrives with
    | none, _ => x
    | some (header, m), true =>
      (x.withInbound (x.inbound.eraseIdx place)).react (x.engine.step (.receive header m))
    | some _, false => x.withInbound (x.inbound.eraseIdx place)

def run (x : Relay) : List Happening → Relay
  | [] => x
  | h :: rest => (x.happen h).run rest

end Relay

section Vehicle

theorem VehicleMission.length_replies_le (v : VehicleMission) (peer : Address) (m : Message) :
    (v.handle peer m).replies.length ≤ 1 := by
  cases m with
  | missionCount m =>
      rw [handle, onCount]
      split <;> exact le_rfl
  | missionItemInt m =>
      rw [handle, onItem]
      split
      · split
        · exact le_rfl
        · simp only
          split <;> exact le_rfl
      · exact Nat.zero_le _
  | missionRequestList m =>
      rw [handle, onRequestList]
      split <;> exact le_rfl
  | missionRequestInt m =>
      rw [handle, onRequest]
      split <;> exact le_rfl
  | missionClearAll m => exact le_rfl
  | missionSetCurrent m => exact le_rfl
  | _ => exact Nat.zero_le _

/-- A vehicle accepts a command once; its reports of progress accept nothing. -/
theorem VehicleCommands.accepts_execute_le (v : VehicleCommands) (peer : Address) (command : CommandId)
    (x : Single) :
    (v.execute peer command x).replies.countP Message.accepts ≤ 1 := by
  have hreports : ∀ n, (progress peer command n).countP Message.accepts = 0 := by
    intro n
    refine List.countP_eq_zero.mpr fun m hm => ?_
    obtain ⟨step, _, rfl⟩ := List.mem_map.mp hm
    exact Bool.false_ne_true
  have hone : ∀ result,
      (progress peer command v.reports.toNat ++ [ack peer command result 0]).countP Message.accepts ≤ 1 := by
    intro result
    rw [List.countP_append, hreports, Nat.zero_add]
    exact List.countP_le_length
  rw [execute]
  split <;> exact hone _

theorem Vehicle.accepts_handle_le (v : Vehicle) (peer : Address) (m : Message) :
    (v.handle peer m).replies.countP Message.accepts ≤ if v.heeds m then 1 else 0 := by
  unfold handle
  split
  · exact Nat.zero_le _
  · next hfor =>
    split
    · exact Nat.zero_le _
    · next hkept =>
      have hheeds : v.heeds m = true := by
        have hzero : v.losses = 0 := by omega
        simpa [heeds, hzero] using hfor
      rw [hheeds, if_pos rfl]
      have hmission : (v.mission.handle peer m).replies.countP Message.accepts ≤ 1 :=
        List.countP_le_length.trans (v.mission.length_replies_le peer m)
      cases m with
      | commandLong m => exact v.commands.accepts_execute_le _ _ _
      | commandInt m => exact v.commands.accepts_execute_le _ _ _
      | _ => exact hmission

/-- Answers that are not interfered with all come in. -/
theorem Vehicle.emit_none (answers : List Message) :
    ∀ (v : Vehicle) (place : Nat), (v.emit .none place answers).2.map (·.2) = answers := by
  induction answers with
  | nil => exact fun _ _ => rfl
  | cons m rest ih =>
      intro v place
      simpa [emit, Faults.none] using ih v.counted (place + 1)

theorem Vehicle.accepts_emit_none (v : Vehicle) (place : Nat) (answers : List Message) :
    (v.emit .none place answers).2.countP (·.2.accepts) = answers.countP Message.accepts := by
  have h := congrArg (List.countP Message.accepts) (emit_none answers v place)
  rwa [List.countP_map] at h

end Vehicle

section Counting

theorem countP_lt_succ (l : List Nat) (k : Nat) : l.countP (· < k + 1) = l.countP (· < k) + l.count k := by
  induction l with
  | nil => rfl
  | cons x rest ih =>
      simp only [List.countP_cons, List.count_cons, ih, decide_eq_true_eq, beq_iff_eq]
      split <;> split <;> split <;> omega

/-- If below every bound one list has no more members than another, then for one that the other lacks it has
fewer of a smaller one. -/
theorem exists_count_lt {a b : List Nat} (h : ∀ k, a.countP (· < k) ≤ b.countP (· < k)) {n : Nat} (ha : n ∈ a)
    (hb : n ∉ b) : ∃ m < n, a.count m < b.count m := by
  by_contra hno
  have hless : ∀ m < n, b.count m ≤ a.count m := fun m hm => Nat.le_of_not_lt fun hlt => hno ⟨m, hm, hlt⟩
  have hbelow : ∀ k ≤ n, b.countP (· < k) ≤ a.countP (· < k) := by
    intro k
    induction k with
    | zero => exact fun _ => by simp
    | succ k ih =>
        intro hk
        rw [countP_lt_succ, countP_lt_succ]
        exact Nat.add_le_add (ih (Nat.le_of_succ_le hk)) (hless k hk)
  have hcovered := h (n + 1)
  rw [countP_lt_succ, countP_lt_succ, List.count_eq_zero_of_not_mem hb] at hcovered
  have hpos := List.count_pos_iff.mpr ha
  have hsame := hbelow n le_rfl
  omega

end Counting

/-- Nothing is seen of transfers while only commands are submitted. -/
theorem Engine.service_of_mem (config : Config) (link : Link) (clock : Instant) {inputs : List Input}
    (hcommands : ∀ side, submitted inputs (.mission side) = []) {e : Effect}
    (he : e ∈ ((idle config link clock).run inputs).effects) : e.job.service = .commands := by
  have hsound := sound_run config link clock inputs
  have hknown : e.job.number < (submitted inputs e.job.service).length := by
    have hlt := hsound.shown.known e he
    rwa [hsound.lined.counted] at hlt
  cases hs : e.job.service with
  | commands => rfl
  | mission side =>
      rw [hs, hcommands] at hknown
      exact absurd hknown (Nat.not_lt_zero _)

namespace Relay

variable (config : Config) (link : Link) (clock : Instant)

/-- How a relay goes with what its engine has taken in since it was at rest. -/
structure Covered (inputs : List Input) (x : Relay) : Prop where
  engine : x.engine = ((Engine.idle config link clock).run inputs).engine
  effects : x.effects = ((Engine.idle config link clock).run inputs).effects
  commands : ∀ side, Engine.submitted inputs (.mission side) = []
  /-- Every answer that accepts a command, on its way or taken in, is one to a message of its own. -/
  answers : inputs.countP Input.accepts + x.inbound.countP (·.2.accepts) ≤ x.handled.length
  outbound : ∀ y ∈ x.outbound, .sent y.1 y.2 ∈ x.effects
  handled : ∀ t ∈ x.handled, ∃ m, .sent t m ∈ x.effects
  covers : ∀ k, (successes x.effects).countP (· < k) ≤ (x.handled.map (·.number)).countP (· < k)

variable {config link clock} {inputs : List Input} {x : Relay}

namespace Covered

theorem effects_step (hx : Covered config link clock inputs x) (i : Input) :
    ((Engine.idle config link clock).run (inputs ++ [i])).effects =
      x.effects ++ (x.engine.step i).effects := by
  rw [Engine.run_append, hx.engine, hx.effects]
  simp only [Engine.run, Reaction.next, List.append_nil]

/-- When it is told that a command succeeded, the vehicle has handled nothing of the commands behind it. -/
theorem le_of_success (hx : Covered config link clock inputs x) {i : Input} {n : Nat}
    (hn : n ∈ successes (x.engine.step i).effects) : ∀ t ∈ x.handled, t.number ≤ n := by
  intro t ht
  obtain ⟨v, hv⟩ := mem_successes.mp hn
  have hnew : 0 < (x.engine.step i).effects.countP (·.settles ⟨.commands, n⟩) :=
    List.countP_pos_iff.mpr ⟨_, hv, decide_eq_true rfl⟩
  have honce : ((Engine.idle config link clock).run (inputs ++ [i])).effects.countP
      (·.settles ⟨.commands, n⟩) ≤ 1 := by
    have hsum := (Engine.accounted_run config link clock (inputs ++ [i])).once ⟨.commands, n⟩
    have htold : ((Engine.idle config link clock).deskAfter (inputs ++ [i])).told ⟨.commands, n⟩ ≤ 1 := by
      split at hsum <;> omega
    exact htold
  rw [hx.effects_step, List.countP_append] at honce
  obtain ⟨m, hm⟩ := hx.handled t ht
  rw [hx.effects] at hm honce
  have hservice : t.service = .commands := Engine.service_of_mem config link clock hx.commands hm
  rw [show t = ⟨.commands, t.number⟩ by rw [← hservice]] at hm
  exact Engine.le_of_untold config link clock inputs hm (by omega)

theorem react (hx : Covered config link clock inputs x) {i : Input}
    (hi : ∀ side, i.task? (.mission side) = none)
    (hanswers : (inputs ++ [i]).countP Input.accepts + x.inbound.countP (·.2.accepts) ≤ x.handled.length) :
    Covered config link clock (inputs ++ [i]) (x.react (x.engine.step i)) := by
  have hall := hx.effects_step i
  refine ⟨?_, hall.symm, fun side => ?_, hanswers, fun y hy => ?_, fun t ht => ?_, fun k => ?_⟩
  · rw [Engine.run_append]
    simp only [Relay.react, hx.engine, Engine.run, Reaction.next]
  · rw [Engine.submitted, List.filterMap_append, ← Engine.submitted, hx.commands, List.nil_append]
    simp [hi]
  · rcases List.mem_append.mp hy with hold | hnew
    · exact List.mem_append_left _ (hx.outbound y hold)
    · obtain ⟨e, he, hsent⟩ := List.mem_filterMap.mp hnew
      cases e with
      | sent t m =>
          cases hsent
          exact List.mem_append_right _ he
      | _ => cases hsent
  · obtain ⟨m, hm⟩ := hx.handled t ht
    exact ⟨m, List.mem_append_left _ hm⟩
  · show (successes (x.effects ++ (x.engine.step i).effects)).countP (· < k) ≤
        (x.handled.map (·.number)).countP (· < k)
    by_cases hnone : ∃ n ∈ successes (x.engine.step i).effects, n < k
    · -- all that the vehicle has handled is of commands up to the one that succeeds now
      obtain ⟨n, hn, hlt⟩ := hnone
      have hhandled : (x.handled.map (·.number)).countP (· < k) = x.handled.length := by
        rw [List.countP_map, List.countP_eq_length]
        exact fun t ht => decide_eq_true ((hx.le_of_success hn t ht).trans_lt hlt)
      rw [hhandled, ← hall]
      calc (successes ((Engine.idle config link clock).run (inputs ++ [i])).effects).countP (· < k)
          ≤ (successes ((Engine.idle config link clock).run (inputs ++ [i])).effects).length :=
            List.countP_le_length
        _ ≤ (inputs ++ [i]).countP Input.accepts := Engine.length_successes_le config link clock _
        _ ≤ x.handled.length := (Nat.le_add_right _ _).trans hanswers
    · have hzero : (successes (x.engine.step i).effects).countP (· < k) = 0 :=
        List.countP_eq_zero.mpr fun n hn hlt => hnone ⟨n, hn, of_decide_eq_true hlt⟩
      rw [successes_append, List.countP_append, hzero, Nat.add_zero]
      exact hx.covers k

theorem answer (hx : Covered config link clock inputs x) {t : Ticket} {m : Message}
    (hm : .sent t m ∈ x.effects) :
    Covered config link clock inputs (x.answer t m) := by
  have hin : ((x.vehicle.handle x.engine.hub.link.own m).state.emit .none 0
      (x.vehicle.handle x.engine.hub.link.own m).replies).2.countP (·.2.accepts) ≤
        if x.vehicle.heeds m then 1 else 0 := by
    rw [Vehicle.accepts_emit_none]
    exact x.vehicle.accepts_handle_le _ m
  have hanswers := hx.answers
  refine ⟨hx.engine, hx.effects, hx.commands, ?_, hx.outbound,
    fun y hy => ?_, fun k => (hx.covers k).trans ?_⟩
  · simp only [Relay.answer, List.countP_append, List.length_append]
    split at hin <;> rename_i hheeds <;> simp only [hheeds] <;> simp <;> omega
  · rcases List.mem_append.mp hy with hold | hnew
    · exact hx.handled y hold
    · split at hnew
      · exact ⟨m, List.mem_singleton.mp hnew ▸ hm⟩
      · cases hnew
  · simp only [Relay.answer, List.map_append, List.countP_append]
    exact Nat.le_add_right _ _

theorem withOutbound (hx : Covered config link clock inputs x) (place : Nat) :
    Covered config link clock inputs (x.withOutbound (x.outbound.eraseIdx place)) :=
  ⟨hx.engine, hx.effects, hx.commands, hx.answers, fun y hy => hx.outbound y (List.mem_of_mem_eraseIdx hy),
    hx.handled, hx.covers⟩

theorem withInbound (hx : Covered config link clock inputs x) (place : Nat) :
    Covered config link clock inputs (x.withInbound (x.inbound.eraseIdx place)) := by
  have hfewer : (x.inbound.eraseIdx place).countP (·.2.accepts) ≤ x.inbound.countP (·.2.accepts) :=
    (List.eraseIdx_sublist x.inbound place).countP_le
  have hanswers := hx.answers
  refine ⟨hx.engine, hx.effects, hx.commands, ?_, hx.outbound, hx.handled, hx.covers⟩
  show _ + (x.inbound.eraseIdx place).countP (·.2.accepts) ≤ x.handled.length
  omega

/-- An answer that arrives has left the channel. -/
theorem arrive (hx : Covered config link clock inputs x) {place : Nat} {a : Header × Message}
    (ha : x.inbound[place]? = some a) :
    Covered config link clock (inputs ++ [.receive a.1 a.2])
      ((x.withInbound (x.inbound.eraseIdx place)).react (x.engine.step (.receive a.1 a.2))) := by
  obtain ⟨hlt, hget⟩ := List.getElem?_eq_some_iff.mp ha
  have hcount := (List.getElem_cons_eraseIdx_perm hlt).countP_eq (·.2.accepts)
  have hanswers := hx.answers
  refine (hx.withInbound place).react (i := .receive a.1 a.2) (fun _ => rfl) ?_
  show _ + (x.inbound.eraseIdx place).countP (·.2.accepts) ≤ x.handled.length
  rw [hget, List.countP_cons] at hcount
  rw [List.countP_append, List.countP_singleton, Input.accepts]
  omega

theorem happen (hx : Covered config link clock inputs x) (h : Happening) :
    ∃ more, Covered config link clock (inputs ++ more) (x.happen h) := by
  cases h with
  | submit system armed wantsProgress =>
      refine ⟨[arming system armed wantsProgress], hx.react (fun _ => rfl) ?_⟩
      rw [List.countP_append]
      exact hx.answers
  | engine i isLocal =>
      refine ⟨[i], hx.react (fun side => ?_) ?_⟩
      · cases i <;> first | rfl | cases isLocal
      · have hi : i.accepts = false := by cases i <;> first | rfl | cases isLocal
        rw [List.countP_append, List.countP_singleton, hi]
        exact hx.answers
  | outbound place arrives =>
      refine ⟨[], ?_⟩
      rw [List.append_nil]
      cases hm : x.outbound[place]? with
      | none => simpa only [Relay.happen, hm] using hx
      | some y =>
          have hless := hx.withOutbound place
          cases arrives with
          | true => simpa only [Relay.happen, hm] using hless.answer (hx.outbound y (List.mem_of_getElem? hm))
          | false => simpa only [Relay.happen, hm] using hless
  | inbound place arrives =>
      cases hm : x.inbound[place]? with
      | none => exact ⟨[], by simpa only [Relay.happen, hm, List.append_nil] using hx⟩
      | some a =>
          cases arrives with
          | true => exact ⟨[.receive a.1 a.2], by simpa only [Relay.happen, hm] using hx.arrive hm⟩
          | false => exact ⟨[], by simpa only [Relay.happen, hm, List.append_nil] using hx.withInbound place⟩

theorem run (happenings : List Happening) :
    ∀ {inputs x}, Covered config link clock inputs x →
      ∃ more, Covered config link clock (inputs ++ more) (x.run happenings) := by
  induction happenings with
  | nil =>
      intro inputs x hx
      exact ⟨[], by rwa [List.append_nil]⟩
  | cons h rest ih =>
      intro inputs x hx
      obtain ⟨first, hfirst⟩ := hx.happen h
      obtain ⟨more, hmore⟩ := ih hfirst
      exact ⟨first ++ more, by rwa [← List.append_assoc]⟩

end Covered

theorem covered_ofEngine (v : Vehicle) :
    Covered config link clock [] (ofEngine (.idle config link clock) v) := by
  refine ⟨rfl, rfl, fun _ => rfl, le_rfl, fun y hy => ?_, fun t ht => ?_, fun _ => le_rfl⟩
  · exact absurd hy List.not_mem_nil
  · exact absurd ht List.not_mem_nil

variable (config link clock)

/-- At all times, no more of the first commands to arm or disarm succeeded than the vehicle has handled
messages of them, however many are counted in. So when it was told that a command succeeded, the vehicle has
handled a message of that command, or of one before it more messages than that had successes. -/
theorem commands_agree (v : Vehicle) (happenings : List Happening) :
    let x := (ofEngine (.idle config link clock) v).run happenings
    let success (n : Nat) : Effect := .result ⟨.commands, n⟩ (.success .done)
    (∀ k, (successes x.effects).countP (· < k) ≤
        x.handled.countP fun t => t.service = .commands ∧ t.number < k) ∧
      ∀ n, success n ∈ x.effects → ⟨.commands, n⟩ ∈ x.handled ∨
        ∃ m < n, x.effects.count (success m) < x.handled.count ⟨.commands, m⟩ := by
  intro x success
  obtain ⟨inputs, hx⟩ := (covered_ofEngine v).run happenings
  have hservice : ∀ t ∈ x.handled, t.service = .commands := by
    intro t ht
    obtain ⟨m, hm⟩ := hx.handled t ht
    rw [hx.effects] at hm
    exact Engine.service_of_mem config link clock hx.commands hm
  refine ⟨fun k => (hx.covers k).trans_eq ?_, fun n hn => ?_⟩
  · rw [List.countP_map]
    refine List.countP_congr fun t ht => ?_
    simp [hservice t ht]
  by_cases hhandled : ⟨.commands, n⟩ ∈ x.handled
  · exact .inl hhandled
  · have hunheard : n ∉ x.handled.map (·.number) := by
      intro hmem
      obtain ⟨t, ht, rfl⟩ := List.mem_map.mp hmem
      exact hhandled (hservice t ht ▸ ht)
    obtain ⟨m, hm, hless⟩ := exists_count_lt hx.covers (mem_successes.mpr ⟨_, hn⟩) hunheard
    refine .inr ⟨m, hm, ?_⟩
    have hsame : (x.handled.map (·.number)).count m = x.handled.count ⟨.commands, m⟩ := by
      rw [List.count, List.countP_map]
      refine List.countP_congr fun t ht => ?_
      obtain ⟨service, number⟩ := t
      obtain rfl : service = .commands := hservice _ ht
      simp
    exact ((count_result_le x.effects m .done).trans_lt hless).trans_eq hsame

/-- The command to arm is sent twice, and both messages arrive. The first answer arrives at once, the second
when the command to disarm has been sent, of which no message arrives. Messages that arrive do so in order. -/
def resending : List Happening :=
  [.submit 1 true false, .tick, .pass 500000, .tick, .outbound 0 true, .outbound 0 true,
    .submit 1 false false, .inbound 0 true, .tick, .inbound 0 true, .tick]

/-- Both commands succeeded, and the vehicle has handled two messages, both of the command to arm. -/
theorem commands_agree_resent :
    let x := (ofEngine (.idle .default default 0) (.create (.pilotOf 1))).run resending
    let success (n : Nat) : Effect := .result ⟨.commands, n⟩ (.success .done)
    success 1 ∈ x.effects ∧ (successes x.effects).countP (· < 2) = 2 ∧
      2 ≤ x.handled.countP (fun t => t.service = .commands ∧ t.number < 2) ∧
        ∃ m < 1, x.effects.count (success m) < x.handled.count ⟨.commands, m⟩ := by
  intro x success
  have hsuccess : success 1 ∈ x.effects := by decide +kernel
  have hboth : (successes x.effects).countP (· < 2) = 2 := by decide +kernel
  have hunheard : ⟨.commands, 1⟩ ∉ x.handled := by decide +kernel
  obtain ⟨hcovered, hagree⟩ := commands_agree .default default 0 (.create (.pilotOf 1)) resending
  exact ⟨hsuccess, hboth, hboth.symm.trans_le (hcovered 2), (hagree 1 hsuccess).resolve_left hunheard⟩

/-- It is told that the command to disarm succeeded, of which the vehicle has handled
nothing; it stays armed. -/
theorem succeeds_unheard :
    let x := (ofEngine (.idle .default default 0) (.create (.pilotOf 1))).run resending
    .result ⟨.commands, 1⟩ (.success .done) ∈ x.effects ∧ ⟨.commands, 1⟩ ∉ x.handled ∧
      x.vehicle.commands.armed = true := by
  decide +kernel

end Relay

end GroundLink
