import GroundLink.Proofs.Provenance

/-! By whom commands are answered. An answer is known by its target and the command it names, and not by its
sender; so another system can end a command that was not for it (`Engine.answered_by_stranger`). As long as
none does, all that a command is told comes from its target (`Engine.answered_by_target`). -/

namespace GroundLink

open Function Deed

theorem Move.map_eq_finish {σ ρ : Type} {f : σ → ρ} {m : Move σ} {message : Option Message}
    {report : Option Fraction} {o : Outcome} :
    m.map f = .finish message report o ↔ m = .finish message report o := by
  cases m <;> simp [map]

/-- How a command ends that is answered so, if that ends it. -/
def CommandResult.outcome? : CommandResult → Option Outcome
  | accepted => some (.success .done)
  | temporarilyRejected | denied | failed => some (.commandFailed .denied)
  | unsupported => some (.commandFailed .unsupported)
  | _ => none

theorem CommandResult.command_of_outcome? {result : CommandResult} {o : Outcome}
    (h : result.outcome? = some o) :
    o ≠ .commandFailed .timeout ∧ o ≠ .commandFailed .connectionError ∧ ∀ e, o ≠ .failed e := by
  cases result <;> cases h <;> exact ⟨by decide, by decide, fun e he => by cases he⟩

theorem Attempt.minds_of_finish {p : Policy} {own : Address} {a : Attempt} {k : Nat} {m : Message}
    {message : Option Message} {report : Option Fraction} {o : Outcome}
    (h : a.onMessage p own k m = .finish message report o) :
    ∃ ack, m = .commandAck ack ∧ a.minds own (.commandAck ack) = true ∧ ack.result.outcome? = some o := by
  have hears := a.hears_onMessage p own k m
  rw [h] at hears
  cases m with
  | commandAck ack =>
      refine ⟨ack, rfl, ?_, ?_⟩
      · cases hears with
        | settled minded idle notTimeout => exact minded
      · rw [onMessage, onAck] at h
        split at h
        · cases h
        · cases hr : ack.result <;> rw [hr] at h <;> cases h <;> rfl
  | _ => cases h

namespace Running

variable {r : Running} {h : Hub} {a : Attempt} {k : Nat} {e : Event}

/-- A command that ends as an answer says has heard that answer. -/
theorem answered_of_ended (hr : r.activity = .command a k) (hc : e.Concerns r) {x : Ended}
    (hx : (r.take .commands h e).standing.ended? = some x) {result : CommandResult}
    (hresult : result.outcome? = some x.outcome) :
    ∃ job header ack, e = .message job header (.commandAck ack) ∧
      a.minds h.link.own (.commandAck ack) = true ∧
      ack.result.outcome? = some x.outcome := by
  obtain ⟨htimeout, hconnection, _⟩ := CommandResult.command_of_outcome? hresult
  have ht := r.take_takes .commands h e
  generalize r.take .commands h e = p at ht hx
  cases ht with
  | stray stray => exact absurd hc stray
  | heard concerns =>
      rcases (r.follow_follows .commands h _).ended hx with ⟨message, report, hmove⟩ | hrefused
      · rw [hr] at hmove
        obtain ⟨ack, rfl, hminds, houtcome⟩ := Attempt.minds_of_finish (Move.map_eq_finish.mp hmove)
        exact ⟨_, _, ack, rfl, hminds, houtcome⟩
      · rw [hr] at hrefused
        exact absurd hrefused hconnection
  | expired own =>
      rcases (({ r with cookie := none } : Running).follow_follows .commands h _).ended hx with
        ⟨message, report, hmove⟩ | hrefused
      · rw [hr] at hmove
        have hmove := Move.map_eq_finish.mp hmove
        cases k with
        | zero => exact absurd (Move.finish.inj hmove).2.2.symm htimeout
        | succ k => cases hmove
      · rw [hr] at hrefused
        exact absurd hrefused hconnection

/-- A command that reports how far it has come has heard that it is in progress. -/
theorem heard_of_progress (hr : r.activity = .command a k) (hc : e.Concerns r) {t : Ticket} {f : Fraction}
    (hx : .progress t f ∈ (r.take .commands h e).effects) :
    ∃ job header m, e = .message job header m ∧ a.isProgress h.link.own m = true := by
  have hp := take_pursues hr h hc
  generalize r.take .commands h e = p at hp hx
  cases hp with
  | ignored idle => cases hx
  | settled minded idle ended notTimeout silent =>
      rw [silent] at hx
      cases hx
  | prolonged progress running goesOn reports => exact ⟨_, _, _, rfl, progress⟩
  | exhausted own ended silent =>
      rw [silent] at hx
      cases hx
  | repeated own taken running goesOn sends =>
      rw [sends] at hx
      cases List.mem_singleton.mp hx
  | refused own refused ended offers =>
      rw [offers] at hx
      cases List.mem_singleton.mp hx

end Running

namespace Engine

variable (config : Config) (link : Link) (clock : Instant) (inputs : List Input)

/-- What a command under way acts on: the command is the one that was asked for, and goes by
the link's own address. -/
theorem command_of_heeded {r : Running} {h : Hub} {e : Event}
    (hx : .heeded ⟨r, h, e⟩ ∈ (idle config link clock).log .commands inputs) {a : Attempt}
    (hasked : (submitted inputs .commands)[r.number]? = some (.command a)) :
    h.link.own = link.own ∧ ∃ k, r.activity = .command a k := by
  have hknown := known_run config link clock .commands inputs ⟨r, h, e⟩ hx
  have htask : r.activity.task = .command a := Option.some.inj (hknown.symm.trans hasked)
  exact ⟨(kin_of_actor? config link clock inputs hx rfl).2, Activity.command_of_task htask⟩

/-- A command that ends as an answer says, or reports how far it has come, was told so
while it was under way. -/
theorem told_of_ends {x : Deed} (hx : x ∈ (idle config link clock).log .commands inputs)
    {n : Nat} {o : Outcome} (hends : x.ends? .commands = some ⟨n, o⟩) {result : CommandResult}
    (hresult : result.outcome? = some o) {a : Attempt}
    (hasked : (submitted inputs .commands)[n]? = some (.command a)) :
    ∃ t job header ack, x = .heeded t ∧ t.job.number = n ∧ t.event = .message job header (.commandAck ack) ∧
      a.minds link.own (.commandAck ack) = true ∧ ack.result.outcome? = some o := by
  obtain ⟨-, hconnection, hfailed⟩ := CommandResult.command_of_outcome? hresult
  cases x with
  | heeded t =>
      obtain ⟨r, h, e⟩ := t
      have hconcerns : e.Concerns r := by
        by_contra hstray
        rw [ends?_of_progress? (x := .heeded ⟨r, h, e⟩) rfl, Running.take_stray hstray] at hends
        cases hends
      obtain rfl : n = r.number := (own_step (x := .heeded ⟨r, h, e⟩) rfl rfl).2.1 ⟨n, o⟩ hends
      obtain ⟨hown, k, hr⟩ := command_of_heeded config link clock inputs hx hasked
      obtain ⟨job, header, ack, rfl, hminds, houtcome⟩ := Running.answered_of_ended hr hconcerns hends hresult
      exact ⟨_, job, header, ack, rfl, rfl, rfl, hown ▸ hminds, houtcome⟩
  | started w h =>
      obtain rfl : n = w.number := (own_step (x := .started w h) rfl rfl).2.1 ⟨n, o⟩ hends
      have htask : w.task = .command a :=
        Option.some.inj (((filed_run config link clock .commands inputs).asked w h hx).symm.trans hasked)
      have hopens := Waiting.start_opens htask h
      rw [ends?_of_progress? (x := .started w h) rfl] at hends
      cases hopens with
      | sent taken running number activity sends =>
          rw [running] at hends
          cases hends
      | refused refused ended offers =>
          rw [ended] at hends
          cases hends
          exact absurd rfl hconnection
  | cancelled r h =>
      have hnot := isCancelled_log inputs _ _ hx
      cases hnot
  | calledOff w =>
      cases hends
      exact absurd rfl (hfailed _)
  | turnedAway m =>
      cases hends
      exact absurd rfl (hfailed _)
  | _ => cases hends

theorem told_of_progress {t : Ticket} (ht : t.service = .commands) {f : Fraction}
    (hprogress : .progress t f ∈ ((idle config link clock).run inputs).effects) {a : Attempt}
    (hasked : (submitted inputs .commands)[t.number]? = some (.command a)) :
    ∃ x job header m, .heeded x ∈ (idle config link clock).log .commands inputs ∧ x.job.number = t.number ∧
      x.event = .message job header m ∧ a.isProgress link.own m = true := by
  have hseen : .progress t f ∈ ((idle config link clock).deskAfter inputs).seen .commands :=
    List.mem_filter.mpr ⟨hprogress, by simp [Effect.isOf, Effect.job, Effect.isResult, ht]⟩
  rw [(filed_run config link clock .commands inputs).seen] at hseen
  obtain ⟨x, hx, hshown⟩ := List.mem_flatMap.mp hseen
  cases x with
  | heeded y =>
      obtain ⟨r, h, e⟩ := y
      rw [shown_heeded] at hshown
      have hconcerns : e.Concerns r := by
        by_contra hstray
        rw [Running.take_stray hstray] at hshown
        cases hshown
      obtain rfl := r.take_effects .commands h e _ hshown
      obtain ⟨hown, k, hr⟩ := command_of_heeded config link clock inputs hx hasked
      obtain ⟨job, header, m, rfl, hprogress⟩ := Running.heard_of_progress hr hconcerns hshown
      exact ⟨_, job, header, m, hx, rfl, rfl, hown ▸ hprogress⟩
  | started w h =>
      rw [shown_started] at hshown
      obtain ⟨b, htask⟩ := command_submitted ((filed_run config link clock .commands inputs).asked w h hx)
      have hopens := Waiting.start_opens htask h
      cases hopens with
      | sent taken running number activity sends =>
          rw [sends] at hshown
          cases List.mem_singleton.mp hshown
      | refused refused ended offers =>
          rw [offers] at hshown
          cases List.mem_singleton.mp hshown
  | cancelled r h =>
      have hnot := isCancelled_log inputs _ _ hx
      cases hnot
  | _ => cases hshown

section Sole

variable {n : Nat} {a : Attempt}
  (hsole : ∀ before header m after, inputs = before ++ .receive header m :: after →
    (((idle config link clock).run before).engine.queue .commands).running.map (·.number) = some n →
      header.sender.system ≠ a.request.target.system → a.minds link.own m = false)

include hsole

/-- As long as no other system answers a command, what it acts on is from its target or to no effect. -/
theorem source_of_heeded {x : Taking} {job : Option Nat} {header : Header} {m : Message}
    (hx : .heeded x ∈ (idle config link clock).log .commands inputs) (hn : x.job.number = n)
    (hevent : x.event = .message job header m) :
    .receive header m ∈ inputs ∧ (header.sender.system ≠ a.request.target.system →
      a.minds link.own m = false) := by
  obtain ⟨before, after, hinputs, hrunning, _⟩ := heard_of_heeded config link clock inputs hx hevent
  refine ⟨?_, hsole before header m after hinputs (hn ▸ hrunning)⟩
  rw [hinputs]
  exact List.mem_append_right _ List.mem_cons_self

theorem target_of_minds {x : Taking} {job : Option Nat} {header : Header} {m : Message}
    (hx : .heeded x ∈ (idle config link clock).log .commands inputs) (hn : x.job.number = n)
    (hevent : x.event = .message job header m) (hminds : a.minds link.own m = true) :
    .receive header m ∈ inputs ∧ header.sender.system = a.request.target.system := by
  obtain ⟨hreceived, hforeign⟩ := source_of_heeded config link clock inputs hsole hx hn hevent
  refine ⟨hreceived, ?_⟩
  by_contra hother
  rw [hforeign hother] at hminds
  cases hminds

end Sole

/-- As long as no other system answers a command while it is under way, what comes from another system leaves
it alone, and its end and its progress are what its target told of. -/
theorem answered_by_target {n : Nat} {a : Attempt}
    (hasked : (submitted inputs .commands)[n]? = some (.command a))
    (hsole : ∀ before header m after, inputs = before ++ .receive header m :: after →
      (((idle config link clock).run before).engine.queue .commands).running.map (·.number) = some n →
        header.sender.system ≠ a.request.target.system → a.minds link.own m = false) :
    let r := (idle config link clock).run inputs
    (∀ x job header m, .heeded x ∈ (idle config link clock).log .commands inputs → x.job.number = n →
      x.event = .message job header m → header.sender.system ≠ a.request.target.system → x.Idle .commands) ∧
    (∀ o result, CommandResult.outcome? result = some o → .result ⟨.commands, n⟩ o ∈ r.effects →
      ∃ header ack, .receive header (.commandAck ack) ∈ inputs ∧
        header.sender.system = a.request.target.system ∧
        a.minds link.own (.commandAck ack) = true ∧ ack.result.outcome? = some o) ∧
    ∀ f, .progress ⟨.commands, n⟩ f ∈ r.effects →
      ∃ header m, .receive header m ∈ inputs ∧ header.sender.system = a.request.target.system ∧
        a.isProgress link.own m = true := by
  intro r
  refine ⟨fun x job header m hx hn hevent hother => ?_, fun o result hresult hmem => ?_, fun f hmem => ?_⟩
  · have hidle := (source_of_heeded config link clock inputs hsole hx hn hevent).2 hother
    obtain ⟨j, h, e⟩ := x
    obtain rfl : e = .message job header m := hevent
    obtain ⟨hown, k, hj⟩ := command_of_heeded config link clock inputs hx (hn ▸ hasked)
    exact Running.take_idle hj (hown ▸ hidle) job header
  · obtain ⟨x, hx, hends⟩ := ends_of_result config link clock hmem
    obtain ⟨t, job, header, ack, rfl, hn, hevent, hminds, houtcome⟩ :=
      told_of_ends config link clock inputs hx hends hresult hasked
    obtain ⟨hreceived, hsender⟩ := target_of_minds config link clock inputs hsole hx hn hevent hminds
    exact ⟨header, ack, hreceived, hsender, hminds, houtcome⟩
  · obtain ⟨x, job, header, m, hx, hn, hevent, hprogress⟩ :=
      told_of_progress config link clock inputs rfl hmem hasked
    have hminds := Attempt.minds_of_isProgress hprogress
    obtain ⟨hreceived, hsender⟩ := target_of_minds config link clock inputs hsole hx hn hevent hminds
    exact ⟨header, m, hreceived, hsender, hprogress⟩

/-- While the first vehicle is at it, the second answers a command of someone else. -/
theorem answered_by_target_beside :
    let link : Link := { (default : Link) with own := Config.default.own }
    let arm : Attempt := ⟨.long (.arm 1 true), true⟩
    let answer (result : CommandResult) (target : Address) : Message :=
      .commandAck ⟨.componentArmDisarm, result, 50, 0, target⟩
    let inputs : List Input :=
      [.command arm, .tick, .receive ⟨.pilotOf 2, 0⟩ (answer .accepted ⟨7, 190⟩), .tick,
        .receive ⟨.pilotOf 1, 0⟩ (answer .inProgress link.own), .tick,
        .receive ⟨.pilotOf 1, 1⟩ (answer .accepted link.own), .tick]
    .result ⟨.commands, 0⟩ (.success .done) ∈ ((idle .default link 0).run inputs).effects ∧
      ∃ header ack, .receive header (.commandAck ack) ∈ inputs ∧ header.sender.system = 1 ∧
        arm.minds link.own (.commandAck ack) = true ∧ ack.result.outcome? = some (.success .done) := by
  intro link arm answer inputs
  have hasked : (submitted inputs .commands)[0]? = some (.command arm) := by decide +kernel
  have hresult : .result ⟨.commands, 0⟩ (.success .done) ∈ ((idle .default link 0).run inputs).effects := by
    decide +kernel
  have hsole : ∀ header m, .receive header m ∈ inputs → header.sender.system ≠ arm.request.target.system →
      arm.minds link.own m = false := by
    intro header m hmem hother
    simp only [inputs, List.mem_cons, List.not_mem_nil, reduceCtorEq, Input.receive.injEq, false_or,
      or_false] at hmem
    obtain ⟨rfl, rfl⟩ | ⟨rfl, rfl⟩ | ⟨rfl, rfl⟩ := hmem
    · decide
    · exact absurd rfl hother
    · exact absurd rfl hother
  obtain ⟨_, hanswered, _⟩ :=
    answered_by_target .default link 0 inputs hasked fun before header m after hinputs _ =>
      hsole header m (hinputs ▸ List.mem_append_right _ List.mem_cons_self)
  exact ⟨hresult, hanswered _ .accepted rfl hresult⟩

/-- The second vehicle prolongs and then ends a command that was for the first. -/
theorem answered_by_stranger :
    let link : Link := { (default : Link) with own := Config.default.own }
    let answer (result : CommandResult) : Message :=
      .commandAck ⟨.componentArmDisarm, result, 50, 0, link.own⟩
    let opened : List Input := [.command ⟨.long (.arm 1 true), true⟩, .tick]
    let prolonged := opened ++ [.receive ⟨.pilotOf 2, 0⟩ (answer .inProgress), .tick]
    let ended := prolonged ++ [.receive ⟨.pilotOf 2, 1⟩ (answer .accepted), .tick]
    let deadlines (inputs : List Input) :=
      ((idle .default link 0).run inputs).engine.hub.timers.armed.map (·.deadline)
    deadlines opened = [500000] ∧ deadlines prolonged = [1500000] ∧ deadlines ended = [] ∧
      .progress ⟨.commands, 0⟩ ⟨50, 100⟩ ∈ ((idle .default link 0).run prolonged).effects ∧
      .result ⟨.commands, 0⟩ (.success .done) ∈ ((idle .default link 0).run ended).effects := by
  decide +kernel

end Engine

end GroundLink
