import GroundLink.Proofs.Isolation
import GroundLink.Proofs.Respite

/-! The steps of a command. All that can come of an event that a command under way acts on is listed
(`Running.Pursues`), and likewise of the start of a command (`Waiting.Opens`): when it sends its message, when
it ends, and what becomes of its retries. What holds of commands in every run is shown from these lists. -/

namespace GroundLink

open Function

/-- Whether a result tells a command how it stands. -/
def CommandResult.isVerdict : CommandResult → Bool
  | cancelled => false
  | other _ => false
  | _ => true

def Effect.isSent : Effect → Bool
  | sent _ _ => true
  | _ => false

namespace Attempt

/-- Whether a command acts on a message: an answer to this command that is meant for us
and tells how it stands. -/
def minds (own : Address) (a : Attempt) : Message → Bool
  | .commandAck ack => isFor own ack.target && ack.command = a.request.command && ack.result.isVerdict
  | _ => false

/-- Whether a message tells that the command is in progress. -/
def isProgress (own : Address) (a : Attempt) : Message → Bool
  | .commandAck ack => a.minds own (.commandAck ack) && ack.result = .inProgress
  | _ => false

theorem minds_of_isProgress {own : Address} {a : Attempt} {m : Message} (h : a.isProgress own m = true) :
    a.minds own m = true := by
  cases m with
  | commandAck ack => exact (Bool.and_eq_true_iff.mp h).1
  | _ => cases h

/-- What a command does when it hears a message: nothing, it ends, or it waits longer. -/
inductive Hears (p : Policy) (own : Address) (a : Attempt) (k : Nat) (m : Message) : Move Nat → Prop
  | ignored (idle : a.minds own m = false) : Hears p own a k m .ignore
  | settled {o : Outcome} (minded : a.minds own m = true) (idle : a.isProgress own m = false)
      (notTimeout : o ≠ .commandFailed .timeout) : Hears p own a k m (.stop o)
  | prolonged (report : Option Fraction) (progress : a.isProgress own m = true) :
      Hears p own a k m (.proceed (.restart (p.timeout.times (max 1 k))) report none k)

theorem hears_onMessage (p : Policy) (own : Address) (a : Attempt) (k : Nat) (m : Message) :
    Hears p own a k m (a.onMessage p own k m) := by
  cases m with
  | commandAck ack =>
      rw [onMessage, onAck]
      by_cases hours : isFor own ack.target = true ∧ ack.command = a.request.command
      · have hpassed : (!isFor own ack.target || decide (ack.command ≠ a.request.command)) = false := by
          simp [hours]
        have hminds : a.minds own (.commandAck ack) = ack.result.isVerdict := by simp [minds, hours]
        have hprogress : a.isProgress own (.commandAck ack) =
            (ack.result.isVerdict && ack.result = .inProgress) := by
          rw [isProgress, hminds]
        rw [hpassed, if_neg Bool.false_ne_true]
        cases hr : ack.result with
        | inProgress => exact .prolonged _ (by rw [hprogress, hr]; rfl)
        | cancelled => exact .ignored (by rw [hminds, hr]; rfl)
        | other code => exact .ignored (by rw [hminds, hr]; rfl)
        | _ => exact .settled (by rw [hminds, hr]; rfl) (by rw [hprogress, hr]; rfl) (by decide)
      · have hours : (!isFor own ack.target || decide (ack.command ≠ a.request.command)) = true := by
          rcases Classical.not_and_iff_not_or_not.mp hours with h | h <;> simp [h]
        rw [hours, if_pos rfl]
        refine .ignored ?_
        rw [Bool.or_eq_true, Bool.not_eq_true', decide_eq_true_eq] at hours
        rcases hours with h | h <;> simp [minds, h]
  | _ => exact .ignored rfl

end Attempt

theorem Activity.command_of_task {b : Activity} {a : Attempt} (h : b.task = .command a) :
    ∃ k, b = .command a k := by
  cases b with
  | command a' k =>
      cases h
      exact ⟨k, rfl⟩
  | _ => cases h

namespace Running

variable {r : Running} {s : Service} {h : Hub}

/-- Whether a job goes on in the given state, with a new timer. -/
structure GoesOn (r : Running) (h : Hub) (b : Activity) (r' : Running) : Prop where
  number : r'.number = r.number
  activity : r'.activity = b
  cookie : r'.cookie = some h.timers.issued

/-- A step that takes a new timer and whose message, if it has one, is taken. -/
theorem goesOn_follow (r : Running) (s : Service) (h : Hub) (span : Span) (report : Option Fraction)
    (message : Option Message) (b : Activity) (taken : ∀ m ∈ message, h.link.accepts m = true) :
    ∃ r', (r.follow s h (.proceed (.restart span) report message b)).standing = .running r' ∧
      r.GoesOn h b r' ∧
      (r.follow s h (.proceed (.restart span) report message b)).effects =
        r.report s report ++ message.toList.map (.sent (r.ticket s)) := by
  have hf := r.follow_follows s h (.proceed (.restart span) report message b)
  generalize r.follow s h (.proceed (.restart span) report message b) = p at hf
  cases hf with
  | waited wait report message activity taken =>
      refine ⟨_, rfl, ⟨rfl, rfl, ?_⟩, rfl⟩
      cases hc : r.cookie <;> rfl
  | broken wait report m activity refused => cases refused.symm.trans (taken m rfl)

/-- A step whose message is refused. -/
theorem fails_follow (r : Running) (s : Service) {h : Hub} (wait : Wait)
    (report : Option Fraction) (m : Message) (b : Activity) (refused : h.link.accepts m = false) :
    (r.follow s h (.proceed wait report (some m) b)).standing =
      .ended ⟨r.number, .failure r.activity.task.refusal⟩ ∧
      (r.follow s h (.proceed wait report (some m) b)).effects =
        r.report s report ++ [.refused (r.ticket s) m] := by
  have hf := r.follow_follows s h (.proceed wait report (some m) b)
  generalize r.follow s h (.proceed wait report (some m) b) = p at hf
  cases hf with
  | waited wait report message activity taken => cases refused.symm.trans (taken m rfl)
  | broken wait report m activity refused => exact ⟨rfl, rfl⟩

/-- What comes of an event that a command under way with so many retries left acts on. -/
inductive Pursues (r : Running) (h : Hub) (a : Attempt) : Nat → Event → Progress → Prop
  | ignored {k : Nat} {job : Option Nat} {header : Header} {m : Message}
      (idle : a.minds h.link.own m = false) :
      Pursues r h a k (.message job header m) ⟨.running r, h, []⟩
  | settled {k : Nat} {job : Option Nat} {header : Header} {m : Message} {p : Progress} {o : Outcome}
      (minded : a.minds h.link.own m = true) (idle : a.isProgress h.link.own m = false)
      (ended : p.standing = .ended ⟨r.number, o⟩) (notTimeout : o ≠ .commandFailed .timeout)
      (silent : p.effects = []) :
      Pursues r h a k (.message job header m) p
  | prolonged {k : Nat} {job : Option Nat} {header : Header} {m : Message} {p : Progress} {r' : Running}
      (progress : a.isProgress h.link.own m = true) (running : p.standing = .running r')
      (goesOn : r.GoesOn h (.command a k) r')
      (reports : ∀ e ∈ p.effects, ∃ f, e = .progress (r.ticket .commands) f) :
      Pursues r h a k (.message job header m) p
  | exhausted {c : Cookie} {p : Progress} (own : r.cookie = some c)
      (ended : p.standing = .ended ⟨r.number, .commandFailed .timeout⟩) (silent : p.effects = []) :
      Pursues r h a 0 (.expiry r.number c) p
  | repeated {k : Nat} {c : Cookie} {p : Progress} {r' : Running} (own : r.cookie = some c)
      (taken : h.link.accepts (a.request.message h.link.autopilot) = true)
      (running : p.standing = .running r') (goesOn : r.GoesOn h (.command a k) r')
      (sends : p.effects = [.sent (r.ticket .commands) (a.request.message h.link.autopilot)]) :
      Pursues r h a (k + 1) (.expiry r.number c) p
  | refused {k : Nat} {c : Cookie} {p : Progress} (own : r.cookie = some c)
      (refused : h.link.accepts (a.request.message h.link.autopilot) = false)
      (ended : p.standing = .ended ⟨r.number, .commandFailed .connectionError⟩)
      (offers : p.effects = [.refused (r.ticket .commands) (a.request.message h.link.autopilot)]) :
      Pursues r h a (k + 1) (.expiry r.number c) p

theorem take_pursues {a : Attempt} {k : Nat} (hr : r.activity = .command a k) (h : Hub) {e : Event}
    (hc : e.Concerns r) : r.Pursues h a k e (r.take .commands h e) := by
  cases e with
  | message job header m =>
      rw [take_heard hc, hr]
      show Pursues r h a k (.message job header m)
        (r.follow .commands h ((a.onMessage (h.policy .commands) h.link.own k m).map (.command a)))
      have hears := a.hears_onMessage (h.policy .commands) h.link.own k m
      generalize a.onMessage (h.policy .commands) h.link.own k m = move at hears
      cases hears with
      | ignored idle => exact .ignored idle
      | settled minded idle notTimeout => exact .settled minded idle rfl notTimeout rfl
      | prolonged report progress =>
          obtain ⟨r', hrunning, hgoes, heffects⟩ := goesOn_follow r .commands h
            ((h.policy .commands).timeout.times (max 1 k)) report none (.command a k) nofun
          refine .prolonged progress hrunning hgoes fun e he => ?_
          rw [Move.map, heffects] at he
          obtain ⟨f, _, hf⟩ := mem_report (by simpa using he)
          exact ⟨f, hf⟩
  | expiry job cookie =>
      obtain ⟨rfl, hown⟩ := hc
      rw [take_expired hown]
      cases k with
      | zero =>
          rw [hr]
          exact .exhausted hown rfl rfl
      | succ k =>
          have hmove : r.activity.onTimeout (h.setting .commands) =
              .proceed (.restart (h.policy .commands).timeout) none
                (some (a.request.message h.link.autopilot)) (.command a k) := by
            rw [hr]
            rfl
          rw [hmove]
          cases haccepts : h.link.accepts (a.request.message h.link.autopilot) with
          | true =>
              obtain ⟨r', hrunning, hgoes, heffects⟩ := goesOn_follow { r with cookie := none } .commands h
                (h.policy .commands).timeout none (some (a.request.message h.link.autopilot)) (.command a k)
                (fun m hm => Option.mem_some.mp hm ▸ haccepts)
              exact .repeated hown haccepts hrunning ⟨hgoes.number, hgoes.activity, hgoes.cookie⟩ heffects
          | false =>
              obtain ⟨hended, heffects⟩ := fails_follow { r with cookie := none } .commands
                (.restart (h.policy .commands).timeout) none (a.request.message h.link.autopilot)
                (.command a k) haccepts
              refine .refused hown haccepts ?_ heffects
              rw [hended, hr]
              rfl

/-- A message that does not count leaves a command and its hub as they are. -/
theorem take_idle {a : Attempt} {k : Nat} (hr : r.activity = .command a k) {m : Message}
    (hidle : a.minds h.link.own m = false) (job : Option Nat) (header : Header) :
    r.take .commands h (.message job header m) = ⟨.running r, h, []⟩ := by
  by_cases hc : (Event.message job header m).Concerns r
  · have hp := take_pursues hr h hc
    generalize r.take .commands h (.message job header m) = p at hp
    cases hp with
    | ignored idle => rfl
    | settled minded idle ended notTimeout silent =>
        rw [hidle] at minded
        cases minded
    | prolonged progress running goesOn reports =>
        have hminded := Attempt.minds_of_isProgress progress
        rw [hidle] at hminded
        cases hminded
  · exact take_stray hc .commands h

/-- Of the steps of a command under way only those send something in which its time is up. -/
theorem repeats_of_sent {a : Attempt} {k : Nat} (hr : r.activity = .command a k) {e : Event}
    (hc : e.Concerns r) {t : Ticket} {m : Message} (hsent : .sent t m ∈ (r.take .commands h e).effects) :
    ∃ c k', e = .expiry r.number c ∧ r.cookie = some c ∧ r.activity = .command a (k' + 1) ∧
      h.link.accepts (a.request.message h.link.autopilot) = true ∧ t = r.ticket .commands ∧
        m = a.request.message h.link.autopilot := by
  have hp := take_pursues hr h hc
  generalize r.take .commands h e = p at hp hsent
  cases hp with
  | ignored idle => cases hsent
  | settled minded idle ended notTimeout silent => rw [silent] at hsent; cases hsent
  | prolonged progress running goesOn reports =>
      obtain ⟨f, hf⟩ := reports _ hsent
      cases hf
  | exhausted own ended silent => rw [silent] at hsent; cases hsent
  | repeated own taken running goesOn sends =>
      rw [sends] at hsent
      cases List.mem_singleton.mp hsent
      exact ⟨_, _, rfl, own, hr, taken, rfl, rfl⟩
  | refused own refused ended offers =>
      rw [offers] at hsent
      cases List.mem_singleton.mp hsent

/-- A command that is called off says nothing. -/
theorem cancel_command {a : Attempt} {k : Nat} (hr : r.activity = .command a k) (s : Service) (h : Hub) :
    (r.cancel s h).standing = .ended ⟨r.number, .failed .cancelled⟩ ∧ (r.cancel s h).effects = [] := by
  rw [cancel, hr]
  exact ⟨rfl, rfl⟩

end Running

namespace Waiting

/-- What comes of the start of a command. -/
inductive Opens (w : Waiting) (h : Hub) (a : Attempt) (p : Progress) : Prop
  | sent {r : Running} (taken : h.link.accepts (a.request.message h.link.autopilot) = true)
      (running : p.standing = .running r)
      (number : r.number = w.number) (activity : r.activity = .command a h.commandRetries)
      (sends : p.effects = [.sent ⟨.commands, w.number⟩ (a.request.message h.link.autopilot)])
  | refused (refused : h.link.accepts (a.request.message h.link.autopilot) = false)
      (ended : p.standing = .ended ⟨w.number, .commandFailed .connectionError⟩)
      (offers : p.effects = [.refused ⟨.commands, w.number⟩ (a.request.message h.link.autopilot)])

theorem start_opens {w : Waiting} {a : Attempt} (hw : w.task = .command a) (h : Hub) :
    w.Opens h a (w.start .commands h) := by
  have hstart : w.start .commands h =
      (w.opening (h.setting .commands)).follow .commands (w.subscribe .commands h)
        (.proceed (.restart (h.policy .commands).timeout) none (some (a.request.message h.link.autopilot))
          (.command a h.commandRetries)) := by
    rw [start, hw]
    simp only [opening, subscribe, hw]
    rfl
  rw [hstart]
  cases haccepts : h.link.accepts (a.request.message h.link.autopilot) with
  | true =>
      obtain ⟨r, hrunning, hgoes, heffects⟩ :=
        Running.goesOn_follow (w.opening (h.setting .commands)) .commands
          (w.subscribe .commands h) (h.policy .commands).timeout none
          (some (a.request.message h.link.autopilot)) (.command a h.commandRetries)
          (fun m hm => Option.mem_some.mp hm ▸ haccepts)
      exact .sent haccepts hrunning hgoes.number hgoes.activity heffects
  | false =>
      obtain ⟨hended, heffects⟩ := Running.fails_follow (w.opening (h.setting .commands)) .commands
        (.restart (h.policy .commands).timeout) none (a.request.message h.link.autopilot)
          (.command a h.commandRetries)
        (show (w.subscribe .commands h).link.accepts _ = false from haccepts)
      refine .refused haccepts ?_ heffects
      rw [hended]
      simp only [opening, hw]
      rfl

end Waiting

namespace Deed

@[simp] theorem shown_heeded (s : Service) (x : Taking) :
    shown s (.heeded x) = (x.job.take s x.hub x.event).effects := by
  simp [shown, progress?]

@[simp] theorem shown_started (s : Service) (w : Waiting) (h : Hub) :
    shown s (.started w h) = (w.start s h).effects := by
  simp [shown, progress?]

@[simp] theorem shown_cancelled (s : Service) (r : Running) (h : Hub) :
    shown s (.cancelled r h) = (r.cancel s h).effects := by
  simp [shown, progress?]

end Deed

namespace Desk

variable {i : Input} {d d' : Desk} {deeds : List Deed}

theorem Act.mem_asked {s : Service} (hact : Act i s d deeds d') {t : Task} (ht : t ∈ d'.asked s) :
    t ∈ d.asked s ∨ i.task? s = some t := by
  cases hact with
  | @enrol task asked =>
      have hasked : (d.enrol s task).asked s = d.asked s ++ [task] := update_self _ _ _
      rw [hasked] at ht
      rcases List.mem_append.mp ht with hold | hnew
      · exact .inl hold
      · obtain rfl := List.mem_singleton.mp hnew
        exact .inr asked
  | @turnAway task asked busy settled =>
      have hasked : (d.turnAway s task).asked s = d.asked s ++ [task] := update_self _ _ _
      rw [hasked] at ht
      rcases List.mem_append.mp ht with hold | hnew
      · exact .inl hold
      · obtain rfl := List.mem_singleton.mp hnew
        exact .inr asked
  | _ => exact .inl ht

theorem running_cancel (r : Running) (s : Service) (h : Hub) : (r.cancel s h).standing.running? = none := by
  have hf := r.follow_follows s h (.finish r.activity.farewell? none (.failed .cancelled))
  rw [Running.cancel]
  generalize r.activity.farewell? = m at hf ⊢
  generalize r.follow s h _ = p at hf ⊢
  cases hf <;> rfl

/-- Where the job comes from that is under way after a small step. -/
inductive Act.Leaves (s : Service) (d : Desk) (r' : Running) : Prop
  | kept (running : (d.queue s).running = some r')
  | taken {r : Running} {e : Event} {rest : List Event} (running : (d.queue s).running = some r)
      (events : (d.queue s).events = e :: rest) (concerns : e.Concerns r)
      (goesOn : (r.take s d.hub e).standing.running? = some r')
  | started {w : Waiting} {rest : List Waiting} (idle : (d.queue s).running = none)
      (waiting : (d.queue s).waiting.items = w :: rest)
      (opens : (w.start s d.hub).standing.running? = some r')

/-- The small steps of a queue in which a job makes a step. -/
inductive Act.Plays (s : Service) (d : Desk) : Deed → Desk → Prop
  | heeded {r : Running} {e : Event} {rest : List Event} (running : (d.queue s).running = some r)
      (events : (d.queue s).events = e :: rest) (concerns : e.Concerns r) :
      Plays s d (.heeded ⟨r, d.hub, e⟩) (d.after s ((d.queue s).withEvents rest) (r.take s d.hub e))
  | started {w : Waiting} {rest : List Waiting} (idle : (d.queue s).running = none)
      (waiting : (d.queue s).waiting.items = w :: rest) :
      Plays s d (.started w d.hub) (d.after s ((d.queue s).withWaiting rest) (w.start s d.hub))
  | cancelled {r : Running} (running : (d.queue s).running = some r) :
      Plays s d (.cancelled r d.hub) (d.after s (d.queue s) (r.cancel s d.hub))

theorem Act.plays_or_quiet {s : Service} (hact : Act i s d deeds d') :
    (∃ x, deeds = [x] ∧ Act.Plays s d x d') ∨
      (∀ x ∈ deeds, x.actor? = none) ∧ (d'.queue s).running = (d.queue s).running := by
  cases hact with
  | heed running events concerns => exact .inl ⟨_, rfl, .heeded running events concerns⟩
  | start idle events waiting => exact .inl ⟨_, rfl, .started idle waiting⟩
  | cancel running => exact .inl ⟨_, rfl, .cancelled running⟩
  | clear idle =>
      refine .inr ⟨fun x hx => ?_, by simp [put]⟩
      obtain ⟨e, _, rfl⟩ := List.mem_map.mp hx
      rfl
  | tell owing => exact .inr ⟨fun x hx => absurd hx List.not_mem_nil, rfl⟩
  | enrol asked => exact .inr ⟨fun x hx => absurd hx List.not_mem_nil, by simp [enrol_queue]⟩
  | fire armed due own =>
      subst own
      refine .inr ⟨fun x hx => ?_, by simp [Desk.fire, post, JobQueue.post]⟩
      rw [List.mem_singleton.mp hx]
      rfl
  | deliver received subscribed heard =>
      refine .inr ⟨fun x hx => ?_, by simp [queue_post_self, JobQueue.post]⟩
      rw [List.mem_singleton.mp hx]
      rfl
  | _ =>
      refine .inr ⟨fun x hx => ?_, by simp [put, Desk.turnAway, ask, Desk.callOff]⟩
      rw [List.mem_singleton.mp hx]
      rfl

theorem Act.leaves {s : Service} (hact : Act i s d deeds d') {r' : Running}
    (hr' : (d'.queue s).running = some r') :
    Act.Leaves s d r' := by
  rcases hact.plays_or_quiet with ⟨x, rfl, hplays⟩ | ⟨_, hrunning⟩
  · cases hplays with
    | heeded running events concerns => exact .taken running events concerns (by simpa [after] using hr')
    | started idle waiting => exact .started idle waiting (by simpa [after] using hr')
    | cancelled running => simp [after, running_cancel] at hr'
  · exact .kept (hrunning ▸ hr')

theorem Act.plays {s : Service} (hact : Act i s d deeds d') {x : Deed} (hx : x ∈ deeds) {n : Nat} {h : Hub}
    (ha : x.actor? = some (n, h)) : Act.Plays s d x d' := by
  rcases hact.plays_or_quiet with ⟨y, rfl, hplays⟩ | ⟨hquiet, _⟩
  · rwa [List.mem_singleton.mp hx]
  · rw [hquiet x hx] at ha
    cases ha

/-- Whether all that was submitted to the command queue are commands. -/
def Commanding (d : Desk) : Prop := ∀ t ∈ d.asked .commands, ∃ a, t = .command a

theorem Commanding.act (hd : Commanding d) (hact : Act i .commands d deeds d') : Commanding d' := by
  intro t ht
  rcases hact.mem_asked ht with hold | hnew
  · exact hd t hold
  · cases i with
    | command a => exact ⟨a, by simpa [Input.task?, eq_comm] using hnew⟩
    | transfer side u admission => simp [Input.task?] at hnew
    | _ => cases hnew

theorem Commanding.other (hd : Commanding d) {t : Service} (ht : t ≠ .commands) (hact : Act i t d deeds d') :
    Commanding d' := by
  rw [Commanding, (hact.aside ht).asked]
  exact hd

theorem Commanding.task (hd : Commanding d) (hs : d.Sound) {w : Waiting} (hw : w ∈ (d.queue .commands).line) :
    ∃ a, w.task = .command a := by
  exact hd _ (List.mem_of_getElem? (hs.lined.asked hw))

theorem Commanding.activity (hd : Commanding d) (hs : d.Sound) {r : Running}
    (hr : (d.queue .commands).running = some r) : ∃ a k, r.activity = .command a k := by
  obtain ⟨a, ha⟩ : ∃ a, r.activity.task = .command a := hd.task hs (JobQueue.slot_mem_line hr)
  exact ⟨a, Activity.command_of_task ha⟩

end Desk

end GroundLink
