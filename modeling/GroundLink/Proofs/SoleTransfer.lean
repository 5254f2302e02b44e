import GroundLink.Proofs.Subscription
import GroundLink.Proofs.Taking

/-! An engine that does one transfer of its own and nothing else. All of it that matters is the clock, the
state of the transfer and the number of its timer (`Engine.underWay`), and what it does is one step of the
transfer: it starts, hears a message that goes on or ends it, or lets its time run out. -/

namespace GroundLink

namespace Engine

/-- Whether an engine has neither a job nor a timer. -/
def atRest (e : Engine) : Bool :=
  e.hub.timers.armed.isEmpty && Service.all.all fun s => (e.queue s).isIdle && (e.queue s).events.isEmpty

theorem fireTimers_of_none {e : Engine} (h : e.hub.timers.due? e.hub.clock e.hub.timers.issued = none) :
    e.fireTimers = e := by
  have hpass :
      ∀ {ω : Type} (fire : Timer Ticket → Timers Ticket × ω → Timers Ticket × ω) (w : ω) (fuel : Nat),
      Timers.passFrom e.hub.clock e.hub.timers.issued fire fuel (e.hub.timers, w) = (e.hub.timers, w) := by
    intro ω fire w fuel
    cases fuel with
    | zero => rfl
    | succ fuel => rw [Timers.passFrom, h]
  rw [fireTimers, Timers.pass, hpass]

/-- The one timer that is armed goes off. -/
theorem fireTimers_of_due {e : Engine} {x : Timer Ticket} {n : Nat} (harmed : e.hub.timers = ⟨[x], n⟩)
    (hissued : x.cookie < n) (hdue : x.deadline ≤ e.hub.clock) :
    e.fireTimers = { e with hub := { e.hub with timers := ⟨[], n⟩ } }.post x.tag.service
      (.expiry x.tag.number x.cookie) := by
  have hfirst : (⟨[x], n⟩ : Timers Ticket).due? e.hub.clock n = some x := by
    simp [Timers.due?, Timers.first?, hissued, hdue]
  have hgone : (⟨[x], n⟩ : Timers Ticket).remove x.cookie = ⟨[], n⟩ := by simp [Timers.remove]
  have hpass : ∀ {ω : Type} (fire : Timer Ticket → Timers Ticket × ω → Timers Ticket × ω) (w : ω),
      Timers.pass e.hub.clock fire (⟨[x], n⟩, w) = fire x (⟨[], n⟩, w) := by
    intro ω fire w
    rw [Timers.pass, Timers.size, List.length_singleton, Timers.passFrom, hfirst]
    simp only [hgone, Timers.passFrom]
  rw [fireTimers, harmed, hpass]
  obtain _ | ⟨_ | _⟩ := x.tag.service <;> rfl

theorem work_of_idle {e : Engine} {s : Service} {n : Nat} (h : e.queue s = ⟨none, .empty, [], n⟩) :
    e.work s = ⟨e, []⟩ := by
  obtain ⟨config, hub, commands, client, server, acksSeen⟩ := e
  obtain _ | ⟨_ | _⟩ := s
  all_goals
    obtain rfl : _ = JobQueue.mk none .empty [] n := h
    rfl

theorem queue_of_rest {e : Engine} (h : e.atRest = true) (s : Service) :
    ∃ n, e.queue s = ⟨none, .empty, [], n⟩ := by
  have hqueue := List.all_eq_true.mp (Bool.and_eq_true_iff.mp h).2 s s.mem_all
  generalize e.queue s = q at hqueue ⊢
  obtain ⟨running, ⟨items⟩, events, n⟩ := q
  simp only [JobQueue.isIdle, Fifo.isEmpty, Bool.and_eq_true, Option.isNone_iff_eq_none,
    List.isEmpty_iff] at hqueue
  obtain ⟨⟨rfl, rfl⟩, rfl⟩ := hqueue
  exact ⟨n, rfl⟩

theorem armed_of_rest {e : Engine} (h : e.atRest = true) : e.hub.timers.armed = [] :=
  List.isEmpty_iff.mp (Bool.and_eq_true_iff.mp h).1

/-- Looked after at rest, an engine does nothing. -/
theorem tick_of_rest {e : Engine} (h : e.atRest = true) : e.tick = ⟨e, []⟩ := by
  have hfire : e.fireTimers = e := by
    refine fireTimers_of_none ?_
    rw [Timers.due?, armed_of_rest h]
    rfl
  rw [tick, hfire]
  obtain ⟨_, hcommands⟩ := queue_of_rest h .commands
  obtain ⟨_, hclient⟩ := queue_of_rest h (.mission .client)
  obtain ⟨_, hserver⟩ := queue_of_rest h (.mission .server)
  simp only [Reaction.next, work_of_idle hcommands, work_of_idle hclient, work_of_idle hserver,
    List.append_nil]

/-- If only transfers of ours were submitted, nothing else is done. -/
theorem tick_of_client {e : Engine} (hcommands : e.fireTimers.commands = .empty)
    (hserver : e.fireTimers.server = .empty) : e.tick = e.fireTimers.work (.mission .client) := by
  have hfirst : e.fireTimers.queue .commands = ⟨none, .empty, [], 0⟩ := hcommands
  have hlast : (e.fireTimers.work (.mission .client)).engine.queue (.mission .server) =
      ⟨none, .empty, [], 0⟩ := hserver
  rw [tick, work_of_idle hfirst]
  simp only [Reaction.next, work_of_idle hlast, List.nil_append, List.append_nil]

end Engine

namespace Running

variable {r : Running} {s : Service} {h : Hub} {message : Option Message} {f : Option Fraction}

/-- A step that goes on, while the link takes messages. -/
theorem follow_proceed (haccepts : ∀ m ∈ message, h.link.accepts m = true) {wait : Wait} {b : Activity} :
    r.follow s h (.proceed wait f message b) =
      ⟨.running { r with activity := b, cookie := (h.await (r.ticket s) r.cookie wait).1 },
        (h.await (r.ticket s) r.cookie wait).2.offered message,
        r.report s f ++ message.toList.map (.sent (r.ticket s))⟩ := by
  have hf := r.follow_follows s h (.proceed wait f message b)
  generalize r.follow s h (.proceed wait f message b) = p at hf
  cases hf with
  | waited wait report message activity taken => rfl
  | broken wait report m activity refused => cases refused.symm.trans (haccepts m rfl)

/-- A step that ends the job, while the link takes messages. -/
theorem follow_finish (haccepts : ∀ m ∈ message, h.link.accepts m = true) {o : Outcome} :
    r.follow s h (.finish message f o) =
      ⟨.ended ⟨r.number, o⟩, (h.offered message).retire r.owner r.cookie,
        message.toList.map (.sent (r.ticket s)) ++ r.report s f⟩ := by
  have hf := r.follow_follows s h (.finish message f o)
  generalize r.follow s h (.finish message f o) = p at hf
  cases hf with
  | finished message report outcome taken => rfl
  | failed m report outcome refused => cases refused.symm.trans (haccepts m rfl)

end Running

namespace Engine

theorem takeAll_singleton (r : Running) (s : Service) (h : Hub) (e : Event) :
    Running.takeAll s [e] r h = r.take s h e := by
  generalize hp : r.take s h e = p
  obtain ⟨standing, hub, effects⟩ := p
  cases standing <;> simp [Running.takeAll, hp, Progress.preceded]

section Client

variable {e : Engine} {r r' : Running} {events : List Event} {h : Hub} {effects : List Effect}
    {x : Ended} {n : Nat}

theorem work_client (hclient : e.client = ⟨some r, .empty, events, n⟩)
    (htake : Running.takeAll (.mission .client) events r e.hub = ⟨.running r', h, effects⟩) :
    e.work (.mission .client) = ⟨{ e with hub := h, client := ⟨some r', .empty, [], n⟩ }, effects⟩ := by
  have hturn : JobQueue.work e.client (.mission .client) e.hub = ⟨⟨some r', .empty, [], n⟩, h, effects⟩ := by
    simp only [hclient, JobQueue.work, htake]
  show afterTurn _ _ (JobQueue.work e.client (.mission .client) e.hub) = _
  rw [hturn]
  rfl

theorem work_client_ended (hclient : e.client = ⟨some r, .empty, events, n⟩)
    (htake : Running.takeAll (.mission .client) events r e.hub = ⟨.ended x, h, effects⟩) :
    e.work (.mission .client) = ⟨{ e with hub := h, client := ⟨none, .empty, [], n⟩ },
      effects ++ [.result ⟨.mission .client, x.number⟩ x.outcome]⟩ := by
  have hturn : JobQueue.work e.client (.mission .client) e.hub = ⟨⟨none, .empty, [], n⟩, h,
      effects ++ [.result ⟨.mission .client, x.number⟩ x.outcome]⟩ := by
    simp [hclient, JobQueue.work, htake, JobQueue.goOn, JobQueue.results, startNext, Fifo.empty]
  show afterTurn _ _ (JobQueue.work e.client (.mission .client) e.hub) = _
  rw [hturn]
  rfl

/-- The one job that waits starts. -/
theorem work_client_start {w : Waiting} (hclient : e.client = ⟨none, ⟨[w]⟩, [], n⟩)
    (hstart : w.start (.mission .client) e.hub = ⟨.running r, h, effects⟩) :
    e.work (.mission .client) = ⟨{ e with hub := h, client := ⟨some r, .empty, [], n⟩ }, effects⟩ := by
  have hturn : JobQueue.work e.client (.mission .client) e.hub = ⟨⟨some r, .empty, [], n⟩, h, effects⟩ := by
    simp [hclient, JobQueue.work, JobQueue.goOn, startNext, hstart, JobQueue.results, Fifo.empty]
  show afterTurn _ _ (JobQueue.work e.client (.mission .client) e.hub) = _
  rw [hturn]
  rfl

end Client

/-- The first job of an engine, if it is a transfer of ours. -/
def firstJob (c : Option Cookie) (a : Activity) : Running := ⟨0, 1, a, c⟩

def firstTicket : Ticket := ⟨.mission .client, 0⟩

/-- What an engine has whose first job is under way with the given timers. -/
def hubUnderWay (config : Config) (link : Link) (clock : Instant) (timers : Timers Ticket) (t : Task) : Hub :=
  let h := (idle config link clock).hub
  { h with timers, handlers := h.handlers.allocate.registerAll t.kinds 1 (.job firstTicket t.peer.system) }

/-- The timer of a job that was just set. -/
def timerSet (config : Config) (clock : Instant) (c : Cookie) : Timers Ticket :=
  ⟨[⟨c, clock.after config.timeoutSpan, config.timeoutSpan, firstTicket⟩], c + 1⟩

/-- An engine whose only job so far is a transfer of ours, in the given state, with its timer just set. -/
def underWay (config : Config) (link : Link) (clock : Instant) (c : Cookie) (a : Activity) : Engine :=
  { idle config link clock with
    hub := hubUnderWay config link clock (timerSet config clock c) a.task
    client := ⟨some (firstJob (some c) a), .empty, [], 1⟩ }

/-- The same when the timer has gone off. -/
def timeUp (config : Config) (link : Link) (clock : Instant) (c : Cookie) (a : Activity) : Engine :=
  { idle config link clock with
    hub := hubUnderWay config link clock ⟨[], c + 1⟩ a.task
    client := ⟨some (firstJob (some c) a), .empty, [.expiry 0 c], 1⟩ }

/-- The same when the job has ended. -/
def finished (config : Config) (link : Link) (clock : Instant) (c : Cookie) (t : Task) : Engine :=
  { idle config link clock with
    hub := (hubUnderWay config link clock (timerSet config clock c) t).retire 1 (some c)
    client := ⟨none, .empty, [], 1⟩ }

theorem atRest_finished (config : Config) (link : Link) (clock : Instant) (c : Cookie) (t : Task) :
    (finished config link clock c t).atRest = true := by
  have hdisarmed :
      ((hubUnderWay config link clock (timerSet config clock c) t).disarm (some c)).timers.armed = [] := by
    simp [Hub.disarm, hubUnderWay, timerSet, Timers.remove]
  exact Bool.and_eq_true_iff.mpr ⟨List.isEmpty_iff.mpr hdisarmed, rfl⟩

section UnderWay

variable {config : Config} {link : Link} {clock : Instant} {c : Cookie} {a b : Activity} {f : Option Fraction}
  {message : Option Message} {o : Outcome}

section Follow

variable (hlink : link.acceptance = .always) {move : Move Activity}

include hlink

theorem offered_hubUnderWay (t : Timers Ticket) (task : Task) :
    (hubUnderWay config link clock t task).offered message = hubUnderWay config link clock t task := by
  cases message with
  | none => rfl
  | some m =>
      obtain ⟨own, targetSystem, autopilot, connected, acceptance⟩ := link
      obtain rfl : acceptance = .always := hlink
      rfl

theorem accepts_hubUnderWay (t : Timers Ticket) (task : Task) (m : Message) :
    (hubUnderWay config link clock t task).link.accepts m = true := by
  show link.acceptance.takes m = true
  rw [hlink]
  rfl

/-- A step that leaves the timer set. -/
theorem follow_extend (hmove : move = .proceed .extend f message b) (htask : b.task = a.task) :
    (firstJob (some c) a).follow (.mission .client)
      (hubUnderWay config link clock (timerSet config clock c) a.task) move =
      ⟨.running (firstJob (some c) b), hubUnderWay config link clock (timerSet config clock c) b.task,
        (firstJob (some c) a).report (.mission .client) f ++ message.toList.map (.sent firstTicket)⟩ := by
  have hawait :
      (hubUnderWay config link clock (timerSet config clock c) a.task).await firstTicket (some c) .extend =
        (some c, hubUnderWay config link clock (timerSet config clock c) b.task) := by
    simp [Hub.await, Hub.refresh, Timers.refresh, hubUnderWay, timerSet, idle, htask]
  rw [hmove, Running.follow_proceed fun m _ => accepts_hubUnderWay hlink _ _ m]
  show Progress.mk (.running ⟨0, 1, b, (Hub.await _ firstTicket (some c) .extend).1⟩)
    ((Hub.await _ firstTicket (some c) .extend).2.offered message) _ = _
  rw [hawait, offered_hubUnderWay hlink]
  rfl

/-- A step that sets a timer when none is armed. -/
theorem follow_restart (hmove : move = .proceed (.restart config.timeoutSpan) f message b)
    (htask : b.task = a.task) :
    (firstJob none a).follow (.mission .client) (hubUnderWay config link clock ⟨[], c⟩ a.task) move =
      ⟨.running (firstJob (some c) b), hubUnderWay config link clock (timerSet config clock c) b.task,
        (firstJob none a).report (.mission .client) f ++ message.toList.map (.sent firstTicket)⟩ := by
  have hawait : (hubUnderWay config link clock ⟨[], c⟩ a.task).await firstTicket none
      (.restart config.timeoutSpan) =
        (some c, hubUnderWay config link clock (timerSet config clock c) b.task) := by
    rw [htask]
    rfl
  rw [hmove, Running.follow_proceed fun m _ => accepts_hubUnderWay hlink _ _ m]
  show Progress.mk (.running ⟨0, 1, b, (Hub.await _ firstTicket none (.restart config.timeoutSpan)).1⟩)
    ((Hub.await _ firstTicket none (.restart config.timeoutSpan)).2.offered message) _ = _
  rw [hawait, offered_hubUnderWay hlink]
  rfl

/-- A step that ends the job. -/
theorem follow_close (hmove : move = .finish message f o) :
    (firstJob (some c) a).follow (.mission .client)
      (hubUnderWay config link clock (timerSet config clock c) a.task) move =
      ⟨.ended ⟨0, o⟩, (finished config link clock c a.task).hub,
        message.toList.map (.sent firstTicket) ++ (firstJob (some c) a).report (.mission .client) f⟩ := by
  rw [hmove, Running.follow_finish fun m _ => accepts_hubUnderWay hlink _ _ m, offered_hubUnderWay hlink]
  rfl

end Follow

/-- What is left for the job in such an engine is a message it listens to, from the system it talks with. -/
theorem receive_underWay {header : Header} {m : Message} (hkind : m.kind ∈ a.task.kinds)
    (hsystem : a.task.peer.system = 0 ∨ header.sender.system = a.task.peer.system) :
    (underWay config link clock c a).receive header m =
      (underWay config link clock c a).post (.mission .client) (.message (some 0) header m) := by
  have hmatching : ∀ t : Task, m.kind ∈ t.kinds →
      (hubUnderWay config link clock (timerSet config clock c) t).handlers.matching m.kind =
        [.job firstTicket t.peer.system] := by
    intro t ht
    generalize m.kind = kind at ht
    cases t with
    | command attempt => cases ht
    | transfer t =>
        cases t <;> simp only [Task.kinds, Transfer.kinds, Upload.kinds, Download.kinds,
          Receive.kinds, Clear.kinds, SetCurrent.kinds, List.mem_cons, List.not_mem_nil, or_false] at ht
        · rcases ht with rfl | rfl | rfl <;> rfl
        · rcases ht with rfl | rfl <;> rfl
        all_goals
          subst ht
          rfl
  show List.foldl _ _
      ((hubUnderWay config link clock (timerSet config clock c) a.task).handlers.matching m.kind) = _
  rw [hmatching a.task hkind]
  exact if_pos hsystem

section Early

variable (hearly : clock < clock.after config.timeoutSpan)

include hearly

/-- A timer that was just set is not due. -/
theorem fireTimers_of_early {e : Engine} (htimers : e.hub.timers = timerSet config clock c)
    (hclock : e.hub.clock = clock) : e.fireTimers = e := by
  have hlate : ¬clock.after config.timeoutSpan ≤ clock := UInt64.not_le.mpr hearly
  refine fireTimers_of_none ?_
  rw [htimers, hclock]
  simp [timerSet, Timers.due?, Timers.first?, hlate]

theorem tick_quiet : (underWay config link clock c a).tick = ⟨underWay config link clock c a, []⟩ := by
  have hfire : (underWay config link clock c a).fireTimers = underWay config link clock c a :=
    fireTimers_of_early hearly rfl rfl
  have htick := tick_of_client (e := underWay config link clock c a) (by rw [hfire]; rfl) (by rw [hfire]; rfl)
  rw [htick, hfire]
  exact work_client rfl rfl

/-- Looked after when something was left for it, the job takes that in. -/
theorem tick_left (e : Event) :
    ((underWay config link clock c a).post (.mission .client) e).tick =
      ((underWay config link clock c a).post (.mission .client) e).work (.mission .client) := by
  have hfire : ((underWay config link clock c a).post (.mission .client) e).fireTimers =
      (underWay config link clock c a).post (.mission .client) e := fireTimers_of_early hearly rfl rfl
  have htick := tick_of_client (e :=
    (underWay config link clock c a).post (.mission .client) e) (by rw [hfire]; rfl) (by rw [hfire]; rfl)
  rwa [hfire] at htick

variable (hlink : link.acceptance = .always) {header : Header} {m : Message}

include hlink

/-- A message is heard, and the job goes on with its timer set once more. -/
theorem tick_heard
    (hmove : a.onMessage ((idle config link clock).hub.setting (.mission .client)) header.sender m =
      .proceed .extend f message b) :
    ((underWay config link clock c a).post (.mission .client) (.message (some 0) header m)).tick =
      ⟨underWay config link clock c b,
        (firstJob (some c) a).report (.mission .client) f ++ message.toList.map (.sent firstTicket)⟩ := by
  have hc : some 0 = none ∨ some 0 = some (firstJob (some c) a).number := .inr rfl
  have htake := Running.take_heard hc (.mission .client) (underWay config link clock c a).hub header m
  rw [← takeAll_singleton] at htake
  have htask : b.task = a.task := Activity.task_of_onMessage (by rw [hmove]; rfl)
  rw [tick_left hearly]
  exact work_client rfl (htake.trans (follow_extend hlink hmove htask))

/-- A message is heard that ends the job. -/
theorem tick_ended
    (hmove : a.onMessage ((idle config link clock).hub.setting (.mission .client)) header.sender m =
      .finish message f o) :
    ((underWay config link clock c a).post (.mission .client) (.message (some 0) header m)).tick =
      ⟨finished config link clock c a.task,
        message.toList.map (.sent firstTicket) ++ (firstJob (some c) a).report (.mission .client) f ++
          [.result firstTicket o]⟩ := by
  have hc : some 0 = none ∨ some 0 = some (firstJob (some c) a).number := .inr rfl
  have htake := Running.take_heard hc (.mission .client) (underWay config link clock c a).hub header m
  rw [← takeAll_singleton] at htake
  rw [tick_left hearly]
  exact work_client_ended
    (e := (underWay config link clock c a).post (.mission .client) (.message (some 0) header m))
    rfl (htake.trans (follow_close hlink hmove))

end Early

/-- Time passes until the timer runs out, and the job goes on with a new one. -/
theorem wait_underWay (hlink : link.acceptance = .always)
    (hmove : a.onTimeout ((idle config link clock).hub.setting (.mission .client)) =
      .proceed (.restart config.timeoutSpan) f message b) :
    ((underWay config link clock c a).withClock (clock.after config.timeoutSpan)).tick =
      ⟨underWay config link (clock.after config.timeoutSpan) (c + 1) b,
        (firstJob (some c) a).report (.mission .client) f ++ message.toList.map (.sent firstTicket)⟩ := by
  have hfire : ((underWay config link clock c a).withClock (clock.after config.timeoutSpan)).fireTimers =
      timeUp config link (clock.after config.timeoutSpan) c a :=
    fireTimers_of_due (e := (underWay config link clock c a).withClock (clock.after config.timeoutSpan))
      (x := ⟨c, clock.after config.timeoutSpan, config.timeoutSpan, firstTicket⟩) rfl (Nat.lt_succ_self c)
      (UInt64.le_refl _)
  have htake := Running.take_expired (r := firstJob (some c) a) rfl (.mission .client)
    (hubUnderWay config link (clock.after config.timeoutSpan) ⟨[], c + 1⟩ a.task)
  rw [← takeAll_singleton] at htake
  have htask : b.task = a.task := Activity.task_of_onTimeout (by rw [hmove]; rfl)
  rw [tick_of_client (by rw [hfire]; rfl) (by rw [hfire]; rfl), hfire]
  exact work_client rfl (htake.trans (follow_restart hlink hmove htask))

/-- An engine at rest to which the first transfer of ours was submitted. -/
def enlisted (config : Config) (link : Link) (clock : Instant) (t : Transfer) : Engine :=
  { idle config link clock with
    hub := { (idle config link clock).hub with handlers := (idle config link clock).hub.handlers.allocate }
    client := ⟨none, ⟨[⟨0, 1, .transfer t⟩]⟩, [], 1⟩ }

theorem transfer_idle (t : Transfer) (admission : Admission) :
    (idle config link clock).transfer .client t admission = ⟨enlisted config link clock t, []⟩ := by
  have hsubmit : JobQueue.empty.submit (.mission .client) (idle config link clock).hub
      (.transfer t) admission = _ :=
    JobQueue.submit_admitted (.inr rfl) _ _ _
  show afterTurn _ _ (JobQueue.submit .empty _ _ _ _) = _
  rw [hsubmit]
  rfl

/-- The first job of an engine starts. -/
theorem tick_enlisted (hlink : link.acceptance = .always) {t : Transfer}
    (hmove : (Task.transfer t).start ((idle config link clock).hub.setting (.mission .client)) =
      .proceed (.restart config.timeoutSpan) f message b) :
    (enlisted config link clock t).tick =
      ⟨underWay config link clock 0 b,
        (firstJob none ((Task.transfer t).initial
          ((idle config link clock).hub.setting (.mission .client)))).report
          (.mission .client) f ++ message.toList.map (.sent firstTicket)⟩ := by
  have hinitial := Task.task_initial ((idle config link clock).hub.setting (.mission .client)) (.transfer t)
  have htask : b.task = .transfer t := Task.task_of_start (by rw [hmove]; rfl)
  have hfollow : Running.follow _ _ (hubUnderWay config link clock ⟨[], 0⟩ _) _ = _ :=
    follow_restart hlink hmove (htask.trans hinitial.symm)
  rw [hinitial] at hfollow
  rw [tick_of_client rfl rfl]
  exact work_client_start rfl hfollow

end UnderWay

end Engine

end GroundLink
