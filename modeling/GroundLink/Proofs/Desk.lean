import Mathlib.Logic.Function.Basic
import Mathlib.Logic.Relation
import GroundLink.Engine.Basic
import GroundLink.Proofs.Follow

/-! The small steps of an engine. What an engine does with one input is a chain of small steps on a
desk: its hub, its three queues, the outcomes that are still to be told, and a record of what was seen
and of what was asked for. A property of every run is then proved by looking at small steps only. -/

namespace GroundLink

open Function Relation

namespace Input

/-- The job an input submits to a queue. -/
def task? (s : Service) : Input → Option Task
  | command a => if s = .commands then some (.command a) else none
  | transfer side t _ => if s = .mission side then some (.transfer t) else none
  | _ => none

def clock (now : Instant) : Input → Instant
  | advance us => now.advance us
  | setClock clock => clock
  | _ => now

/-- What an input makes of the link. -/
def link (l : Link) : Input → Link
  | .accept acceptance => { l with acceptance }
  | .autopilot stack => { l with autopilot := stack }
  | .connected up => { l with connected := up }
  | _ => l

end Input

/-- What a job that ended is still to tell. -/
def Ended.owed (s : Service) (e : Ended) : Ticket × Outcome := (⟨s, e.number⟩, e.outcome)

namespace Standing

def owed (s : Service) : Standing → List (Ticket × Outcome)
  | running _ => []
  | ended e => [e.owed s]

end Standing

/-- Whether an event is for the job under way. -/
def Event.Concerns (r : Running) : Event → Prop
  | message job _ _ => job = none ∨ job = some r.number
  | expiry job cookie => job = r.number ∧ r.cookie = some cookie

namespace Waiting

def opening (w : Waiting) (setting : Setting) : Running := ⟨w.number, w.owner, w.task.initial setting, none⟩

/-- The hub once a job hears what it listens to. -/
def subscribe (w : Waiting) (s : Service) (h : Hub) : Hub :=
  { h with handlers := h.handlers.registerAll w.task.kinds w.owner (.job ⟨s, w.number⟩ w.task.peer.system) }

end Waiting

namespace JobQueue

def withRunning (q : JobQueue) (running : Option Running) : JobQueue := { q with running }

def withWaiting (q : JobQueue) (waiting : List Waiting) : JobQueue := { q with waiting := ⟨waiting⟩ }

def withEvents (q : JobQueue) (events : List Event) : JobQueue := { q with events }

/-- A queue once a number was used up. -/
def counted (q : JobQueue) : JobQueue := { q with submitted := q.submitted + 1 }

@[simp] theorem withRunning_running (q : JobQueue) (r : Option Running) : (q.withRunning r).running = r := rfl

@[simp] theorem withRunning_waiting (q : JobQueue) (r : Option Running) :
    (q.withRunning r).waiting = q.waiting := rfl

@[simp] theorem withRunning_events (q : JobQueue) (r : Option Running) :
    (q.withRunning r).events = q.events := rfl

@[simp] theorem withRunning_submitted (q : JobQueue) (r : Option Running) :
    (q.withRunning r).submitted = q.submitted := rfl

@[simp] theorem withWaiting_running (q : JobQueue) (w : List Waiting) :
    (q.withWaiting w).running = q.running := rfl

@[simp] theorem withWaiting_waiting (q : JobQueue) (w : List Waiting) : (q.withWaiting w).waiting = ⟨w⟩ := rfl

@[simp] theorem withWaiting_events (q : JobQueue) (w : List Waiting) :
    (q.withWaiting w).events = q.events := rfl

@[simp] theorem withWaiting_submitted (q : JobQueue) (w : List Waiting) :
    (q.withWaiting w).submitted = q.submitted := rfl

@[simp] theorem withEvents_running (q : JobQueue) (e : List Event) :
    (q.withEvents e).running = q.running := rfl

@[simp] theorem withEvents_waiting (q : JobQueue) (e : List Event) :
    (q.withEvents e).waiting = q.waiting := rfl

@[simp] theorem withEvents_events (q : JobQueue) (e : List Event) : (q.withEvents e).events = e := rfl

@[simp] theorem withEvents_submitted (q : JobQueue) (e : List Event) :
    (q.withEvents e).submitted = q.submitted := rfl

@[simp] theorem withRunning_self (q : JobQueue) : q.withRunning q.running = q := rfl

@[simp] theorem withEvents_self (q : JobQueue) : q.withEvents q.events = q := rfl

@[simp] theorem withRunning_withRunning (q : JobQueue) (r r' : Option Running) :
    (q.withRunning r).withRunning r' = q.withRunning r' := rfl

@[simp] theorem withEvents_withEvents (q : JobQueue) (e e' : List Event) :
    (q.withEvents e).withEvents e' = q.withEvents e' := rfl

@[simp] theorem withWaiting_withWaiting (q : JobQueue) (w w' : List Waiting) :
    (q.withWaiting w).withWaiting w' = q.withWaiting w' := rfl

@[simp] theorem withRunning_withEvents (q : JobQueue) (r : Option Running) (e : List Event) :
    (q.withRunning r).withEvents e = (q.withEvents e).withRunning r := rfl

@[simp] theorem withRunning_withWaiting (q : JobQueue) (r : Option Running) (w : List Waiting) :
    (q.withRunning r).withWaiting w = (q.withWaiting w).withRunning r := rfl

@[simp] theorem counted_running (q : JobQueue) : q.counted.running = q.running := rfl

@[simp] theorem counted_waiting (q : JobQueue) : q.counted.waiting = q.waiting := rfl

@[simp] theorem counted_submitted (q : JobQueue) : q.counted.submitted = q.submitted + 1 := rfl

section Submit

variable {q : JobQueue} {admission : Admission}

theorem submit_admitted (ha : admission = .queue ∨ q.isIdle = true) (s : Service) (h : Hub) (task : Task) :
    q.submit s h task admission =
      ⟨(q.withWaiting (q.waiting.items ++ [⟨q.submitted, h.handlers.freshOwner, task⟩])).counted,
        { h with handlers := h.handlers.allocate }, []⟩ :=
  if_pos ha

theorem submit_busy (ha : ¬(admission = .queue ∨ q.isIdle = true)) (s : Service) (h : Hub) (task : Task) :
    q.submit s h task admission = ⟨q.counted, h, [.result ⟨s, q.submitted⟩ (.failed .busy)]⟩ :=
  if_neg ha

end Submit

end JobQueue

/-- An engine in the middle of its work. -/
structure Desk where
  hub : Hub
  queue : Service → JobQueue
  /-- Jobs that ended and whose outcome is still to be told. -/
  owing : List (Ticket × Outcome)
  effects : List Effect
  asked : Service → List Task

/-- The hub once an input has changed what is around an engine: the time and the link. -/
def Hub.under (h : Hub) (i : Input) : Hub := { h with clock := i.clock h.clock, link := i.link h.link }

namespace Desk

def under (d : Desk) (i : Input) : Desk := { d with hub := d.hub.under i }

def put (d : Desk) (s : Service) (q : JobQueue) : Desk := { d with queue := update d.queue s q }

def post (d : Desk) (s : Service) (e : Event) : Desk := d.put s ((d.queue s).post e)

/-- Hands a message to a subscriber, if it comes from where that listens. -/
def deliver (d : Desk) (header : Header) (m : Message) : Subscriber → Desk
  | .commands => d.post .commands (.message none header m)
  | .job ticket system =>
    if system = 0 ∨ header.sender.system = system then
      d.post ticket.service (.message (some ticket.number) header m)
    else d

/-- Puts what came of a step of a queue's job in the place of that job. -/
def after (d : Desk) (s : Service) (q : JobQueue) (p : Progress) : Desk where
  hub := p.hub
  queue := update d.queue s (q.withRunning p.standing.running?)
  owing := d.owing ++ p.standing.owed s
  effects := d.effects ++ p.effects
  asked := d.asked

/-- Takes note of a submission, which uses up a number. -/
def ask (d : Desk) (s : Service) (task : Task) : Desk :=
  { d.put s (d.queue s).counted with asked := update d.asked s (d.asked s ++ [task]) }

def enrol (d : Desk) (s : Service) (task : Task) : Desk :=
  let w : Waiting := ⟨(d.queue s).submitted, d.hub.handlers.freshOwner, task⟩
  { (d.put s ((d.queue s).withWaiting ((d.queue s).waiting.items ++ [w]))).ask s task with
    hub := { d.hub with handlers := d.hub.handlers.allocate } }

def turnAway (d : Desk) (s : Service) (task : Task) : Desk :=
  { d.ask s task with effects := d.effects ++ [.result ⟨s, (d.queue s).submitted⟩ (.failed .busy)] }

/-- Drops a job that waits, with the others of its queue given. -/
def callOff (d : Desk) (s : Service) (w : Waiting) (others : List Waiting) : Desk :=
  { d.put s ((d.queue s).withWaiting others) with
    hub := d.hub.retire w.owner none
    owing := d.owing ++ [(⟨s, w.number⟩, .failed .cancelled)] }

def fire (d : Desk) (x : Timer Ticket) : Desk :=
  { d.post x.tag.service (.expiry x.tag.number x.cookie) with
    hub := { d.hub with timers := d.hub.timers.remove x.cookie } }

def tell (d : Desk) (t : Ticket) (o : Outcome) (rest : List (Ticket × Outcome)) : Desk :=
  { d with owing := rest, effects := d.effects ++ [.result t o] }

/-- The steps of jobs that are due: what is left of the queue, the job, the hub it finds, and what it
is going to do. -/
inductive Due (d : Desk) (s : Service) : JobQueue → Running → Hub → Move Activity → Prop
  | hear {r : Running} {job : Option Nat} {header : Header} {m : Message} {rest : List Event}
      (running : (d.queue s).running = some r) (events : (d.queue s).events = .message job header m :: rest)
      (concerns : job = none ∨ job = some r.number) :
      Due d s ((d.queue s).withEvents rest) r d.hub
        (r.activity.onMessage (d.hub.setting s) header.sender m)
  | expire {r : Running} {cookie : Cookie} {rest : List Event}
      (running : (d.queue s).running = some r) (events : (d.queue s).events = .expiry r.number cookie :: rest)
      (own : r.cookie = some cookie) :
      Due d s ((d.queue s).withEvents rest) { r with cookie := none } d.hub
        (r.activity.onTimeout (d.hub.setting s))
  | start {w : Waiting} {rest : List Waiting}
      (idle : (d.queue s).running = none) (waiting : (d.queue s).waiting.items = w :: rest) :
      Due d s ((d.queue s).withWaiting rest) (w.opening (d.hub.setting s)) (w.subscribe s d.hub)
        (w.task.start (d.hub.setting s))
  | cancel {r : Running} (running : (d.queue s).running = some r) :
      Due d s (d.queue s) r d.hub (.finish r.activity.farewell? none (.failed .cancelled))

/-- The small steps an input can lead to. -/
inductive Step (i : Input) (d : Desk) : Desk → Prop
  | follow {s : Service} {q : JobQueue} {r : Running} {h : Hub} {move : Move Activity}
      (due : Due d s q r h move) : Step i d (d.after s q (r.follow s h move))
  | skip {s : Service} {r : Running} {e : Event} {rest : List Event}
      (running : (d.queue s).running = some r) (events : (d.queue s).events = e :: rest)
      (stray : ¬e.Concerns r) : Step i d (d.put s ((d.queue s).withEvents rest))
  | clear {s : Service} (idle : (d.queue s).running = none) :
      Step i d (d.put s ((d.queue s).withEvents []))
  | tell {t : Ticket} {o : Outcome} {rest : List (Ticket × Outcome)} (owing : d.owing = (t, o) :: rest) :
      Step i d (d.tell t o rest)
  | enrol {s : Service} {task : Task} (asked : i.task? s = some task) : Step i d (d.enrol s task)
  | turnAway {s : Service} {task : Task} (asked : i.task? s = some task)
      (busy : (d.queue s).isIdle = false) : Step i d (d.turnAway s task)
  | callOff {s : Service} {w : Waiting} {before after : List Waiting}
      (waiting : (d.queue s).waiting.items = before ++ w :: after) :
      Step i d (d.callOff s w (before ++ after))
  | fire {x : Timer Ticket} (armed : x ∈ d.hub.timers.armed) (due : x.deadline ≤ d.hub.clock) :
      Step i d (d.fire x)
  | deliver {header : Header} {m : Message} {x : Subscriber} (received : i = .receive header m)
      (subscribed : x ∈ d.hub.handlers.matching m.kind) : Step i d (d.deliver header m x)

/-- The desks one input can lead to, by any number of small steps. -/
abbrev Reaches (i : Input) : Desk → Desk → Prop := ReflTransGen (Step i)

@[simp] theorem put_queue (d : Desk) (s : Service) (q : JobQueue) :
    (d.put s q).queue = update d.queue s q := rfl

@[simp] theorem put_hub (d : Desk) (s : Service) (q : JobQueue) : (d.put s q).hub = d.hub := rfl

@[simp] theorem put_asked (d : Desk) (s : Service) (q : JobQueue) : (d.put s q).asked = d.asked := rfl

theorem enrol_queue (d : Desk) (s : Service) (task : Task) :
    (d.enrol s task).queue = update d.queue s
      ((d.queue s).withWaiting ((d.queue s).waiting.items ++
        [⟨(d.queue s).submitted, d.hub.handlers.freshOwner, task⟩])).counted := by
  simp [enrol, ask]

section Due

variable {d : Desk} {s : Service} {q : JobQueue} {r : Running} {h : Hub} {move : Move Activity}

theorem Due.timers (due : Due d s q r h move) : h.timers = d.hub.timers := by
  cases due <;> rfl

theorem Due.clock (due : Due d s q r h move) : h.clock = d.hub.clock := by
  cases due <;> rfl

theorem Due.link (due : Due d s q r h move) : h.link = d.hub.link := by
  cases due <;> rfl

end Due

/-- A message that is delivered is left for a queue or comes to nothing. -/
theorem deliver_cases (d : Desk) (header : Header) (m : Message) (x : Subscriber) :
    d.deliver header m x = d ∨ ∃ s job, d.deliver header m x = d.post s (.message job header m) := by
  cases x with
  | commands => exact .inr ⟨.commands, none, rfl⟩
  | job ticket system =>
      rw [deliver]
      split
      · exact .inr ⟨ticket.service, some ticket.number, rfl⟩
      · exact .inl rfl

theorem deliver_hub (d : Desk) (header : Header) (m : Message) (x : Subscriber) :
    (d.deliver header m x).hub = d.hub := by
  obtain hsame | ⟨s, job, hpost⟩ := d.deliver_cases header m x
  · rw [hsame]
  · rw [hpost]
    rfl

theorem put_self (d : Desk) (s : Service) : d.put s (d.queue s) = d := by
  simp [put]

theorem after_running (d : Desk) (s : Service) (q : JobQueue) {r : Running} (hr : q.running = some r) :
    d.after s q ⟨.running r, d.hub, []⟩ = d.put s q := by
  simp [after, put, Standing.running?, Standing.owed, ← hr]

/-- Two steps of a job, the first of which does not end it. -/
theorem after_after (d : Desk) (s : Service) (q q' : JobQueue) (p p' : Progress) {r : Running}
    (hr : p.standing = .running r) :
    (d.after s q p).after s q' p' = d.after s q' (p'.preceded p.effects) := by
  simp [after, Progress.preceded, hr, Standing.owed]

end Desk

end GroundLink
