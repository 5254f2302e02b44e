import GroundLink.Engine.Hub
import GroundLink.Fifo

/-! A queue of jobs, of which the first is under way and the others wait. Messages and expired timers
are kept until the queue works; then they reach the job they are for, jobs that ended leave, and the
next one starts. -/

namespace GroundLink

inductive Event
  | message (job : Option Nat) (header : Header) (message : Message)
  | expiry (job : Nat) (cookie : Cookie)
  deriving DecidableEq, Inhabited

def Event.isMessage : Event → Bool
  | message .. => true
  | expiry .. => false

/-- A job that has not been started. -/
structure Waiting where
  number : Nat
  owner : Owner
  task : Task

structure Running where
  number : Nat
  owner : Owner
  activity : Activity
  cookie : Option Cookie

structure Ended where
  number : Nat
  outcome : Outcome

inductive Standing
  | running (job : Running)
  | ended (job : Ended)

structure Progress where
  standing : Standing
  hub : Hub
  effects : List Effect

namespace Progress

def preceded (effects : List Effect) (p : Progress) : Progress := { p with effects := effects ++ p.effects }

end Progress

namespace Running

def ticket (r : Running) (service : Service) : Ticket := ⟨service, r.number⟩

def report (r : Running) (service : Service) : Option Fraction → List Effect
  | none => []
  | some f => if r.activity.task.wantsProgress then [.progress (r.ticket service) f] else []

/-- Ends a job: its timer and handlers go. -/
def stop (r : Running) (hub : Hub) (effects : List Effect) (outcome : Outcome) : Progress :=
  ⟨.ended ⟨r.number, outcome⟩, hub.retire r.owner r.cookie, effects⟩

/-- Offers a message and goes on as `accepted` says; a refused message ends the job. -/
def offer (r : Running) (service : Service) (hub : Hub) (m : Message)
    (accepted : Hub → List Effect → Progress) : Progress :=
  let (hub', effect) := hub.offer (r.ticket service) m
  if hub.link.accepts m then accepted hub' [effect]
  else r.stop hub' [effect] (.failure r.activity.task.refusal)

def follow (r : Running) (service : Service) (hub : Hub) : Move Activity → Progress
  | .ignore => ⟨.running r, hub, []⟩
  | .proceed wait report message activity =>
    let (cookie, hub) := hub.await (r.ticket service) r.cookie wait
    let waiting : Running := { r with cookie }
    let next : Running := { waiting with activity }
    let reported := r.report service report
    match message with
    | none => ⟨.running next, hub, reported⟩
    | some m =>
      (waiting.offer service hub m fun hub effects => ⟨.running next, hub, effects⟩).preceded reported
  | .finish message report outcome =>
    let close (hub : Hub) (effects : List Effect) := r.stop hub (effects ++ r.report service report) outcome
    match message with
    | none => close hub []
    | some m => r.offer service hub m close

/-- Takes in one event. Events for other jobs and expiries of timers that are not the
job's any more are dropped. -/
def take (r : Running) (service : Service) (hub : Hub) : Event → Progress
  | .message job header m =>
    if job = none ∨ job = some r.number then
      r.follow service hub (r.activity.onMessage (hub.setting service) header.sender m)
    else ⟨.running r, hub, []⟩
  | .expiry job cookie =>
    if job = r.number ∧ r.cookie = some cookie then
      { r with cookie := none }.follow service hub (r.activity.onTimeout (hub.setting service))
    else ⟨.running r, hub, []⟩

/-- Takes in events in order, until the job ends. -/
def takeAll (service : Service) : List Event → Running → Hub → Progress
  | [], r, hub => ⟨.running r, hub, []⟩
  | e :: rest, r, hub =>
    let p := r.take service hub e
    match p.standing with
    | .ended _ => p
    | .running r => (takeAll service rest r p.hub).preceded p.effects

def cancel (r : Running) (service : Service) (hub : Hub) : Progress :=
  r.follow service hub (.finish r.activity.farewell? none (.failed .cancelled))

end Running

/-- Starts a job: from now on it hears the messages it listens to. -/
def Waiting.start (w : Waiting) (service : Service) (hub : Hub) : Progress :=
  let setting := hub.setting service
  let subscriber : Subscriber := .job ⟨service, w.number⟩ w.task.peer.system
  let hub := { hub with handlers := hub.handlers.registerAll w.task.kinds w.owner subscriber }
  Running.follow ⟨w.number, w.owner, w.task.initial setting, none⟩ service hub (w.task.start setting)

/-- Whether a job may wait behind others. -/
inductive Admission
  | queue
  | exclusive
  deriving DecidableEq, Inhabited

structure JobQueue where
  running : Option Running
  waiting : Fifo Waiting
  events : List Event
  submitted : Nat

structure Turn where
  queue : JobQueue
  hub : Hub
  effects : List Effect

/-- What came of starting jobs: the one that stays under way, those still waiting and those that
ended at once. -/
structure Started where
  running : Option Running
  waiting : List Waiting
  hub : Hub
  effects : List Effect
  ended : List Ended

def startNext (service : Service) : List Waiting → Hub → Started
  | [], hub => ⟨none, [], hub, [], []⟩
  | w :: rest, hub =>
    let p := w.start service hub
    match p.standing with
    | .running r => ⟨some r, rest, p.hub, p.effects, []⟩
    | .ended e =>
      let s := startNext service rest p.hub
      { s with effects := p.effects ++ s.effects, ended := e :: s.ended }

namespace JobQueue

def empty : JobQueue := ⟨none, .empty, [], 0⟩

/-- The number of jobs, with the one under way. -/
def pending (q : JobQueue) : Nat := (if q.running.isSome then 1 else 0) + q.waiting.size

def isIdle (q : JobQueue) : Bool := q.running.isNone && q.waiting.isEmpty

def post (q : JobQueue) (e : Event) : JobQueue := { q with events := q.events ++ [e] }

def results (service : Service) (ended : List Ended) : List Effect :=
  ended.map fun e => .result ⟨service, e.number⟩ e.outcome

/-- Starts waiting jobs after others have ended, and then tells how all of those ended. -/
def goOn (q : JobQueue) (service : Service) (hub : Hub) (effects : List Effect) (ended : List Ended) : Turn :=
  let s := startNext service q.waiting.items hub
  { queue := { q with running := s.running, waiting := ⟨s.waiting⟩, events := [] }
    hub := s.hub
    effects := effects ++ s.effects ++ results service (ended ++ s.ended) }

def work (q : JobQueue) (service : Service) (hub : Hub) : Turn :=
  match q.running with
  | none => q.goOn service hub [] []
  | some r =>
    let p := Running.takeAll service q.events r hub
    match p.standing with
    | .running r => ⟨{ q with running := some r, events := [] }, p.hub, p.effects⟩
    | .ended e => q.goOn service p.hub p.effects [e]

/-- Takes a job in, or turns it away at once if it may not wait. Either way it uses up a number. -/
def submit (q : JobQueue) (service : Service) (hub : Hub) (task : Task) (admission : Admission) : Turn :=
  let number := q.submitted
  let q := { q with submitted := number + 1 }
  if admission = .queue ∨ q.isIdle then
    ⟨{ q with waiting := q.waiting.push ⟨number, hub.handlers.freshOwner, task⟩ },
      { hub with handlers := hub.handlers.allocate }, []⟩
  else ⟨q, hub, [.result ⟨service, number⟩ (.failed .busy)]⟩

/-- Calls a waiting job off; whether there was one. -/
def cancelWaiting (q : JobQueue) (service : Service) (hub : Hub) (number : Nat) : Bool × Turn :=
  match q.waiting.removeFirst? (·.number = number) with
  | none => (false, ⟨q, hub, []⟩)
  | some (w, waiting) =>
    (true, ⟨{ q with waiting }, hub.retire w.owner none, results service [⟨w.number, .failed .cancelled⟩]⟩)

def cancel (q : JobQueue) (service : Service) (hub : Hub) (number : Nat) : Bool × Turn :=
  match q.running with
  | none => q.cancelWaiting service hub number
  | some r =>
    if r.number = number then
      let p := r.cancel service hub
      match p.standing with
      | .ended e => (true, ⟨{ q with running := none }, p.hub, p.effects ++ results service [e]⟩)
      | .running r => (true, ⟨{ q with running := some r }, p.hub, p.effects⟩)
    else q.cancelWaiting service hub number

/-- Every job of the queue fails, because its engine goes away. -/
def close (q : JobQueue) (service : Service) (hub : Hub) : Turn :=
  let abandoned (number : Nat) (task : Task) : Ended := ⟨number, .failure task.abandonment⟩
  let first := q.running.toList.map fun r => abandoned r.number r.activity.task
  let others := q.waiting.items.map fun w => abandoned w.number w.task
  let hub := q.running.elim hub fun r => hub.retire r.owner r.cookie
  ⟨{ q with running := none, waiting := .empty }, hub, results service (first ++ others)⟩

end JobQueue

end GroundLink
