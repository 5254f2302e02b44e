/-! The worker that runs callbacks. Jobs run one at a time in the order in which they were posted,
those posted by a running job included; a job that panics loses the rest of its own actions and
nothing else. Jobs are given as data, with the actions they take. What an executor answers turns on
whether the caller is on its worker. -/

namespace GroundLink

/-- The name of a thread. -/
abbrev Thread := Nat

/-- An executor of callbacks, by the thread of its worker. -/
structure Executor where
  worker : Thread

namespace Executor

/-- The executor that a thread spawns; its worker is another thread. -/
def spawn (caller : Thread) : Executor := ⟨caller + 1⟩

def isCurrentThread (x : Executor) (caller : Thread) : Bool := caller = x.worker

/-- The answer to a flush. The worker itself cannot wait and is told no, any other caller waits for a yes. -/
def flushed (x : Executor) (caller : Thread) : Bool := !x.isCurrentThread caller

@[simp] theorem isCurrentThread_worker (x : Executor) : x.isCurrentThread x.worker = true :=
  decide_eq_true rfl

@[simp] theorem flushed_worker (x : Executor) : x.flushed x.worker = false :=
  congrArg (!·) x.isCurrentThread_worker

end Executor

namespace Worker

/-- What a job does; `post` hands the worker another job. -/
inductive Action
  | panic
  | flush
  | isCurrentThread
  | post (name : String) (actions : List Action)

structure Job where
  name : String
  actions : List Action

inductive Event
  | start (name : String)
  | finish (name : String)
  | flushed (answer : Bool)
  | onWorker (answer : Bool)
  deriving DecidableEq

/-- What comes of a job: what is seen of it, the jobs it posts, and whether it came to its end. -/
structure Trace where
  seen : List Event
  posted : List Job
  done : Bool

def Trace.see (t : Trace) (e : Event) : Trace := { t with seen := e :: t.seen }

def Trace.post (t : Trace) (j : Job) : Trace := { t with posted := j :: t.posted }

/-- Runs actions on a thread. -/
def perform (x : Executor) (caller : Thread) : List Action → Trace
  | [] => ⟨[], [], true⟩
  | .panic :: _ => ⟨[], [], false⟩
  | .flush :: rest => (perform x caller rest).see (.flushed (x.flushed caller))
  | .isCurrentThread :: rest => (perform x caller rest).see (.onWorker (x.isCurrentThread caller))
  | .post name actions :: rest => (perform x caller rest).post ⟨name, actions⟩

/-- Jobs run on the worker. -/
def Job.trace (x : Executor) (j : Job) : Trace := perform x x.worker j.actions

def Job.events (x : Executor) (j : Job) : List Event :=
  .start j.name :: (j.trace x).seen ++ if (j.trace x).done then [.finish j.name] else []

def Job.posted (x : Executor) (j : Job) : List Job := (j.trace x).posted

/-- One for every action and every job inside it. -/
def weight : List Action → Nat
  | [] => 0
  | .post _ actions :: rest => 1 + weight actions + weight rest
  | .panic :: rest => 1 + weight rest
  | .flush :: rest => 1 + weight rest
  | .isCurrentThread :: rest => 1 + weight rest

def load : List Job → Nat
  | [] => 0
  | j :: rest => 1 + weight j.actions + load rest

theorem load_append (queue rest : List Job) : load (queue ++ rest) = load queue + load rest := by
  induction queue with
  | nil => simp [load]
  | cons j queue ih => simp only [List.cons_append, load, ih]; omega

theorem load_perform_le (x : Executor) (caller : Thread) (actions : List Action) :
    load (perform x caller actions).posted ≤ weight actions := by
  induction actions with
  | nil => simp [perform, load, weight]
  | cons a rest ih =>
    cases a with
    | panic => simp [perform, load]
    | flush => simp only [perform, Trace.see, weight]; omega
    | isCurrentThread => simp only [perform, Trace.see, weight]; omega
    | post name actions =>
      simp only [perform, Trace.post, weight, load] at *
      omega

/-- What is seen of the jobs in line and of all those that come of them. -/
def serve (x : Executor) : List Job → List Event
  | [] => []
  | j :: rest => j.events x ++ serve x (rest ++ j.posted x)
termination_by queue => load queue
decreasing_by
  have h : load (j.posted x) ≤ weight j.actions := load_perform_le x x.worker j.actions
  simp only [load, load_append] at *
  omega

/-- The thread that spawns an executor and hands in the jobs. -/
def home : Thread := 0

def run (jobs : List Job) : List Event := serve (.spawn home) jobs

/-- What comes of jobs: what is answered to the one who handed them in, and what is seen of them. -/
structure Outcome where
  flushed : Bool
  onWorker : Bool
  log : List Event

def outcome (jobs : List Job) : Outcome :=
  let x := Executor.spawn home
  ⟨x.flushed home, x.isCurrentThread home, run jobs⟩

end Worker

end GroundLink
