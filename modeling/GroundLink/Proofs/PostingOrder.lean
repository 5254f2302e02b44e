import Mathlib.Algebra.Order.Ring.Nat
import Mathlib.Data.List.Induction
import Mathlib.Logic.Function.Iterate
import GroundLink.Worker

/-! The worker among those who post to it. An office is a worker with the line of what waits for it and with
all that has happened so far. Others hand in jobs, have the line flushed and ask where they are at any time,
also between two steps of a job. All that comes in is taken up in its order, and what a job does lies
between its start and its end, with nothing of other jobs in between (`Office.Orderly`); one more step for
all that is to be done, and the worker is at rest. The log of a worker left to itself is the one that
`serve` makes of the jobs. -/

namespace GroundLink.Worker

/-- What waits for the worker: a job, or the answer to a flush that someone outside waits for. -/
inductive Errand
  | job (j : Job)
  | flush (caller : Thread)

inductive Moment
  /-- A job is posted, by the one under way or from outside. -/
  | posted (inside : Bool) (j : Job)
  /-- Someone outside has the line flushed, and waits. -/
  | asked (caller : Thread)
  | started (j : Job)
  /-- A caller is answered at once, the job under way or someone outside. -/
  | answered (inside : Bool) (caller : Thread) (e : Event)
  | ended (j : Job) (whole : Bool)
  /-- A flush from outside is answered with yes. -/
  | released (caller : Thread)

/-- A job under way and the actions it has left. -/
structure Shift where
  job : Job
  left : List Action

structure Office where
  line : List Errand
  busy : Option Shift
  past : List Moment

/-- What happens next: someone outside posts a job, has the line flushed or asks whether this is the worker,
or the worker makes a step. -/
inductive Turn
  | post (j : Job)
  | flush (caller : Thread)
  | isCurrentThread (caller : Thread)
  | work

namespace Office

def note (o : Office) (m : Moment) : Office := { o with past := o.past ++ [m] }

def join (o : Office) (e : Errand) : Office := { o with line := o.line ++ [e] }

def goOn (o : Office) (j : Job) (left : List Action) : Office := { o with busy := some ⟨j, left⟩ }

def finish (o : Office) (j : Job) (whole : Bool) : Office := { o with busy := none }.note (.ended j whole)

variable (x : Executor)

/-- Has the line flushed. On the worker there is no waiting for it. -/
def flush (inside : Bool) (caller : Thread) (o : Office) : Office :=
  if x.isCurrentThread caller then o.note (.answered inside caller (.flushed (x.flushed caller)))
  else (o.join (.flush caller)).note (.asked caller)

def tellThread (inside : Bool) (caller : Thread) (o : Office) : Office :=
  o.note (.answered inside caller (.onWorker (x.isCurrentThread caller)))

/-- One step of the job under way, on the worker. -/
def act (o : Office) (j : Job) : List Action → Office
  | [] => o.finish j true
  | .panic :: _ => o.finish j false
  | .flush :: left => (o.goOn j left).flush x true x.worker
  | .isCurrentThread :: left => (o.goOn j left).tellThread x true x.worker
  | .post name actions :: left =>
    ((o.goOn j left).join (.job ⟨name, actions⟩)).note (.posted true ⟨name, actions⟩)

/-- The worker takes up what comes next in line. -/
def takeUp (o : Office) : List Errand → Office
  | [] => o
  | .job j :: line => { o with line, busy := some ⟨j, j.actions⟩ }.note (.started j)
  | .flush caller :: line => { o with line }.note (.released caller)

def work (o : Office) : Office :=
  match o.busy with
  | some b => o.act x b.job b.left
  | none => o.takeUp o.line

def turn (o : Office) : Turn → Office
  | .post j => (o.join (.job j)).note (.posted false j)
  | .flush caller => o.flush x false caller
  | .isCurrentThread caller => o.tellThread x false caller
  | .work => o.work x

def opened : Office := ⟨[], none, []⟩

/-- All that comes of a list of turns. -/
def run (turns : List Turn) : Office := turns.foldl (turn x) opened

/-- Whether there is nothing left to do. -/
def AtRest (o : Office) : Prop := o.line = [] ∧ o.busy = none

end Office

namespace Moment

def posted? : Moment → Option Job
  | posted _ j => some j
  | _ => none

def asked? : Moment → Option Thread
  | asked caller => some caller
  | _ => none

def released? : Moment → Option Thread
  | released caller => some caller
  | _ => none

def ended? : Moment → Option Job
  | ended j _ => some j
  | _ => none

/-- What comes into line. -/
def arrival? : Moment → Option Errand
  | posted _ j => some (.job j)
  | asked caller => some (.flush caller)
  | _ => none

/-- What is taken up from it. -/
def served? : Moment → Option Errand
  | started j => some (.job j)
  | released caller => some (.flush caller)
  | _ => none

/-- Whether a moment belongs to a job that the worker runs. -/
def ofJob : Moment → Bool
  | posted inside _ => inside
  | started _ => true
  | answered inside _ _ => inside
  | ended _ _ => true
  | _ => false

/-- What is seen of the worker. -/
def seen? : Moment → Option Event
  | started j => some (.start j.name)
  | answered true _ e => some e
  | ended j true => some (.finish j.name)
  | _ => none

end Moment

namespace Errand

def job? : Errand → Option Job
  | job j => some j
  | flush _ => none

def caller? : Errand → Option Thread
  | job _ => none
  | flush caller => some caller

def toDo : Errand → Nat
  | job j => 3 * weight j.actions + 2
  | flush _ => 1

end Errand

namespace Action

def panics : Action → Bool
  | panic => true
  | _ => false

/-- What comes of an action that is no panic. -/
def moment? (x : Executor) : Action → Option Moment
  | panic => none
  | flush => some (.answered true x.worker (.flushed (x.flushed x.worker)))
  | isCurrentThread => some (.answered true x.worker (.onWorker (x.isCurrentThread x.worker)))
  | post name actions => some (.posted true ⟨name, actions⟩)

end Action

/-- All that a job does: it starts, takes its actions up to the first that panics, and ends. -/
def Job.story (x : Executor) (j : Job) : List Moment :=
  .started j :: (j.actions.takeWhile (!·.panics)).filterMap (Action.moment? x) ++
    [.ended j (!j.actions.any Action.panics)]

/-- Whether this is what a job under way has done: it started and took its actions up to those it has left. -/
def Shift.Story (x : Executor) (b : Shift) (moments : List Moment) : Prop :=
  ∃ made, b.job.actions = made ++ b.left ∧ (∀ a ∈ made, a.panics = false) ∧
    moments = .started b.job :: made.filterMap (Action.moment? x)

variable {x : Executor}

theorem Shift.Story.acted {b : Shift} {moments : List Moment} (h : b.Story x moments) {a : Action}
    {left : List Action} {m : Moment} (hnext : b.left = a :: left) (hcalm : a.moment? x = some m) :
    Shift.Story x ⟨b.job, left⟩ (moments ++ [m]) := by
  obtain ⟨made, hactions, hmade, rfl⟩ := h
  have hpanics : a.panics = false := by cases a <;> first | rfl | cases hcalm
  refine ⟨made ++ [a], ?_, ?_, ?_⟩
  · rw [hactions, hnext, List.append_assoc, List.singleton_append]
  · exact List.forall_mem_append.mpr ⟨hmade, List.forall_mem_singleton.mpr hpanics⟩
  · rw [List.filterMap_append, List.cons_append]
    simp [hcalm]

/-- A job that has no actions left, or is about to panic, has its whole story. -/
theorem Shift.Story.ended {b : Shift} {moments : List Moment} (h : b.Story x moments)
    (hlast : b.left.head?.all Action.panics = true) :
    moments ++ [.ended b.job b.left.isEmpty] = b.job.story x := by
  obtain ⟨made, hactions, hmade, rfl⟩ := h
  have hcalm : ∀ a ∈ made, (!a.panics) = true := fun a ha => by rw [hmade a ha]; rfl
  have hnone : made.any Action.panics = false :=
    List.any_eq_false.mpr fun a ha => by rw [hmade a ha]; exact nofun
  rw [Job.story, hactions, List.takeWhile_append_of_pos hcalm, List.any_append, hnone]
  cases hleft : b.left with
  | nil => simp
  | cons a left =>
      rw [hleft] at hlast
      have hpanics : a.panics = true := hlast
      simp [hpanics]

namespace Office

/-- The jobs that were posted, in order. -/
def posted (past : List Moment) : List Job := past.filterMap Moment.posted?

def ended (past : List Moment) : List Job := past.filterMap Moment.ended?

/-- Those who had the line flushed, in order, and those of them who were answered. -/
def asked (past : List Moment) : List Thread := past.filterMap Moment.asked?

def released (past : List Moment) : List Thread := past.filterMap Moment.released?

/-- All that came into line, and all that was taken up from it. -/
def arrivals (past : List Moment) : List Errand := past.filterMap Moment.arrival?

def served (past : List Moment) : List Errand := past.filterMap Moment.served?

/-- The jobs that are under way. -/
def current (o : Office) : List Job := o.busy.toList.map (·.job)

/-- Whether what the jobs did is told by their stories, one after the other, those of the
jobs that ended first. -/
def Storied (x : Executor) (o : Office) : Prop :=
  ∃ doing, o.past.filter Moment.ofJob = (ended o.past).flatMap (Job.story x) ++ doing ∧
    (o.busy = none → doing = []) ∧ ∀ b, o.busy = some b → b.Story x doing

/-- Whether each flush that was answered was answered when the jobs posted before it,
and no others, had ended. -/
def Flushed (past : List Moment) : Prop :=
  ∀ before caller rest, past = before ++ .released caller :: rest →
    ∃ earlier later, before = earlier ++ .asked caller :: later ∧ asked earlier = released before ∧
      posted earlier = ended before

/-- Whether a caller may be told so at once. -/
inductive Right (x : Executor) (caller : Thread) : Event → Prop
  | flushed (own : caller = x.worker) : Right x caller (.flushed false)
  | onWorker : Right x caller (.onWorker (caller = x.worker))

/-- How the worker has served the line so far. -/
structure Orderly (x : Executor) (o : Office) : Prop where
  /-- The jobs posted so far are those that ended, the one under way and those in line, in this order. -/
  jobs : posted o.past = ended o.past ++ o.current ++ o.line.filterMap Errand.job?
  callers : asked o.past = released o.past ++ o.line.filterMap Errand.caller?
  stories : o.Storied x
  flushed : Flushed o.past
  /-- A job is told that it cannot wait for a flush and that it is on the worker. -/
  inside : ∀ caller e, .answered true caller e ∈ o.past → e = .flushed false ∨ e = .onWorker true
  /-- A caller on another thread is told at once that it is not on the worker, and nothing else. -/
  outside : ∀ caller e, .answered false caller e ∈ o.past → caller ≠ x.worker → e = .onWorker false

/-- The steps of an office. -/
inductive Step (x : Executor) (o : Office) : Office → Prop
  | handed (j : Job) : Step x o ⟨o.line ++ [.job j], o.busy, o.past ++ [.posted false j]⟩
  | told {caller : Thread} {e : Event} (right : Right x caller e) :
      Step x o ⟨o.line, o.busy, o.past ++ [.answered false caller e]⟩
  | asked (caller : Thread) : Step x o ⟨o.line ++ [.flush caller], o.busy, o.past ++ [.asked caller]⟩
  | acted {b : Shift} {a : Action} {left : List Action} {m : Moment} {line : List Errand}
      (busy : o.busy = some b) (next : b.left = a :: left) (calm : a.moment? x = some m)
      (joins : line = o.line ++ m.arrival?.toList) :
      Step x o ⟨line, some ⟨b.job, left⟩, o.past ++ [m]⟩
  | ended {b : Shift} (busy : o.busy = some b) (last : b.left.head?.all Action.panics = true) :
      Step x o ⟨o.line, none, o.past ++ [.ended b.job b.left.isEmpty]⟩
  | started {j : Job} {line : List Errand} (idle : o.busy = none) (next : o.line = .job j :: line) :
      Step x o ⟨line, some ⟨j, j.actions⟩, o.past ++ [.started j]⟩
  | released {caller : Thread} {line : List Errand} (idle : o.busy = none)
      (next : o.line = .flush caller :: line) :
      Step x o ⟨line, none, o.past ++ [.released caller]⟩

variable {o o' : Office} {inside : Bool} {caller : Thread}

theorem flush_of_worker (h : x.isCurrentThread caller = true) :
    o.flush x inside caller = o.note (.answered inside caller (.flushed false)) := by
  rw [flush, if_pos h, Executor.flushed, h]
  rfl

theorem flush_of_other (h : x.isCurrentThread caller = false) :
    o.flush x inside caller = (o.join (.flush caller)).note (.asked caller) := by
  rw [flush, h]
  rfl

theorem work_flush (j : Job) (left : List Action) (line : List Errand) (past : List Moment) :
    work x ⟨line, some ⟨j, .flush :: left⟩, past⟩ =
      ⟨line, some ⟨j, left⟩, past ++ [.answered true x.worker (.flushed false)]⟩ :=
  flush_of_worker x.isCurrentThread_worker

theorem step_work (o : Office) : o.AtRest ∧ o.work x = o ∨ Step x o (o.work x) := by
  obtain ⟨line, busy, past⟩ := o
  cases busy with
  | some b =>
      obtain ⟨j, left⟩ := b
      right
      cases left with
      | nil => exact .ended rfl rfl
      | cons a left =>
          cases a with
          | panic => exact .ended rfl rfl
          | flush =>
              rw [work_flush]
              have hcalm : Action.moment? x .flush = some (.answered true x.worker (.flushed false)) := by
                rw [Action.moment?, x.flushed_worker]
              exact .acted (o := ⟨line, some ⟨j, .flush :: left⟩, past⟩) rfl rfl hcalm
                (List.append_nil line).symm
          | isCurrentThread => exact .acted (a := .isCurrentThread) rfl rfl rfl (List.append_nil line).symm
          | post name actions => exact .acted (a := .post name actions) rfl rfl rfl rfl
  | none =>
      cases line with
      | nil => exact .inl ⟨⟨rfl, rfl⟩, rfl⟩
      | cons e line =>
          right
          cases e with
          | job j => exact .started rfl rfl
          | flush caller => exact .released rfl rfl

theorem step_turn (o : Office) (t : Turn) : o.turn x t = o ∨ Step x o (o.turn x t) := by
  cases t with
  | post j => exact .inr (.handed j)
  | flush caller =>
      right
      cases h : x.isCurrentThread caller with
      | true =>
          rw [turn, flush_of_worker h]
          exact .told (.flushed (of_decide_eq_true h))
      | false =>
          rw [turn, flush_of_other h]
          exact .asked caller
  | isCurrentThread caller => exact .inr (.told .onWorker)
  | work => exact o.step_work.imp And.right id

/-- What steps keep holds at all times. -/
theorem keeps_run {P : Office → Prop} (hopened : P opened) (hstep : ∀ o o', P o → Step x o o' → P o')
    (turns : List Turn) : P (run x turns) := by
  induction turns using List.reverseRecOn with
  | nil => exact hopened
  | append_singleton turns t ih =>
      rw [run, List.foldl_append]
      rcases step_turn (run x turns) t with hsame | hnext
      · exact (congrArg P hsame).mpr ih
      · exact hstep _ _ ih hnext

theorem filterMap_concat {β : Type} (f : Moment → Option β) (past : List Moment) (m : Moment) :
    (past ++ [m]).filterMap f = past.filterMap f ++ (f m).toList := by
  rw [List.filterMap_append]
  cases h : f m <;> simp [h]

theorem posted_eq (past : List Moment) : posted past = (arrivals past).filterMap Errand.job? := by
  rw [arrivals, List.filterMap_filterMap, posted]
  congr 1
  funext m
  cases m <;> rfl

theorem asked_eq (past : List Moment) : asked past = (arrivals past).filterMap Errand.caller? := by
  rw [arrivals, List.filterMap_filterMap, asked]
  congr 1
  funext m
  cases m <;> rfl

theorem released_eq (past : List Moment) : released past = (served past).filterMap Errand.caller? := by
  rw [served, List.filterMap_filterMap, released]
  congr 1
  funext m
  cases m <;> rfl

/-- What a step makes of the line and of the job under way. -/
theorem Step.moved (h : Step x o o') : ∃ m, o'.past = o.past ++ [m] ∧
    o.line ++ m.arrival?.toList = m.served?.toList ++ o'.line ∧
      o.current ++ m.served?.toList.filterMap Errand.job? = m.ended?.toList ++ o'.current := by
  cases h with
  | handed j => exact ⟨_, rfl, rfl, List.append_nil _⟩
  | told right => exact ⟨_, rfl, List.append_nil _, List.append_nil _⟩
  | asked caller => exact ⟨_, rfl, rfl, List.append_nil _⟩
  | @acted b a left m line busy next calm joins =>
      refine ⟨m, rfl, ?_, ?_⟩
      · cases a <;> cases calm <;> exact joins.symm
      · rw [current, current, busy]
        cases a <;> cases calm <;> rfl
  | ended busy last =>
      refine ⟨_, rfl, List.append_nil _, ?_⟩
      rw [current, busy]
      rfl
  | started idle next =>
      refine ⟨_, rfl, ?_, ?_⟩
      · rw [next]
        exact List.append_nil _
      · rw [current, idle]
        rfl
  | released idle next =>
      refine ⟨_, rfl, ?_, ?_⟩
      · rw [next]
        exact List.append_nil _
      · rw [current, idle]
        rfl

/-- Nothing leaves the line out of turn, and a job that was taken up is under way or has ended. -/
structure Lined (o : Office) : Prop where
  line : arrivals o.past = served o.past ++ o.line
  jobs : (served o.past).filterMap Errand.job? = ended o.past ++ o.current

theorem Lined.step (h : o.Lined) (hs : Step x o o') : o'.Lined := by
  obtain ⟨m, hpast, hline, hjobs⟩ := hs.moved
  constructor
  · rw [hpast, arrivals, served, filterMap_concat, filterMap_concat, ← arrivals, ← served, h.line,
      List.append_assoc, hline, List.append_assoc]
  · rw [hpast, served, ended, filterMap_concat, filterMap_concat, ← served, ← ended,
      List.filterMap_append, h.jobs, List.append_assoc, hjobs, List.append_assoc]

theorem lined_run (turns : List Turn) : (run x turns).Lined :=
  keeps_run ⟨rfl, rfl⟩ (fun _ _ h hs => h.step hs) turns

theorem ended_concat (past : List Moment) (m : Moment) :
    ended (past ++ [m]) = ended past ++ m.ended?.toList :=
  filterMap_concat _ _ _

/-- What happens beside the jobs does not enter their stories. -/
theorem Storied.beside (h : o.Storied x) {line : List Errand} {m : Moment} (hm : m.ofJob = false) :
    Storied x ⟨line, o.busy, o.past ++ [m]⟩ := by
  obtain ⟨doing, hpast, hdoing⟩ := h
  have hended : m.ended? = none := by cases m <;> first | rfl | cases hm
  refine ⟨doing, ?_, hdoing⟩
  rw [List.filter_append, hpast, ended_concat, hended]
  simp [hm]

theorem Storied.step (h : o.Storied x) (hs : Step x o o') : o'.Storied x := by
  cases hs with
  | handed j => exact h.beside rfl
  | told right => exact h.beside rfl
  | asked caller => exact h.beside rfl
  | @acted b a left m line busy next calm joins =>
      obtain ⟨doing, hpast, hidle, hbusy⟩ := h
      have hown : m.ofJob = true := by cases a <;> cases calm <;> rfl
      have hended : m.ended? = none := by cases a <;> cases calm <;> rfl
      refine ⟨doing ++ [m], ?_, nofun, ?_⟩
      · rw [List.filter_append, hpast, ended_concat, hended]
        simp [hown]
      · rintro _ ⟨⟩
        exact (hbusy b busy).acted next calm
  | @ended b busy last =>
      obtain ⟨doing, hpast, hidle, hbusy⟩ := h
      refine ⟨[], ?_, fun _ => rfl, nofun⟩
      rw [List.filter_append, hpast, ended_concat, List.flatMap_append, List.append_nil, List.append_assoc]
      exact congrArg _ (((hbusy b busy).ended last).trans (List.append_nil _).symm)
  | @started j line idle next =>
      obtain ⟨doing, hpast, hidle, hbusy⟩ := h
      refine ⟨[.started j], ?_, nofun, ?_⟩
      · rw [List.filter_append, hpast, hidle idle, List.append_nil, ended_concat]
        simp [Moment.ofJob, Moment.ended?]
      · rintro _ ⟨⟩
        exact ⟨[], rfl, nofun, rfl⟩
  | released idle next => exact idle ▸ h.beside rfl

theorem storied_run (turns : List Turn) : (run x turns).Storied x :=
  keeps_run ⟨[], rfl, fun _ => rfl, nofun⟩ (fun _ _ h hs => h.step hs) turns

/-- When a flush is next in line and no job is under way, the jobs posted before it have ended. -/
theorem Lined.flushed (h : o.Lined) {caller : Nat} {line : List Errand} (idle : o.busy = none)
    (next : o.line = .flush caller :: line) :
    ∃ earlier later, o.past = earlier ++ .asked caller :: later ∧ asked earlier = released o.past ∧
      posted earlier = ended o.past := by
  have hline := h.line
  rw [next, arrivals, List.filterMap_eq_append_iff] at hline
  obtain ⟨earlier, rest, hpast, hserved, hrest⟩ := hline
  obtain ⟨skipped, m, later, rfl, hskipped, hm, -⟩ := List.filterMap_eq_cons_iff.mp hrest
  have harrivals : arrivals (earlier ++ skipped) = served o.past := by
    rw [arrivals, List.filterMap_append, hserved, List.filterMap_eq_nil_iff.mpr hskipped, List.append_nil]
  have hasked : m = .asked caller := by cases m <;> first | cases hm; rfl | cases hm
  have hjobs := h.jobs
  rw [current, idle, Option.toList_none, List.map_nil, List.append_nil] at hjobs
  refine ⟨earlier ++ skipped, later, ?_, ?_, ?_⟩
  · rw [hpast, hasked, List.append_assoc]
  · rw [asked_eq, harrivals, released_eq]
  · rw [posted_eq, harrivals, hjobs]

theorem Step.idle_of_released (h : Step x o o') {caller : Nat} (hm : o'.past = o.past ++ [.released caller]) :
    o.busy = none ∧ ∃ line, o.line = .flush caller :: line := by
  cases h with
  | @acted b a left m line busy next calm joins =>
      cases List.append_cancel_left hm
      cases a <;> cases calm
  | @released caller' line idle next =>
      cases List.append_cancel_left hm
      exact ⟨idle, line, next⟩
  | _ => cases List.append_cancel_left hm

theorem Flushed.step (h : Flushed o.past) (hl : o.Lined) (hs : Step x o o') : Flushed o'.past := by
  obtain ⟨m, hpast, -⟩ := hs.moved
  intro before caller rest hsplit
  rcases List.eq_nil_or_concat rest with rfl | ⟨rest, n, rfl⟩
  · obtain ⟨hbefore, hm⟩ := List.append_inj' (hpast.symm.trans hsplit) rfl
    obtain ⟨idle, line, next⟩ := hs.idle_of_released (hsplit.trans (congrArg (· ++ _) hbefore.symm))
    exact hbefore ▸ hl.flushed idle next
  · rw [hpast, List.concat_eq_append, ← List.cons_append, ← List.append_assoc] at hsplit
    exact h before caller rest (List.append_inj' hsplit rfl).1

theorem flushed_run (turns : List Turn) : Flushed (run x turns).past :=
  (keeps_run (P := fun o => o.Lined ∧ Flushed o.past)
    ⟨⟨rfl, rfl⟩, fun before caller rest h => absurd h.symm (by simp [opened])⟩
    (fun _ _ h hs => ⟨h.1.step hs, h.2.step h.1 hs⟩) turns).2

/-- Who is answered at once is told what is right, and a job is on the worker. -/
def Told (x : Executor) (past : List Moment) : Prop :=
  ∀ inside caller e, .answered inside caller e ∈ past → (inside = true → caller = x.worker) ∧ Right x caller e

theorem Told.concat {past : List Moment} (h : Told x past) {m : Moment}
    (hm : ∀ inside caller e, m = .answered inside caller e →
      (inside = true → caller = x.worker) ∧ Right x caller e) :
    Told x (past ++ [m]) := by
  intro inside caller e he
  rcases List.mem_append.mp he with he | he
  · exact h inside caller e he
  · exact hm inside caller e (List.mem_singleton.mp he).symm

theorem Told.step (h : Told x o.past) (hs : Step x o o') : Told x o'.past := by
  cases hs with
  | told right =>
      refine h.concat ?_
      rintro _ _ _ ⟨⟩
      exact ⟨nofun, right⟩
  | @acted b a left m line busy next calm joins =>
      refine h.concat ?_
      rintro inside caller e rfl
      cases a with
      | panic => cases calm
      | flush =>
          rw [Action.moment?, x.flushed_worker] at calm
          cases calm
          exact ⟨fun _ => rfl, .flushed rfl⟩
      | isCurrentThread =>
          cases calm
          exact ⟨fun _ => rfl, .onWorker⟩
      | post name actions => cases calm
  | _ => exact h.concat nofun

theorem told_run (turns : List Turn) : Told x (run x turns).past :=
  keeps_run (P := fun o => Told x o.past) nofun (fun _ _ h hs => h.step hs) turns

/-- How much there is to do. An action that posts a job weighs as much as the job and more. -/
def toDo (o : Office) : Nat :=
  (o.busy.elim 0 fun b => 3 * weight b.left + 1) + (o.line.map Errand.toDo).sum

theorem toDo_work_lt (o : Office) (h : ¬o.AtRest) : (o.work x).toDo < o.toDo := by
  obtain ⟨line, busy, past⟩ := o
  cases busy with
  | some b =>
      obtain ⟨j, left⟩ := b
      cases left with
      | nil => simp [toDo, work, act, finish, note]
      | cons a left =>
          cases a with
          | panic => simp [toDo, work, act, finish, note]
          | flush =>
              rw [work_flush]
              simp [toDo, weight]
          | isCurrentThread => simp [toDo, work, act, tellThread, goOn, note, weight]
          | post name actions =>
              simp only [toDo, work, act, goOn, join, note, weight, Option.elim_some, List.map_append,
                List.sum_append, List.map_singleton, List.sum_singleton, Errand.toDo]
              omega
  | none =>
      cases line with
      | nil => exact absurd ⟨rfl, rfl⟩ h
      | cons e line =>
          cases e with
          | job j =>
              simp only [toDo, work, takeUp, note, Option.elim_some, Option.elim_none, List.map_cons,
                List.sum_cons, Errand.toDo]
              omega
          | flush caller =>
              simp only [toDo, work, takeUp, note, Option.elim_none, List.map_cons,
                List.sum_cons, Errand.toDo]
              omega

theorem work_of_atRest (h : o.AtRest) : o.work x = o := by
  obtain ⟨line, busy, past⟩ := o
  obtain ⟨rfl, rfl⟩ : line = [] ∧ busy = none := h
  rfl

/-- A worker left to itself comes to rest. -/
theorem atRest_iterate {n : Nat} (h : o.toDo ≤ n) : ((work x)^[n] o).AtRest := by
  induction n generalizing o with
  | zero =>
      by_contra hrest
      have hlt := toDo_work_lt (x := x) o hrest
      omega
  | succ n ih =>
      rw [Function.iterate_succ_apply]
      by_cases hrest : o.AtRest
      · rw [work_of_atRest hrest, Function.iterate_fixed (work_of_atRest hrest)]
        exact hrest
      · have hlt := toDo_work_lt (x := x) o hrest
        exact ih (by omega)

theorem run_left (turns : List Turn) (n : Nat) :
    run x (turns ++ .replicate n .work) = (work x)^[n] (run x turns) := by
  induction n with
  | zero => rw [List.replicate_zero, List.append_nil, Function.iterate_zero_apply]
  | succ n ih =>
      rw [List.replicate_succ', ← List.append_assoc, run, List.foldl_append, ← run, ih,
        Function.iterate_succ_apply']
      rfl

/-- What is seen of the worker. -/
def seen (past : List Moment) : List Event := past.filterMap Moment.seen?

/-- The worker finishes a job, if nothing comes from outside meanwhile. -/
theorem exists_work_job (j : Job) (left : List Action) (line : List Errand) (past : List Moment) :
    ∃ n moments, (work x)^[n] ⟨line, some ⟨j, left⟩, past⟩ =
        ⟨line ++ (perform x x.worker left).posted.map .job, none, past ++ moments⟩ ∧
      seen moments = (perform x x.worker left).seen ++
        if (perform x x.worker left).done then [.finish j.name] else [] := by
  induction left generalizing line past with
  | nil => exact ⟨1, [.ended j true], by simp [perform, work, act, finish, note], rfl⟩
  | cons a left ih =>
      cases a with
      | panic => exact ⟨1, [.ended j false], by simp [perform, work, act, finish, note], rfl⟩
      | flush =>
          obtain ⟨n, moments, hwork, hseen⟩ := ih line (past ++ [.answered true x.worker (.flushed false)])
          refine ⟨n + 1, .answered true x.worker (.flushed false) :: moments, ?_, ?_⟩
          · rw [Function.iterate_succ_apply, List.append_cons past, work_flush]
            exact hwork
          · rw [perform, x.flushed_worker]
            exact congrArg (.flushed false :: ·) hseen
      | isCurrentThread =>
          let answer : Event := .onWorker (x.isCurrentThread x.worker)
          obtain ⟨n, moments, hwork, hseen⟩ := ih line (past ++ [.answered true x.worker answer])
          refine ⟨n + 1, .answered true x.worker answer :: moments, ?_, ?_⟩
          · rw [Function.iterate_succ_apply, List.append_cons]
            exact hwork
          · exact congrArg (answer :: ·) hseen
      | post name actions =>
          obtain ⟨n, moments, hwork, hseen⟩ :=
            ih (line ++ [.job ⟨name, actions⟩]) (past ++ [.posted true ⟨name, actions⟩])
          refine ⟨n + 1, .posted true ⟨name, actions⟩ :: moments, ?_, hseen⟩
          rw [Function.iterate_succ_apply, List.append_cons past, perform, Trace.post, List.map_cons,
            List.append_cons line]
          exact hwork

/-- Left to itself, the worker does all the jobs in line and those that come of them. -/
theorem exists_work_line (queue : List Job) (past : List Moment) :
    ∃ n moments, (work x)^[n] ⟨queue.map .job, none, past⟩ = ⟨[], none, past ++ moments⟩ ∧
      seen moments = serve x queue := by
  induction queue using serve.induct x generalizing past with
  | case1 => exact ⟨0, [], by simp, by simp [seen, serve]⟩
  | case2 j rest ih =>
      obtain ⟨n, moments, hwork, hseen⟩ := exists_work_job j j.actions (rest.map .job) (past ++ [.started j])
      obtain ⟨n', moments', hwork', hseen'⟩ := ih (past ++ .started j :: moments)
      refine ⟨n' + (n + 1), .started j :: moments ++ moments', ?_, ?_⟩
      · have hfirst : work x ⟨(j :: rest).map .job, none, past⟩ =
            ⟨rest.map .job, some ⟨j, j.actions⟩, past ++ [.started j]⟩ := rfl
        rw [Function.iterate_add_apply, Function.iterate_succ_apply, hfirst, hwork, ← List.append_cons,
          ← List.append_assoc, ← hwork', List.map_append]
        rfl
      · have hevents : j.events x = .start j.name :: seen moments := by
          rw [hseen]
          rfl
        rw [serve, ← hseen', hevents, seen, List.filterMap_append]
        rfl

end Office

/-- The jobs are done in the order of their posting: first those that are there, then those posted by each of
all of these. -/
theorem exists_order (x : Executor) (queue : List Job) :
    ∃ order : List Job, order = queue ++ order.flatMap (Job.posted x) ∧
      serve x queue = order.flatMap (Job.events x) := by
  induction queue using serve.induct x with
  | case1 => exact ⟨[], rfl, by simp [serve]⟩
  | case2 j rest ih =>
      obtain ⟨order, horder, hrun⟩ := ih
      refine ⟨j :: order, ?_, ?_⟩
      · rw [List.flatMap_cons, List.cons_append, ← List.append_assoc, ← horder]
      · rw [serve, hrun, List.flatMap_cons]

namespace Office

variable {o : Office}

theorem orderly_of_run (turns : List Turn) : (run x turns).Orderly x where
  jobs := by
    have hlined : (run x turns).Lined := lined_run turns
    rw [posted_eq, hlined.line, List.filterMap_append, hlined.jobs]
  callers := by
    rw [asked_eq, (lined_run turns).line, List.filterMap_append, released_eq]
  stories := storied_run turns
  flushed := flushed_run turns
  inside caller e h := by
    obtain ⟨hown, hright⟩ := told_run turns true caller e h
    cases hright with
    | flushed => exact .inl rfl
    | onWorker => exact .inr (congrArg Event.onWorker (decide_eq_true (hown rfl)))
  outside caller e h hother := by
    obtain ⟨-, hright⟩ := told_run turns false caller e h
    cases hright with
    | flushed own => exact absurd own hother
    | onWorker => exact congrArg Event.onWorker (decide_eq_false hother)

theorem Orderly.whole (h : o.Orderly x) (hrest : o.AtRest) :
    ended o.past = posted o.past ∧ released o.past = asked o.past := by
  obtain ⟨hline, hbusy⟩ := hrest
  rw [h.jobs, h.callers, hline, current, hbusy]
  simp

theorem run_posts (x : Executor) (jobs : List Job) :
    ∃ past, run x (jobs.map .post) = ⟨jobs.map .job, none, past⟩ ∧ seen past = [] := by
  induction jobs using List.reverseRecOn with
  | nil => exact ⟨[], rfl, rfl⟩
  | append_singleton jobs j ih =>
      obtain ⟨past, hrun, hseen⟩ := ih
      refine ⟨past ++ [.posted false j], ?_, ?_⟩
      · rw [List.map_append, run, List.foldl_append, ← run, hrun, List.map_append]
        rfl
      · rw [seen, filterMap_concat, ← seen, hseen]
        rfl

/-- Whatever is posted to the worker and whenever, it does all of it in the order of the
posting, and comes to rest. -/
theorem orderly_run (x : Executor) (turns : List Turn) (jobs : List Job) :
    (run x turns).Orderly x ∧
      (∃ n, ∀ m ≥ n, let o := run x (turns ++ .replicate m .work)
        o.AtRest ∧ ended o.past = posted o.past ∧ released o.past = asked o.past) ∧
      ∃ order : List Job, order = jobs ++ order.flatMap (Job.posted x) ∧
        serve x jobs = order.flatMap (Job.events x) ∧
          ∃ n, ∀ m ≥ n, seen (run x (jobs.map .post ++ .replicate m .work)).past = serve x jobs := by
  refine ⟨orderly_of_run turns, ⟨(run x turns).toDo, fun m hm => ?_⟩, ?_⟩
  · have hrest : (run x (turns ++ .replicate m .work)).AtRest := by
      rw [run_left]
      exact atRest_iterate hm
    exact ⟨hrest, (orderly_of_run _).whole hrest⟩
  · obtain ⟨order, horder, hrun⟩ := exists_order x jobs
    obtain ⟨past, hposts, hquiet⟩ := run_posts x jobs
    obtain ⟨n, moments, hwork, hseen⟩ := exists_work_line (x := x) jobs past
    refine ⟨order, horder, hrun, n, fun m hm => ?_⟩
    obtain ⟨k, rfl⟩ := Nat.exists_eq_add_of_le' hm
    have hrest : work x ⟨[], none, past ++ moments⟩ = ⟨[], none, past ++ moments⟩ := rfl
    rw [run_left, hposts, Function.iterate_add_apply, hwork, Function.iterate_fixed hrest, seen,
      List.filterMap_append, ← seen, ← seen, hquiet, hseen, List.nil_append]

/-- A job that posts two and then panics, while someone has the line flushed and posts a third. -/
example :
    let left : Job := ⟨"left", [.flush, .panic, .isCurrentThread]⟩
    let first : Job := ⟨"first", [.post "left" left.actions, .post "right" [], .panic, .flush]⟩
    let turns : List Turn := [.post first, .work, .work, .flush 7, .work, .isCurrentThread 7,
      .post ⟨"last", [.isCurrentThread]⟩]
    let o := run ⟨1⟩ (turns ++ .replicate 12 .work)
    (posted o.past).map (·.name) = ["first", "left", "right", "last"] ∧
      (ended o.past).map (·.name) = ["first", "left", "right", "last"] ∧ released o.past = [7] ∧
        seen o.past = [.start "first", .start "left", .flushed false, .start "right", .finish "right",
          .start "last", .onWorker true, .finish "last"] := by
  decide +kernel

end Office

end GroundLink.Worker
