import GroundLink.Proofs.Isolation

/-! An event that comes to nothing. Two engines may differ in one event of each queue that is still to be
taken (`Engine.Beside`). If it leaves the job that takes it as it was, then nothing else ever comes of it:
what the engines do is the same, and when the event was taken they are too. -/

namespace GroundLink

open Function Deed

/-- Whether nothing comes of an event that a job acts on. -/
def Taking.Idle (s : Service) (x : Taking) : Prop := x.job.take s x.hub x.event = ⟨.running x.job, x.hub, []⟩

/-- A queue without the event in the given place. -/
def JobQueue.strike (q : JobQueue) (k : Option Nat) : JobQueue :=
  q.withEvents (k.elim q.events q.events.eraseIdx)

def Turn.strike (t : Turn) (k : Option Nat) : Turn := { t with queue := t.queue.strike k }

namespace Running

variable {s : Service} {e : Event}

theorem taken_deed (r : Running) (h : Hub) (e : Event) : (r.deed h e).takes? = some e := by
  rw [deed]
  split <;> rfl

/-- Events ahead of one that comes to nothing and those behind it are taken in as if it were not there. -/
theorem takeAll_strike (behind : List Event) (ahead : List Event) :
    ∀ (r : Running) (h : Hub),
      (∀ past x rest, r.deeds s (ahead ++ e :: behind) h = past ++ .heeded x :: rest →
        (taken past).length = ahead.length → x.event = e → x.Idle s) →
      takeAll s (ahead ++ e :: behind) r h = takeAll s (ahead ++ behind) r h := by
  induction ahead with
  | nil =>
      intro r h hidle
      have htake : r.take s h e = ⟨.running r, h, []⟩ := by
        by_cases hc : e.Concerns r
        · obtain ⟨rest, hdeeds⟩ : ∃ rest, r.deeds s (e :: behind) h = .heeded ⟨r, h, e⟩ :: rest := by
            rw [deeds, deed, if_pos hc]
            exact ⟨_, rfl⟩
          exact hidle [] ⟨r, h, e⟩ rest hdeeds rfl rfl
        · exact take_stray hc s h
      simp only [List.nil_append, takeAll, htake, Progress.preceded]
  | cons e₀ ahead ih =>
      intro r h hidle
      simp only [List.cons_append, takeAll]
      cases hp : (r.take s h e₀).standing with
      | ended x => rfl
      | running r₁ =>
          have hrest := ih r₁ (r.take s h e₀).hub fun past x rest hpast hlength hx => by
            refine hidle (r.deed h e₀ :: past) x rest ?_ ?_ hx
            · simp only [List.cons_append, deeds, hp, hpast]
            · rw [taken, List.filterMap_cons_some (taken_deed r h e₀), List.length_cons, ← taken, hlength,
                List.length_cons]
          simp only [hrest]

end Running

namespace JobQueue

variable {s : Service} {q : JobQueue} {e : Event} {k : Option Nat}

@[simp] theorem strike_running (q : JobQueue) (k : Option Nat) : (q.strike k).running = q.running := rfl

@[simp] theorem strike_waiting (q : JobQueue) (k : Option Nat) : (q.strike k).waiting = q.waiting := rfl

@[simp] theorem strike_none (q : JobQueue) : q.strike none = q := rfl

theorem strike_post (hk : ∀ n, k = some n → n < q.events.length) (x : Event) :
    (q.post x).strike k = (q.strike k).post x := by
  cases k with
  | none => rfl
  | some n =>
      simp only [strike, post, withEvents, Option.elim_some]
      rw [List.eraseIdx_append_of_lt_length (hk n rfl)]

theorem submit_strike (q : JobQueue) (k : Option Nat) (s : Service) (h : Hub) (task : Task)
    (admission : Admission) :
    (q.strike k).submit s h task admission = (q.submit s h task admission).strike k := by
  by_cases ha : admission = .queue ∨ q.isIdle = true
  · have hstruck : admission = .queue ∨ (q.strike k).isIdle = true := ha
    rw [submit_admitted ha, submit_admitted hstruck]
    rfl
  · have hstruck : ¬(admission = .queue ∨ (q.strike k).isIdle = true) := ha
    rw [submit_busy ha, submit_busy hstruck]
    rfl

theorem cancelWaiting_strike (q : JobQueue) (k : Option Nat) (s : Service) (h : Hub) (number : Nat) :
    ((q.strike k).cancelWaiting s h number).2 = (q.cancelWaiting s h number).2.strike k := by
  simp only [cancelWaiting, strike_waiting]
  cases q.waiting.removeFirst? (·.number = number) <;> rfl

theorem cancel_strike (q : JobQueue) (k : Option Nat) (s : Service) (h : Hub) (number : Nat) :
    ((q.strike k).cancel s h number).2 = (q.cancel s h number).2.strike k := by
  cases hr : q.running with
  | none => simpa only [cancel, strike_running, hr] using q.cancelWaiting_strike k s h number
  | some r =>
      by_cases hn : r.number = number
      · simp only [cancel, strike_running, hr, if_pos hn]
        cases (r.cancel s h).standing <;> rfl
      · simpa only [cancel, strike_running, hr, if_neg hn] using q.cancelWaiting_strike k s h number

theorem events_submit (q : JobQueue) (s : Service) (h : Hub) (task : Task) (admission : Admission) :
    (q.submit s h task admission).queue.events = q.events := by
  rw [submit]
  split <;> rfl

theorem events_cancelWaiting (q : JobQueue) (s : Service) (h : Hub) (number : Nat) :
    (q.cancelWaiting s h number).2.queue.events = q.events := by
  rw [cancelWaiting]
  split <;> rfl

theorem events_cancel (q : JobQueue) (s : Service) (h : Hub) (number : Nat) :
    (q.cancel s h number).2.queue.events = q.events := by
  rw [cancel]
  split
  · exact q.events_cancelWaiting s h number
  · split
    · simp only
      split <;> rfl
    · exact q.events_cancelWaiting s h number

/-- A queue works as if an event that comes to nothing were not there. -/
theorem work_strike {n : Nat} {h : Hub} (he : q.events[n]? = some e)
    (hidle : ∀ past x rest, q.deeds s h = past ++ .heeded x :: rest → (taken past).length = n → x.event = e →
      x.Idle s) :
    (q.strike (some n)).work s h = q.work s h := by
  cases hr : q.running with
  | none => simp only [work, hr, goOn, strike, withEvents]
  | some r =>
      obtain ⟨hlt, hget⟩ := List.getElem?_eq_some_iff.mp he
      have hsplit : q.events = q.events.take n ++ e :: q.events.drop (n + 1) := by
        rw [← hget, List.getElem_cons_drop, List.take_append_drop]
      have hlength : (q.events.take n).length = n := List.length_take_of_le hlt.le
      have hall : Running.takeAll s (q.strike (some n)).events r h = Running.takeAll s q.events r h := by
        have hstruck : (q.strike (some n)).events = q.events.take n ++ q.events.drop (n + 1) :=
          List.eraseIdx_eq_take_drop_succ _ _
        rw [hstruck]
        refine Eq.trans (Running.takeAll_strike _ _ r h fun past x rest hpast hn hx => ?_).symm
          (by rw [← hsplit])
        rw [← hsplit] at hpast
        obtain ⟨more, hmore⟩ : ∃ more, q.deeds s h = r.deeds s q.events h ++ more := by
          rw [deeds, hr]
          exact ⟨_, rfl⟩
        refine hidle past x (rest ++ more) ?_ (hn.trans hlength) hx
        rw [hmore, hpast, List.append_assoc, List.cons_append]
      simp only [work, strike_running, hr, hall]
      cases (Running.takeAll s q.events r h).standing with
      | running r' => rfl
      | ended x => simp only [goOn, strike, withEvents]

end JobQueue

/-- The places of the events that are struck, once an input was taken in: a queue
that works takes them all. -/
def Input.left (p : Service → Option Nat) : Input → Service → Option Nat
  | .work t => update p t none
  | _ => p

/-- What a look at everything consists of. -/
def Input.parts : Input → List Input
  | .tick => [.fireTimers, .work .commands, .work (.mission .client), .work (.mission .server)]
  | i => [i]

namespace Engine

variable {p : Service → Option Nat} {event : Service → Event} {f e : Engine}

/-- Whether an engine is another without the given event of each queue, if there is one. -/
structure Beside (p : Service → Option Nat) (event : Service → Event) (f e : Engine) : Prop where
  hub : e.hub = f.hub
  queue : ∀ s, e.queue s = (f.queue s).strike (p s)
  ahead : ∀ s n, p s = some n → (f.queue s).events[n]? = some (event s)

theorem queue_afterTurn (e : Engine) (s : Service) (t : Turn) :
    (e.afterTurn s t).engine.queue = update e.queue s t.queue := by
  rw [afterTurn, queue_withHub, queue_withQueue]

namespace Beside

/-- One of the queues changes. -/
theorem change (h : Beside p event f e) {f' e' : Engine} {t : Service} {q : JobQueue} {k : Option Nat}
    (hhub : e'.hub = f'.hub) (hf : f'.queue = update f.queue t q)
    (he : e'.queue = update e.queue t (q.strike k)) (hk : ∀ n, k = some n → q.events[n]? = some (event t)) :
    Beside (update p t k) event f' e' := by
  refine ⟨hhub, fun s => ?_, fun s n hn => ?_⟩
  · rw [hf, he]
    by_cases hs : s = t
    · subst hs
      simp only [update_self]
    · simp only [update_of_ne hs, h.queue]
  · rw [hf]
    by_cases hs : s = t
    · subst hs
      rw [update_self] at hn ⊢
      exact hk n hn
    · rw [update_of_ne hs] at hn ⊢
      exact h.ahead s n hn

theorem turn (h : Beside p event f e) {t : Service} {x y : Turn} (hy : y = x.strike (p t))
    (hevents : x.queue.events = (f.queue t).events) :
    (e.afterTurn t y).effects = (f.afterTurn t x).effects ∧
      Beside p event (f.afterTurn t x).engine (e.afterTurn t y).engine := by
  subst hy
  have hhub : (e.afterTurn t (x.strike (p t))).engine.hub = (f.afterTurn t x).engine.hub := rfl
  have hchange := h.change hhub (f.queue_afterTurn t x) (e.queue_afterTurn t (x.strike (p t))) fun n hn => by
    rw [hevents]
    exact h.ahead t n hn
  rw [update_eq_self] at hchange
  exact ⟨rfl, hchange⟩

theorem post (h : Beside p event f e) (t : Service) (x : Event) :
    Beside p event (f.post t x) (e.post t x) := by
  have hlt : ∀ n, p t = some n → n < (f.queue t).events.length := fun n hn =>
    (List.getElem?_eq_some_iff.mp (h.ahead t n hn)).1
  have hhub : (e.post t x).hub = (f.post t x).hub := by
    simp only [Engine.post, hub_withQueue, h.hub]
  have hqueue : (e.post t x).queue = update e.queue t (((f.queue t).post x).strike (p t)) := by
    rw [Engine.post, queue_withQueue, h.queue, JobQueue.strike_post hlt]
  have hchange := h.change hhub (queue_withQueue f _ t) hqueue fun n hn => by
    rw [JobQueue.post, List.getElem?_append_left (hlt n hn)]
    exact h.ahead t n hn
  rwa [update_eq_self] at hchange

theorem deliver (h : Beside p event f e) (header : Header) (m : Message) (x : Subscriber) :
    Beside p event (f.deliver header m x) (e.deliver header m x) := by
  cases x with
  | commands => exact h.post _ _
  | job ticket system =>
      rw [Engine.deliver, Engine.deliver]
      split
      · exact h.post _ _
      · exact h

theorem receive (h : Beside p event f e) (header : Header) (m : Message) :
    Beside p event (f.receive header m) (e.receive header m) := by
  have hall : ∀ (subscribers : List Subscriber) (f e : Engine), Beside p event f e →
      Beside p event (subscribers.foldl (Engine.deliver header m) f)
        (subscribers.foldl (Engine.deliver header m) e) := by
    intro subscribers
    induction subscribers with
    | nil => exact fun _ _ h => h
    | cons x rest ih => exact fun _ _ h => ih _ _ (h.deliver header m x)
  rw [Engine.receive, Engine.receive, h.hub]
  exact hall _ _ _ h

theorem withHub (h : Beside p event f e) (hub : Hub) : Beside p event { f with hub } { e with hub } := by
  refine ⟨rfl, fun s => ?_, fun s n hn => ?_⟩
  · rw [queue_withHub, queue_withHub]
    exact h.queue s
  · rw [queue_withHub]
    exact h.ahead s n hn

theorem passFrom (now : Instant) (horizon fuel : Nat) :
    ∀ (t : Timers Ticket) (f e : Engine), Beside p event f e →
      (Timers.passFrom now horizon expire fuel (t, e)).1 =
        (Timers.passFrom now horizon expire fuel (t, f)).1 ∧
        Beside p event (Timers.passFrom now horizon expire fuel (t, f)).2
          (Timers.passFrom now horizon expire fuel (t, e)).2 := by
  induction fuel with
  | zero => exact fun t f e h => ⟨rfl, h⟩
  | succ fuel ih =>
      intro t f e h
      simp only [Timers.passFrom]
      cases t.due? now horizon with
      | none => exact ⟨rfl, h⟩
      | some x => exact ih (t.remove x.cookie) _ _ (h.post _ _)

theorem fireTimers (h : Beside p event f e) : Beside p event f.fireTimers e.fireTimers := by
  obtain ⟨htimers, hrest⟩ := passFrom f.hub.clock f.hub.timers.issued f.hub.timers.size f.hub.timers f e h
  rw [fireTimers_eq, fireTimers_eq, h.hub]
  simp only [Timers.pass, withTimers]
  rw [htimers, hrest.hub]
  exact hrest.withHub _

theorem work (h : Beside p event f e) (t : Service)
    (hidle : ∀ past x rest, (f.queue t).deeds t f.hub = past ++ .heeded x :: rest →
      p t = some (taken past).length →
      x.event = event t → x.Idle t) :
    (e.work t).effects = (f.work t).effects ∧
      Beside (update p t none) event (f.work t).engine (e.work t).engine := by
  have hwork : (e.queue t).work t e.hub = (f.queue t).work t f.hub := by
    rw [h.queue, h.hub]
    cases hp : p t with
    | none => rfl
    | some n =>
        exact JobQueue.work_strike (h.ahead t n hp) fun past x rest hdeeds hn hx =>
          hidle past x rest hdeeds (by rw [hp, hn]) hx
  refine ⟨congrArg Turn.effects hwork,
    h.change (congrArg Turn.hub hwork) (queue_work f t) ?_ fun n hn => by cases hn⟩
  rw [queue_work, hwork, JobQueue.strike_none]

/-- An input other than a look at everything does the same to both engines. -/
theorem step (h : Beside p event f e) (i : Input) (hi : i ≠ .tick)
    (hidle : ∀ s past x rest, f.deeds s i = past ++ .heeded x :: rest → p s = some (taken past).length →
      x.event = event s → x.Idle s) :
    (e.step i).effects = (f.step i).effects ∧
      Beside (i.left p) event (f.step i).engine (e.step i).engine := by
  cases i with
  | command a =>
      refine h.turn (t := .commands) ?_ (JobQueue.events_submit _ _ _ _ _)
      rw [h.queue, h.hub]
      exact JobQueue.submit_strike _ _ _ _ _ _
  | transfer side t admission =>
      refine h.turn (t := .mission side) ?_ (JobQueue.events_submit _ _ _ _ _)
      rw [h.queue, h.hub]
      exact JobQueue.submit_strike _ _ _ _ _ _
  | cancel side number =>
      refine h.turn (t := .mission side) ?_ (JobQueue.events_cancel _ _ _ _)
      rw [h.queue, h.hub]
      exact JobQueue.cancel_strike _ _ _ _ _
  | receive header m => exact ⟨rfl, h.receive header m⟩
  | fireTimers => exact ⟨rfl, h.fireTimers⟩
  | work t => exact h.work t fun past x rest hdeeds => hidle t past x rest ((if_pos rfl).trans hdeeds)
  | tick => exact absurd rfl hi
  | _ =>
      refine ⟨rfl, ?_⟩
      simp only [Engine.step, withClock, withLink, h.hub]
      exact h.withHub _

end Beside

theorem taken_posted (events : List Event) : taken (events.map .posted) = [] := by
  rw [taken, List.filterMap_map]
  exact List.filterMap_eq_nil_iff.mpr fun _ _ => rfl

/-- Events are taken from a queue only when it works. -/
theorem taken_deeds (e : Engine) {s : Service} {i : Input} {n : Nat} (hi : i ≠ .tick)
    (hn : i.left p s = some n) :
    p s = some n ∧ taken (e.deeds s i) = [] := by
  cases i with
  | transfer side t admission =>
      refine ⟨hn, ?_⟩
      simp only [deeds, JobQueue.submitDeeds]
      split
      · split <;> rfl
      · rfl
  | cancel side number =>
      have hoff : taken ((e.queue s).calledOff number) = [] := by
        rw [JobQueue.calledOff]
        cases (e.queue s).waiting.removeFirst? (·.number = number) <;> rfl
      refine ⟨hn, ?_⟩
      simp only [deeds, JobQueue.cancelDeeds]
      split
      · cases (e.queue s).running with
        | none => exact hoff
        | some r =>
            simp only
            split
            · rfl
            · exact hoff
      · rfl
  | receive header m => exact ⟨hn, taken_posted _⟩
  | fireTimers => exact ⟨hn, taken_posted _⟩
  | work t =>
      by_cases ht : t = s
      · subst ht
        rw [Input.left, update_self] at hn
        cases hn
      · rw [Input.left, update_of_ne (Ne.symm ht)] at hn
        refine ⟨hn, ?_⟩
        rw [deeds, if_neg ht]
        rfl
  | tick => exact absurd rfl hi
  | _ => exact ⟨hn, rfl⟩

theorem Beside.run_small (inputs : List Input) :
    ∀ {p : Service → Option Nat} {f e : Engine}, Beside p event f e → (∀ i ∈ inputs, i ≠ .tick) →
      (∀ s past x rest, f.log s inputs = past ++ .heeded x :: rest → p s = some (taken past).length →
        x.event = event s → x.Idle s) →
      (e.run inputs).effects = (f.run inputs).effects ∧
        ∃ p', Beside p' event (f.run inputs).engine (e.run inputs).engine := by
  induction inputs with
  | nil => exact fun h _ _ => ⟨rfl, _, h⟩
  | cons i rest ih =>
      intro p f e h hticks hidle
      have hi : i ≠ .tick := hticks i List.mem_cons_self
      obtain ⟨heffects, hone⟩ := h.step i hi fun s past x more hdeeds =>
        hidle s past x (more ++ (f.step i).engine.log s rest)
          (by rw [log, hdeeds, List.append_assoc, List.cons_append])
      have hlater : ∀ j ∈ rest, j ≠ .tick := fun j hj => hticks j (List.mem_cons_of_mem _ hj)
      obtain ⟨hmore, p', hrest⟩ := ih hone hlater fun s past x more hlog hn hx => by
        obtain ⟨hp, htaken⟩ := f.taken_deeds hi hn
        have hall : taken (f.deeds s i ++ past) = taken past := by
          rw [taken, List.filterMap_append, ← taken, htaken, List.nil_append, ← taken]
        refine hidle s (f.deeds s i ++ past) x more (by rw [log, hlog, List.append_assoc]) ?_ hx
        rw [hp, hall]
      refine ⟨?_, p', hrest⟩
      simp only [Engine.run, Reaction.next, heffects, hmore]

theorem run_parts (inputs : List Input) :
    ∀ e : Engine, e.run (inputs.flatMap Input.parts) = e.run inputs := by
  induction inputs with
  | nil => exact fun e => rfl
  | cons i rest ih =>
      intro e
      have hone : e.run i.parts = e.step i := by
        cases i <;> simp [Input.parts, run, step, tick, Reaction.next]
      rw [List.flatMap_cons, run_append, hone, run]
      simp only [Reaction.next, ih]

theorem log_parts (s : Service) (inputs : List Input) :
    ∀ e : Engine, e.log s (inputs.flatMap Input.parts) = e.log s inputs := by
  induction inputs with
  | nil => exact fun e => rfl
  | cons i rest ih =>
      intro e
      have hone : e.log s i.parts = e.deeds s i := by
        cases i with
        | tick => obtain _ | ⟨_ | _⟩ := s <;> simp [Input.parts, log, deeds, step, atTurn]
        | _ => simp [Input.parts, log]
      have hrun : (e.run i.parts).engine = (e.step i).engine := by
        have hparts := run_parts [i] e
        rw [List.flatMap_singleton] at hparts
        rw [hparts]
        rfl
      rw [List.flatMap_cons, log_append, hone, hrun, ih, log]

/-- Two engines that differ in an event that comes to nothing do the same from then on. -/
theorem Beside.run (h : Beside p event f e) (inputs : List Input)
    (hidle : ∀ s past x rest, f.log s inputs = past ++ .heeded x :: rest → p s = some (taken past).length →
      x.event = event s → x.Idle s) :
    (e.run inputs).effects = (f.run inputs).effects ∧
      ∃ p', Beside p' event (f.run inputs).engine (e.run inputs).engine := by
  have hsmall : ∀ i ∈ inputs.flatMap Input.parts, i ≠ .tick := by
    intro i hi
    obtain ⟨j, _, hj⟩ := List.mem_flatMap.mp hi
    rintro rfl
    cases j <;> simp [Input.parts] at hj
  have hrun := h.run_small (inputs.flatMap Input.parts) hsmall fun s => by
    rw [log_parts]
    exact hidle s
  rwa [run_parts, run_parts] at hrun

end Engine

end GroundLink
