import GroundLink.Proofs.Strike

/-! Messages that change nothing. A job leaves some messages as if they had not come (`Activity.spurns`):
those it does not listen to, those that come out of turn, and answers that are for someone else or to another
command. Whether a message is one of them is seen when its turn comes in a queue, not when it comes in. If it
is for each queue that takes it, a run in which it comes in does what the same run does without it. -/

namespace GroundLink

open Function Deed

/-- Whether a job does not listen to a message, for what it is or for where it comes from. Answers to commands
come in whoever sends them. -/
def Task.shuns (sender : Address) (m : Message) : Task → Bool
  | command _ => false
  | transfer t => decide (m.kind ∉ t.kinds ∨ t.peer.system ≠ 0 ∧ sender.system ≠ t.peer.system)

/-- Answers that are addressed elsewhere or to another command, and one that tells of no result. -/
def Attempt.spurns (own : Address) (a : Attempt) : Message → Bool
  | .commandAck ack => !isFor own ack.target || ack.command ≠ a.request.command || ack.result = .cancelled
  | _ => false

namespace Upload

/-- Whether there is no item of the given number, or its turn has not come. -/
def beyond (u : Upload) (s : State) (seq : Nat) : Bool := u.items.length ≤ seq || s.stage.next < seq

def spurns (u : Upload) (s : State) : Message → Bool
  | .missionRequest r => u.autopilot = .ardupilot && u.beyond s r.seq.toNat
  | .missionRequestInt r => u.beyond s r.seq.toNat
  | _ => false

end Upload

/-- A count is for the first stage of a download, and items are for the second. -/
def Download.State.spurns : Download.State → Message → Bool
  | collecting _, .missionCount _ => true
  | listing _, .missionItemInt _ => true
  | _, _ => false

namespace Activity

/-- The messages that leave a job as it is. -/
def spurns (own sender : Address) (m : Message) (a : Activity) : Bool :=
  a.task.shuns sender m ||
    match a with
    | command a _ => a.spurns own m
    | upload u s => u.spurns s m
    | download _ s => s.spurns m
    | _ => false

end Activity

section Spurned

variable {own sender : Address} {m : Message}

theorem Attempt.onMessage_spurned {a : Attempt} (h : a.spurns own m) (p : Policy) (retries : Nat) :
    a.onMessage p own retries m = .ignore := by
  cases m with
  | commandAck ack =>
      simp only [spurns, Bool.or_eq_true, decide_eq_true_eq] at h
      rw [onMessage, onAck]
      split
      · rfl
      · next hours =>
          have hcancelled : ack.result = .cancelled :=
            h.resolve_left fun h => hours (by simpa only [Bool.or_eq_true, decide_eq_true_eq] using h)
          rw [hcancelled]
  | _ => rfl

theorem Upload.onRequest_beyond {u : Upload} {s : State} {seq : Nat} (h : u.beyond s seq) (p : Policy) :
    u.onRequest p s seq = .ignore := by
  simp only [beyond, Bool.or_eq_true, decide_eq_true_eq] at h
  rw [onRequest]
  rcases h with hend | hlate
  · rw [List.getElem?_eq_none hend]
  · cases u.items[seq]? with
    | none => rfl
    | some item => exact if_pos hlate

theorem Upload.onMessage_spurned {u : Upload} {s : State} (h : u.spurns s m) (p : Policy) (sender : Address) :
    u.onMessage p s sender m = .ignore := by
  cases m with
  | missionRequest r =>
      simp only [spurns, Bool.and_eq_true, decide_eq_true_eq] at h
      exact (if_pos h.1).trans (onRequest_beyond h.2 p)
  | missionRequestInt r => exact onRequest_beyond h p
  | _ => cases h

theorem Download.onMessage_spurned {s : State} (h : s.spurns m) (d : Download) :
    d.onMessage s m = .ignore := by
  cases s <;> cases m <;> first | rfl | cases h

/-- A message that a job listens to but spurns leaves it where it is. -/
theorem Activity.onMessage_spurned {a : Activity} {setting : Setting} (h : a.spurns setting.own sender m)
    (hheard : a.task.shuns sender m = false) : a.onMessage setting sender m = .ignore := by
  cases a with
  | command a retries =>
      simp only [spurns, hheard, Bool.false_or] at h
      exact congrArg (Move.map _) (a.onMessage_spurned h _ retries)
  | upload u s =>
      simp only [spurns, hheard, Bool.false_or] at h
      exact congrArg (Move.map _) (u.onMessage_spurned h _ sender)
  | download d s =>
      simp only [spurns, hheard, Bool.false_or] at h
      exact congrArg (Move.map _) (Download.onMessage_spurned h d)
  | _ =>
      simp only [spurns, hheard, Bool.false_or] at h
      cases h

theorem Taking.idle_of_spurned {x : Taking} {header : Header}
    (h : x.job.activity.spurns x.hub.link.own header.sender m)
    (hheard : x.job.activity.task.shuns header.sender m = false) {job : Option Nat}
    (hevent : x.event = .message job header m) (s : Service) : x.Idle s := by
  obtain ⟨r, hub, e⟩ := x
  obtain rfl : e = .message job header m := hevent
  by_cases hc : (Event.message job header m).Concerns r
  · have hignored : r.activity.onMessage (hub.setting s) header.sender m = .ignore :=
      Activity.onMessage_spurned h hheard
    refine (r.take_heard hc s hub header m).trans ?_
    rw [hignored]
    rfl
  · exact Running.take_stray hc s hub

end Spurned

namespace Deed

/-- What becomes of the events that are taken, in order: they are what a job acts on, or they are dropped. -/
def fates (log : List Deed) : List (Option Taking) :=
  log.filterMap fun
    | heeded x => some (some x)
    | dropped _ => some none
    | _ => none

theorem length_fates (log : List Deed) : (fates log).length = (taken log).length := by
  induction log with
  | nil => rfl
  | cons x rest ih => cases x <;> first | exact ih | exact congrArg (· + 1) ih

theorem fates_of_heeded {past rest : List Deed} {x : Taking} :
    (fates (past ++ .heeded x :: rest))[(taken past).length]? = some (some x) := by
  have hsplit : fates (past ++ .heeded x :: rest) = fates past ++ some x :: fates rest := by
    simp [fates]
  rw [hsplit, ← length_fates, List.getElem?_append_right le_rfl, Nat.sub_self, List.getElem?_cons_zero]

end Deed

/-- What is left for a job under way is for it, and one of those it listens to. -/
theorem Running.shuns_of_mem_hears {r : Running} {header : Header} {m : Message} {e : Event}
    (h : e ∈ r.hears header m) :
    e = .message (some r.number) header m ∧ r.activity.task.shuns header.sender m = false := by
  rw [hears] at h
  split at h
  · next hheard =>
      refine ⟨List.mem_singleton.mp h, ?_⟩
      cases ht : r.activity.task with
      | command a => rfl
      | transfer t =>
          rw [ht] at hheard
          simp only [Task.shuns, decide_eq_false_iff_not, not_or, not_and_or, not_not]
          exact hheard
  · cases h

theorem JobQueue.message_of_mem_hears {q : JobQueue} {header : Header} {m : Message} {s : Service} {e : Event}
    (h : e ∈ q.hears header m s) : ∃ job, e = .message job header m := by
  obtain _ | side := s
  · rw [hears] at h
    split at h
    · exact ⟨_, List.mem_singleton.mp h⟩
    · cases h
  · obtain ⟨r, _, hr⟩ := List.mem_flatMap.mp h
    exact ⟨_, (Running.shuns_of_mem_hears hr).1⟩

namespace Engine

variable (config : Config) (link : Link) (clock : Instant)

/-- What the job under way is about is what was asked for by its number. -/
theorem task_of_running {s : Service} {before : List Input} (after : List Input) {r : Running}
    (hr : (((idle config link clock).run before).engine.queue s).running = some r) :
    (submitted (before ++ after) s)[r.number]? = some r.activity.task := by
  have hasked : (submitted before s)[r.number]? = some r.activity.task :=
    (sound_run config link clock before).lined.asked (JobQueue.slot_mem_line hr)
  have happend : submitted (before ++ after) s = submitted before s ++ submitted after s :=
    List.filterMap_append
  rw [happend, List.getElem?_append_left (List.getElem?_eq_some_iff.mp hasked).1]
  exact hasked

/-- What acts on a message a queue got when it came in is a command or listens to the message. -/
theorem heard_of_hears {before after : List Input} {header : Header} {m : Message} {s : Service} {x : Taking}
    (hx : .heeded x ∈ ((idle config link clock).run before).engine.log s after)
    (hevent : x.event ∈ (((idle config link clock).run before).engine.queue s).hears header m s)
    (hconcerns : x.event.Concerns x.job) : x.job.activity.task.shuns header.sender m = false := by
  have hasked : (submitted (before ++ after) s)[x.job.number]? = some x.job.activity.task := by
    refine known_run config link clock s (before ++ after) x ?_
    rw [log_append]
    exact List.mem_append_right _ hx
  obtain _ | side := s
  · obtain ⟨a, ha⟩ := command_submitted hasked
    rw [ha]
    rfl
  · obtain ⟨r, hr, hhears⟩ := List.mem_flatMap.mp hevent
    have htask := task_of_running config link clock after (Option.mem_toList.mp hr)
    obtain ⟨heq, hheard⟩ := Running.shuns_of_mem_hears hhears
    rw [heq] at hconcerns
    obtain hn : r.number = x.job.number := by simpa [Event.Concerns] using hconcerns
    rw [← hn, htask] at hasked
    rw [← Option.some.inj hasked]
    exact hheard

/-- The job that acts on a message which a queue gets, with what it finds, when the
turn of the message comes. -/
def meets? (e : Engine) (s : Service) (header : Header) (m : Message) (after : List Input) : Option Taking :=
  if (e.queue s).hears header m s = [] then none
  else (fates (e.log s (.receive header m :: after)))[(e.queue s).events.length]?.join

/-- The place of a message among the events of the queues that get it. -/
def placeOf (e : Engine) (header : Header) (m : Message) (s : Service) : Option Nat :=
  if (e.queue s).hears header m s = [] then none else some (e.queue s).events.length

theorem hub_receive (e : Engine) (header : Header) (m : Message) : (e.receive header m).hub = e.hub := by
  have hall : ∀ (subscribers : List Subscriber) (e : Engine),
      (subscribers.foldl (deliver header m) e).hub = e.hub := by
    intro subscribers
    induction subscribers with
    | nil => exact fun _ => rfl
    | cons x rest ih =>
        intro e
        rw [List.foldl_cons, ih]
        cases x with
        | commands => exact hub_withQueue _ _ _
        | job ticket system =>
            rw [deliver]
            split
            · exact hub_withQueue _ _ _
            · rfl
  exact hall _ e

/-- Once a message has come in, the engine without it is as it was before. -/
theorem beside_receive (before : List Input) (header : Header) (m : Message) :
    let e := ((idle config link clock).run before).engine
    Beside (e.placeOf header m) (fun s => ((e.queue s).hears header m s).headD default)
      (e.receive header m) e := by
  intro e
  have hqueue : ∀ s, (e.receive header m).queue s =
      (e.queue s).withEvents ((e.queue s).events ++ (e.queue s).hears header m s) :=
    fun s => queue_receive config link clock before s header m
  refine ⟨(e.hub_receive header m).symm, fun s => ?_, fun s n hn => ?_⟩
  · rw [hqueue, placeOf]
    by_cases hnone : (e.queue s).hears header m s = []
    · rw [if_pos hnone, hnone, List.append_nil]
      rfl
    · obtain ⟨x, hx⟩ := List.length_eq_one_iff.mp
        ((JobQueue.length_hears_le _ header m s).antisymm (List.length_pos_of_ne_nil hnone))
      have hold : ((e.queue s).events ++ [x]).eraseIdx (e.queue s).events.length = (e.queue s).events := by
        rw [List.eraseIdx_append_of_length_le le_rfl, Nat.sub_self, List.eraseIdx_cons_zero, List.append_nil]
      rw [if_neg hnone, hx]
      simp only [JobQueue.strike, JobQueue.withEvents, Option.elim_some, hold]
  · rw [placeOf] at hn
    split at hn
    · cases hn
    · next hsome =>
        cases hn
        rw [hqueue]
        obtain ⟨x, rest, hx⟩ := List.exists_cons_of_ne_nil hsome
        rw [hx]
        simp [JobQueue.withEvents]

/-- A message that comes in and is spurned by every job that comes to act on it changes nothing of what an
engine does from then on: nothing of what it sends and tells, of its jobs and those that wait, of its timers
and of its handlers. -/
theorem run_ignores (before after : List Input) (header : Header) (m : Message)
    (hspurned : ∀ s x, ((idle config link clock).run before).engine.meets? s header m after = some x →
      x.job.activity.spurns x.hub.link.own header.sender m) :
    let r := (idle config link clock).run (before ++ after)
    let r' := (idle config link clock).run (before ++ .receive header m :: after)
    r'.effects = r.effects ∧ r'.engine.hub = r.engine.hub ∧
      ∀ s, (r'.engine.queue s).running = (r.engine.queue s).running ∧
        (r'.engine.queue s).waiting = (r.engine.queue s).waiting ∧
          (r'.engine.queue s).submitted = (r.engine.queue s).submitted := by
  intro r r'
  let e := ((idle config link clock).run before).engine
  have hidle : ∀ s past x rest, (e.receive header m).log s after = past ++ .heeded x :: rest →
      e.placeOf header m s = some (taken past).length →
        x.event = ((e.queue s).hears header m s).headD default →
        x.Idle s := by
    intro s past x rest hlog hplace hx
    have hsome : (e.queue s).hears header m s ≠ [] := fun hnone => by simp [placeOf, hnone] at hplace
    rw [placeOf, if_neg hsome, Option.some.injEq] at hplace
    have hall : e.log s (.receive header m :: after) =
        ((e.queue s).hears header m s).map .posted ++ past ++ .heeded x :: rest := by
      rw [log, deeds_receive, step, hlog, List.append_assoc]
    have hevent : x.event ∈ (e.queue s).hears header m s := by
      obtain ⟨y, others, hy⟩ := List.exists_cons_of_ne_nil hsome
      rw [hx, hy]
      exact List.mem_cons_self
    have hmeets : e.meets? s header m after = some x := by
      have hplace' : (taken (((e.queue s).hears header m s).map .posted ++ past)).length =
          (e.queue s).events.length := by
        rw [hplace, taken, List.filterMap_append, ← taken, taken_posted, List.nil_append, ← taken]
      rw [meets?, if_neg hsome, hall, ← hplace', fates_of_heeded, Option.join_some]
    by_cases hconcerns : x.event.Concerns x.job
    · obtain ⟨job, hjob⟩ := JobQueue.message_of_mem_hears hevent
      have hlogged : .heeded x ∈ e.log s (.receive header m :: after) := by
        rw [hall]
        exact List.mem_append_right _ List.mem_cons_self
      have hheard := heard_of_hears config link clock hlogged hevent hconcerns
      exact Taking.idle_of_spurned (hspurned s x hmeets) hheard hjob s
    · exact Running.take_stray hconcerns s x.hub
  obtain ⟨heffects, p, hbeside⟩ := (beside_receive config link clock before header m).run after hidle
  have hwithout : r = ((idle config link clock).run before).next (·.run after) := run_append _ _ _
  have hwith : r' = ((idle config link clock).run before).next fun e => (e.receive header m).run after :=
    (run_append _ before (.receive header m :: after)).trans rfl
  rw [hwithout, hwith]
  refine ⟨congrArg (_ ++ ·) heffects.symm, hbeside.hub.symm, fun s => ?_⟩
  have hqueue := (hbeside.queue s).symm
  exact ⟨(congrArg JobQueue.running hqueue :), (congrArg JobQueue.waiting hqueue :),
    (congrArg JobQueue.submitted hqueue :)⟩

/-- A count that comes in before the first one was looked at changes nothing of a download:
the first one opens it. -/
theorem run_ignores_second_count :
    let e := idle .default default 0
    let header : Header := ⟨.pilotOf 1, 0⟩
    let count (n : UInt16) : Message := .missionCount ⟨n, Config.default.own, .mission⟩
    let before : List Input :=
      [.transfer .client (.download ⟨⟨.pilotOf 1, .mission⟩, true⟩) .queue, .tick, .receive header (count 2)]
    let after : List Input := [.tick, .advance 600000, .tick]
    (∀ s x, (e.run before).engine.meets? s header (count 5) after = some x →
        x.job.activity.spurns x.hub.link.own header.sender (count 5)) ∧
      ((e.run before).engine.meets? (.mission .client) header (count 5) after).isSome ∧
        (e.run (before ++ after)).effects.length = 4 ∧
          (e.run (before ++ .receive header (count 5) :: after)).effects =
            (e.run (before ++ after)).effects := by
  intro e header count before after
  have hspurned : ∀ s, ∀ x ∈ (e.run before).engine.meets? s header (count 5) after,
      x.job.activity.spurns x.hub.link.own header.sender (count 5) := by
    rintro (_ | ⟨_ | _⟩) <;> decide +kernel
  exact ⟨hspurned, by decide +kernel, by decide +kernel,
    (run_ignores .default default 0 before after header (count 5) hspurned).1⟩

end Engine

end GroundLink
