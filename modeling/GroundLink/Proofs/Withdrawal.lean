import GroundLink.Proofs.Teardown

/-! Calling a transfer off. It takes from an engine what is that transfer's, its place in the line, its timer
and its handlers, and nothing else (`Engine.without`); the peer gets one word of it, if the transfer is of a
list and was under way, and whoever asked for the transfer is told how it ended. A transfer that is not in its
queue leaves everything as it is. -/

namespace GroundLink

open Function

/-- The list a transfer is of; there is none if it only clears one or chooses an item. -/
def Transfer.list? : Transfer → Option ListRef
  | upload u => some u.list
  | download d => some d.list
  | receive r => some r.list
  | _ => none

def Subscriber.isFor (t : Ticket) : Subscriber → Bool
  | commands => false
  | job t' _ => t' = t

def JobQueue.without (q : JobQueue) (number : Nat) : JobQueue :=
  { q with
    running := q.running.filter (·.number ≠ number)
    waiting := ⟨q.waiting.items.filter (·.number ≠ number)⟩ }

def Hub.without (h : Hub) (t : Ticket) : Hub :=
  { h with
    timers := { h.timers with armed := h.timers.armed.filter (·.tag ≠ t) }
    handlers := { h.handlers with entries := h.handlers.entries.filter fun x => !x.action.isFor t } }

/-- An engine without one of its jobs, once a message was offered to the link if there was one. -/
def Engine.without (e : Engine) (t : Ticket) (word : Option Message) : Engine :=
  { e.withQueue ((e.queue t.service).without t.number) t.service with hub := (e.hub.without t).offered word }

/-- What is seen when a job is called off. If the link refuses the word for the peer, that is how it ended. -/
def Hub.farewell (h : Hub) (t : Ticket) : Option Message → List Effect
  | none => [.result t (.failed .cancelled)]
  | some m =>
    if h.link.accepts m then [.sent t m, .result t (.failed .cancelled)]
    else [.refused t m, .result t (.failed .connectionError)]

/-- What the peer is to hear of a transfer that is called off. -/
def JobQueue.word (q : JobQueue) (number : Nat) (t : Transfer) : Option Message :=
  if q.running.any (·.number = number) then
    t.list?.map fun l => .missionAck ⟨.operationCancelled, l.peer, l.missionType⟩
  else none

theorem Activity.farewell?_of_task {a : Activity} {t : Transfer} (h : a.task = .transfer t) :
    a.farewell? = t.list?.map fun l => .missionAck ⟨.operationCancelled, l.peer, l.missionType⟩ := by
  cases a with
  | command a retries => cases h
  | _ => cases h; rfl

namespace Desk

variable {d : Desk} {s : Service}

/-- The other jobs that wait have other numbers. -/
theorem Lined.number_ne_other (hl : Lined d) {w x : Waiting} {before after : List Waiting}
    (hw : (d.queue s).waiting.items = before ++ w :: after) (hx : x ∈ before ++ after) :
    x.number ≠ w.number := by
  have hnodup : ((d.queue s).waiting.items.map (·.number)).Nodup :=
    (hl.nodup s).sublist ((List.sublist_append_right _ _).map _)
  rw [hw, (List.perm_middle.map _).nodup_iff, List.map_cons, List.nodup_cons] at hnodup
  exact fun hn => hnodup.1 (hn ▸ List.mem_map_of_mem hx)

namespace Sound

/-- The timer of the job under way is the one that bears its name. -/
theorem disarm_eq (h : Sound d) {r : Running} (hr : (d.queue s).running = some r) :
    (d.hub.disarm r.cookie).timers.armed = d.hub.timers.armed.filter (·.tag ≠ r.ticket s) := by
  obtain ⟨c, hc, hawaited⟩ := h.tended.awaited s r hr
  rw [hc]
  apply List.filter_congr
  intro x hx
  have hsame : x.cookie = c ↔ x.tag = r.ticket s := by
    constructor
    · intro hcookie
      rcases hawaited with ⟨y, hy, hyc, hytag⟩ | hexpired
      · rw [h.tended.eq_of_cookie hx hy (hcookie.trans hyc.symm)]
        exact hytag
      · exact absurd hcookie ((h.tended.fired s _ _ hexpired).2 x hx)
    · intro htag
      obtain ⟨r', hr', -, hc'⟩ := h.tended.owned x hx
      rw [htag] at hr'
      obtain rfl : r = r' := Option.some.inj (hr.symm.trans hr')
      exact Option.some.inj (hc'.symm.trans hc)
  rw [decide_eq_decide]
  exact not_congr hsame

/-- The handlers of the job under way are those that bear its name. -/
theorem unregisterAll_eq (h : Sound d) {r : Running} (hr : (d.queue s).running = some r) :
    (d.hub.handlers.unregisterAll r.owner).entries =
      d.hub.handlers.entries.filter fun x => !x.action.isFor (r.ticket s) := by
  have hslot : r.slot ∈ (d.queue s).line := JobQueue.slot_mem_line hr
  apply List.filter_congr
  intro x hx
  have hsame : x.owner = r.owner ↔ x.action.isFor (r.ticket s) = true := by
    rcases List.mem_cons.mp (h.subscribed.mem_iff.mp hx) with rfl | hx
    · have hpos : 0 < r.owner := (h.lined.named s r.slot hslot).1
      refine iff_of_false (fun howner => ?_) (by simp [commandHandler, Subscriber.isFor])
      exact absurd (howner ▸ hpos) (Nat.lt_irrefl _)
    · obtain ⟨t, -, hx⟩ := List.mem_flatMap.mp hx
      obtain ⟨r', hr', howner, system, haction⟩ := JobQueue.owner_of_mem_handlers hx
      rw [howner, haction, Subscriber.isFor, decide_eq_true_eq]
      constructor
      · intro hsame
        obtain ⟨rfl, hnumber⟩ := h.lined.apart t s r'.slot (JobQueue.slot_mem_line hr') r.slot hslot hsame
        exact congrArg (Ticket.mk t) hnumber
      · intro hticket
        obtain rfl : t = s := congrArg Ticket.service hticket
        rw [Option.some.inj (hr'.symm.trans hr)]
  simp [hsame]

/-- A job under way that is retired leaves the hub without what is its own. -/
theorem retire_running (h : Sound d) {r : Running} (hr : (d.queue s).running = some r)
    (word : Option Message) :
    (d.hub.offered word).retire r.owner r.cookie = (d.hub.without (r.ticket s)).offered word := by
  obtain ⟨c, hc, -⟩ := h.tended.awaited s r hr
  have harmed := h.disarm_eq hr
  rw [hc] at harmed ⊢
  have htimers : d.hub.timers.remove c =
      { d.hub.timers with armed := d.hub.timers.armed.filter (·.tag ≠ r.ticket s) } :=
    congrArg (fun armed => (⟨armed, d.hub.timers.issued⟩ : Timers Ticket)) harmed
  have hhandlers : d.hub.handlers.unregisterAll r.owner =
      { d.hub.handlers with entries :=
      d.hub.handlers.entries.filter fun x => !x.action.isFor (r.ticket s) } :=
    congrArg (fun entries => (⟨entries, d.hub.handlers.owners⟩ : Handlers Kind Subscriber))
      (h.unregisterAll_eq hr)
  cases word <;> simp only [Hub.retire, Hub.disarm, Hub.offered, Hub.without, htimers, hhandlers]

/-- Nothing in the hub belongs to a job that waits. -/
theorem retire_waiting (h : Sound d) {w : Waiting} (hw : w ∈ (d.queue s).waiting.items) :
    d.hub.retire w.owner none = d.hub.without ⟨s, w.number⟩ := by
  have hnone := fun x hx => h.subscribed.ne_waiting h.lined hw (x := x) hx
  have howner : d.hub.handlers.entries.filter (·.owner ≠ w.owner) = d.hub.handlers.entries :=
    List.filter_eq_self.mpr fun x hx => decide_eq_true (hnone x hx).1
  have haction : (d.hub.handlers.entries.filter fun x => !x.action.isFor ⟨s, w.number⟩) =
      d.hub.handlers.entries := by
    refine List.filter_eq_self.mpr fun x hx => ?_
    cases hx' : x.action with
    | commands => rfl
    | job t system =>
        have hne : t ≠ ⟨s, w.number⟩ := fun ht => (hnone x hx).2 system (ht ▸ hx')
        simpa [Subscriber.isFor] using hne
  have htag : d.hub.timers.armed.filter (·.tag ≠ ⟨s, w.number⟩) = d.hub.timers.armed :=
    List.filter_eq_self.mpr fun x hx => decide_eq_true (h.tag_ne hw x hx)
  simp only [Hub.retire, Hub.disarm, Handlers.unregisterAll, Hub.without, howner, haction, htag]

theorem without_running (h : Sound d) {r : Running} (hr : (d.queue s).running = some r) :
    (d.queue s).without r.number = (d.queue s).withRunning none := by
  have hothers : (d.queue s).waiting.items.filter (·.number ≠ r.number) = (d.queue s).waiting.items :=
    List.filter_eq_self.mpr fun w hw => decide_eq_true (h.lined.number_ne (JobQueue.line_of_running hr) hw)
  have hnone : (d.queue s).running.filter (·.number ≠ r.number) = none := by rw [hr]; simp
  simp only [JobQueue.without, JobQueue.withRunning, hnone, hothers]

theorem without_waiting (h : Sound d) {w : Waiting} {before after : List Waiting}
    (hw : (d.queue s).waiting.items = before ++ w :: after) :
    (d.queue s).without w.number = (d.queue s).withWaiting (before ++ after) := by
  have hmem : w ∈ (d.queue s).waiting.items := hw ▸ List.mem_append_right _ List.mem_cons_self
  have hrunning : (d.queue s).running.filter (·.number ≠ w.number) = (d.queue s).running := by
    cases hr : (d.queue s).running with
    | none => rfl
    | some r =>
        have hne : w.number ≠ r.number := h.lined.number_ne (JobQueue.line_of_running hr) hmem
        exact Option.filter_some_pos (decide_eq_true (Ne.symm hne))
  have hothers : (d.queue s).waiting.items.filter (·.number ≠ w.number) = before ++ after := by
    have hkept : (before ++ after).filter (·.number ≠ w.number) = before ++ after :=
      List.filter_eq_self.mpr fun x hx => decide_eq_true (h.lined.number_ne_other hw hx)
    rw [hw, List.filter_append, List.filter_cons_of_neg (by simp), ← List.filter_append, hkept]
  simp only [JobQueue.without, JobQueue.withWaiting, hrunning, hothers]

end Sound

end Desk

namespace JobQueue

variable {q : JobQueue} {s : Service} {h : Hub} {number : Nat}

/-- A job is found exactly if it stands in the line; if not, nothing is done. -/
theorem cancel_absent (hline : ∀ w ∈ q.line, w.number ≠ number) :
    q.cancel s h number = (false, ⟨q, h, []⟩) := by
  have hwaiting : q.waiting.removeFirst? (·.number = number) = none := by
    rw [Fifo.removeFirst?, Fifo.takeFirst?_eq_none_iff.mpr fun w hw => ?_]
    · rfl
    · exact decide_eq_false (hline w (q.waiting_subset_line hw))
  cases hr : q.running with
  | none => simp only [cancel, hr, cancelWaiting, hwaiting]
  | some r =>
      have hne : r.number ≠ number := hline r.slot (slot_mem_line hr)
      simp only [cancel, hr, if_neg hne, cancelWaiting, hwaiting]

/-- What calling off the job under way comes to. -/
theorem cancel_running {r : Running} (hr : q.running = some r) {t : Transfer}
    (ht : r.activity.task = .transfer t) :
    q.cancel s h r.number = (true,
      ⟨q.withRunning none, (h.offered r.activity.farewell?).retire r.owner r.cookie,
        h.farewell (r.ticket s) r.activity.farewell?⟩) := by
  cases hm : r.activity.farewell? with
  | none =>
      simp [cancel, hr, Running.cancel, Running.follow, Running.stop, Running.report, hm,
        results, Hub.offered, Hub.farewell, withRunning, Running.ticket]
  | some m =>
      cases ha : h.link.accepts m <;>
        simp [cancel, hr, Running.cancel, Running.follow, Running.offer, Running.stop, Running.report,
          Hub.offer, hm, ha, ht, results, Hub.offered, Hub.farewell, withRunning, Running.ticket,
          Task.refusal, Outcome.failed]

theorem cancel_waiting {w : Waiting} {before after : List Waiting}
    (hw : q.waiting.items = before ++ w :: after) (hbefore : ∀ x ∈ before, x.number ≠ w.number)
    (hrunning : ∀ r, q.running = some r → r.number ≠ w.number) :
    q.cancel s h w.number = (true, ⟨q.withWaiting (before ++ after), h.retire w.owner none,
      [.result ⟨s, w.number⟩ (.failed .cancelled)]⟩) := by
  have htake : ∀ l : List Waiting, (∀ x ∈ l, x.number ≠ w.number) →
      Fifo.takeFirst? (fun x : Waiting => decide (x.number = w.number)) (l ++ w :: after) =
        some (w, l ++ after) := by
    intro l hl
    induction l with
    | nil => simp [Fifo.takeFirst?]
    | cons x rest ih =>
        have hx : x.number ≠ w.number := hl x List.mem_cons_self
        simp [Fifo.takeFirst?, hx, ih fun y hy => hl y (List.mem_cons_of_mem _ hy)]
  have hwaiting : q.cancelWaiting s h w.number =
      (true, ⟨q.withWaiting (before ++ after), h.retire w.owner none,
        [.result ⟨s, w.number⟩ (.failed .cancelled)]⟩) := by
    simp [cancelWaiting, Fifo.removeFirst?, hw, htake before hbefore, results, withWaiting]
  cases hr : q.running with
  | none => simp only [cancel, hr, hwaiting]
  | some r => simp only [cancel, hr, if_neg (hrunning r hr), hwaiting]

end JobQueue

namespace Engine

variable {e : Engine} {effects : List Effect} {asked : Service → List Task} {side : Side}

theorem cancel_of_queue {number : Nat} {turn : Turn} {word : Option Message}
    (h : (e.queue (.mission side)).cancel (.mission side) e.hub number = (true, turn))
    (hqueue : turn.queue = (e.queue (.mission side)).without number)
    (hhub : turn.hub = (e.hub.without ⟨.mission side, number⟩).offered word)
    (heffects : turn.effects = e.hub.farewell ⟨.mission side, number⟩ word) :
    e.cancel side number =
      (true, ⟨e.without ⟨.mission side, number⟩ word, e.hub.farewell ⟨.mission side, number⟩ word⟩) := by
  obtain ⟨queue, hub, effects⟩ := turn
  subst hqueue hhub heffects
  rw [cancel, h]
  rfl

/-- What calling off a transfer in the line comes to. -/
theorem cancel_found (hs : (e.desk effects asked).Sound) {w : Waiting}
    (hw : w ∈ (e.queue (.mission side)).line) {t : Transfer} (ht : w.task = .transfer t) :
    e.cancel side w.number =
      (true, ⟨e.without ⟨.mission side, w.number⟩ ((e.queue (.mission side)).word w.number t),
        e.hub.farewell ⟨.mission side, w.number⟩ ((e.queue (.mission side)).word w.number t)⟩) := by
  rcases List.mem_append.mp hw with hrunning | hwaiting
  · obtain ⟨r, hr, rfl⟩ := Option.map_eq_some_iff.mp (Option.mem_toList.mp hrunning)
    have hword : (e.queue (.mission side)).word r.slot.number t = r.activity.farewell? := by
      rw [JobQueue.word, hr, Activity.farewell?_of_task ht]
      simp [Running.slot]
    rw [hword]
    exact cancel_of_queue (JobQueue.cancel_running hr ht) (hs.without_running hr).symm
      (hs.retire_running hr _) rfl
  · obtain ⟨before, after, hitems⟩ := List.append_of_mem hwaiting
    have hnumbers : ∀ r, (e.queue (.mission side)).running = some r → r.number ≠ w.number := fun r hr hn =>
      hs.lined.number_ne (JobQueue.line_of_running hr) hwaiting hn.symm
    have hbefore : ∀ x ∈ before, x.number ≠ w.number := fun x hx =>
      hs.lined.number_ne_other hitems (List.mem_append_left _ hx)
    have hword : (e.queue (.mission side)).word w.number t = none := by
      refine if_neg fun hrunning => ?_
      obtain ⟨r, hr, hn⟩ := (Option.any_eq_true _ _).mp hrunning
      exact hnumbers r hr (of_decide_eq_true hn)
    rw [hword]
    exact cancel_of_queue (JobQueue.cancel_waiting hitems hbefore hnumbers) (hs.without_waiting hitems).symm
      (hs.retire_waiting hwaiting) rfl

theorem cancel_absent {number : Nat} (hline : ∀ w ∈ (e.queue (.mission side)).line, w.number ≠ number) :
    e.cancel side number = (false, ⟨e, []⟩) := by
  rw [cancel, JobQueue.cancel_absent hline]
  obtain _ | _ := side <;> rfl

end Engine

end GroundLink
