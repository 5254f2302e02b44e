import GroundLink.Engine.JobQueue
import GroundLink.Proofs.Moves

/-! What carrying a step out comes to. `Running.Follows` lists the ways a step can go: the message it
sends is taken or refused, and the job stays under way or ends. Everything that is proved of queues and
engines takes a step apart through `Running.follow_follows`. -/

namespace GroundLink

namespace Effect

def job : Effect → Ticket
  | sent t _ => t
  | refused t _ => t
  | progress t _ => t
  | result t _ => t

def isResult : Effect → Bool
  | result _ _ => true
  | _ => false

end Effect

namespace Hub

/-- The hub after a message, if there was one, was offered to the link. -/
def offered (h : Hub) : Option Message → Hub
  | none => h
  | some _ => { h with link := h.link.offered }

@[simp] theorem offered_timers (h : Hub) (m : Option Message) : (h.offered m).timers = h.timers := by
  cases m <;> rfl

@[simp] theorem offered_handlers (h : Hub) (m : Option Message) : (h.offered m).handlers = h.handlers := by
  cases m <;> rfl

@[simp] theorem offered_clock (h : Hub) (m : Option Message) : (h.offered m).clock = h.clock := by
  cases m <;> rfl

@[simp] theorem await_handlers (h : Hub) (t : Ticket) (c : Option Cookie) (w : Wait) :
    (h.await t c w).2.handlers = h.handlers := by
  cases w <;> cases c <;> rfl

@[simp] theorem await_link (h : Hub) (t : Ticket) (c : Option Cookie) (w : Wait) :
    (h.await t c w).2.link = h.link := by
  cases w <;> cases c <;> rfl

@[simp] theorem await_clock (h : Hub) (t : Ticket) (c : Option Cookie) (w : Wait) :
    (h.await t c w).2.clock = h.clock := by
  cases w <;> cases c <;> rfl

@[simp] theorem retire_timers (h : Hub) (o : Owner) (c : Option Cookie) :
    (h.retire o c).timers = (h.disarm c).timers := rfl

@[simp] theorem retire_handlers (h : Hub) (o : Owner) (c : Option Cookie) :
    (h.retire o c).handlers = h.handlers.unregisterAll o := by
  cases c <;> rfl

@[simp] theorem retire_clock (h : Hub) (o : Owner) (c : Option Cookie) : (h.retire o c).clock = h.clock := by
  cases c <;> rfl

end Hub

/-- The job a step leaves under way. -/
def Standing.running? : Standing → Option Running
  | running r => some r
  | ended _ => none

namespace Running

/-- The job as it was submitted. -/
def slot (r : Running) : Waiting := ⟨r.number, r.owner, r.activity.task⟩

/-- The ways a step of a job can go. -/
inductive Follows (r : Running) (s : Service) (h : Hub) : Move Activity → Progress → Prop
  | ignored : Follows r s h .ignore ⟨.running r, h, []⟩
  | waited (wait : Wait) (report : Option Fraction) (message : Option Message) (activity : Activity)
      (taken : ∀ m ∈ message, h.link.accepts m = true) :
      Follows r s h (.proceed wait report message activity)
        ⟨.running { r with activity, cookie := (h.await (r.ticket s) r.cookie wait).1 },
          (h.await (r.ticket s) r.cookie wait).2.offered message,
          r.report s report ++ message.toList.map (.sent (r.ticket s))⟩
  | broken (wait : Wait) (report : Option Fraction) (m : Message) (activity : Activity)
      (refused : h.link.accepts m = false) :
      Follows r s h (.proceed wait report (some m) activity)
        ⟨.ended ⟨r.number, .failure r.activity.task.refusal⟩,
          ((h.await (r.ticket s) r.cookie wait).2.offered (some m)).retire r.owner
            (h.await (r.ticket s) r.cookie wait).1,
          r.report s report ++ [.refused (r.ticket s) m]⟩
  | finished (message : Option Message) (report : Option Fraction) (outcome : Outcome)
      (taken : ∀ m ∈ message, h.link.accepts m = true) :
      Follows r s h (.finish message report outcome)
        ⟨.ended ⟨r.number, outcome⟩, (h.offered message).retire r.owner r.cookie,
          message.toList.map (.sent (r.ticket s)) ++ r.report s report⟩
  | failed (m : Message) (report : Option Fraction) (outcome : Outcome) (refused : h.link.accepts m = false) :
      Follows r s h (.finish (some m) report outcome)
        ⟨.ended ⟨r.number, .failure r.activity.task.refusal⟩, (h.offered (some m)).retire r.owner r.cookie,
          [.refused (r.ticket s) m]⟩

/-- A step goes one of the listed ways. -/
theorem follow_follows (r : Running) (s : Service) (h : Hub) (move : Move Activity) :
    Follows r s h move (r.follow s h move) := by
  cases move with
  | ignore => exact .ignored
  | proceed wait report message activity =>
      cases message with
      | none =>
          have hf := Follows.waited (r := r) (s := s) (h := h) wait report none activity nofun
          simpa [follow, Hub.offered] using hf
      | some m =>
          by_cases ha : h.link.accepts m = true
          · have hf := Follows.waited (r := r) (s := s) (h := h) wait report (some m) activity
              (by simpa using ha)
            simpa [follow, offer, Hub.offer, Progress.preceded, Hub.offered, ticket, ha] using hf
          · have hr : h.link.accepts m = false := by simpa using ha
            have hf := Follows.broken (r := r) (s := s) (h := h) wait report m activity hr
            simpa [follow, offer, stop, Hub.offer, Progress.preceded, Hub.offered, ticket, hr] using hf
  | finish message report outcome =>
      cases message with
      | none =>
          have hf := Follows.finished (r := r) (s := s) (h := h) none report outcome nofun
          simpa [follow, stop, Hub.offered] using hf
      | some m =>
          by_cases ha : h.link.accepts m = true
          · have hf := Follows.finished (r := r) (s := s) (h := h) (some m) report outcome (by simpa using ha)
            simpa [follow, offer, stop, Hub.offer, Hub.offered, ha] using hf
          · have hr : h.link.accepts m = false := by simpa using ha
            have hf := Follows.failed (r := r) (s := s) (h := h) m report outcome hr
            simpa [follow, offer, stop, Hub.offer, Hub.offered, hr] using hf

theorem mem_report {r : Running} {s : Service} {f : Option Fraction} {e : Effect} (h : e ∈ r.report s f) :
    ∃ x, f = some x ∧ e = .progress (r.ticket s) x := by
  cases f with
  | none => simp [report] at h
  | some x =>
      refine ⟨x, rfl, ?_⟩
      by_cases hw : r.activity.task.wantsProgress = true
      · rw [report, if_pos hw] at h
        exact List.mem_singleton.mp h
      · rw [report, if_neg hw] at h
        exact absurd h List.not_mem_nil

/-- A step shows something of its own job only, and never how that ended. -/
theorem Follows.effects {r : Running} {s : Service} {h : Hub} {move : Move Activity} {p : Progress}
    (hf : Follows r s h move p) {e : Effect} (he : e ∈ p.effects) :
    e.job = r.ticket s ∧ e.isResult = false := by
  have hreport : ∀ f, e ∈ r.report s f → e.job = r.ticket s ∧ e.isResult = false := by
    intro f hm
    obtain ⟨x, _, rfl⟩ := mem_report hm
    exact ⟨rfl, rfl⟩
  have hsent : ∀ m : Option Message, e ∈ m.toList.map (Effect.sent (r.ticket s)) →
      e.job = r.ticket s ∧ e.isResult = false := by
    intro m hm
    obtain ⟨x, _, rfl⟩ := List.mem_map.mp hm
    exact ⟨rfl, rfl⟩
  cases hf with
  | ignored => simp at he
  | waited wait report message activity taken =>
      rcases List.mem_append.mp he with he | he
      · exact hreport _ he
      · exact hsent _ he
  | broken wait report m activity refused =>
      rcases List.mem_append.mp he with he | he
      · exact hreport _ he
      · rw [List.mem_singleton.mp he]
        exact ⟨rfl, rfl⟩
  | finished message report outcome taken =>
      rcases List.mem_append.mp he with he | he
      · exact hsent _ he
      · exact hreport _ he
  | failed m report outcome refused =>
      rw [List.mem_singleton.mp he]
      exact ⟨rfl, rfl⟩

theorem Follows.running {r r' : Running} {s : Service} {h : Hub} {move : Move Activity} {p : Progress}
    (hf : Follows r s h move p) (hr : p.standing.running? = some r') :
    r'.number = r.number ∧ r'.owner = r.owner ∧
      (r'.activity = r.activity ∨ move.next? = some r'.activity) := by
  cases hf with
  | ignored => cases hr; exact ⟨rfl, rfl, .inl rfl⟩
  | waited wait report message activity taken => cases hr; exact ⟨rfl, rfl, .inr rfl⟩
  | broken wait report m activity refused => cases hr
  | finished message report outcome taken => cases hr
  | failed m report outcome refused => cases hr

/-- A step that never changes the task leaves the same job under way, if any. -/
theorem Follows.slot {r r' : Running} {s : Service} {h : Hub} {move : Move Activity} {p : Progress}
    (hf : Follows r s h move p) (hm : ∀ a, move.next? = some a → a.task = r.activity.task)
    (hr : p.standing.running? = some r') : r'.slot = r.slot := by
  obtain ⟨hn, ho, ha | ha⟩ := hf.running hr
  · simp only [Running.slot, hn, ho, ha]
  · simp only [Running.slot, hn, ho, hm _ ha]

end Running

end GroundLink
