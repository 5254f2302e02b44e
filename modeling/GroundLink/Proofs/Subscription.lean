import Mathlib.Algebra.Order.Ring.Nat
import Mathlib.Data.List.Perm.Basic
import GroundLink.Proofs.Line

/-! The handlers of jobs. Apart from the one through which answers to commands come in, a handler stands
in the table for a kind of message that a job under way listens to, once for each (`Desk.Subscribed`).
Jobs that wait have none, and a job that ends takes its own with it and no others. -/

namespace GroundLink

open Function

namespace Service

/-- The queues of an engine, in the order in which they work. -/
def all : List Service := [.commands, .mission .client, .mission .server]

theorem mem_all (s : Service) : s ∈ all := by
  obtain _ | ⟨_ | _⟩ := s <;> decide

theorem nodup_all : all.Nodup := by decide

end Service

theorem Handlers.registerAll_entries {κ η : Type} (t : Handlers κ η) (kinds : List κ) (owner : Owner)
    (action : η) :
    (t.registerAll kinds owner action).entries = t.entries ++
      kinds.map fun kind => ⟨kind, owner, action⟩ := by
  induction kinds generalizing t with
  | nil => exact (List.append_nil _).symm
  | cons kind rest ih =>
      rw [registerAll, List.foldl_cons, ← registerAll, ih, register]
      simp

def Waiting.handlers (w : Waiting) (s : Service) : List (Handler Kind Subscriber) :=
  w.task.kinds.map fun kind => ⟨kind, w.owner, .job ⟨s, w.number⟩ w.task.peer.system⟩

/-- The handlers of the job under way. -/
def JobQueue.handlers (q : JobQueue) (s : Service) : List (Handler Kind Subscriber) :=
  q.running.toList.flatMap fun r => r.slot.handlers s

namespace JobQueue

variable {q : JobQueue} {s : Service}

theorem handlers_of_running {r : Running} (h : q.running = some r) : q.handlers s = r.slot.handlers s := by
  simp [handlers, h]

theorem handlers_of_idle (h : q.running = none) : q.handlers s = [] := by
  simp [handlers, h]

theorem owner_of_mem_handlers {x : Handler Kind Subscriber} (h : x ∈ q.handlers s) :
    ∃ r, q.running = some r ∧ x.owner = r.owner ∧ ∃ system, x.action = .job (r.ticket s) system := by
  obtain ⟨r, hr, hx⟩ := List.mem_flatMap.mp h
  obtain ⟨kind, _, rfl⟩ := List.mem_map.mp hx
  exact ⟨r, Option.mem_toList.mp hr, rfl, _, rfl⟩

end JobQueue

/-- The handlers of all queues but one. -/
def handlersBut (s : Service) (queue : Service → JobQueue) : List (Handler Kind Subscriber) :=
  (Service.all.erase s).flatMap fun t => (queue t).handlers t

/-- The handler through which answers to commands come in. -/
def commandHandler : Handler Kind Subscriber := ⟨.commandAck, Engine.commandOwner, .commands⟩

theorem handlersBut_update (s : Service) (queue : Service → JobQueue) (q : JobQueue) :
    handlersBut s (update queue s q) = handlersBut s queue := by
  apply List.flatMap_congr
  intro t ht
  have hne : t ≠ s := (Service.nodup_all.mem_erase_iff.mp ht).1
  rw [update_of_ne hne]

theorem mem_handlersBut {s : Service} {queue : Service → JobQueue} {x : Handler Kind Subscriber}
    (h : x ∈ handlersBut s queue) : ∃ t, t ≠ s ∧ x ∈ (queue t).handlers t := by
  obtain ⟨t, ht, hx⟩ := List.mem_flatMap.mp h
  exact ⟨t, (Service.nodup_all.mem_erase_iff.mp ht).1, hx⟩

namespace Desk

variable {i : Input} {d d' : Desk} {s : Service} {q : JobQueue} {r : Running} {h : Hub} {move : Move Activity}

/-- Whether the handlers are those of the jobs under way, and the one for commands. -/
def Subscribed (d : Desk) : Prop :=
  d.hub.handlers.entries.Perm (commandHandler :: Service.all.flatMap fun s => (d.queue s).handlers s)

theorem subscribed_iff (d : Desk) (s : Service) :
    Subscribed d ↔
      d.hub.handlers.entries.Perm (commandHandler :: ((d.queue s).handlers s ++ handlersBut s d.queue)) := by
  have hsplit : (Service.all.flatMap fun t => (d.queue t).handlers t).Perm
      ((d.queue s).handlers s ++ handlersBut s d.queue) :=
    (List.perm_cons_erase (Service.mem_all s)).flatMap_right _
  exact ⟨fun h => h.trans (hsplit.cons _), fun h => h.trans (hsplit.cons _).symm⟩

theorem Subscribed.of_running (hs : Subscribed d)
    (hentries : d'.hub.handlers.entries = d.hub.handlers.entries)
    (hrunning : ∀ t, (d'.queue t).running = (d.queue t).running) : Subscribed d' := by
  have hsame : ∀ t, (d'.queue t).handlers t = (d.queue t).handlers t := by
    intro t
    rw [JobQueue.handlers, hrunning, JobQueue.handlers]
  rw [Subscribed, hentries]
  simp only [hsame]
  exact hs

theorem Subscribed.put (hs : Subscribed d) {q : JobQueue} (hq : q.running = (d.queue s).running) :
    Subscribed (d.put s q) := by
  refine hs.of_running rfl ?_
  exact (forall_update_iff _ fun t (q : JobQueue) => q.running = (d.queue t).running).mpr ⟨hq, fun _ _ => rfl⟩

theorem Due.subscribed (hs : Subscribed d) (due : Due d s q r h move) :
    h.handlers.entries.Perm (commandHandler :: (r.slot.handlers s ++ handlersBut s d.queue)) := by
  have hold := (subscribed_iff d s).mp hs
  cases due with
  | hear running events concerns => rwa [JobQueue.handlers_of_running running] at hold
  | @expire r cookie rest running events own =>
      rw [JobQueue.handlers_of_running running] at hold
      exact hold
  | @start w rest idle waiting =>
      rw [JobQueue.handlers_of_idle idle, List.nil_append] at hold
      rw [Waiting.slot_opening]
      show (d.hub.handlers.registerAll w.task.kinds w.owner _).entries.Perm _
      rw [Handlers.registerAll_entries]
      refine (hold.append_right _).trans ?_
      exact (@List.perm_append_comm _ (handlersBut s d.queue) _).cons _
  | cancel running => rwa [JobQueue.handlers_of_running running] at hold

/-- Taking out the handlers of one owner leaves those of jobs that have another. -/
theorem filter_handlersBut (hl : Lined d) {w : Waiting} (hw : w ∈ (d.queue s).line) :
    (handlersBut s d.queue).filter (·.owner ≠ w.owner) = handlersBut s d.queue := by
  apply List.filter_eq_self.mpr
  intro x hx
  apply decide_eq_true
  intro howner
  obtain ⟨t, ht, hx⟩ := mem_handlersBut hx
  obtain ⟨r, hr, hxr, _⟩ := JobQueue.owner_of_mem_handlers hx
  exact ht (hl.apart t s r.slot (JobQueue.slot_mem_line hr) w hw (hxr.symm.trans howner)).1

theorem filter_commandHandler (hl : Lined d) {w : Waiting} (hw : w ∈ (d.queue s).line)
    (l : List (Handler Kind Subscriber)) :
    (commandHandler :: l).filter (·.owner ≠ w.owner) = commandHandler :: l.filter (·.owner ≠ w.owner) := by
  refine List.filter_cons_of_pos (decide_eq_true fun howner => ?_)
  exact absurd (hl.named s w hw).1 (howner ▸ Nat.lt_irrefl _)

theorem Due.subscribed_after (hs : Subscribed d) (hl : Lined d) (due : Due d s q r h move) :
    Subscribed (d.after s q (r.follow s h move)) := by
  have hf := r.follow_follows s h move
  have hhandlers := hf.handlers
  have hold := due.subscribed hs
  rw [subscribed_iff _ s]
  simp only [after, update_self, handlersBut_update]
  cases hp : (r.follow s h move).standing.running? with
  | some r' =>
      have hslot : r'.slot = r.slot := hf.slot (fun _ => due.task) hp
      rw [hp, Option.isSome_some, if_pos rfl] at hhandlers
      rw [hhandlers, JobQueue.handlers_of_running (JobQueue.withRunning_running q _), hslot]
      exact hold
  | none =>
      rw [hp, Option.isSome_none, if_neg Bool.false_ne_true] at hhandlers
      rw [hhandlers, JobQueue.handlers_of_idle (JobQueue.withRunning_running q _), List.nil_append]
      have hgone : (r.slot.handlers s).filter (·.owner ≠ r.slot.owner) = [] := by
        apply List.filter_eq_nil_iff.mpr
        intro x hx
        obtain ⟨kind, _, rfl⟩ := List.mem_map.mp hx
        simp
      have hleft := hold.filter (·.owner ≠ r.slot.owner)
      rw [filter_commandHandler hl due.mem_line, List.filter_append,
        filter_handlersBut hl due.mem_line, hgone] at hleft
      exact hleft

theorem Subscribed.callOff (hs : Subscribed d) (hl : Lined d) {w : Waiting} {before after : List Waiting}
    (hw : (d.queue s).waiting.items = before ++ w :: after) :
    Subscribed (d.callOff s w (before ++ after)) := by
  have hwaiting : w ∈ (d.queue s).waiting.items := by simp [hw]
  have hmem : w ∈ (d.queue s).line := (d.queue s).waiting_subset_line hwaiting
  have hqueue : ((d.queue s).handlers s).filter (·.owner ≠ w.owner) = (d.queue s).handlers s := by
    apply List.filter_eq_self.mpr
    intro x hx
    apply decide_eq_true
    intro howner
    obtain ⟨r, hr, hxr, _⟩ := JobQueue.owner_of_mem_handlers hx
    have hnumber := (hl.apart s s r.slot (JobQueue.slot_mem_line hr) w hmem (hxr.symm.trans howner)).2
    exact hl.number_ne (JobQueue.line_of_running hr) hwaiting hnumber.symm
  have hleft := ((subscribed_iff d s).mp hs).filter (·.owner ≠ w.owner)
  rw [filter_commandHandler hl hmem, List.filter_append, filter_handlersBut hl hmem, hqueue] at hleft
  refine Subscribed.put (d := { d with hub := d.hub.retire w.owner none }) ((subscribed_iff _ s).mpr ?_) rfl
  exact hleft

theorem Subscribed.step (hs : Subscribed d) (hl : Lined d) (hstep : Step i d d') : Subscribed d' := by
  cases hstep with
  | follow due => exact due.subscribed_after hs hl
  | skip running events stray => exact hs.put rfl
  | clear idle => exact hs.put rfl
  | tell owing => exact hs
  | enrol asked =>
      refine hs.of_running rfl ?_
      rw [enrol_queue]
      exact (forall_update_iff _ fun t (q : JobQueue) => q.running = (d.queue t).running).mpr
        ⟨rfl, fun _ _ => rfl⟩
  | turnAway asked busy => exact hs.put rfl
  | callOff waiting => exact hs.callOff hl waiting
  | fire armed due => exact hs.put rfl
  | deliver received subscribed =>
      obtain hsame | ⟨s, job, hpost⟩ := deliver_cases _ _ _ _
      · rwa [hsame]
      · rw [hpost]
        exact hs.put rfl

/-- One handler for commands and one for each kind of message that jobs under way listen to. -/
theorem Subscribed.count (hs : Subscribed d) :
    d.hub.handlers.count = 1 + (Service.all.map fun s => ((d.queue s).handlers s).length).sum := by
  rw [Handlers.count, hs.length_eq, List.length_cons, List.length_flatMap, Nat.add_comm]

/-- No handler is that of a job that waits. -/
theorem Subscribed.ne_waiting (hs : Subscribed d) (hl : Lined d) {w : Waiting}
    (hw : w ∈ (d.queue s).waiting.items) {x : Handler Kind Subscriber} (hx : x ∈ d.hub.handlers.entries) :
    x.owner ≠ w.owner ∧ ∀ system, x.action ≠ .job ⟨s, w.number⟩ system := by
  have hmem : w ∈ (d.queue s).line := (d.queue s).waiting_subset_line hw
  rcases List.mem_cons.mp (hs.mem_iff.mp hx) with rfl | hx
  · constructor
    · intro howner
      exact absurd (hl.named s w hmem).1 (howner ▸ Nat.lt_irrefl _)
    · intro system haction
      cases haction
  · obtain ⟨t, _, hx⟩ := List.mem_flatMap.mp hx
    obtain ⟨r, hr, howner, system, haction⟩ := JobQueue.owner_of_mem_handlers hx
    -- a job under way and one that waits differ in their queue or in their number
    have hne : t = s → r.number ≠ w.number := by
      rintro rfl hnumber
      exact hl.number_ne (JobQueue.line_of_running hr) hw hnumber.symm
    constructor
    · intro hsame
      have hfirst := JobQueue.slot_mem_line hr
      obtain ⟨ht, hnumber⟩ := hl.apart t s r.slot hfirst w hmem (howner.symm.trans hsame)
      exact hne ht hnumber
    · intro system' hsame
      rw [haction] at hsame
      have hticket := (Subscriber.job.inj hsame).1
      exact hne (congrArg Ticket.service hticket) (congrArg Ticket.number hticket)

end Desk

end GroundLink
