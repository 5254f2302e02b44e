import Mathlib.Data.List.Basic
import GroundLink.Proofs.Desk

/-! The line of a queue: the job under way and those behind it. Jobs stand in it in the order in which
they were submitted, each under the number it was given then, and each with an owner of its own for its
handlers. Small steps keep this (`Desk.Lined.step`): apart from a job that is taken in at the end, a
line only ever gets shorter. -/

namespace GroundLink

open Function

/-- The jobs of a queue, the one under way first. -/
def JobQueue.line (q : JobQueue) : List Waiting := (q.running.map Running.slot).toList ++ q.waiting.items

namespace JobQueue

theorem line_of_running {q : JobQueue} {r : Running} (h : q.running = some r) :
    q.line = r.slot :: q.waiting.items := by
  simp [line, h]

theorem line_of_idle {q : JobQueue} (h : q.running = none) : q.line = q.waiting.items := by
  simp [line, h]

@[simp] theorem line_withRunning (q : JobQueue) (r : Option Running) :
    (q.withRunning r).line = (r.map Running.slot).toList ++ q.waiting.items := rfl

@[simp] theorem line_counted (q : JobQueue) : q.counted.line = q.line := rfl

theorem slot_mem_line {q : JobQueue} {r : Running} (h : q.running = some r) : r.slot ∈ q.line := by
  rw [line_of_running h]
  exact List.mem_cons_self

theorem waiting_subset_line (q : JobQueue) : q.waiting.items ⊆ q.line := List.subset_append_right _ _

end JobQueue

namespace Handlers

variable {κ η : Type}

theorem registerAll_owners (t : Handlers κ η) (kinds : List κ) (owner : Owner) (action : η) :
    (t.registerAll kinds owner action).owners = t.owners := by
  induction kinds generalizing t with
  | nil => rfl
  | cons kind rest ih => exact ih (t.register kind owner action)

@[simp] theorem unregisterAll_owners (t : Handlers κ η) (owner : Owner) :
    (t.unregisterAll owner).owners = t.owners := rfl

end Handlers

theorem Waiting.slot_opening (w : Waiting) (setting : Setting) : (w.opening setting).slot = w := by
  rw [opening, Running.slot, Task.task_initial]

namespace Running

variable {r : Running} {s : Service} {h : Hub} {move : Move Activity} {p : Progress}

theorem Follows.handlers (hf : Follows r s h move p) :
    p.hub.handlers = if p.standing.running?.isSome then h.handlers else h.handlers.unregisterAll r.owner := by
  cases hf <;> simp [Standing.running?]

theorem Follows.owners (hf : Follows r s h move p) : p.hub.handlers.owners = h.handlers.owners := by
  rw [hf.handlers]
  split <;> rfl

theorem Follows.clock (hf : Follows r s h move p) : p.hub.clock = h.clock := by
  cases hf <;> simp

theorem Follows.standing (hf : Follows r s h move p) :
    (∃ r', p.standing = .running r' ∧ r'.number = r.number ∧ r'.owner = r.owner) ∨
      ∃ o, p.standing = .ended ⟨r.number, o⟩ := by
  cases hf with
  | ignored => exact .inl ⟨_, rfl, rfl, rfl⟩
  | waited wait report message activity taken => exact .inl ⟨_, rfl, rfl, rfl⟩
  | broken wait report m activity refused => exact .inr ⟨_, rfl⟩
  | finished message report outcome taken => exact .inr ⟨_, rfl⟩
  | failed m report outcome refused => exact .inr ⟨_, rfl⟩

end Running

namespace Desk

variable {i : Input} {d d' : Desk} {s : Service} {q : JobQueue} {r : Running} {h : Hub} {move : Move Activity}

/-- The job of a step that is due is the first of its line. -/
theorem Due.line (due : Due d s q r h move) : (d.queue s).line = r.slot :: q.waiting.items := by
  cases due with
  | hear running events concerns => exact JobQueue.line_of_running running
  | expire running events own => rw [JobQueue.line_of_running running]; rfl
  | start idle waiting =>
      rw [JobQueue.line_of_idle idle, waiting, Waiting.slot_opening]
      rfl
  | cancel running => exact JobQueue.line_of_running running

theorem Due.mem_line (due : Due d s q r h move) : r.slot ∈ (d.queue s).line := by
  rw [due.line]
  exact List.mem_cons_self

theorem Due.submitted (due : Due d s q r h move) : q.submitted = (d.queue s).submitted := by
  cases due <;> rfl

theorem Due.owners (due : Due d s q r h move) : h.handlers.owners = d.hub.handlers.owners := by
  cases due with
  | start idle waiting => exact Handlers.registerAll_owners _ _ _ _
  | _ => rfl

theorem Due.task (due : Due d s q r h move) {a : Activity} (ha : move.next? = some a) :
    a.task = r.activity.task := by
  cases due with
  | hear running events concerns => exact Activity.task_of_onMessage ha
  | expire running events own => exact Activity.task_of_onTimeout ha
  | start idle waiting => rw [Task.task_of_start ha, Waiting.opening, Task.task_initial]
  | cancel running => cases ha

/-- A step that is due leaves its job first in the line, or ends it and takes it out. -/
theorem Due.line_after (due : Due d s q r h move) :
    (∃ r', (r.follow s h move).standing = .running r' ∧
        ((d.after s q (r.follow s h move)).queue s).line = (d.queue s).line) ∨
      ∃ o, (r.follow s h move).standing = .ended ⟨r.number, o⟩ ∧
        (d.queue s).line = r.slot :: ((d.after s q (r.follow s h move)).queue s).line := by
  have hf := r.follow_follows s h move
  rcases hf.standing with ⟨r', hr', _, _⟩ | ⟨o, ho⟩
  · have hslot : r'.slot = r.slot := hf.slot (fun a => due.task) (by rw [hr']; rfl)
    refine .inl ⟨r', hr', ?_⟩
    rw [due.line]
    simp [after, hr', Standing.running?, hslot]
  · refine .inr ⟨o, ho, ?_⟩
    rw [due.line]
    simp [after, ho, Standing.running?]

theorem Due.line_sublist (due : Due d s q r h move) (t : Service) :
    ((d.after s q (r.follow s h move)).queue t).line.Sublist (d.queue t).line := by
  by_cases ht : t = s
  · subst ht
    rcases due.line_after with ⟨r', _, hline⟩ | ⟨o, _, hline⟩
    · rw [hline]
    · rw [hline]
      exact List.sublist_cons_self _ _
  · simp [after, update_of_ne ht]

theorem Due.submitted_after (due : Due d s q r h move) (p : Progress) (t : Service) :
    ((d.after s q p).queue t).submitted = (d.queue t).submitted := by
  by_cases ht : t = s
  · subst ht
    simp [after, due.submitted]
  · simp [after, update_of_ne ht]

theorem line_without (d : Desk) {w : Waiting} {before after : List Waiting}
    (hw : (d.queue s).waiting.items = before ++ w :: after) :
    ((d.queue s).withWaiting (before ++ after)).line.Sublist (d.queue s).line := by
  rw [JobQueue.line, JobQueue.line, hw]
  exact ((List.sublist_cons_self w after).append_left before).append_left _

/-- How jobs stand in their lines. -/
structure Lined (d : Desk) : Prop where
  /-- Numbers are handed out one after the other. -/
  counted : ∀ s, (d.queue s).submitted = (d.asked s).length
  /-- Every job stands under the number of its submission, and in the order of these. -/
  placed : ∀ s, ((d.queue s).line.map fun w => (w.task, w.number)).Sublist (d.asked s).zipIdx
  /-- The first owner has been handed out; it is not for jobs. -/
  begun : 0 < d.hub.handlers.owners
  /-- Owners are handed out before they are used. -/
  named : ∀ s, ∀ w ∈ (d.queue s).line, 0 < w.owner ∧ w.owner < d.hub.handlers.owners
  /-- No two jobs have the same owner. -/
  apart : ∀ s s', ∀ w ∈ (d.queue s).line, ∀ w' ∈ (d.queue s').line,
    w.owner = w'.owner → s = s' ∧ w.number = w'.number

namespace Lined

theorem nodup (hl : Lined d) (s : Service) : ((d.queue s).line.map (·.number)).Nodup := by
  have hsub := (hl.placed s).map Prod.snd
  rw [List.map_map, List.zipIdx_map_snd] at hsub
  exact hsub.nodup List.nodup_range'

theorem number_ne (hl : Lined d) {w w' : Waiting} {rest : List Waiting} (hline : (d.queue s).line = w :: rest)
    (hw : w' ∈ rest) : w'.number ≠ w.number := by
  have hnodup := hl.nodup s
  rw [hline, List.map_cons, List.nodup_cons] at hnodup
  intro hnumber
  exact hnodup.1 (List.mem_map.mpr ⟨w', hw, hnumber⟩)

/-- A job in a line is the one that was submitted under its number. -/
theorem asked (hl : Lined d) {w : Waiting} (hw : w ∈ (d.queue s).line) :
    (d.asked s)[w.number]? = some w.task := by
  have hmem := (hl.placed s).subset (List.mem_map_of_mem (f := fun w : Waiting => (w.task, w.number)) hw)
  exact List.mem_zipIdx_iff_getElem?.mp hmem

theorem number_lt (hl : Lined d) {w : Waiting} (hw : w ∈ (d.queue s).line) :
    w.number < (d.queue s).submitted := by
  rw [hl.counted]
  exact (List.getElem?_eq_some_iff.mp (hl.asked hw)).1

theorem of_sublist (hl : Lined d) (hline : ∀ t, (d'.queue t).line.Sublist (d.queue t).line)
    (hsubmitted : ∀ t, (d'.queue t).submitted = (d.queue t).submitted) (hasked : d'.asked = d.asked)
    (howners : d'.hub.handlers.owners = d.hub.handlers.owners) : Lined d' where
  counted t := by rw [hsubmitted, hasked, hl.counted]
  placed t := by
    rw [hasked]
    exact ((hline t).map _).trans (hl.placed t)
  begun := howners ▸ hl.begun
  named t w hw := by
    rw [howners]
    exact hl.named t w ((hline t).subset hw)
  apart t t' w hw w' hw' := hl.apart t t' w ((hline t).subset hw) w' ((hline t').subset hw')

theorem put (hl : Lined d) {q : JobQueue} (hline : q.line.Sublist (d.queue s).line)
    (hsubmitted : q.submitted = (d.queue s).submitted) : Lined (d.put s q) := by
  refine hl.of_sublist ?_ ?_ rfl rfl
  · exact (forall_update_iff _ fun t (q : JobQueue) => q.line.Sublist (d.queue t).line).mpr
      ⟨hline, fun _ _ => List.Sublist.refl _⟩
  · exact (forall_update_iff _ fun t (q : JobQueue) => q.submitted = (d.queue t).submitted).mpr
      ⟨hsubmitted, fun _ _ => rfl⟩

theorem post (hl : Lined d) (e : Event) : Lined (d.post s e) := hl.put (List.Sublist.refl _) rfl

theorem ask (hl : Lined d) (task : Task) : Lined (d.ask s task) where
  counted t := by
    by_cases ht : t = s
    · subst ht
      simp [Desk.ask, hl.counted]
    · simp [Desk.ask, update_of_ne ht, hl.counted]
  placed t := by
    by_cases ht : t = s
    · subst ht
      simpa [Desk.ask, List.zipIdx_append] using (hl.placed t).trans (List.sublist_append_left _ _)
    · simpa [Desk.ask, update_of_ne ht] using hl.placed t
  begun := hl.begun
  named t := by
    by_cases ht : t = s
    · subst ht
      simpa [Desk.ask, Desk.put] using hl.named t
    · simpa [Desk.ask, Desk.put, update_of_ne ht] using hl.named t
  apart := by
    have hline : ∀ t, ((d.ask s task).queue t).line = (d.queue t).line := by
      intro t
      by_cases ht : t = s
      · subst ht
        simp [Desk.ask]
      · simp [Desk.ask, update_of_ne ht]
    simpa only [hline] using hl.apart

theorem line_enrol (d : Desk) (s : Service) (task : Task) (t : Service) :
    ((d.enrol s task).queue t).line = (d.queue t).line ++
      if t = s then [⟨(d.queue s).submitted, d.hub.handlers.freshOwner, task⟩] else [] := by
  by_cases ht : t = s
  · subst ht
    simp [Desk.enrol, Desk.ask, JobQueue.line]
  · simp [Desk.enrol, Desk.ask, ht]

theorem mem_line_enrol {task : Task} {t : Service} {w : Waiting} (hw : w ∈ ((d.enrol s task).queue t).line) :
    w ∈ (d.queue t).line ∨ t = s ∧ w = ⟨(d.queue s).submitted, d.hub.handlers.freshOwner, task⟩ := by
  rw [line_enrol] at hw
  rcases List.mem_append.mp hw with hold | hnew
  · exact .inl hold
  · split at hnew
    · exact .inr ⟨by assumption, List.mem_singleton.mp hnew⟩
    · exact absurd hnew List.not_mem_nil

/-- A job joins the end of the line under the next number and a new owner. -/
theorem enrol (hl : Lined d) (task : Task) : Lined (d.enrol s task) where
  counted t := by
    by_cases ht : t = s
    · subst ht
      simp [Desk.enrol, Desk.ask, hl.counted]
    · simp [Desk.enrol, Desk.ask, update_of_ne ht, hl.counted]
  placed t := by
    rw [line_enrol]
    by_cases ht : t = s
    · subst ht
      have hnew : ((d.enrol t task).asked t).zipIdx = (d.asked t).zipIdx ++
          [(task, (d.queue t).submitted)] := by
        simp [Desk.enrol, Desk.ask, List.zipIdx_append, hl.counted]
      rw [hnew, if_pos rfl, List.map_append]
      exact (hl.placed t).append (List.Sublist.refl _)
    · simpa [Desk.enrol, Desk.ask, update_of_ne ht, ht] using hl.placed t
  begun := Nat.succ_pos _
  named t w hw := by
    show 0 < w.owner ∧ w.owner < d.hub.handlers.owners + 1
    rcases mem_line_enrol hw with hold | ⟨_, rfl⟩
    · have hnamed := hl.named t w hold
      exact ⟨hnamed.1, Nat.lt_succ_of_lt hnamed.2⟩
    · exact ⟨hl.begun, Nat.lt_succ_self _⟩
  apart t t' w hw w' hw' howner := by
    -- the owner of the new job is larger than that of any job that stood in a line before
    rcases mem_line_enrol hw with hold | ⟨rfl, rfl⟩ <;> rcases mem_line_enrol hw' with hold' | ⟨rfl, rfl⟩
    · exact hl.apart t t' w hold w' hold' howner
    · exact absurd howner (Nat.ne_of_lt (hl.named t w hold).2)
    · exact absurd howner.symm (Nat.ne_of_lt (hl.named t' w' hold').2)
    · exact ⟨rfl, rfl⟩

theorem step (hl : Lined d) (hs : Step i d d') : Lined d' := by
  cases hs with
  | follow due =>
      rename_i s q r h move
      have howners := (r.follow_follows s h move).owners.trans due.owners
      exact hl.of_sublist due.line_sublist (due.submitted_after _) rfl howners
  | skip running events stray => exact hl.put (List.Sublist.refl _) rfl
  | clear idle => exact hl.put (List.Sublist.refl _) rfl
  | tell owing => exact hl.of_sublist (fun _ => List.Sublist.refl _) (fun _ => rfl) rfl rfl
  | enrol asked => exact hl.enrol _
  | turnAway asked busy => exact (hl.ask _).of_sublist (fun _ => List.Sublist.refl _) (fun _ => rfl) rfl rfl
  | callOff waiting =>
      have hput := hl.put (d.line_without waiting) rfl
      exact hput.of_sublist (fun _ => List.Sublist.refl _) (fun _ => rfl) rfl (by simp [callOff])
  | fire armed due => exact (hl.post _).of_sublist (fun _ => List.Sublist.refl _) (fun _ => rfl) rfl rfl
  | deliver received subscribed =>
      obtain hsame | ⟨s, job, hpost⟩ := deliver_cases _ _ _ _
      · rwa [hsame]
      · rw [hpost]
        exact hl.post _

end Lined

end Desk

end GroundLink
