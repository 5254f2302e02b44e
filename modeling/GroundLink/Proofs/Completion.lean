import GroundLink.Proofs.Line
import GroundLink.Proofs.Simulation

/-! Every job is told once how it ended. At all times a submitted job stands in its line, or its
outcome is still to be told, or it was told, and it is one of these once (`Desk.Accounted`).
Whichever way a job ends, one small step takes it out of the line and puts its outcome among those
to be told, and another tells it. -/

namespace GroundLink

open Function

namespace Effect

/-- Whether an effect tells how the given job ended. -/
def settles (t : Ticket) (e : Effect) : Bool := e.isResult && decide (e.job = t)

/-- Whether an effect may be followed by another: once it was told how a job ended, nothing is seen of
that job any more. -/
def Before (a b : Effect) : Prop := a.isResult = true → b.job ≠ a.job

@[simp] theorem settles_result (t t' : Ticket) (o : Outcome) :
    (result t' o).settles t = decide (t' = t) := rfl

theorem settles_of_isResult {e : Effect} (h : e.isResult = true) : e.settles e.job = true := by
  simp [settles, h]

theorem settles_eq_false {e : Effect} (h : e.isResult = false) (t : Ticket) : e.settles t = false := by
  simp [settles, h]

end Effect

namespace Desk

variable {i : Input} {d d' : Desk} {s : Service} {q : JobQueue} {r : Running} {h : Hub} {move : Move Activity}

/-- How often a job stands in its line. -/
def standing (d : Desk) (t : Ticket) : Nat := (d.queue t.service).line.countP (·.number = t.number)

def owed (d : Desk) (t : Ticket) : Nat := d.owing.countP (·.1 = t)

/-- How often it was told how a job ended. -/
def told (d : Desk) (t : Ticket) : Nat := d.effects.countP (·.settles t)

/-- One job leaves its line. -/
theorem standing_of_perm {w : Waiting} (hline : (d.queue s).line.Perm (w :: (d'.queue s).line))
    (hother : ∀ t, t ≠ s → d'.queue t = d.queue t) (t : Ticket) :
    d.standing t = d'.standing t + if ⟨s, w.number⟩ = t then 1 else 0 := by
  obtain ⟨ts, tn⟩ := t
  by_cases ht : ts = s
  · subst ht
    rw [standing, hline.countP_eq, List.countP_cons]
    simp [standing]
  · have hne : (⟨s, w.number⟩ : Ticket) ≠ ⟨ts, tn⟩ := fun h => ht (congrArg Ticket.service h).symm
    rw [if_neg hne, standing, standing, hother ts ht, Nat.add_zero]

theorem owed_concat (d : Desk) (t t' : Ticket) (o : Outcome) :
    (d.owing ++ [(t', o)]).countP (·.1 = t) = d.owed t + if t' = t then 1 else 0 := by
  rw [List.countP_append, owed]
  by_cases ht : t' = t <;> simp [ht]

theorem told_concat (d : Desk) (t t' : Ticket) (o : Outcome) :
    (d.effects ++ [Effect.result t' o]).countP (·.settles t) = d.told t + if t' = t then 1 else 0 := by
  rw [List.countP_append, told]
  by_cases ht : t' = t <;> simp [ht]

/-- What has become of the jobs. -/
structure Accounted (d : Desk) : Prop where
  /-- A submitted job waits, is under way, is to be told of or was told of. -/
  once : ∀ t, d.standing t + d.owed t + d.told t = if t.number < (d.queue t.service).submitted then 1 else 0
  closed : d.effects.Pairwise Effect.Before

namespace Accounted

/-- Nobody was told of a job that stands in a line, is still to be told of or was never submitted. -/
theorem told_eq_zero (ha : Accounted d) {t : Ticket}
    (ht : 0 < d.standing t ∨ 0 < d.owed t ∨ (d.queue t.service).submitted ≤ t.number) : d.told t = 0 := by
  have honce := ha.once t
  split at honce <;> omega

theorem of_owed (ha : Accounted d) {t : Ticket} (ht : 0 < d.owed t) :
    t.number < (d.queue t.service).submitted ∧ d.standing t = 0 := by
  have honce := ha.once t
  split at honce
  · exact ⟨by assumption, by omega⟩
  · omega

theorem owed_pos {t : Ticket} {o : Outcome} {rest : List (Ticket × Outcome)} (ho : d.owing = (t, o) :: rest) :
    0 < d.owed t := by
  rw [owed, ho, List.countP_cons_of_pos (by simp)]
  exact Nat.succ_pos _

theorem before (t : Ticket) (ht : d.told t = 0) {a b : Effect} (ha : a ∈ d.effects) (hb : b.job = t) :
    a.Before b := by
  intro hresult hjob
  have hnone := List.countP_eq_zero.mp ht a ha
  rw [← hb, hjob] at hnone
  exact hnone (Effect.settles_of_isResult hresult)

/-- Effects of one job, of which none tells how it ended, are added. -/
theorem closed_append (ha : Accounted d) (t : Ticket) (ht : d.told t = 0) {effects : List Effect}
    (he : ∀ e ∈ effects, e.job = t ∧ e.isResult = false) : (d.effects ++ effects).Pairwise Effect.Before := by
  refine List.pairwise_append.mpr ⟨ha.closed, ?_, fun a hin b hb => before t ht hin (he b hb).1⟩
  refine List.pairwise_of_forall_mem_list ?_
  intro a hin b hb hresult
  rw [(he a hin).2] at hresult
  cases hresult

theorem told_append (t : Ticket) {effects : List Effect} (he : ∀ e ∈ effects, e.isResult = false) :
    (d.effects ++ effects).countP (·.settles t) = d.told t := by
  rw [List.countP_append, told, Nat.add_eq_left, List.countP_eq_zero]
  intro e hin
  simp [Effect.settles_eq_false (he e hin)]

theorem closed_result (ha : Accounted d) (t : Ticket) (o : Outcome) (ht : d.told t = 0) :
    (d.effects ++ [Effect.result t o]).Pairwise Effect.Before := by
  refine List.pairwise_append.mpr ⟨ha.closed, List.pairwise_singleton _ _, fun a hin b hb => ?_⟩
  rw [List.mem_singleton.mp hb]
  exact before t ht hin rfl

theorem of_eq (ha : Accounted d) (hline : ∀ t, (d'.queue t).line = (d.queue t).line)
    (hsubmitted : ∀ t, (d'.queue t).submitted = (d.queue t).submitted) (howing : d'.owing = d.owing)
    (heffects : d'.effects = d.effects) : Accounted d' where
  once t := by
    rw [standing, owed, told, hline, howing, heffects, hsubmitted]
    exact ha.once t
  closed := heffects ▸ ha.closed

theorem put (ha : Accounted d) {q : JobQueue} (hline : q.line = (d.queue s).line)
    (hsubmitted : q.submitted = (d.queue s).submitted) : Accounted (d.put s q) := by
  refine ha.of_eq ?_ ?_ rfl rfl
  · exact (forall_update_iff _ fun t (q : JobQueue) => q.line = (d.queue t).line).mpr ⟨hline, fun _ _ => rfl⟩
  · exact (forall_update_iff _ fun t (q : JobQueue) => q.submitted = (d.queue t).submitted).mpr
      ⟨hsubmitted, fun _ _ => rfl⟩

theorem post (ha : Accounted d) (s : Service) (e : Event) : Accounted (d.post s e) := ha.put rfl rfl

/-- A step of a job that is due either leaves the job in its line or moves it to those to be told of. -/
theorem follow (ha : Accounted d) (due : Due d s q r h move) :
    Accounted (d.after s q (r.follow s h move)) := by
  have hf := r.follow_follows s h move
  have hfirst : 0 < d.standing (r.ticket s) := by
    show 0 < (d.queue s).line.countP (·.number = r.number)
    rw [due.line, List.countP_cons_of_pos (by simp [Running.slot])]
    exact Nat.succ_pos _
  have htold : d.told (r.ticket s) = 0 := ha.told_eq_zero (.inl hfirst)
  have hsame : ∀ t, (d.after s q (r.follow s h move)).told t = d.told t :=
    fun t => told_append t fun e he => (hf.effects he).2
  refine ⟨fun t => ?_, ha.closed_append (r.ticket s) htold fun e he => hf.effects he⟩
  have honce := ha.once t
  rw [due.submitted_after, hsame, ← honce]
  rcases due.line_after with ⟨r', hr', hline⟩ | ⟨o, ho, hline⟩
  · have howed : (d.after s q (r.follow s h move)).owed t = d.owed t := by
      simp [owed, after, hr', Standing.owed]
    have hstanding : (d.after s q (r.follow s h move)).standing t = d.standing t := by
      by_cases ht : t.service = s
      · rw [standing, standing, ht, hline]
      · simp [standing, after, update_of_ne ht]
    rw [howed, hstanding]
  · have howing : (d.after s q (r.follow s h move)).owing = d.owing ++ [(r.ticket s, o)] := by
      simp [after, ho, Standing.owed, Ended.owed, Running.ticket]
    have hstanding : d.standing t =
        (d.after s q (r.follow s h move)).standing t + if r.ticket s = t then 1 else 0 := by
      apply standing_of_perm (w := r.slot)
      · rw [hline]
      · intro t ht
        exact update_of_ne ht _ _
    rw [owed, howing, owed_concat, hstanding]
    omega

theorem enrol (ha : Accounted d) (task : Task) : Accounted (d.enrol s task) := by
  refine ⟨fun t => ?_, ha.closed⟩
  have honce := ha.once t
  have hstanding : (d.enrol s task).standing t =
      d.standing t + if t.service = s ∧ (d.queue s).submitted = t.number then 1 else 0 := by
    rw [standing, Lined.line_enrol, List.countP_append]
    by_cases ht : t.service = s
    · simp [ht, standing, List.countP_cons]
    · simp [ht, standing]
  have hsubmitted : ((d.enrol s task).queue t.service).submitted =
      (d.queue t.service).submitted + if t.service = s then 1 else 0 := by
    by_cases ht : t.service = s
    · simp [ht, Desk.enrol, Desk.ask]
    · simp [ht, Desk.enrol, Desk.ask]
  rw [hstanding, hsubmitted]
  show d.standing t + _ + d.owed t + d.told t = _
  by_cases ht : t.service = s
  · subst ht
    simp only [true_and, if_true]
    split at honce <;> split <;> split <;> omega
  · simp only [ht, false_and, if_false, Nat.add_zero]
    exact honce

theorem turnAway (ha : Accounted d) (task : Task) : Accounted (d.turnAway s task) := by
  have htold : d.told ⟨s, (d.queue s).submitted⟩ = 0 := ha.told_eq_zero (.inr (.inr (Nat.le_refl _)))
  refine ⟨fun t => ?_, ha.closed_result _ _ htold⟩
  have honce := ha.once t
  have hmore : (d.turnAway s task).told t = d.told t + if ⟨s, (d.queue s).submitted⟩ = t then 1 else 0 :=
    told_concat d t _ _
  rw [hmore]
  obtain ⟨ts, tn⟩ := t
  by_cases ht : ts = s
  · subst ht
    have hsubmitted : ((d.turnAway ts task).queue ts).submitted = (d.queue ts).submitted + 1 := by
      simp [Desk.turnAway, Desk.ask]
    have hstanding : (d.turnAway ts task).standing ⟨ts, tn⟩ = d.standing ⟨ts, tn⟩ := by
      simp [standing, Desk.turnAway, Desk.ask]
    show _ + d.owed ⟨ts, tn⟩ + _ = if tn < _ then 1 else 0
    rw [hstanding, hsubmitted]
    simp only [Ticket.mk.injEq, true_and] at honce ⊢
    split at honce <;> split <;> split <;> omega
  · have hne : (⟨s, (d.queue s).submitted⟩ : Ticket) ≠ ⟨ts, tn⟩ :=
      fun h => ht (congrArg Ticket.service h).symm
    have hqueue : (d.turnAway s task).queue ts = d.queue ts := by
      simp [Desk.turnAway, Desk.ask, update_of_ne ht]
    rw [if_neg hne, standing, hqueue]
    exact honce

theorem callOff (ha : Accounted d) {w : Waiting} {before after : List Waiting}
    (hw : (d.queue s).waiting.items = before ++ w :: after) :
    Accounted (d.callOff s w (before ++ after)) := by
  refine ⟨fun t => ?_, ha.closed⟩
  have honce := ha.once t
  have hsubmitted : ((d.callOff s w (before ++ after)).queue t.service).submitted =
      (d.queue t.service).submitted := by
    by_cases ht : t.service = s
    · simp [Desk.callOff, ht]
    · simp [Desk.callOff, update_of_ne ht]
  have howing : (d.callOff s w (before ++ after)).owed t = d.owed t + if ⟨s, w.number⟩ = t then 1 else 0 := by
    exact owed_concat d t _ _
  have hstanding : d.standing t =
      (d.callOff s w (before ++ after)).standing t + if ⟨s, w.number⟩ = t then 1 else 0 := by
    apply standing_of_perm
    · simp only [Desk.callOff, put_queue, update_self, JobQueue.line, hw, JobQueue.withWaiting_running,
        JobQueue.withWaiting_waiting]
      exact (List.perm_middle.append_left _).trans List.perm_middle
    · intro t ht
      exact update_of_ne ht _ _
  have htold : (d.callOff s w (before ++ after)).told t = d.told t := rfl
  rw [howing, hsubmitted, htold]
  omega

theorem tell (ha : Accounted d) {t : Ticket} {o : Outcome} {rest : List (Ticket × Outcome)}
    (ho : d.owing = (t, o) :: rest) : Accounted (d.tell t o rest) := by
  refine ⟨fun t' => ?_, ha.closed_result t o (ha.told_eq_zero (.inr (.inl (owed_pos ho))))⟩
  have honce := ha.once t'
  have hmore : (d.tell t o rest).told t' = d.told t' + if t = t' then 1 else 0 := told_concat d t' t o
  have hless : d.owed t' = (d.tell t o rest).owed t' + if t = t' then 1 else 0 := by
    rw [owed, ho, List.countP_cons]
    by_cases ht : t = t' <;> simp [ht, owed, Desk.tell]
  have hstanding : (d.tell t o rest).standing t' = d.standing t' := rfl
  rw [hmore, hstanding]
  show _ = if t'.number < (d.queue t'.service).submitted then 1 else 0
  omega

theorem step (ha : Accounted d) (hs : Step i d d') : Accounted d' := by
  cases hs with
  | follow due => exact ha.follow due
  | skip running events stray => exact ha.put rfl rfl
  | clear idle => exact ha.put rfl rfl
  | tell owing => exact ha.tell owing
  | enrol asked => exact ha.enrol _
  | turnAway asked busy => exact ha.turnAway _
  | callOff waiting => exact ha.callOff waiting
  | fire armed due => exact (ha.post _ _).of_eq (fun _ => rfl) (fun _ => rfl) rfl rfl
  | deliver received subscribed =>
      obtain hsame | ⟨s, job, hpost⟩ := deliver_cases _ _ _ _
      · rwa [hsame]
      · rw [hpost]
        exact ha.post _ _

end Accounted

/-- A queue that is ended tells of every job in its line. -/
theorem effects_close (q : JobQueue) (s : Service) (h : Hub) :
    (q.close s h).effects = q.line.map fun w => .result ⟨s, w.number⟩ (.failure w.task.abandonment) := by
  cases hr : q.running <;> simp [JobQueue.close, JobQueue.results, JobQueue.line, Running.slot, hr]

theorem line_close (q : JobQueue) (s : Service) (h : Hub) : (q.close s h).queue.line = [] := rfl

theorem Lined.close (hl : Lined d) (s : Service) : Lined (d.turned s ((d.queue s).close s d.hub)) := by
  have hline : ((d.queue s).close s d.hub).queue.line.Sublist (d.queue s).line := List.nil_sublist _
  refine (hl.put hline rfl).of_sublist (fun _ => List.Sublist.refl _) (fun _ => rfl) rfl ?_
  cases hr : (d.queue s).running <;> simp [turned, JobQueue.close, hr]

/-- Of the queue that is ended every job in the line is told of, and of others none. -/
theorem told_close (d : Desk) (s : Service) (t : Ticket) :
    (d.turned s ((d.queue s).close s d.hub)).told t =
      d.told t + if t.service = s then d.standing t else 0 := by
  show (d.effects ++ _).countP _ = _
  rw [List.countP_append, effects_close, List.countP_map]
  obtain ⟨ts, tn⟩ := t
  by_cases ht : ts = s
  · subst ht
    simp only [if_true, told, standing]
    congr 1
    apply List.countP_congr
    intro w _
    simp
  · have hnone : (d.queue s).line.countP
        ((fun e : Effect => e.settles ⟨ts, tn⟩) ∘
          fun w => .result ⟨s, w.number⟩ (.failure w.task.abandonment)) = 0 := by
      apply List.countP_eq_zero.mpr
      intro w _
      simp [Ne.symm ht]
    rw [hnone, if_neg ht]
    rfl

theorem Accounted.close (ha : Accounted d) (hl : Lined d) (s : Service) :
    Accounted (d.turned s ((d.queue s).close s d.hub)) := by
  refine ⟨fun t => ?_, ?_⟩
  · have honce := ha.once t
    have howed : (d.turned s ((d.queue s).close s d.hub)).owed t = d.owed t := rfl
    rw [howed, told_close]
    by_cases ht : t.service = s
    · have hstanding : (d.turned s ((d.queue s).close s d.hub)).standing t = 0 := by
        rw [standing, ht]
        simp [turned, line_close]
      have hsubmitted : ((d.turned s ((d.queue s).close s d.hub)).queue t.service).submitted =
          (d.queue t.service).submitted := by
        rw [ht]
        simp [turned, JobQueue.close]
      rw [hstanding, hsubmitted, if_pos ht]
      omega
    · have hqueue : (d.turned s ((d.queue s).close s d.hub)).queue t.service = d.queue t.service := by
        simp [turned, update_of_ne ht]
      rw [standing, hqueue, if_neg ht]
      exact honce
  · show (d.effects ++ _).Pairwise Effect.Before
    rw [effects_close]
    refine List.pairwise_append.mpr ⟨ha.closed, ?_, ?_⟩
    · refine List.pairwise_map.mpr ((List.pairwise_map.mp (hl.nodup s)).imp ?_)
      intro w w' hne _ hjob
      exact hne (congrArg Ticket.number hjob).symm
    · intro a hin b hb
      obtain ⟨w, hw, rfl⟩ := List.mem_map.mp hb
      have hstanding : 0 < d.standing ⟨s, w.number⟩ := List.countP_pos_iff.mpr ⟨w, hw, by simp⟩
      exact before ⟨s, w.number⟩ (ha.told_eq_zero (.inl hstanding)) hin rfl

end Desk

namespace Engine

variable (config : Config) (link : Link) (clock : Instant) (inputs : List Input)

theorem lined_idle : ((idle config link clock).desk [] fun _ => []).Lined := by
  have hline : ∀ t, (((idle config link clock).desk [] fun _ => []).queue t).line = [] := by
    intro t
    obtain _ | ⟨_ | _⟩ := t <;> rfl
  refine ⟨fun t => ?_, fun t => ?_, Nat.zero_lt_one, fun t w hw => ?_, fun t t' w hw => ?_⟩
  · obtain _ | ⟨_ | _⟩ := t <;> rfl
  · rw [hline]
    exact List.nil_sublist _
  · rw [hline] at hw
    cases hw
  · rw [hline] at hw
    cases hw

theorem accounted_idle : ((idle config link clock).desk [] fun _ => []).Accounted := by
  refine ⟨fun t => ?_, List.Pairwise.nil⟩
  obtain ⟨_ | ⟨_ | _⟩, n⟩ := t <;> rfl

theorem lined_run : ((idle config link clock).deskAfter inputs).Lined :=
  run_keeps (P := Desk.Lined) (fun _ _ h => ⟨h.counted, h.placed, h.begun, h.named, h.apart⟩)
    (fun _ _ _ h hs => h.step hs) _ inputs (lined_idle config link clock)

theorem accounted_run : ((idle config link clock).deskAfter inputs).Accounted :=
  run_keeps (P := Desk.Accounted) (fun _ _ h => ⟨h.once, h.closed⟩) (fun _ _ _ h hs => h.step hs) _ inputs
    (accounted_idle config link clock)

end Engine

/-- The places a job has in its queue. -/
def Engine.entries (e : Engine) (t : Ticket) : List Waiting :=
  (e.queue t.service).line.filter (·.number = t.number)

namespace Reaction

/-- Whether a job is in its queue once and nobody was told how it ended. -/
def Pending (r : Reaction) (t : Ticket) (task : Task) : Prop :=
  (r.engine.entries t).map (·.task) = [task] ∧ r.effects.countP (·.settles t) = 0

def Settled (r : Reaction) (t : Ticket) : Prop := r.engine.entries t = [] ∧ r.effects.countP (·.settles t) = 1

theorem pending_or_settled {r : Reaction} {asked : Service → List Task} {s : Service} {n : Nat} {task : Task}
    (hl : (r.engine.desk r.effects asked).Lined) (ha : (r.engine.desk r.effects asked).Accounted)
    (ht : (asked s)[n]? = some task) : r.Pending ⟨s, n⟩ task ∨ r.Settled ⟨s, n⟩ := by
  have hlt : n < ((r.engine.desk r.effects asked).queue s).submitted := by
    rw [hl.counted]
    exact (List.getElem?_eq_some_iff.mp ht).1
  have honce : (r.engine.entries ⟨s, n⟩).length + 0 + r.effects.countP (·.settles ⟨s, n⟩) = 1 := by
    rw [Engine.entries, ← List.countP_eq_length_filter]
    exact (ha.once ⟨s, n⟩).trans (if_pos hlt)
  by_cases hempty : r.engine.entries ⟨s, n⟩ = []
  · refine .inr ⟨hempty, ?_⟩
    rw [hempty, List.length_nil] at honce
    omega
  · have hpos : 0 < (r.engine.entries ⟨s, n⟩).length := List.length_pos_iff.mpr hempty
    obtain ⟨w, hw⟩ := List.length_eq_one_iff.mp (show (r.engine.entries ⟨s, n⟩).length = 1 by omega)
    have hmem : w ∈ r.engine.entries ⟨s, n⟩ := hw ▸ List.mem_singleton_self w
    obtain ⟨hline, hnumber⟩ := List.mem_filter.mp hmem
    have htask : some w.task = some task := by
      rw [← hl.asked hline, of_decide_eq_true hnumber]
      exact ht
    refine .inl ⟨?_, by omega⟩
    rw [hw, List.map_singleton, Option.some.inj htask]

theorem desk_close (e : Engine) (effects : List Effect) (asked : Service → List Task)
    (hl : (e.desk effects asked).Lined) (ha : (e.desk effects asked).Accounted) :
    (e.close.engine.desk (effects ++ e.close.effects) asked).Lined ∧
      (e.close.engine.desk (effects ++ e.close.effects) asked).Accounted ∧
        ∀ s, (e.close.engine.queue s).line = [] := by
  have hclose : ∀ (e : Engine) (s : Service) (effects : List Effect), (e.desk effects asked).Lined →
      (e.desk effects asked).Accounted →
        ((e.closeQueue s).engine.desk (effects ++ (e.closeQueue s).effects) asked).Lined ∧
          ((e.closeQueue s).engine.desk (effects ++ (e.closeQueue s).effects) asked).Accounted := by
    intro e s effects hl ha
    have hturn := Engine.desk_afterTurn e s ((e.queue s).close s e.hub) effects asked
    exact ⟨hturn.symm ▸ hl.close s, hturn.symm ▸ ha.close hl s⟩
  let e₀ : Engine :=
    { e with hub := { e.hub with handlers := e.hub.handlers.unregisterAll Engine.commandOwner } }
  have hl₀ : (e₀.desk effects asked).Lined := ⟨hl.counted, hl.placed, hl.begun, hl.named, hl.apart⟩
  have ha₀ : (e₀.desk effects asked).Accounted := ⟨ha.once, ha.closed⟩
  obtain ⟨hl₁, ha₁⟩ := hclose e₀ .commands effects hl₀ ha₀
  obtain ⟨hl₂, ha₂⟩ := hclose _ (.mission .client) _ hl₁ ha₁
  obtain ⟨hl₃, ha₃⟩ := hclose _ (.mission .server) _ hl₂ ha₂
  simp only [List.append_assoc] at hl₃ ha₃
  refine ⟨?_, ?_, fun s => ?_⟩
  · simpa only [Engine.close, next, List.append_assoc] using hl₃
  · simpa only [Engine.close, next, List.append_assoc] using ha₃
  · obtain _ | ⟨_ | _⟩ := s <;> rfl

end Reaction

namespace Engine

/-- Whatever is done with an engine, a submitted job is in its queue once and nobody was told how it
ended, or it has left the queue and that was told once; nothing is seen of a job afterwards. Once the
engine has been ended, every job is of the second sort. -/
theorem run_settles_once (config : Config) (link : Link) (clock : Instant) (inputs : List Input) :
    let r := (idle config link clock).run inputs
    let ended := r.next close
    (∀ s n task, (submitted inputs s)[n]? = some task → r.Pending ⟨s, n⟩ task ∨ r.Settled ⟨s, n⟩) ∧
      (∀ s n task, (submitted inputs s)[n]? = some task → ended.Settled ⟨s, n⟩) ∧
        ended.effects.Pairwise Effect.Before := by
  intro r ended
  have hl := lined_run config link clock inputs
  have ha := accounted_run config link clock inputs
  obtain ⟨hl', ha', hempty⟩ := Reaction.desk_close r.engine r.effects (submitted inputs) hl ha
  refine ⟨fun s n task ht => Reaction.pending_or_settled hl ha ht, fun s n task ht => ?_, ha'.closed⟩
  rcases Reaction.pending_or_settled (r := ended) hl' ha' ht with hpending | hsettled
  · have hnone : ended.engine.entries ⟨s, n⟩ = [] := by
      rw [entries]
      show (r.engine.close.engine.queue s).line.filter _ = []
      rw [hempty, List.filter_nil]
    have htask := hpending.1
    rw [hnone] at htask
    cases htask
  · exact hsettled

end Engine

end GroundLink
