import GroundLink.Job.Task

/-! What the steps of jobs have in common, whatever they do. A step never changes what a job was asked
for; a job that starts sends something or ends at once; and a job whose time is up either ends or takes
a new timer, so that it never waits for one that has fired. No new timer is set shorter than the timeout. -/

namespace GroundLink

namespace Move

variable {σ ρ : Type}

/-- The state a step goes on in, if it does. -/
def next? : Move σ → Option σ
  | proceed _ _ _ state => some state
  | _ => none

/-- Whether a step ends the job or takes a new timer for it. -/
def Renews : Move σ → Prop
  | ignore => False
  | proceed (.restart _) _ _ _ => True
  | proceed .extend _ _ _ => False
  | finish _ _ _ => True

/-- Whether a step sends a message under a new timer or ends the job without one. -/
def Opens : Move σ → Prop
  | proceed (.restart _) _ (some _) _ => True
  | finish _ _ _ => True
  | _ => False

/-- Whether a step that takes a new timer takes one of at least the given span. -/
def Ample (timeout : Span) : Move σ → Prop
  | proceed (.restart span) _ _ _ => timeout.micros ≤ span.micros
  | _ => True

theorem next?_map (f : σ → ρ) (m : Move σ) : (m.map f).next? = m.next?.map f := by
  cases m <;> rfl

theorem map_eq_proceed {f : σ → ρ} {m : Move σ} {wait : Wait} {report : Option Fraction}
    {message : Option Message} {state : ρ} :
    m.map f = .proceed wait report message state ↔
      ∃ x, m = .proceed wait report message x ∧ f x = state := by
  cases m <;> simp only [map, proceed.injEq, reduceCtorEq, false_and, exists_false]
  exact ⟨fun ⟨h, h', h'', hx⟩ => ⟨_, ⟨h, h', h'', rfl⟩, hx⟩,
    fun ⟨_, ⟨h, h', h'', hx⟩, hf⟩ => ⟨h, h', h'', hx ▸ hf⟩⟩

theorem renews_map (f : σ → ρ) (m : Move σ) : (m.map f).Renews ↔ m.Renews := by
  cases m with
  | proceed wait report message state => cases wait <;> rfl
  | _ => rfl

theorem ample_map (timeout : Span) (f : σ → ρ) (m : Move σ) : (m.map f).Ample timeout ↔ m.Ample timeout := by
  cases m with
  | proceed wait report message state => cases wait <;> rfl
  | _ => rfl

theorem opens_map (f : σ → ρ) (m : Move σ) : (m.map f).Opens ↔ m.Opens := by
  cases m with
  | proceed wait report message state => cases wait <;> cases message <;> rfl
  | _ => rfl

theorem Opens.renews {m : Move σ} (h : m.Opens) : m.Renews := by
  cases m with
  | ignore => exact h
  | proceed wait report message state =>
      cases wait with
      | restart span => trivial
      | extend => exact h.elim
  | finish message report outcome => trivial

end Move

theorem Collection.onTimeout_renews (p : Policy) (l : ListRef) (c : Collection) :
    (c.onTimeout p l).Renews := by
  unfold onTimeout
  split <;> trivial

theorem Download.onTimeout_renews (p : Policy) (d : Download) (s : Download.State) :
    (d.onTimeout p s).Renews := by
  cases s with
  | listing retries =>
      simp only [onTimeout]
      split <;> trivial
  | collecting c => exact (Move.renews_map _ _).mpr (c.onTimeout_renews p d.list)

theorem Attempt.onTimeout_renews (p : Policy) (autopilot : Autopilot) (a : Attempt) (retries : Nat) :
    (a.onTimeout p autopilot retries).Renews := by
  cases retries <;> trivial

namespace Task

theorem task_initial (s : Setting) (t : Task) : (t.initial s).task = t := by
  cases t with
  | command a => rfl
  | transfer t => cases t <;> rfl

theorem eq_of_initial {s : Setting} {t : Task} {a : Activity} (h : t.initial s = a) : t = a.task := by
  rw [← h, task_initial]

theorem task_of_start {s : Setting} {t : Task} {a : Activity} (h : (t.start s).next? = some a) :
    a.task = t := by
  cases t with
  | command attempt =>
      simp only [start, Move.next?_map, Option.map_eq_some_iff] at h
      obtain ⟨_, _, rfl⟩ := h
      rfl
  | transfer t =>
      cases t <;> simp only [start, Move.next?_map, Option.map_eq_some_iff] at h <;>
        obtain ⟨_, _, rfl⟩ := h <;> rfl

theorem start_opens (s : Setting) (t : Task) : (t.start s).Opens := by
  cases t with
  | command attempt => trivial
  | transfer t =>
      cases t with
      | upload u =>
          rw [start, Move.opens_map, Upload.start]
          split <;> trivial
      | download d => trivial
      | receive r =>
          rw [start, Move.opens_map, Receive.start]
          split
          · trivial
          · split <;> trivial
      | clear c => trivial
      | setCurrent c =>
          rw [start, Move.opens_map, SetCurrent.start]
          split <;> trivial

end Task

namespace Activity

theorem task_of_onMessage {s : Setting} {sender : Address} {m : Message} {a b : Activity}
    (h : (a.onMessage s sender m).next? = some b) : b.task = a.task := by
  cases a <;> simp only [onMessage, Move.next?_map, Option.map_eq_some_iff] at h <;>
    obtain ⟨_, _, rfl⟩ := h <;> rfl

theorem task_of_onTimeout {s : Setting} {a b : Activity} (h : (a.onTimeout s).next? = some b) :
    b.task = a.task := by
  cases a <;> simp only [onTimeout, Move.next?_map, Option.map_eq_some_iff] at h <;>
    obtain ⟨_, _, rfl⟩ := h <;> rfl

/-- No job is left without a timer by silence. -/
theorem onTimeout_renews (s : Setting) (a : Activity) : (a.onTimeout s).Renews := by
  cases a with
  | command attempt retries => exact (Move.renews_map _ _).mpr (attempt.onTimeout_renews _ _ _)
  | upload u state =>
      rw [onTimeout, Move.renews_map, Upload.onTimeout]
      split <;> trivial
  | download d state => exact (Move.renews_map _ _).mpr (d.onTimeout_renews _ _)
  | receive r c => exact (Move.renews_map _ _).mpr (c.onTimeout_renews _ _)
  | clear c retries =>
      rw [onTimeout, Move.renews_map, Clear.onTimeout]
      split <;> trivial
  | setCurrent c retries =>
      rw [onTimeout, Move.renews_map, SetCurrent.onTimeout]
      split <;> trivial

end Activity

theorem Span.micros_le_times (s : Span) {n : Nat} (hn : 0 < n) : s.micros ≤ (s.times n).micros := by
  have hle : s.nanos ≤ s.nanos * n := Nat.le_mul_of_pos_right _ hn
  simp only [micros, times, limit, second, UInt64.size]
  omega

section Ample

variable (p : Policy)

theorem Collection.ample_onTimeout (l : ListRef) (c : Collection) : (c.onTimeout p l).Ample p.timeout := by
  unfold onTimeout
  split
  · trivial
  · exact Nat.le_refl _

theorem Collection.ample_onItem (l : ListRef) (c : Collection) (m : MissionItemInt) :
    (c.onItem l m).Ample p.timeout := by
  unfold onItem
  split
  · trivial
  · simp only
    split <;> trivial

theorem Download.ample_onMessage (d : Download) (s : Download.State) (m : Message) :
    (d.onMessage s m).Ample p.timeout := by
  cases m with
  | missionCount c =>
      cases s with
      | listing retries =>
          simp only [onMessage, onCount]
          split <;> trivial
      | collecting c => trivial
  | missionItemInt i =>
      cases s with
      | listing retries => trivial
      | collecting c => exact (Move.ample_map _ _ _).mpr (c.ample_onItem p d.list i)
  | _ => trivial

theorem Upload.ample_onRequest (u : Upload) (s : Upload.State) (seq : Nat) :
    (u.onRequest p s seq).Ample p.timeout := by
  unfold onRequest
  split
  · trivial
  · split
    · trivial
    · split <;> trivial

theorem Upload.ample_onMessage (u : Upload) (s : Upload.State) (sender : Address) (m : Message) :
    (u.onMessage p s sender m).Ample p.timeout := by
  cases m with
  | missionRequest r =>
      rw [onMessage]
      split
      · exact u.ample_onRequest p s _
      · trivial
  | missionRequestInt r => exact u.ample_onRequest p s _
  | missionAck a =>
      rw [onMessage, onAck]
      split
      · trivial
      · split <;> trivial
  | _ => trivial

theorem Attempt.ample_onMessage (own : Address) (a : Attempt) (retries : Nat) (m : Message) :
    (a.onMessage p own retries m).Ample p.timeout := by
  cases m with
  | commandAck ack =>
      rw [onMessage, onAck]
      split
      · trivial
      · split <;> first
          | trivial
          | exact Span.micros_le_times _ (Nat.lt_of_lt_of_le Nat.zero_lt_one (Nat.le_max_left _ _))
  | _ => trivial

end Ample

/-- No job ever takes a timer shorter than the timeout. -/
theorem Task.ample_start (s : Setting) (t : Task) : (t.start s).Ample s.policy.timeout := by
  cases t with
  | command a => exact Nat.le_refl _
  | transfer t =>
      cases t with
      | upload u =>
          rw [start, Move.ample_map, Upload.start]
          split
          · trivial
          · exact Nat.le_refl _
      | download d => exact Nat.le_refl _
      | receive r =>
          rw [start, Move.ample_map, Receive.start]
          split
          · trivial
          · split
            · trivial
            · exact Nat.le_refl _
      | clear c => exact Nat.le_refl _
      | setCurrent c =>
          rw [start, Move.ample_map, SetCurrent.start]
          split
          · trivial
          · exact Nat.le_refl _

namespace Activity

theorem ample_onMessage (s : Setting) (sender : Address) (m : Message) (a : Activity) :
    (a.onMessage s sender m).Ample s.policy.timeout := by
  cases a with
  | command a retries => exact (Move.ample_map _ _ _).mpr (a.ample_onMessage _ _ _ _)
  | upload u state => exact (Move.ample_map _ _ _).mpr (u.ample_onMessage _ _ _ _)
  | download d state => exact (Move.ample_map _ _ _).mpr (d.ample_onMessage _ _ _)
  | receive r c =>
      rw [onMessage, Move.ample_map]
      cases m with
      | missionItemInt i => exact c.ample_onItem s.policy r.list i
      | _ => trivial
  | clear c retries =>
      rw [onMessage, Move.ample_map]
      cases m <;> trivial
  | setCurrent c retries =>
      rw [onMessage, Move.ample_map]
      cases m with
      | missionCurrent m =>
          rw [SetCurrent.onMessage]
          split
          · trivial
          · split <;> trivial
      | _ => trivial

theorem ample_onTimeout (s : Setting) (a : Activity) : (a.onTimeout s).Ample s.policy.timeout := by
  cases a with
  | command a retries =>
      rw [onTimeout, Move.ample_map]
      cases retries with
      | zero => trivial
      | succ n => exact Nat.le_refl _
  | upload u state =>
      rw [onTimeout, Move.ample_map, Upload.onTimeout]
      split
      · trivial
      · exact Nat.le_refl _
  | download d state =>
      rw [onTimeout, Move.ample_map]
      cases state with
      | listing retries =>
          rw [Download.onTimeout]
          split
          · trivial
          · exact Nat.le_refl _
      | collecting c => exact (Move.ample_map _ _ _).mpr (c.ample_onTimeout _ _)
  | receive r c => exact (Move.ample_map _ _ _).mpr (c.ample_onTimeout _ _)
  | clear c retries =>
      rw [onTimeout, Move.ample_map, Clear.onTimeout]
      split
      · trivial
      · exact Nat.le_refl _
  | setCurrent c retries =>
      rw [onTimeout, Move.ample_map, SetCurrent.onTimeout]
      split
      · trivial
      · exact Nat.le_refl _

end Activity

end GroundLink
