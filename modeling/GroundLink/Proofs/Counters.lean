import GroundLink.Proofs.Conduct
import GroundLink.Proofs.Provenance
import GroundLink.Proofs.Queries

/-! How far the counters of jobs go. A transfer counts how often it has tried since the last sign of progress,
a command how many retries it has left, each in a word of 32 bits. A step of a job that goes on leaves its
counter, or starts it anew at one, or counts one further below the ceiling, or takes one from what is left
(`Activity.Counts`). None of them leads out of the range (`Activity.Counts.le_ceiling`), and so none leaves
the word, whatever the configured ceiling is (`Activity.Counts.foldlM_apply?`). -/

namespace GroundLink

open Deed

/-- What is done to a counter. -/
inductive Tally
  | clear
  | up
  | down
  deriving DecidableEq

/-- A counter after it, if the word still holds it. -/
def Tally.apply? (w : UInt32) : Tally → Option UInt32
  | clear => some 0
  | up => if w.toNat + 1 < UInt32.size then some (w + 1) else none
  | down => if 0 < w.toNat then some (w - 1) else none

/-- How far the counter of a job may go. -/
def Task.ceiling (retries : Nat) : Task → Nat
  | command _ => retries
  | transfer _ => max 1 retries

namespace Activity

/-- The retries a command has left, or how often a transfer has tried since the last sign of progress. -/
def counter : Activity → Nat
  | command _ left => left
  | a => a.tries

/-- The counter as it is kept. -/
def word (a : Activity) : UInt32 := UInt32.ofNat a.counter

/-- The ways a step changes the counter of a job that goes on, with what it does to the word. -/
inductive Counts (p : Policy) (a b : Activity) : List Tally → Prop
  | kept (same : b.counter = a.counter) : Counts p a b []
  | afresh (transfer : ∃ t, a.task = .transfer t) (one : b.counter = 1) : Counts p a b [.clear, .up]
  | further (transfer : ∃ t, a.task = .transfer t) (left : a.counter < p.retries)
      (next : b.counter = a.counter + 1) : Counts p a b [.up]
  | spent (command : ∃ c, a.task = .command c) (next : a.counter = b.counter + 1) : Counts p a b [.down]

/-- Whether a move changes the counter in one of these ways. -/
def Tallies (p : Policy) (a : Activity) (move : Move Activity) : Prop :=
  ∀ b, move.next? = some b → ∃ ops, a.Counts p b ops

variable {p : Policy} {a b : Activity} {ops : List Tally}

theorem counter_of_transfer {t : Transfer} (h : a.task = .transfer t) : a.counter = a.tries := by
  cases a <;> first | rfl | cases h

namespace Counts

/-- No step leads out of the range. -/
theorem le_ceiling (h : a.Counts p b ops) (htask : b.task = a.task)
    (ha : a.counter ≤ a.task.ceiling p.retries) :
    b.counter ≤ b.task.ceiling p.retries := by
  rw [htask]
  cases h with
  | kept same => exact same.trans_le ha
  | afresh transfer one =>
      obtain ⟨t, ht⟩ := transfer
      rw [ht, one]
      exact Nat.le_max_left 1 _
  | further transfer left next =>
      obtain ⟨t, ht⟩ := transfer
      rw [ht, next]
      exact le_max_of_le_right left
  | spent command next => omega

/-- Done to the word, a step of a counter in range does what it does to the number. -/
theorem foldlM_apply? (h : a.Counts p b ops) (hretries : p.retries < UInt32.size)
    (ha : a.word.toNat = a.counter) :
    ops.foldlM Tally.apply? a.word = some b.word := by
  cases h with
  | kept same =>
      unfold word
      rw [same]
      rfl
  | afresh transfer one =>
      unfold word
      rw [one]
      rfl
  | further transfer left next =>
      have hroom : a.word.toNat + 1 < UInt32.size := by omega
      have hsum : a.word + 1 = b.word := by
        unfold word
        rw [next, UInt32.ofNat_add]
        rfl
      simp only [List.foldlM_cons, List.foldlM_nil, Tally.apply?, if_pos hroom, hsum]
      rfl
  | spent command next =>
      have hleft : 0 < a.word.toNat := by omega
      have hrest : a.word - 1 = b.word := by
        have hword : a.word = b.word + 1 := by
          unfold word
          rw [next, UInt32.ofNat_add]
          rfl
        rw [hword, UInt32.add_sub_cancel]
      simp only [List.foldlM_cons, List.foldlM_nil, Tally.apply?, if_pos hleft, hrest]
      rfl

end Counts

namespace Tallies

theorem ignored : a.Tallies p .ignore := fun _ h => by cases h

theorem finished {message : Option Message} {report : Option Fraction} {o : Outcome} :
    a.Tallies p (.finish message report o) := fun _ h => by cases h

theorem waited {wait : Wait} {report : Option Fraction} {message : Option Message} (h : a.Counts p b ops) :
    a.Tallies p (.proceed wait report message b) := by
  intro b' hb
  obtain rfl := Option.some.inj hb
  exact ⟨ops, h⟩

end Tallies

/-- An item for a collection, whichever kind of transfer that is of. -/
theorem tallies_onItem {f : Collection → Activity} (htask : ∀ c, ∃ t, (f c).task = .transfer t)
    (htries : ∀ c, (f c).tries = c.retries) (l : ListRef) (c : Collection) (m : MissionItemInt) :
    (f c).Tallies p ((c.onItem l m).map f) := by
  unfold Collection.onItem
  split
  · exact .waited (.kept rfl)
  · dsimp only
    split
    · exact .finished
    · obtain ⟨t, ht⟩ := htask { c with items := c.items ++ [MissionItem.decode m], retries := 1 }
      exact .waited (.afresh (htask c) ((counter_of_transfer ht).trans (htries _)))

/-- An item the peer has had before counts one further; the next one starts anew. -/
theorem tallies_onRequest (u : Upload) (state : Upload.State) (seq : Nat) :
    (upload u state).Tallies p ((u.onRequest p state seq).map (upload u)) := by
  unfold Upload.onRequest
  split
  · exact .ignored
  · split
    · exact .ignored
    · split
      · exact .finished
      · rename_i hserved
        by_cases hagain : seq < state.stage.next
        · have hleft : state.retries < p.retries := Nat.lt_of_not_le fun hspent => hserved ⟨hagain, hspent⟩
          rw [if_pos hagain]
          exact .waited (.further ⟨_, rfl⟩ hleft rfl)
        · rw [if_neg hagain]
          exact .waited (.afresh ⟨_, rfl⟩ rfl)

theorem tallies_upload (u : Upload) (state : Upload.State) (sender : Address) (m : Message) :
    (upload u state).Tallies p ((u.onMessage p state sender m).map (upload u)) := by
  cases m with
  | missionRequest r =>
      rw [Upload.onMessage]
      split
      · exact tallies_onRequest u state _
      · exact .waited (.kept rfl)
  | missionRequestInt r => exact tallies_onRequest u state _
  | missionAck ack =>
      rw [Upload.onMessage, Upload.onAck]
      split
      · exact .finished
      · split <;> exact .finished
  | _ => exact .ignored

theorem tallies_download (d : Download) (state : Download.State) (m : Message) :
    (download d state).Tallies p ((d.onMessage state m).map (download d)) := by
  cases m with
  | missionCount count =>
      cases state with
      | listing retries =>
          rw [Download.onMessage, Download.onCount]
          split
          · exact .finished
          · exact .waited (.afresh ⟨_, rfl⟩ rfl)
      | collecting c => exact .ignored
  | missionItemInt item =>
      cases state with
      | listing retries => exact .ignored
      | collecting c =>
          rw [Download.onMessage, Download.onItem, Move.map_map]
          exact tallies_onItem (f := fun c => download d (.collecting c))
            (fun _ => ⟨_, rfl⟩) (fun _ => rfl) d.list c item
  | _ => exact .ignored

theorem tallies_command (attempt : Attempt) (own : Address) (left : Nat) (m : Message) :
    (command attempt left).Tallies p ((attempt.onMessage p own left m).map (command attempt)) := by
  cases m with
  | commandAck ack =>
      rw [Attempt.onMessage, Attempt.onAck]
      split
      · exact .ignored
      · cases ack.result with
        | inProgress => exact .waited (.kept rfl)
        | cancelled => exact .ignored
        | other code => exact .ignored
        | _ => exact .finished
  | _ => exact .ignored

theorem tallies_onMessage (s : Setting) (sender : Address) (m : Message) (a : Activity) :
    a.Tallies s.policy (a.onMessage s sender m) := by
  cases a with
  | command attempt left => exact tallies_command attempt s.own left m
  | upload u state => exact tallies_upload u state sender m
  | download d state => exact tallies_download d state m
  | receive r c =>
      cases m with
      | missionItemInt item => exact tallies_onItem (fun _ => ⟨_, rfl⟩) (fun _ => rfl) r.list c item
      | _ => exact .ignored
  | clear c retries =>
      cases m with
      | missionAck ack => exact .finished
      | _ => exact .ignored
  | setCurrent c retries =>
      cases m with
      | missionCurrent current =>
          rw [onMessage, SetCurrent.onMessage]
          split
          · exact .finished
          · split
            · exact .finished
            · rename_i hleft
              exact .waited (.further ⟨_, rfl⟩ (Nat.lt_of_not_le hleft) rfl)
      | _ => exact .ignored

/-- Silence takes one of the retries, on either way of counting, if there is one to take. -/
theorem tallies_onTimeout (s : Setting) (a : Activity) : a.Tallies s.policy (a.onTimeout s) := by
  cases htask : a.task with
  | command attempt =>
      cases a with
      | command attempt left =>
          cases left with
          | zero => exact .finished
          | succ left => exact .waited (.spent ⟨_, rfl⟩ rfl)
      | _ => cases htask
  | transfer t =>
      rw [onTimeout_transfer htask]
      split
      · exact .finished
      · rename_i hleft
        have htries : a.again.counter = a.counter + 1 := by
          rw [counter_of_transfer htask, counter_of_transfer (a.task_again.trans htask), tries_again htask]
        refine .waited (.further ⟨t, htask⟩ ?_ htries)
        rw [counter_of_transfer htask]
        exact Nat.lt_of_not_le hleft

end Activity

namespace Task

open Activity

theorem tallies_start (s : Setting) (t : Task) : (t.initial s).Tallies s.policy (t.start s) := by
  cases t with
  | command attempt => exact .waited (.kept rfl)
  | transfer t =>
      cases t with
      | upload u =>
          rw [start, Upload.start]
          split
          · exact .finished
          · exact .waited (.afresh ⟨_, rfl⟩ rfl)
      | download d => exact .waited (.afresh ⟨_, rfl⟩ rfl)
      | receive r =>
          rw [start, Receive.start]
          split
          · exact .finished
          · split
            · exact .finished
            · exact .waited (.afresh ⟨_, rfl⟩ rfl)
      | clear c => exact .waited (.afresh ⟨_, rfl⟩ rfl)
      | setCurrent c =>
          rw [start, SetCurrent.start]
          split
          · exact .finished
          · exact .waited (.afresh ⟨_, rfl⟩ rfl)

theorem counter_initial_le (s : Setting) (t : Task) :
    (t.initial s).counter ≤ (t.initial s).task.ceiling s.policy.retries := by
  cases t with
  | command attempt => exact Nat.le_refl _
  | transfer t => cases t <;> exact Nat.zero_le _

end Task

namespace Deed

variable {s : Service} {policy : Policy} {log : List Deed} {x : Deed} {n : Nat} {a : Activity}
    {move : Move Activity}
  {p : Progress}

/-- Whether all steps in a log find one policy. -/
def Under (s : Service) (policy : Policy) (log : List Deed) : Prop :=
  ∀ x ∈ log, ∀ n h, x.actor? = some (n, h) → h.policy s = policy

theorem Under.left {more : List Deed} (h : Under s policy (log ++ more)) : Under s policy log :=
  fun x hx => h x (List.mem_append_left _ hx)

theorem Under.right {more : List Deed} (h : Under s policy (log ++ more)) : Under s policy more :=
  fun x hx => h x (List.mem_append_right _ hx)

/-- Every move of a job changes its counter in one of these ways. -/
theorem Makes.tallies (hm : x.Makes s n a move) (hunder : Under s policy [x]) : a.Tallies policy move := by
  have hpolicy : ∀ h, x.actor? = some (n, h) → h.policy s = policy := hunder x (List.mem_singleton_self x) n
  cases hm with
  | @heard r h =>
      rw [← hpolicy h rfl]
      exact Activity.tallies_onMessage (h.setting s) _ _ _
  | @expired r h =>
      rw [← hpolicy h rfl]
      exact Activity.tallies_onTimeout (h.setting s) _
  | @started w h =>
      rw [← hpolicy h rfl]
      exact w.task.tallies_start (h.setting s)
  | cancelled => exact .finished

/-- So does every step, as far as it leaves the job under way. -/
theorem Makes.counts_running (hm : x.Makes s n a move) (hunder : Under s policy [x])
    (hc : p.Carries ⟨s, n⟩ a move) {r : Running} (hr : p.standing = .running r) :
    ∃ ops, a.Counts policy r.activity ops := by
  cases hc with
  | wentOn standing state sent offered =>
      obtain rfl := Standing.running.inj (hr.symm.trans standing)
      rcases state with hnext | ⟨-, hsame⟩
      · exact hm.tallies hunder _ hnext
      · exact ⟨[], .kept (by rw [hsame])⟩
  | finished standing => cases hr.symm.trans standing
  | refused standing => cases hr.symm.trans standing

/-- The counter of a job is in range, and a step that leaves the job under way changes
it in one of these ways. -/
structure Counted (policy : Policy) (a : Activity) (p : Progress) : Prop where
  before : a.counter ≤ a.task.ceiling policy.retries
  task : ∀ r, p.standing = .running r → r.activity.task = a.task
  counts : ∀ r, p.standing = .running r → ∃ ops, a.Counts policy r.activity ops

theorem Counted.after (h : Counted policy a p) {r : Running} (hr : p.standing = .running r) :
    r.activity.counter ≤ r.activity.task.ceiling policy.retries := by
  obtain ⟨ops, hcounts⟩ := h.counts r hr
  exact hcounts.le_ceiling (h.task r hr) h.before

theorem Makes.counted (hm : x.Makes s n a move) (hunder : Under s policy [x]) (hc : p.Carries ⟨s, n⟩ a move)
    (ha : a.counter ≤ a.task.ceiling policy.retries) : Counted policy a p :=
  ⟨ha, fun _ hr => hm.task_of_running hc hr, fun _ hr => hm.counts_running hunder hc hr⟩

theorem keeps_counted (s : Service) (policy : Policy) :
    Keeps s (fun _ log a => Under s policy log → a.counter ≤ a.task.ceiling policy.retries)
      (fun past x _ a p => Under s policy (past ++ [x]) → Counted policy a p) where
  quiet _ _ _ _ _ hk hunder := hk hunder.left
  begins log w h p _ hp hc := by
    have hstep : Under s policy (log ++ [.started w h]) →
        Counted policy (w.task.initial (h.setting s)) p := by
      intro hunder
      have hinitial := w.task.counter_initial_le (h.setting s)
      have hpolicy : (h.setting s).policy = policy := hunder.right _ (List.mem_singleton_self _) _ _ rfl
      rw [hpolicy] at hinitial
      exact Makes.started.counted hunder.right hc hinitial
    exact ⟨hstep, fun r hr hunder => (hstep hunder).after hr⟩
  goesOn log x n a move p hm _ _ hc hk := by
    have hstep : Under s policy (log ++ [x]) → Counted policy a p := fun hunder =>
      hm.counted hunder.right hc (hk hunder.left)
    exact ⟨hstep, fun r hr hunder => (hstep hunder).after hr⟩

end Deed

/-- A counter within what is configured for its job, which its word holds. -/
structure Activity.InRange (config : Config) (a : Activity) : Prop where
  command : ∀ c, a.task = .command c → a.counter ≤ config.commandRetries.toNat
  transfer : ∀ t, a.task = .transfer t → a.counter ≤ max 1 config.missionRetries.toNat
  word : a.word.toNat = a.counter

namespace Engine

variable (config : Config) (link : Link) (clock : Instant) (inputs : List Input)

theorem retries_policy_lt (s : Service) : ((idle config link clock).hub.policy s).retries < UInt32.size := by
  obtain _ | side := s
  · exact config.commandRetries.toNat_lt
  · exact config.missionRetries.toNat_lt

/-- What is in range for the queue of a job is in range for what is configured. -/
theorem inRange_of_submitted {s : Service} {n : Nat} {a : Activity}
    (h : (submitted inputs s)[n]? = some a.task)
    (ha : a.counter ≤ a.task.ceiling ((idle config link clock).hub.policy s).retries) : a.InRange config := by
  have hword : a.counter < UInt32.size → a.word.toNat = a.counter := UInt32.toNat_ofNat_of_lt'
  obtain ⟨⟨c, hc⟩, rfl⟩ | ⟨side, t, ht, rfl⟩ := service_of_submitted h
  · rw [hc] at ha
    have hle : a.counter ≤ config.commandRetries.toNat := ha
    refine ⟨fun _ _ => hle, fun t ht => ?_, hword (hle.trans_lt config.commandRetries.toNat_lt)⟩
    rw [hc] at ht
    cases ht
  · rw [ht] at ha
    have hle : a.counter ≤ max 1 config.missionRetries.toNat := ha
    refine ⟨fun c hc => ?_, fun _ _ => hle, hword (hle.trans_lt ?_)⟩
    · rw [ht] at hc
      cases hc
    · exact max_lt (by decide) config.missionRetries.toNat_lt

/-- The counter of a job stays in range at every moment of a run, whatever is configured. A transfer has
tried no more often than it may, or once; a command has no more retries left than it was given. Each
step of a job that goes on counts as `Activity.Counts` says, so one is added below the ceiling or after
the counter was cleared, and one is taken only where one is left; and done to the word that holds the
counter, none of it overflows. -/
theorem counters_stay_in_range (s : Service) :
    let e := idle config link clock
    (∀ r, ((e.run inputs).engine.queue s).running = some r → r.activity.InRange config) ∧
      ∀ x ∈ e.log s inputs, ∀ n a move p, x.Makes s n a move → x.progress? s = some p →
        a.InRange config ∧ ∀ r, p.standing = .running r → r.activity.InRange config ∧
          ∃ ops, a.Counts (e.hub.policy s) r.activity ops ∧
            ops.foldlM Tally.apply? a.word = some r.activity.word := by
  intro e
  have hchronicled := chronicled_run config link clock inputs (keeps_counted s (e.hub.policy s))
  have hunder : Under s (e.hub.policy s) (e.log s inputs) := by
    intro x hx n h ha
    have hkin := kin_of_actor? config link clock inputs hx ha
    exact congrFun hkin.1 s
  refine ⟨fun r hr => ?_, fun x hx n a move p hm hp => ?_⟩
  · have hasked := (sound_run config link clock inputs).lined.asked (JobQueue.slot_mem_line hr)
    exact inRange_of_submitted config link clock inputs hasked (hchronicled.known r hr hunder)
  · obtain ⟨past, rest, hlog⟩ := List.append_of_mem hx
    have hpast : Under s (e.hub.policy s) (past ++ [x]) := by
      rw [hlog, List.append_cons] at hunder
      exact hunder.left
    have hcounted := hchronicled.each past x rest hlog n a move p hm hp hpast
    have hasked := hchronicled.asked x hx n a move hm
    have ha : a.InRange config := inRange_of_submitted config link clock inputs hasked hcounted.before
    refine ⟨ha, fun r hr => ?_⟩
    obtain ⟨ops, hcounts⟩ := hcounted.counts r hr
    rw [← hcounted.task r hr] at hasked
    refine ⟨inRange_of_submitted config link clock inputs hasked (hcounted.after hr), ops, hcounts, ?_⟩
    exact hcounts.foldlM_apply? (retries_policy_lt config link clock s) ha.word

-- a transfer that may not try again has tried once
example :
    let config : Config := { Config.default with missionRetries := 0 }
    let r := (idle config default 0).run
        [.transfer .client (.download ⟨⟨.pilotOf 1, .mission⟩, false⟩) .queue, .tick]
    (r.engine.queue (.mission .client)).running.map (·.activity.counter) = some 1 := by
  decide +kernel

end Engine

end GroundLink
