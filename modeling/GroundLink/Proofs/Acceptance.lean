import GroundLink.Proofs.Contract
import GroundLink.Proofs.Reception

/-! What the success of a command takes. An answer names a command by its id only, so it does not tell to
which transmission it is one. But it is used once, so no more commands succeed than answers come in that
accept one (`Engine.length_successes_le`); and commands speak one after the other: while it was not told how a
command ended, none behind it has sent anything (`Engine.le_of_untold`). -/

namespace GroundLink

open Function Deed

/-- Whether a message tells that a command was carried out. -/
def Message.accepts : Message → Bool
  | commandAck ack => ack.result = .accepted
  | _ => false

def Event.accepts : Event → Bool
  | message _ _ m => m.accepts
  | expiry .. => false

def Input.accepts : Input → Bool
  | receive _ m => m.accepts
  | _ => false

/-- The job that ended, if it succeeded. -/
def Ended.success? (x : Ended) : Option Nat :=
  match x.outcome with
  | .success _ => some x.number
  | .failure _ => none

/-- The commands of which it was told that they succeeded. -/
def successes (effects : List Effect) : List Nat :=
  (effects.filterMap (Effect.ended? .commands)).filterMap Ended.success?

theorem successes_append (a b : List Effect) : successes (a ++ b) = successes a ++ successes b := by
  rw [successes, List.filterMap_append, List.filterMap_append, ← successes, ← successes]

theorem mem_successes {effects : List Effect} {n : Nat} :
    n ∈ successes effects ↔ ∃ v, .result ⟨.commands, n⟩ (.success v) ∈ effects := by
  constructor
  · intro h
    obtain ⟨x, hx, hn⟩ := List.mem_filterMap.mp h
    obtain ⟨e, he, hended⟩ := List.mem_filterMap.mp hx
    cases e with
    | result t o =>
        rw [Effect.ended?, Option.ite_none_right_eq_some] at hended
        obtain ⟨hservice, hsome⟩ := hended
        cases hsome
        cases o with
        | success v =>
            cases hn
            refine ⟨v, ?_⟩
            rwa [← hservice]
        | failure cause => cases hn
    | _ => cases hended
  · rintro ⟨v, hv⟩
    have hended : (Effect.result ⟨.commands, n⟩ (.success v)).ended? .commands = some ⟨n, .success v⟩ := by
      rw [Effect.ended?, if_pos rfl]
    exact List.mem_filterMap.mpr ⟨_, List.mem_filterMap.mpr ⟨_, hv, hended⟩, rfl⟩

theorem count_result_le (effects : List Effect) (n : Nat) (v : Value) :
    effects.count (.result ⟨.commands, n⟩ (.success v)) ≤ (successes effects).count n := by
  rw [successes, List.filterMap_filterMap, List.count, List.count, List.countP_filterMap]
  refine List.countP_mono_left fun e _ he => ?_
  obtain rfl : e = .result ⟨.commands, n⟩ (.success v) := by simpa using he
  simp [Effect.ended?, Ended.success?]

section Moves

theorem Attempt.accepts_of_value? {p : Policy} {own : Address} {a : Attempt} {retries : Nat}
    {m : Message} {v : Value} (h : (a.onMessage p own retries m).value? = some v) : m.accepts = true := by
  cases m with
  | commandAck ack =>
      rw [onMessage, onAck] at h
      split at h
      · cases h
      · cases hr : ack.result <;> rw [hr] at h <;> first | exact decide_eq_true hr | cases h
  | _ => cases h

theorem Attempt.value?_onTimeout (p : Policy) (autopilot : Autopilot) (a : Attempt) (retries : Nat) :
    (a.onTimeout p autopilot retries).value? = none := by
  cases retries <;> rfl

theorem Running.Follows.value? {r : Running} {s : Service} {h : Hub} {move : Move Activity} {p : Progress}
    (hf : r.Follows s h move p) {x : Ended} (hx : p.standing.ended? = some x) {n : Nat}
    (hn : x.success? = some n) :
    ∃ v, move.value? = some v := by
  cases hf with
  | finished message report outcome taken =>
      cases hx
      cases outcome with
      | success v => exact ⟨v, rfl⟩
      | failure cause => cases hn
  | ignored => cases hx
  | waited => cases hx
  | _ =>
      cases hx
      cases hn

end Moves

namespace Deed

/-- A command ends with success only when it acts on an answer that accepts it. -/
theorem accepts_of_success {s : Service} {x : Deed} {e : Ended} {n : Nat}
    (hheeded : ∀ t, x = .heeded t → ∃ a, t.job.activity.task = .command a)
    (hstarted : ∀ w h, x = .started w h → ∃ a, w.task = .command a) (he : x.ends? s = some e)
    (hn : e.success? = some n) : x.takes?.any Event.accepts = true := by
  cases x with
  | heeded t =>
      obtain ⟨r, h, event⟩ := t
      obtain ⟨a, ha⟩ := hheeded _ rfl
      obtain ⟨retries, hactivity⟩ : ∃ retries, r.activity = .command a retries := by
        cases hr : r.activity with
        | command b retries =>
            simp only [hr] at ha
            cases ha
            exact ⟨retries, rfl⟩
        | _ => simp [hr, Activity.task] at ha
      have ht := r.take_takes s h event
      have hended : (r.take s h event).standing.ended? = some e := he
      generalize r.take s h event = p at ht hended
      cases ht with
      | stray hstray => cases hended
      | heard concerns =>
          obtain ⟨v, hv⟩ := (r.follow_follows s h _).value? hended hn
          rw [hactivity, Activity.onMessage, Move.value?_map] at hv
          exact Attempt.accepts_of_value? hv
      | expired own =>
          obtain ⟨v, hv⟩ := (Running.follow_follows _ s h _).value? hended hn
          rw [hactivity, Activity.onTimeout, Move.value?_map, Attempt.value?_onTimeout] at hv
          cases hv
  | started w h =>
      obtain ⟨a, ha⟩ := hstarted w h rfl
      have hf := (w.opening (h.setting s)).follow_follows s (w.subscribe s h) (w.task.start (h.setting s))
      obtain ⟨v, hv⟩ := hf.value? (x := e) he hn
      rw [ha] at hv
      cases hv
  | cancelled r h =>
      obtain ⟨v, hv⟩ := (r.follow_follows s h _).value? (p := r.cancel s h) he hn
      cases hv
  | calledOff w =>
      cases he
      cases hn
  | turnedAway number =>
      cases he
      cases hn
  | _ => cases he

end Deed

/-- No job was started that stands behind another which has not ended. -/
theorem Desk.Filed.le_of_line {s : Service} {d : Desk} {log : List Deed} (hf : d.Filed s log) {w : Waiting}
    (hw : w ∈ (d.queue s).line) {k : Nat} (hk : k ∈ begun log) : k ≤ w.number := by
  obtain ⟨hsorted, _, hbefore⟩ := List.pairwise_append.mp hf.sorted
  rcases List.mem_append.mp hw with hrunning | hwaiting
  · obtain ⟨r, hr, rfl⟩ := Option.map_eq_some_iff.mp (Option.mem_toList.mp hrunning)
    have hunder : begun log = concluded s log ++ [r.number] := by simpa [hr] using hf.under
    rw [hunder] at hk hsorted
    rcases List.mem_append.mp hk with hended | hlast
    · exact ((List.pairwise_append.mp hsorted).2.2 k hended r.number (List.mem_singleton_self _)).le
    · exact (List.mem_singleton.mp hlast).le
  · exact (hbefore k hk w.number (List.mem_map_of_mem hwaiting)).le

namespace Engine

variable (config : Config) (link : Link) (clock : Instant)

theorem length_successes_le (inputs : List Input) :
    (successes ((idle config link clock).run inputs).effects).length ≤ inputs.countP Input.accepts := by
  let log := (idle config link clock).log .commands inputs
  have hf := filed_run config link clock .commands inputs
  have hended : ((idle config link clock).run inputs).effects.filterMap (Effect.ended? .commands) =
      log.filterMap (ends? .commands) := by
    have hall := hf.ended
    rwa [Desk.endings, deskAfter, desk, List.map_nil, List.append_nil] at hall
  have hheeded : ∀ t, .heeded t ∈ log → ∃ a, t.job.activity.task = .command a := fun t ht =>
    command_submitted (known_run config link clock .commands inputs t ht)
  have hstarted : ∀ w h, .started w h ∈ log → ∃ a, w.task = .command a := fun w h hw =>
    command_submitted (hf.asked w h hw)
  calc (successes ((idle config link clock).run inputs).effects).length
      = log.countP fun x => ((x.ends? .commands).bind Ended.success?).isSome := by
        rw [successes, hended, List.filterMap_filterMap, List.length_filterMap_eq_countP]
    _ ≤ log.countP fun x => x.takes?.any Event.accepts := by
        refine List.countP_mono_left fun x hx hsome => ?_
        obtain ⟨n, hn⟩ := Option.isSome_iff_exists.mp hsome
        obtain ⟨e, he, hn⟩ := Option.bind_eq_some_iff.mp hn
        exact accepts_of_success (fun t ht => hheeded t (ht ▸ hx))
          (fun w h hw => hstarted w h (hw ▸ hx)) he hn
    _ = ((taken log).filterMap Event.received?).countP (·.2.accepts) := by
        rw [taken, List.filterMap_filterMap, List.countP_filterMap]
        refine List.countP_congr fun x _ => ?_
        cases x.takes? with
        | none => rfl
        | some e => cases e <;> simp [Event.received?, Event.accepts]
    _ ≤ (received inputs).countP (·.2.accepts) := (taken_sublist config link clock .commands inputs).countP_le
    _ = inputs.countP Input.accepts := by
        rw [received, List.countP_filterMap]
        refine List.countP_congr fun i _ => ?_
        cases i <;> simp [Input.received?, Input.accepts]

/-- While it was not told how a job ended, none behind it has sent anything. -/
theorem le_of_untold (inputs : List Input) {s : Service} {n k : Nat} {m : Message}
    (hsent : .sent ⟨s, k⟩ m ∈ ((idle config link clock).run inputs).effects)
    (huntold : ((idle config link clock).run inputs).effects.countP (·.settles ⟨s, n⟩) = 0) : k ≤ n := by
  let log := (idle config link clock).log s inputs
  have hf : ((idle config link clock).deskAfter inputs).Filed s log := filed_run config link clock s inputs
  have hbegun : k ∈ begun log := by
    by_contra hno
    have hresult := (silent_of_not_begun config link clock s inputs hno).1 _ hsent rfl
    cases hresult
  by_contra hlt
  have hlt : n < k := Nat.lt_of_not_le hlt
  have hnsubmitted : n < (((idle config link clock).deskAfter inputs).queue s).submitted :=
    hlt.trans (hf.mem_iff.mpr (.inl hbegun))
  have honce := (accounted_run config link clock inputs).once ⟨s, n⟩
  rw [if_pos hnsubmitted] at honce
  have hstanding : 0 < ((idle config link clock).deskAfter inputs).standing ⟨s, n⟩ := by
    have howed : ((idle config link clock).deskAfter inputs).owed ⟨s, n⟩ = 0 := rfl
    have htold : ((idle config link clock).deskAfter inputs).told ⟨s, n⟩ = 0 := huntold
    omega
  obtain ⟨w, hw, hnumber⟩ := List.countP_pos_iff.mp hstanding
  exact absurd ((hf.le_of_line hw hbegun).trans_eq (of_decide_eq_true hnumber)) (Nat.not_le_of_lt hlt)

end Engine

end GroundLink
