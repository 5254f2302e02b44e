import GroundLink.Proofs.Bystander
import GroundLink.Proofs.CommandSteps
import GroundLink.Proofs.Isolation
import GroundLink.Proofs.Queries

/-! A transfer that hears nothing. Whatever is done in other queues, its timer stays as it is
(`Desk.Act.alarms_other`); so all there is for it are the expiries of that timer. Each uses up a try, says
again what is to be answered and takes a new timer, until no try is left (`Desk.Dwindles`). -/

namespace GroundLink

open Function

namespace Desk

variable {i : Input} {d d' : Desk} {s t : Service} {q : JobQueue} {r : Running} {h : Hub}
    {move : Move Activity}
  {deeds : List Deed}

/-- A step of another queue's job takes no timers and gives none. -/
theorem Due.alarms_other (hs : Sound d) (due : Due d t q r h move) (ht : t ≠ s) :
    (r.follow t h move).hub.timers.alarms s = d.hub.timers.alarms s := by
  have hforeign := due.foreign hs ht
  have hissued : ∀ x ∈ h.timers.armed, x.cookie < h.timers.issued := by
    rw [due.timers]
    exact hs.tended.issued
  have hdisarm : ∀ (h : Hub) (c : Option Cookie), h.Foreign s c →
      (h.disarm c).timers.alarms s = h.timers.alarms s := fun _ _ hc => congrArg Face.alarms hc.disarm
  have hawait : ∀ wait, (h.await (r.ticket t) r.cookie wait).2.timers.alarms s = h.timers.alarms s :=
    fun wait => congrArg Face.alarms (hforeign.await (t := r.ticket t) ht wait)
  rw [← due.timers]
  have hf := r.follow_follows t h move
  generalize r.follow t h move = p at hf
  cases hf with
  | ignored => rfl
  | waited wait report message activity taken => rw [Hub.offered_timers, hawait]
  | broken wait report m activity refused =>
      have hawaited := hforeign.awaited (t := r.ticket t) ht hissued wait
      rw [Hub.retire_timers, ← hawait wait]
      exact hdisarm ((h.await (r.ticket t) r.cookie wait).2.offered (some m)) _ hawaited
  | finished message report outcome taken =>
      rw [Hub.retire_timers, ← Hub.offered_timers h message]
      refine hdisarm _ _ fun x hx => hforeign x ?_
      rwa [Hub.offered_timers] at hx
  | failed m report outcome refused => exact hdisarm (h.offered (some m)) _ hforeign

theorem Act.alarms_other (hs : Sound d) (hts : t ≠ s) (hact : Act i t d deeds d') :
    d'.hub.timers.alarms s = d.hub.timers.alarms s := by
  cases hact with
  | @heed r e rest running events concerns =>
      have htakes := r.take_takes t d.hub e
      generalize r.take t d.hub e = p at htakes
      cases htakes with
      | stray hc => exact absurd concerns hc
      | heard hc => exact Due.alarms_other hs (.hear running events hc) hts
      | expired hown => exact Due.alarms_other hs (.expire running events hown) hts
  | start idle events waiting => exact Due.alarms_other hs (.start idle waiting) hts
  | cancel running => exact Due.alarms_other hs (.cancel running) hts
  | @fire x armed due own => exact (alarms_remove_cookie hs armed).trans (if_neg (own ▸ hts))
  | _ => rfl

end Desk

namespace Deed

variable {log deeds past : List Deed} {t : Ticket} {n m : Nat} {h : Hub} {x : Deed} {p : Progress}

/-- What the clock shows when the expiry of a job's timer is taken in. -/
def upAt? (n : Nat) : Deed → Option Instant
  | heeded ⟨r, h, .expiry _ _⟩ => if r.number = n then some h.clock else none
  | _ => none

/-- The times at which expiries of a job's timers are taken in. -/
def timesUp (n : Nat) (log : List Deed) : List Instant := log.filterMap (upAt? n)

/-- What is seen of a job before its end. -/
def shownOf (t : Ticket) (log : List Deed) : List Effect := (log.flatMap (shown t.service)).filter (·.job = t)

/-- How a job ends, if it does. -/
def endsOf (t : Ticket) (log : List Deed) : List Outcome :=
  ((log.filterMap (ends? t.service)).filter (·.number = t.number)).map (·.outcome)

/-- Whether a job is left to itself: it is left no message, it is not called off, and the link refuses none of
its messages. -/
structure Neglects (t : Ticket) (x : Deed) : Prop where
  unheard : ∀ header m, x ≠ .posted (.message (some t.number) header m)
  kept : ∀ r h, x = .cancelled r h → r.number ≠ t.number
  taken : ∀ m, .refused t m ∉ x.shown t.service

/-- Whether something has nothing to do with a job. -/
structure Strange (t : Ticket) (x : Deed) : Prop where
  up : x.upAt? t.number = none
  shown : ∀ e ∈ x.shown t.service, e.job ≠ t
  ends : ∀ e, x.ends? t.service = some e → e.number ≠ t.number

theorem strange_of_ne (ha : x.actor? = some (m, h)) (hp : x.progress? t.service = some p)
    (hn : m ≠ t.number) :
    x.Strange t := by
  obtain ⟨heffects, hends, _⟩ := own_step ha hp
  refine ⟨?_, fun e he hjob => ?_, fun e he => ?_⟩
  · cases x with
    | heeded y =>
        obtain ⟨r, h, e⟩ := y
        cases ha
        cases e with
        | message job header m => rfl
        | expiry job c => exact if_neg hn
    | _ => rfl
  · rw [Deed.shown, hp, Option.toList_some, List.flatMap_singleton] at he
    rw [heffects e he] at hjob
    exact hn (congrArg Ticket.number hjob)
  · rw [ends?_of_progress? hp] at he
    rw [hends e he]
    exact hn

/-- What is no step of a job is not seen, and ends only a job that is passed over. -/
theorem strange_of_quiet (ha : x.actor? = none) (hpass : x.passes? ≠ some t.number) : x.Strange t := by
  cases x with
  | posted e => exact ⟨rfl, fun e he => absurd he List.not_mem_nil, fun e he => by cases he⟩
  | dropped e => exact ⟨rfl, fun e he => absurd he List.not_mem_nil, fun e he => by cases he⟩
  | calledOff w =>
      refine ⟨rfl, fun e he => absurd he List.not_mem_nil, fun e he hn => ?_⟩
      cases he
      exact hpass (congrArg some hn)
  | turnedAway number =>
      refine ⟨rfl, fun e he => absurd he List.not_mem_nil, fun e he hn => ?_⟩
      cases he
      exact hpass (congrArg some hn)
  | _ => cases ha

theorem timesUp_append (n : Nat) (log deeds : List Deed) :
    timesUp n (log ++ deeds) = timesUp n log ++ timesUp n deeds :=
  List.filterMap_append

theorem shownOf_append (t : Ticket) (log deeds : List Deed) :
    shownOf t (log ++ deeds) = shownOf t log ++ shownOf t deeds := by
  rw [shownOf, List.flatMap_append, List.filter_append, ← shownOf, ← shownOf]

theorem endsOf_append (t : Ticket) (log deeds : List Deed) :
    endsOf t (log ++ deeds) = endsOf t log ++ endsOf t deeds := by
  rw [endsOf, List.filterMap_append, List.filter_append, List.map_append, ← endsOf, ← endsOf]

/-- The expiry of its timer is taken in by a job. -/
theorem timesUp_heeded (r : Running) (h : Hub) (c : Cookie) (log : List Deed) :
    timesUp r.number (log ++ [.heeded ⟨r, h, .expiry r.number c⟩]) = timesUp r.number log ++ [h.clock] := by
  rw [timesUp, filterMap_concat, upAt?, if_pos rfl, Option.toList_some, timesUp]

theorem shownOf_own (ha : x.actor? = some (t.number, h)) (hp : x.progress? t.service = some p) :
    shownOf t (log ++ [x]) = shownOf t log ++ p.effects := by
  rw [shownOf_append]
  congr 1
  rw [shownOf, List.flatMap_singleton, Deed.shown, hp, Option.toList_some, List.flatMap_singleton]
  exact List.filter_eq_self.mpr fun e he => decide_eq_true ((own_step ha hp).1 e he)

theorem endsOf_own (ha : x.actor? = some (t.number, h)) (hp : x.progress? t.service = some p) :
    endsOf t (log ++ [x]) = endsOf t log ++ (p.standing.ended?.map (·.outcome)).toList := by
  rw [endsOf_append]
  congr 1
  have hends := ends?_of_progress? hp
  cases he : p.standing.ended? with
  | none => simp [endsOf, hends, he]
  | some e => simp [endsOf, hends, he, (own_step ha hp).2.1 e he]

section Strange

variable (hstrange : ∀ x ∈ deeds, x.Strange t)

include hstrange

theorem timesUp_strange : timesUp t.number (log ++ deeds) = timesUp t.number log := by
  have hnone : timesUp t.number deeds = [] := List.filterMap_eq_nil_iff.mpr fun x hx => (hstrange x hx).up
  rw [timesUp_append, hnone, List.append_nil]

theorem shownOf_strange : shownOf t (log ++ deeds) = shownOf t log := by
  have hnone : shownOf t deeds = [] := by
    refine List.filter_eq_nil_iff.mpr fun e he => ?_
    obtain ⟨x, hx, he⟩ := List.mem_flatMap.mp he
    simpa using (hstrange x hx).shown e he
  rw [shownOf_append, hnone, List.append_nil]

theorem endsOf_strange : endsOf t (log ++ deeds) = endsOf t log := by
  have hnone : endsOf t deeds = [] := by
    rw [endsOf, List.map_eq_nil_iff, List.filter_eq_nil_iff]
    intro e he
    obtain ⟨x, hx, he⟩ := List.mem_filterMap.mp he
    simpa using (hstrange x hx).ends e he
  rw [endsOf_append, hnone, List.append_nil]

end Strange

end Deed

namespace Running

variable {r : Running} {s : Service} {h : Hub}

/-- What comes of the expiry of a transfer's timer: the end if it has no try left, or what is to be answered
said once more and a new timer, unless that message is refused. -/
inductive Relents (r : Running) (s : Service) (h : Hub) (p : Progress) : Prop
  | gaveUp (spent : (h.policy s).retries ≤ r.activity.tries)
      (ended : p.standing = .ended ⟨r.number, .failed .timeout⟩)
      (silent : p.effects = [])
  | repeated {r' : Running} (left : r.activity.tries < (h.policy s).retries)
      (running : p.standing = .running r')
      (number : r'.number = r.number) (activity : r'.activity = r.activity.again)
      (sends : p.effects = r.activity.pending?.toList.map (.sent (r.ticket s)))
      (alarms : p.hub.timers.alarms s = h.timers.alarms s ++
        [(h.clock.after (h.policy s).timeout, (h.policy s).timeout, r.ticket s)])
  | refused (m : Message) (refused : .refused (r.ticket s) m ∈ p.effects)

theorem take_relents {t : Transfer} (ht : r.activity.task = .transfer t) {c : Cookie}
    (own : r.cookie = some c) (s : Service) (h : Hub) : r.Relents s h (r.take s h (.expiry r.number c)) := by
  rw [take_expired own, Activity.onTimeout_transfer ht]
  split
  · next spent => exact .gaveUp spent rfl rfl
  · next left =>
      have hf := ({ r with cookie := none } : Running).follow_follows s h
        (.proceed (.restart (h.setting s).policy.timeout) none r.activity.pending? r.activity.again)
      generalize ({ r with cookie := none } : Running).follow s h _ = p at hf ⊢
      generalize hpending : r.activity.pending? = message at hf
      cases hf with
      | waited wait report message activity taken =>
          have halarms := h.timers.alarms_add (s := s) h.clock (h.policy s).timeout (r.ticket s)
          rw [if_pos (show (r.ticket s).service = s from rfl)] at halarms
          refine .repeated (Nat.lt_of_not_le left) rfl rfl rfl (hpending ▸ rfl) ?_
          rw [Hub.offered_timers]
          exact halarms
      | broken wait report m activity refused => exact .refused m (List.mem_singleton_self _)

end Running

namespace Desk

open Deed

variable {i : Input} {s : Service} {d d' : Desk} {log deeds : List Deed} {n : Nat}

/-- Who was started is not passed over. -/
theorem Filed.passes?_ne (hf : Filed s d log) (hs : d.Sound) (hact : Act i s d deeds d') (hn : n ∈ begun log)
    {x : Deed} (hx : x ∈ deeds) : x.passes? ≠ some n := by
  intro hpass
  have hbegun : n ∈ begun (log ++ deeds) := by
    rw [begun, List.filterMap_append]
    exact List.mem_append_left _ hn
  have hpassed : n ∈ passedOver (log ++ deeds) :=
    List.mem_filterMap.mpr ⟨x, List.mem_append_right _ hx, hpass⟩
  exact (List.nodup_append.mp (hf.act hs hact).nodup).2.2 n (List.mem_append_left _ hbegun) n hpassed rfl

/-- What others of a queue do has nothing to do with a job that was started. -/
theorem Filed.strange (hf : Filed s d log) (hs : d.Sound) (hact : Act i s d deeds d') (hn : n ∈ begun log)
    (hothers : ∀ x ∈ deeds, ∀ h, x.actor? ≠ some (n, h)) : ∀ x ∈ deeds, x.Strange ⟨s, n⟩ := by
  intro x hx
  have hpass := hf.passes?_ne hs hact hn hx
  cases hp : x.progress? s with
  | none => exact strange_of_quiet (by cases x <;> first | rfl | cases hp) hpass
  | some p =>
      obtain ⟨m, h, ha⟩ := actor?_of_progress? hp
      exact strange_of_ne ha hp fun (hm : m = n) => hothers x hx h (hm ▸ ha)

/-- A job that has ended makes no steps any more. -/
theorem Filed.actor?_ne (hf : Filed s d log) (hact : Act i s d deeds d') (hn : n ∈ concluded s log) :
    ∀ x ∈ deeds, ∀ h, x.actor? ≠ some (n, h) := by
  intro x hx h ha
  cases hact.plays hx ha with
  | heeded running events concerns =>
      cases ha
      exact hf.not_concluded_of_running running hn
  | started idle waiting =>
      cases ha
      refine hf.not_begun_of_waiting (waiting ▸ List.mem_cons_self) ?_
      rw [hf.under]
      exact List.mem_append_left _ hn
  | cancelled running =>
      cases ha
      exact hf.not_concluded_of_running running hn

end Desk

/-- A transfer under way, from whose state on nobody answers it any more, the policy it goes by, and when its
timer goes off. -/
structure Lull where
  side : Side
  number : Nat
  activity : Activity
  policy : Policy
  deadline : Instant

namespace Lull

variable (l : Lull)

abbrev service : Service := .mission l.side

abbrev ticket : Ticket := ⟨l.service, l.number⟩

/-- How often the transfer may try again. -/
def left : Nat := l.policy.retries - l.activity.tries

/-- What is seen when it tries so many times. -/
def asking (k : Nat) : List Effect :=
  (List.replicate k (l.activity.pending?.toList.map (.sent l.ticket))).flatten

/-- When its timer goes off, if that did so at the given times before. -/
def due (up : List Instant) : Instant := up.getLast?.elim l.deadline (·.after l.policy.timeout)

theorem asking_succ (k : Nat) :
    l.asking (k + 1) = l.asking k ++ l.activity.pending?.toList.map (.sent l.ticket) := by
  rw [asking, List.replicate_succ', List.flatten_append, List.flatten_singleton, asking]

theorem due_concat (up : List Instant) (clock : Instant) :
    l.due (up ++ [clock]) = clock.after l.policy.timeout := by
  rw [due, List.getLast?_concat, Option.elim_some]

end Lull

namespace Desk

open Deed

variable {i : Input} {s : Service} {d d' : Desk} {before past deeds : List Deed} {l : Lull} {r : Running}
  {deadline : Instant}

/-- How it stands with the timer of a job to which nothing else comes: it is armed for that time, or it has
gone off and its expiry is all that is left for the queue. -/
inductive Alarmed (s : Service) (r : Running) (deadline : Instant) (d : Desk) : Prop
  | armed {span : Span} (events : (d.queue s).events = [])
      (alarms : d.hub.timers.alarms s = [(deadline, span, r.ticket s)])
  | fired {c : Cookie} (own : r.cookie = some c) (events : (d.queue s).events = [.expiry r.number c])
      (alarms : d.hub.timers.alarms s = [])

theorem Alarmed.keep (ha : Alarmed s r deadline d) (hevents : (d'.queue s).events = (d.queue s).events)
    (halarms : d'.hub.timers.alarms s = d.hub.timers.alarms s) : Alarmed s r deadline d' := by
  cases ha with
  | armed events alarms => exact .armed (hevents.trans events) (halarms.trans alarms)
  | fired own events alarms => exact .fired own (hevents.trans events) (halarms.trans alarms)

/-- Whether a transfer that nobody answers waits on when something was done meanwhile: each expiry of its
timer has used up a try, and nothing else has happened to it. -/
structure Waits (l : Lull) (r : Running) (d : Desk) (past : List Deed) : Prop where
  running : (d.queue l.service).running = some r
  number : r.number = l.number
  le : (timesUp l.number past).length ≤ l.left
  activity : r.activity = Activity.again^[(timesUp l.number past).length] l.activity
  alarmed : Alarmed l.service r (l.due (timesUp l.number past)) d
  sends : shownOf l.ticket past = l.asking (timesUp l.number past).length
  ends : endsOf l.ticket past = []

/-- How it stands with a transfer that nobody answers: it waits on, or it has ended at the expiry for which no
try was left. -/
inductive Dwindles (l : Lull) (d : Desk) (before past : List Deed) : Prop
  | waits {r : Running} (waits : Waits l r d past)
  | givenUp (up : (timesUp l.number past).length = l.left + 1)
      (concluded : l.number ∈ concluded l.service (before ++ past))
      (sends : shownOf l.ticket past = l.asking l.left) (ends : endsOf l.ticket past = [.failed .timeout])

theorem Waits.quiet (h : Waits l r d past) (hstrange : ∀ x ∈ deeds, x.Strange l.ticket)
    (hrunning : (d'.queue l.service).running = (d.queue l.service).running)
    (halarmed : Alarmed l.service r (l.due (timesUp l.number past)) d') : Waits l r d' (past ++ deeds) := by
  have hup : timesUp l.number (past ++ deeds) = timesUp l.number past := timesUp_strange hstrange
  refine ⟨hrunning.trans h.running, h.number, ?_, ?_, ?_, ?_, ?_⟩
  · rw [hup]
    exact h.le
  · rw [hup]
    exact h.activity
  · rw [hup]
    exact halarmed
  · rw [hup, shownOf_strange hstrange]
    exact h.sends
  · rw [endsOf_strange hstrange]
    exact h.ends

/-- What the expiry of its timer adds to what there is of a transfer. -/
theorem Waits.heeded (h : Waits l r d past) {x : Deed} {c : Cookie}
    (hx : x = .heeded ⟨r, d.hub, .expiry r.number c⟩) {p : Progress} (hp : x.progress? l.service = some p) :
    timesUp l.number (past ++ [x]) = timesUp l.number past ++ [d.hub.clock] ∧
      shownOf l.ticket (past ++ [x]) = l.asking (timesUp l.number past).length ++ p.effects ∧
        endsOf l.ticket (past ++ [x]) = (p.standing.ended?.map (·.outcome)).toList := by
  have hactor : x.actor? = some (l.ticket.number, d.hub) := by
    rw [hx]
    exact congrArg (fun n => some (n, d.hub)) h.number
  refine ⟨?_, ?_, ?_⟩
  · rw [hx, ← h.number, timesUp_heeded]
  · rw [shownOf_own hactor hp, h.sends]
  · rw [endsOf_own hactor hp, h.ends, List.nil_append]

/-- At the expiry of its timer a transfer tries again as long as it may, and else it ends. -/
theorem Waits.expire (h : Waits l r d past) (hpolicy : d.hub.policy l.service = l.policy) {t : Transfer}
    (ht : l.activity.task = .transfer t) {c : Cookie} (own : r.cookie = some c)
    (halarms : d.hub.timers.alarms l.service = []) {x : Deed}
    (hx : x = .heeded ⟨r, d.hub, .expiry r.number c⟩) (hneglects : x.Neglects l.ticket) :
    Dwindles l
      (d.after l.service ((d.queue l.service).withEvents [])
        (r.take l.service d.hub (.expiry r.number c)))
      before (past ++ [x]) := by
  have htask : r.activity.task = .transfer t := by rw [h.activity, Activity.task_iterate_again, ht]
  have htries : r.activity.tries = l.activity.tries + (timesUp l.number past).length := by
    rw [h.activity, Activity.tries_iterate_again ht]
  have hticket : r.ticket l.service = l.ticket := congrArg (Ticket.mk l.service) h.number
  have hprogress : x.progress? l.service = some (r.take l.service d.hub (.expiry r.number c)) := hx ▸ rfl
  have hle := h.le
  have htaken := hneglects.taken
  have hrelents := Running.take_relents htask own l.service d.hub
  generalize r.take l.service d.hub (.expiry r.number c) = p at hrelents hprogress ⊢
  obtain ⟨hup, hshown, hends⟩ := h.heeded hx hprogress
  have hlength : (timesUp l.number (past ++ [x])).length = (timesUp l.number past).length + 1 := by
    rw [hup, List.length_append, List.length_singleton]
  cases hrelents with
  | gaveUp spent ended silent =>
      have hspent : (timesUp l.number past).length = l.left := by
        rw [hpolicy, htries] at spent
        rw [Lull.left] at hle ⊢
        omega
      refine .givenUp (hlength.trans (congrArg (· + 1) hspent)) ?_ ?_ ?_
      · refine List.mem_filterMap.mpr
          ⟨x, List.mem_append_right _ (List.mem_append_right _ List.mem_cons_self), ?_⟩
        rw [concludes?, hprogress, Option.bind_some, ended]
        exact congrArg some h.number
      · rw [hshown, silent, List.append_nil, hspent]
      · rw [hends, ended]
        rfl
  | @repeated r' left running number activity sends alarms =>
      have halarm : p.hub.timers.alarms l.service =
          [(l.due (timesUp l.number (past ++ [x])), l.policy.timeout, r'.ticket l.service)] := by
        rw [alarms, halarms, List.nil_append, hpolicy, hup, Lull.due_concat, Running.ticket,
          Running.ticket, number]
      have hleft : (timesUp l.number past).length + 1 ≤ l.left := by
        rw [hpolicy, htries] at left
        rw [Lull.left]
        omega
      refine .waits ⟨?_, number.trans h.number, hlength ▸ hleft, ?_, .armed ?_ halarm, ?_, ?_⟩
      · simp [after, running, Standing.running?]
      · rw [activity, hlength, iterate_succ_apply', h.activity]
      · simp [after]
      · rw [hshown, hlength, Lull.asking_succ, sends, hticket, h.activity, Activity.pending?_iterate_again]
      · rw [hends, running]
        rfl
  | refused m refused =>
      rw [Deed.shown, hprogress, Option.toList_some, List.flatMap_singleton] at htaken
      exact absurd (hticket ▸ refused) (htaken m)

/-- The timer of a transfer that waits goes off. -/
theorem Waits.fire (h : Waits l r d past) (hs : Sound d) {x : Timer Ticket} (hx : x ∈ d.hub.timers.armed)
    (own : x.tag.service = l.service) : Alarmed l.service r (l.due (timesUp l.number past)) (d.fire x) := by
  have hcookie := (hs.cookie_iff h.running hx).mpr own
  obtain ⟨r', hr', hnumber, _⟩ := hs.tended.owned x hx
  rw [own, h.running, Option.some.injEq] at hr'
  subst hr'
  have hnone : (d.fire x).hub.timers.alarms l.service = [] := (alarms_remove_cookie hs hx).trans (if_pos own)
  have hqueue : ((d.fire x).queue l.service).events =
      (d.queue l.service).events ++ [.expiry r.number x.cookie] := by
    rw [hnumber, ← own]
    exact congrArg JobQueue.events (queue_post_self _ _ _)
  cases h.alarmed with
  | armed events alarms => exact .fired hcookie (by rw [hqueue, events, List.nil_append]) hnone
  | fired own' events alarms =>
      have hmem : (x.deadline, x.span, x.tag) ∈ d.hub.timers.alarms l.service :=
        Timers.mem_alarms_iff.mpr ⟨x, hx, own, rfl⟩
      rw [alarms] at hmem
      cases hmem

/-- What is done in its queue while a transfer waits leaves its timer armed or its expiry to be taken in. -/
theorem Waits.alarmed_act (h : Waits l r d past) (hs : Sound d) (hact : Act i l.service d deeds d')
    (hquiet : ∀ x ∈ deeds, x.actor? = none) (hneglects : ∀ x ∈ deeds, x.Neglects l.ticket) :
    Alarmed l.service r (l.due (timesUp l.number past)) d' := by
  cases hact with
  | heed running events concerns => cases hquiet _ (List.mem_singleton_self _)
  | start idle events waiting => cases hquiet _ (List.mem_singleton_self _)
  | cancel running => cases hquiet _ (List.mem_singleton_self _)
  | skip running events stray =>
      rw [h.running, Option.some.injEq] at running
      subst running
      cases h.alarmed with
      | armed events' alarms =>
          rw [events'] at events
          cases events
      | fired own events' alarms =>
          rw [events'] at events
          cases events
          exact absurd ⟨rfl, own⟩ stray
  | clear idle =>
      rw [h.running] at idle
      cases idle
  | tell owing => exact h.alarmed.keep rfl rfl
  | enrol asked => exact h.alarmed.keep (by rw [enrol_queue, update_self]; rfl) rfl
  | turnAway asked busy settled => exact h.alarmed.keep (by simp [Desk.turnAway, ask, JobQueue.counted]) rfl
  | callOff waiting => exact h.alarmed.keep (by simp [Desk.callOff]) rfl
  | fire armed due own => exact h.fire hs armed own
  | @deliver header m x e received subscribed heard =>
      obtain ⟨hrunning, _⟩ := running_of_event? hs subscribed heard
      obtain ⟨job, rfl⟩ : ∃ job, e = .message (some job) header m := by
        cases x with
        | commands => simp [Subscriber.event?] at heard
        | job ticket system =>
            rw [Subscriber.event?, Option.ite_none_right_eq_some] at heard
            exact ⟨_, (Option.some.inj heard.2).symm⟩
      obtain ⟨r', hr', rfl⟩ := hrunning job header m rfl
      rw [h.running, Option.some.injEq] at hr'
      subst hr'
      have hunheard := (hneglects _ (List.mem_singleton_self _)).unheard header m
      exact absurd (by rw [h.number]) hunheard

theorem Dwindles.act (h : Dwindles l d before past) (hs : Sound d) (hf : Filed l.service d (before ++ past))
    (hpolicy : d.hub.policy l.service = l.policy) {t : Transfer} (ht : l.activity.task = .transfer t)
    (hact : Act i l.service d deeds d') (hneglects : ∀ x ∈ deeds, x.Neglects l.ticket) :
    Dwindles l d' before (past ++ deeds) := by
  cases h with
  | givenUp up concluded sends ends =>
      have hbegun : l.number ∈ begun (before ++ past) := by
        rw [hf.under]
        exact List.mem_append_left _ concluded
      have hstrange := hf.strange hs hact hbegun (hf.actor?_ne hact concluded)
      have hup : timesUp l.number (past ++ deeds) = timesUp l.number past := timesUp_strange hstrange
      refine .givenUp ?_ ?_ ?_ ?_
      · rw [hup]
        exact up
      · rw [← List.append_assoc, Deed.concluded, List.filterMap_append]
        exact List.mem_append_left _ concluded
      · rw [shownOf_strange hstrange]
        exact sends
      · rw [endsOf_strange hstrange]
        exact ends
  | @waits r h =>
      have hbegun : l.number ∈ begun (before ++ past) := h.number ▸ hf.begun_of_running h.running
      rcases hact.plays_or_quiet with ⟨x, rfl, hplays⟩ | ⟨hquiet, hrunning⟩
      · have hneglects := hneglects x (List.mem_singleton_self x)
        cases hplays with
        | @heeded r' e rest running events concerns =>
            obtain rfl : r = r' := Option.some.inj (h.running.symm.trans running)
            cases h.alarmed with
            | armed events' alarms =>
                rw [events'] at events
                cases events
            | fired own events' alarms =>
                rw [events'] at events
                cases events
                exact h.expire hpolicy ht own alarms rfl hneglects
        | started idle waiting =>
            rw [h.running] at idle
            cases idle
        | cancelled running =>
            rw [h.running, Option.some.injEq] at running
            exact absurd (running ▸ h.number) (hneglects.kept _ _ rfl)
      · have hstrange := hf.strange hs hact hbegun fun x hx h ha => by
          rw [hquiet x hx] at ha
          cases ha
        exact .waits (h.quiet hstrange hrunning (h.alarmed_act hs hact hquiet hneglects))

/-- What is done elsewhere, where the queue and its timer stay as they are. -/
theorem Dwindles.keep (h : Dwindles l d before past) (hqueue : d'.queue l.service = d.queue l.service)
    (halarms : d'.hub.timers.alarms l.service = d.hub.timers.alarms l.service) :
    Dwindles l d' before past := by
  cases h with
  | givenUp up concluded sends ends => exact .givenUp up concluded sends ends
  | waits h =>
      exact .waits ⟨hqueue ▸ h.running, h.number, h.le, h.activity,
        h.alarmed.keep (by rw [hqueue]) halarms, h.sends, h.ends⟩

end Desk

end GroundLink
