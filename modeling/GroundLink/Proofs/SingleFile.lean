import GroundLink.Proofs.Log

/-! The jobs of a queue go in single file. Each is under way from its start to its end and nothing is done for
another meanwhile; they start in the order of their submissions, and those that are left out are the ones
called off while they waited and the ones turned away (`Desk.Filed`). -/

namespace GroundLink

open Function

namespace Deed

variable {s : Service} {x : Deed} {log past : List Deed} {n : Nat} {h : Hub} {p : Progress}

/-- Whether what is done in a queue is in turn, after what was done before. -/
structure InTurn (s : Service) (past : List Deed) (x : Deed) : Prop where
  /-- In a step of a job nothing is seen of others, no other ends, and timers and
  handlers are taken for none. -/
  own : ∀ n h p, x.actor? = some (n, h) → x.progress? s = some p →
    (∀ e ∈ p.effects, e.job = ⟨s, n⟩) ∧ (∀ e, p.standing.ended? = some e → e.number = n) ∧
      h.Serves ⟨s, n⟩ p.hub
  /-- When a job starts those started before have ended, and all submitted before were
  started or passed over. -/
  starts : ∀ n, x.begins? = some n → concluded s past = begun past ∧ (∀ m ∈ begun past, m < n) ∧
    (∀ m < n, m ∈ begun past ∨ m ∈ passedOver past) ∧ n ∉ passedOver past
  /-- The job that makes a step is the last that was started, and the only one that has not ended. -/
  goesOn : ∀ n h, x.actor? = some (n, h) → x.begins? = none → begun past = concluded s past ++ [n]
  passes : ∀ n, x.passes? = some n → n ∉ begun past ∧ n ∉ passedOver past

theorem own_step (ha : x.actor? = some (n, h)) (hp : x.progress? s = some p) :
    (∀ e ∈ p.effects, e.job = ⟨s, n⟩) ∧ (∀ e, p.standing.ended? = some e → e.number = n) ∧
      h.Serves ⟨s, n⟩ p.hub := by
  obtain ⟨r, h', move, rfl, hf, _, hserves⟩ := follows ha hp
  refine ⟨fun e he => (hf.effects he).1, fun e he => ?_, hserves⟩
  rcases hf.standing with ⟨r', hr', _⟩ | ⟨o, ho⟩
  · rw [hr'] at he
    cases he
  · rw [ho] at he
    cases he
    rfl

theorem ends?_of_progress? (hp : x.progress? s = some p) : x.ends? s = p.standing.ended? := by
  cases x with
  | heeded x => cases hp; rfl
  | started w hub => cases hp; rfl
  | cancelled r hub => cases hp; rfl
  | _ => cases hp

theorem passes?_of_actor? (ha : x.actor? = some (n, h)) : x.passes? = none := by
  cases x <;> first | rfl | cases ha

theorem begins?_of_actor? {m : Nat} (ha : x.actor? = some (n, h)) (hm : x.begins? = some m) : m = n := by
  cases x with
  | started w hub => cases ha; cases hm; rfl
  | _ => cases hm

theorem actor?_of_progress? (hp : x.progress? s = some p) : ∃ n h, x.actor? = some (n, h) := by
  cases x with
  | heeded x => exact ⟨_, _, rfl⟩
  | started w hub => exact ⟨_, _, rfl⟩
  | cancelled r hub => exact ⟨_, _, rfl⟩
  | _ => cases hp

theorem filterMap_concat {β : Type} (f : Deed → Option β) (log : List Deed) (x : Deed) :
    (log ++ [x]).filterMap f = log.filterMap f ++ (f x).toList := by
  cases hx : f x <;> simp [hx]

theorem begun_concat (log : List Deed) (x : Deed) : begun (log ++ [x]) = begun log ++ x.begins?.toList :=
  filterMap_concat _ _ _

/-- Whether what is done concerns events only. -/
def Quiet (x : Deed) : Prop := (∃ e, x = .posted e) ∨ ∃ e, x = .dropped e

theorem Quiet.inTurn (hx : x.Quiet) (s : Service) (past : List Deed) : InTurn s past x := by
  obtain ⟨e, rfl⟩ | ⟨e, rfl⟩ := hx
  all_goals
    exact ⟨fun _ _ _ h => (by cases h),
      fun _ h => (by cases h), fun _ _ h => (by cases h), fun _ h => (by cases h)⟩

section Quiet

variable {deeds : List Deed} (hquiet : ∀ x ∈ deeds, x.Quiet)

include hquiet

theorem filterMap_quiet {β : Type} (f : Deed → Option β) (hposted : ∀ e, f (.posted e) = none)
    (hdropped : ∀ e, f (.dropped e) = none) : (log ++ deeds).filterMap f = log.filterMap f := by
  have hnone : deeds.filterMap f = [] := by
    rw [List.filterMap_eq_nil_iff]
    intro x hx
    obtain ⟨e, rfl⟩ | ⟨e, rfl⟩ := hquiet x hx
    · exact hposted e
    · exact hdropped e
  rw [List.filterMap_append, hnone, List.append_nil]

theorem flatMap_quiet (s : Service) : (log ++ deeds).flatMap (shown s) = log.flatMap (shown s) := by
  have hnone : deeds.flatMap (shown s) = [] := by
    rw [List.flatMap_eq_nil_iff]
    intro x hx
    obtain ⟨e, rfl⟩ | ⟨e, rfl⟩ := hquiet x hx <;> rfl
  rw [List.flatMap_append, hnone, List.append_nil]

end Quiet

theorem Each.quiet (h : Each (InTurn s) log) {deeds : List Deed} (hquiet : ∀ x ∈ deeds, x.Quiet) :
    Each (InTurn s) (log ++ deeds) := by
  refine h.append fun past x rest heq => (hquiet x ?_).inTurn s _
  rw [heq]
  exact List.mem_append_right _ List.mem_cons_self

theorem begun_subset (past : List Deed) (x : Deed) (rest : List Deed) :
    begun past ⊆ begun (past ++ x :: rest) := by
  rw [begun, begun, List.filterMap_append]
  exact List.subset_append_left _ _

/-- A job that makes a step was started. -/
theorem begun_of_actor? (hlog : Each (InTurn s) log) (hx : x ∈ log) (ha : x.actor? = some (n, h)) :
    n ∈ begun log := by
  obtain ⟨past, rest, rfl⟩ := List.append_of_mem hx
  cases hb : x.begins? with
  | some m =>
      rw [begins?_of_actor? ha hb] at hb
      exact List.mem_filterMap.mpr ⟨x, hx, hb⟩
  | none =>
      refine begun_subset past x rest ?_
      rw [(hlog past x rest rfl).goesOn n h ha hb]
      exact List.mem_append_right _ (List.mem_singleton_self n)

end Deed

namespace Desk

open Deed

variable {i : Input} {s t : Service} {d d' : Desk} {log deeds : List Deed}

/-- How a desk goes with the log of one of its queues. -/
structure Filed (s : Service) (d : Desk) (log : List Deed) : Prop where
  /-- Jobs end in the order in which they start; at most one has not ended, and that is under way. -/
  under : begun log = concluded s log ++ ((d.queue s).running.map (·.number)).toList
  sorted : (begun log ++ (d.queue s).waiting.items.map (·.number)).Pairwise (· < ·)
  /-- Every job that was submitted was started, waits or was passed over, and it is one of these once. -/
  exact : (begun log ++ (d.queue s).waiting.items.map (·.number) ++ passedOver log).Perm
    (List.range (d.queue s).submitted)
  ended : d.endings s = log.filterMap (ends? s)
  seen : d.seen s = log.flatMap (shown s)
  asked : ∀ w h, .started w h ∈ log → (d.asked s)[w.number]? = some w.task
  inTurn : Each (InTurn s) log

namespace Filed

theorem nodup (hf : Filed s d log) :
    (begun log ++ (d.queue s).waiting.items.map (·.number) ++ passedOver log).Nodup :=
  hf.exact.nodup_iff.mpr List.nodup_range

theorem mem_iff (hf : Filed s d log) {n : Nat} :
    n < (d.queue s).submitted ↔
      n ∈ begun log ∨ n ∈ (d.queue s).waiting.items.map (·.number) ∨ n ∈ passedOver log := by
  rw [← List.mem_range, ← hf.exact.mem_iff, List.mem_append, List.mem_append, or_assoc]

/-- What only concerns events, or another queue, leaves jobs where they are. -/
theorem keep (hf : Filed s d log) (hquiet : ∀ x ∈ deeds, x.Quiet)
    (hrunning : (d'.queue s).running = (d.queue s).running)
    (hwaiting : (d'.queue s).waiting = (d.queue s).waiting)
    (hsubmitted : (d'.queue s).submitted = (d.queue s).submitted) (hendings : d'.endings s = d.endings s)
    (hseen : d'.seen s = d.seen s) (hasked : d'.asked s = d.asked s) : Filed s d' (log ++ deeds) := by
  have hbegun : begun (log ++ deeds) = begun log := filterMap_quiet hquiet _ (fun _ => rfl) fun _ => rfl
  have hpassed : passedOver (log ++ deeds) = passedOver log :=
    filterMap_quiet hquiet _ (fun _ => rfl) fun _ => rfl
  have hconcluded : concluded s (log ++ deeds) = concluded s log :=
    filterMap_quiet hquiet _ (fun _ => rfl) fun _ => rfl
  refine ⟨?_, ?_, ?_, ?_, ?_, fun w h hw => ?_, hf.inTurn.quiet hquiet⟩
  · rw [hbegun, hconcluded, hrunning]
    exact hf.under
  · rw [hbegun, hwaiting]
    exact hf.sorted
  · rw [hbegun, hpassed, hwaiting, hsubmitted]
    exact hf.exact
  · rw [hendings, filterMap_quiet hquiet _ (fun _ => rfl) fun _ => rfl]
    exact hf.ended
  · rw [hseen, flatMap_quiet hquiet]
    exact hf.seen
  · rw [hasked]
    rcases List.mem_append.mp hw with hold | hnew
    · exact hf.asked w h hold
    · obtain ⟨e, he⟩ | ⟨e, he⟩ := hquiet _ hnew <;> cases he

/-- The job under way makes a step. -/
theorem advance (hf : Filed s d log) {x : Deed} {r : Running} {p : Progress} {q : JobQueue}
    (hr : (d.queue s).running = some r) (hb : x.begins? = none) (ha : x.actor? = some (r.number, d.hub))
    (hp : x.progress? s = some p) (hwaiting : q.waiting = (d.queue s).waiting)
    (hsubmitted : q.submitted = (d.queue s).submitted) : Filed s (d.after s q p) (log ++ [x]) := by
  obtain ⟨r₀, h, move, hn, hfollows, _, _⟩ := follows ha hp
  have hbegun : begun (log ++ [x]) = begun log := by simp [begun, hb]
  have hpassed : passedOver (log ++ [x]) = passedOver log := by simp [passedOver, passes?_of_actor? ha]
  have hunder : begun log = concluded s log ++ [r.number] := by simpa [hr] using hf.under
  have hqueue : (d.after s q p).queue s = q.withRunning p.standing.running? := update_self _ _ _
  refine ⟨?_, ?_, ?_, ?_, ?_, fun w h hw => ?_, hf.inTurn.concat ⟨fun _ _ _ => own_step, ?_, ?_, ?_⟩⟩
  · rw [hbegun, hunder, hqueue, JobQueue.withRunning_running]
    rcases hfollows.standing with ⟨r', hr', hn', _⟩ | ⟨o, ho⟩
    · simp [concluded, concludes?, hp, hr', Standing.ended?, Standing.running?, hn', hn]
    · simp [concluded, concludes?, hp, ho, Standing.ended?, Standing.running?, hn]
  · rw [hbegun, hqueue, JobQueue.withRunning_waiting, hwaiting]
    exact hf.sorted
  · rw [hbegun, hpassed, hqueue, JobQueue.withRunning_waiting, JobQueue.withRunning_submitted,
      hwaiting, hsubmitted]
    exact hf.exact
  · rw [endings_after d s q hfollows, if_pos rfl, hf.ended, filterMap_concat, ends?_of_progress? hp]
  · rw [seen_after d s q hfollows, if_pos rfl, hf.seen, List.flatMap_append]
    simp [shown, hp]
  · rcases List.mem_append.mp hw with hold | hnew
    · exact hf.asked w h hold
    · rw [← List.mem_singleton.mp hnew] at hb
      cases hb
  · intro n hstart
    rw [hb] at hstart
    cases hstart
  · intro n h hactor _
    rw [ha] at hactor
    cases hactor
    exact hunder
  · intro n hpass
    rw [passes?_of_actor? ha] at hpass
    cases hpass

/-- The first job that waits starts. -/
theorem start (hf : Filed s d log) (hlined : d.Lined) {w : Waiting} {rest : List Waiting}
    (hr : (d.queue s).running = none) (hw : (d.queue s).waiting.items = w :: rest) :
    Filed s (d.after s ((d.queue s).withWaiting rest) (w.start s d.hub)) (log ++ [.started w d.hub]) := by
  have hp : (Deed.started w d.hub).progress? s = some (w.start s d.hub) := rfl
  obtain ⟨r₀, h, move, hn, hfollows, _, _⟩ := follows (x := .started w d.hub) rfl hp
  have hbegun : begun (log ++ [.started w d.hub]) = begun log ++ [w.number] := by simp [begun, begins?]
  have hpassed : passedOver (log ++ [.started w d.hub]) = passedOver log := by simp [passedOver, passes?]
  have hunder : begun log = concluded s log := by simpa [hr] using hf.under
  have hqueue : (d.after s ((d.queue s).withWaiting rest) (w.start s d.hub)).queue s =
      ((d.queue s).withWaiting rest).withRunning (w.start s d.hub).standing.running? := update_self _ _ _
  have hline : begun log ++ [w.number] ++ rest.map (·.number) =
      begun log ++ (d.queue s).waiting.items.map (·.number) := by simp [hw]
  have hsorted := hf.sorted
  have hnodup := hf.nodup
  have hlt : w.number < (d.queue s).submitted :=
    hlined.number_lt ((d.queue s).waiting_subset_line (hw ▸ List.mem_cons_self))
  rw [hw, List.map_cons] at hsorted hnodup
  obtain ⟨_, hwaiting, hbefore⟩ := List.pairwise_append.mp hsorted
  refine ⟨?_, ?_, ?_, ?_, ?_, fun w' h' hw' => ?_, hf.inTurn.concat ⟨fun _ _ _ => own_step, ?_, ?_, ?_⟩⟩
  · rw [hbegun, hunder, hqueue, JobQueue.withRunning_running]
    rcases hfollows.standing with ⟨r', hr', hn', _⟩ | ⟨o, ho⟩
    · simp [concluded, concludes?, hp, hr', Standing.ended?, Standing.running?, hn', hn]
    · simp [concluded, concludes?, hp, ho, Standing.ended?, Standing.running?, hn]
  · rw [hbegun, hqueue]
    exact hline ▸ hf.sorted
  · rw [hbegun, hpassed, hqueue]
    exact hline ▸ hf.exact
  · rw [endings_after d s _ hfollows, if_pos rfl, hf.ended, filterMap_concat, ends?_of_progress? hp]
  · rw [seen_after d s _ hfollows, if_pos rfl, hf.seen, List.flatMap_append]
    simp [shown, hp]
  · rcases List.mem_append.mp hw' with hold | hnew
    · exact hf.asked w' h' hold
    · cases List.mem_singleton.mp hnew
      exact hlined.asked ((d.queue s).waiting_subset_line (hw ▸ List.mem_cons_self))
  · intro n hstart
    cases hstart
    refine ⟨hunder.symm, fun m hm => hbefore m hm _ List.mem_cons_self, fun m hm => ?_, fun hpass => ?_⟩
    · rcases hf.mem_iff.mp (hm.trans hlt) with hold | hlater | hpass
      · exact .inl hold
      · rw [hw, List.map_cons] at hlater
        rcases List.mem_cons.mp hlater with rfl | hlater
        · exact absurd hm (Nat.lt_irrefl _)
        · exact absurd hm (Nat.lt_asymm (List.rel_of_pairwise_cons hwaiting hlater))
      · exact .inr hpass
    · refine List.disjoint_of_nodup_append hnodup (List.mem_append_right _ List.mem_cons_self) hpass
  · intro n h _ hnone
    cases hnone
  · intro n hpass
    cases hpass

/-- A job ends that was not started, with its number given and where it was. -/
theorem pass (hf : Filed s d log) {x : Deed} {n : Nat} (hx : x.passes? = some n)
    (hexact : (begun log ++ (d'.queue s).waiting.items.map (·.number) ++ (passedOver log ++ [n])).Perm
      (List.range (d'.queue s).submitted))
    (hsorted : (begun log ++ (d'.queue s).waiting.items.map (·.number)).Pairwise (· < ·))
    (hrunning : (d'.queue s).running = (d.queue s).running)
    (hendings : d'.endings s = d.endings s ++ (x.ends? s).toList) (hseen : d'.seen s = d.seen s)
    (hasked : d.asked s <+: d'.asked s) : Filed s d' (log ++ [x]) := by
  have hactor : x.actor? = none := by cases x <;> first | rfl | cases hx
  have hbegins : x.begins? = none := by cases x <;> first | rfl | cases hx
  have hprogress : x.progress? s = none := by cases x <;> first | rfl | cases hx
  have hbegun : begun (log ++ [x]) = begun log := by simp [begun, hbegins]
  have hpassed : passedOver (log ++ [x]) = passedOver log ++ [n] := by simp [passedOver, hx]
  have hconcluded : concluded s (log ++ [x]) = concluded s log := by simp [concluded, concludes?, hprogress]
  have hnodup := hexact.nodup_iff.mpr List.nodup_range
  refine ⟨?_, hbegun ▸ hsorted, ?_, ?_, ?_, fun w h hw => ?_, hf.inTurn.concat ⟨?_, ?_, ?_, ?_⟩⟩
  · rw [hbegun, hconcluded, hrunning]
    exact hf.under
  · rw [hbegun, hpassed]
    exact hexact
  · rw [hendings, hf.ended, filterMap_concat]
  · rw [hseen, hf.seen, List.flatMap_append]
    simp [shown, hprogress]
  · rcases List.mem_append.mp hw with hold | hnew
    · obtain ⟨more, hmore⟩ := hasked
      have hold := hf.asked w h hold
      rw [← hmore, List.getElem?_append_left (List.getElem?_eq_some_iff.mp hold).1]
      exact hold
    · rw [← List.mem_singleton.mp hnew] at hbegins
      cases hbegins
  · intro n h p hstep
    rw [hactor] at hstep
    cases hstep
  · intro n hstart
    rw [hbegins] at hstart
    cases hstart
  · intro n h hstep
    rw [hactor] at hstep
    cases hstep
  · intro m hm
    rw [hx] at hm
    cases hm
    have hsplit := List.nodup_append.mp hnodup
    refine ⟨fun hbegan => ?_, fun hpass => ?_⟩
    · exact hsplit.2.2 n (List.mem_append_left _ hbegan) n
        (List.mem_append_right _ (List.mem_singleton_self n)) rfl
    · exact (List.nodup_append.mp hsplit.2.1).2.2 n hpass n (List.mem_singleton_self n) rfl

theorem enrol (hf : Filed s d log) (task : Task) : Filed s (d.enrol s task) log := by
  have hqueue : (d.enrol s task).queue s = ((d.queue s).withWaiting ((d.queue s).waiting.items ++
      [⟨(d.queue s).submitted, d.hub.handlers.freshOwner, task⟩])).counted := by
    rw [enrol_queue, update_self]
  have hasked : (d.enrol s task).asked s = d.asked s ++ [task] := update_self _ _ _
  refine ⟨?_, ?_, ?_, hf.ended, hf.seen, fun w h hw => ?_, hf.inTurn⟩
  · rw [hqueue]
    exact hf.under
  · rw [hqueue, JobQueue.counted_waiting, JobQueue.withWaiting_waiting, List.map_append, ← List.append_assoc]
    refine List.pairwise_append.mpr ⟨hf.sorted, List.pairwise_singleton _ _, fun m hm n hn => ?_⟩
    rw [List.mem_singleton.mp hn]
    exact hf.mem_iff.mpr ((List.mem_append.mp hm).imp id .inl)
  · rw [hqueue, JobQueue.counted_submitted, JobQueue.withWaiting_submitted, List.range_succ,
      JobQueue.counted_waiting, JobQueue.withWaiting_waiting]
    refine List.Perm.trans ?_ (hf.exact.append_right [(d.queue s).submitted])
    refine List.perm_iff_count.mpr fun m => ?_
    simp only [List.map_append, List.map_cons, List.map_nil, List.count_append]
    omega
  · have hold := hf.asked w h hw
    rw [hasked, List.getElem?_append_left (List.getElem?_eq_some_iff.mp hold).1]
    exact hold

theorem turnAway (hf : Filed s d log) (hsettled : d.owing = []) (task : Task) :
    Filed s (d.turnAway s task) (log ++ [.turnedAway (d.queue s).submitted]) := by
  have hqueue : (d.turnAway s task).queue s = (d.queue s).counted := update_self _ _ _
  have hasked : (d.turnAway s task).asked s = d.asked s ++ [task] := update_self _ _ _
  refine hf.pass rfl ?_ ?_ ?_ ?_ (seen_turnAway _ _ _ _) ?_
  · rw [hqueue, JobQueue.counted_submitted, List.range_succ, ← List.append_assoc]
    exact hf.exact.append_right _
  · rw [hqueue]
    exact hf.sorted
  · rw [hqueue]
    rfl
  · rw [endings_turnAway hsettled, if_pos rfl]
    rfl
  · rw [hasked]
    exact List.prefix_append _ _

theorem callOff (hf : Filed s d log) {w : Waiting} {before after : List Waiting}
    (hw : (d.queue s).waiting.items = before ++ w :: after) :
    Filed s (d.callOff s w (before ++ after)) (log ++ [.calledOff w]) := by
  have hqueue : (d.callOff s w (before ++ after)).queue s = (d.queue s).withWaiting (before ++ after) :=
    update_self _ _ _
  refine hf.pass rfl ?_ ?_ ?_ ?_ rfl (List.prefix_refl _)
  · rw [hqueue]
    refine List.Perm.trans ?_ hf.exact
    rw [hw]
    refine List.perm_iff_count.mpr fun m => ?_
    simp only [JobQueue.withWaiting_waiting, List.map_append, List.map_cons, List.count_append,
      List.count_cons, List.count_nil]
    omega
  · rw [hqueue]
    refine hf.sorted.sublist (List.Sublist.append_left (List.Sublist.map _ ?_) _)
    rw [hw]
    exact (List.sublist_cons_self w after).append_left before
  · rw [hqueue]
    rfl
  · rw [endings_callOff, if_pos rfl]
    rfl

theorem act (hf : Filed s d log) (hs : d.Sound) (hact : Act i s d deeds d') : Filed s d' (log ++ deeds) := by
  cases hact with
  | @heed r e rest running events concerns =>
      exact hf.advance (x := .heeded ⟨r, d.hub, e⟩) running rfl rfl rfl rfl rfl
  | skip running events stray =>
      refine hf.keep (fun x hx => ?_) ?_ ?_ ?_ rfl rfl rfl
      · exact .inr ⟨_, List.mem_singleton.mp hx⟩
      all_goals rw [put_queue, update_self]; rfl
  | clear idle =>
      refine hf.keep (fun x hx => ?_) ?_ ?_ ?_ rfl rfl rfl
      · obtain ⟨e, _, rfl⟩ := List.mem_map.mp hx
        exact .inr ⟨e, rfl⟩
      all_goals rw [put_queue, update_self]; rfl
  | start idle events waiting => exact hf.start hs.lined idle waiting
  | @cancel r running => exact hf.advance (x := .cancelled r d.hub) running rfl rfl rfl rfl rfl
  | tell owing =>
      exact hf.keep (fun x hx => absurd hx List.not_mem_nil) rfl rfl rfl (endings_tell owing)
        (seen_tell _ _ _ _ _) rfl
  | enrol asked =>
      rw [List.append_nil]
      exact hf.enrol _
  | turnAway asked busy settled => exact hf.turnAway settled _
  | callOff waiting => exact hf.callOff waiting
  | @fire x armed due own =>
      subst own
      refine hf.keep (fun y hy => .inl ⟨_, List.mem_singleton.mp hy⟩) ?_ ?_ ?_ rfl rfl rfl
      all_goals rw [Desk.fire, queue_post_self]; rfl
  | deliver received subscribed heard =>
      refine hf.keep (fun y hy => .inl ⟨_, List.mem_singleton.mp hy⟩) ?_ ?_ ?_ rfl rfl rfl
      all_goals rw [queue_post_self]; rfl

/-- The time and the link do not matter. -/
theorem of_under (hf : Filed s d log) (i : Input) : Filed s (d.under i) log :=
  ⟨hf.under, hf.sorted, hf.exact, hf.ended, hf.seen, hf.asked, hf.inTurn⟩

theorem other (hf : Filed s d log) (hts : t ≠ s) (hact : Act i t d deeds d') : Filed s d' log := by
  have haside := hact.aside hts
  have hquiet : ∀ x ∈ ([] : List Deed), x.Quiet := fun x hx => absurd hx List.not_mem_nil
  have hkeep :=
    hf.keep hquiet (by rw [haside.queue]) (by rw [haside.queue]) (by rw [haside.queue]) haside.endings
      haside.seen haside.asked
  rwa [List.append_nil] at hkeep

end Filed

end Desk

namespace Engine

open Deed

variable (config : Config) (link : Link) (clock : Instant)

theorem filed_idle (s : Service) : ((idle config link clock).desk [] fun _ => []).Filed s [] := by
  have hqueue : ((idle config link clock).desk [] fun _ => []).queue s = .empty := by
    obtain _ | ⟨_ | _⟩ := s <;> rfl
  refine ⟨?_, ?_, ?_, rfl, rfl, fun w h hw => absurd hw List.not_mem_nil, each_nil⟩
  · rw [hqueue]
    rfl
  · rw [hqueue]
    exact List.Pairwise.nil
  · rw [hqueue]
    exact List.Perm.refl _

theorem filed_run (s : Service) (inputs : List Input) :
    ((idle config link clock).deskAfter inputs).Filed s ((idle config link clock).log s inputs) :=
  keeps_log (P := fun d past => d.Filed s past) (fun i _ _ h => h.of_under i)
    (fun _ _ _ _ _ hs h hact => h.act hs hact)
      (fun _ _ _ _ _ _ hts _ h hact => h.other hts hact) config link clock
    inputs (filed_idle config link clock s)

/-- What small steps keep of a desk and of the log of a queue since some moment of a run holds
at the end of that run. -/
theorem keeps_log_more {s : Service} {inputs : List Input} {P : Desk → List Deed → Prop}
    (hunder : ∀ (i : Input) d past, P d past → P (d.under i) past)
    (hown : ∀ i d d' deeds past, d.Sound →
      d.Filed s ((idle config link clock).log s inputs ++ past) → P d past →
      Desk.Act i s d deeds d' → P d' (past ++ deeds))
    (hother : ∀ i t d d' deeds past, t ≠ s → d.Sound → P d past → Desk.Act i t d deeds d' → P d' past)
    (h : P ((idle config link clock).deskAfter inputs) []) (more : List Input) :
    P ((idle config link clock).deskAfter (inputs ++ more))
      (((idle config link clock).run inputs).engine.log s more) := by
  have hrun := logs_run (s := s)
    (P := fun d past => d.Sound ∧ d.Filed s ((idle config link clock).log s inputs ++ past) ∧ P d past)
    (fun i d d' deeds past h hact => ⟨h.1.step hact.step, List.append_assoc _ past deeds ▸ h.2.1.act h.1 hact,
      hown i d d' deeds past h.1 h.2.1 h.2.2 hact⟩)
    (fun i t d d' deeds past ht h hact =>
      ⟨h.1.step hact.step, h.2.1.other ht hact, hother i t d d' deeds past ht h.1 h.2.2 hact⟩)
    (fun i d past h => ⟨h.1.under i, h.2.1.of_under i, hunder i d past h.2.2⟩)
    more ((idle config link clock).run inputs).engine ((idle config link clock).run inputs).effects
      (submitted inputs)
    [] ⟨sound_run config link clock inputs,
      (List.append_nil _).symm ▸ filed_run config link clock s inputs, h⟩
  rw [deskAfter_append]
  exact hrun.2.2

end Engine

namespace Desk.Filed

open Deed

variable {s : Service} {d : Desk} {log : List Deed}

/-- The job under way was started. -/
theorem begun_of_running (hf : d.Filed s log) {r : Running} (hr : (d.queue s).running = some r) :
    r.number ∈ begun log := by
  rw [hf.under, hr]
  exact List.mem_append_right _ (List.mem_singleton_self _)

/-- The job under way has not ended. -/
theorem not_concluded_of_running (hf : d.Filed s log) {r : Running} (hr : (d.queue s).running = some r) :
    r.number ∉ concluded s log := by
  intro hconcluded
  have hnodup := (List.nodup_append.mp (List.nodup_append.mp hf.nodup).1).1
  rw [hf.under, hr] at hnodup
  exact (List.nodup_append.mp hnodup).2.2 _ hconcluded _ (List.mem_singleton_self _) rfl

/-- A job that waits was not started. -/
theorem not_begun_of_waiting (hf : d.Filed s log) {w : Waiting} (hw : w ∈ (d.queue s).waiting.items) :
    w.number ∉ begun log := by
  intro hbegun
  have hsplit := List.nodup_append.mp (List.nodup_append.mp hf.nodup).1
  exact hsplit.2.2 _ hbegun _ (List.mem_map_of_mem hw) rfl

/-- The ends of jobs that were started are in the order of the starts. -/
theorem filter_ends (hf : d.Filed s log) :
    ((log.filterMap (ends? s)).map (·.number)).filter (· ∉ passedOver log) = concluded s log := by
  rw [List.map_filterMap, List.filter_filterMap]
  apply List.filterMap_congr
  intro x hx
  cases hp : x.progress? s with
  | some p =>
      rw [ends?_of_progress? hp, concludes?, hp, Option.bind_some]
      cases he : p.standing.ended? with
      | none => rfl
      | some e =>
          -- a job that was started was not passed over
          have hconcluded : e.number ∈ concluded s log :=
            List.mem_filterMap.mpr ⟨x, hx, by rw [concludes?, hp, Option.bind_some, he, Option.map_some]⟩
          have hbegun : e.number ∈ begun log := hf.under ▸ List.mem_append_left _ hconcluded
          have hnot : e.number ∉ passedOver log := fun hpass =>
            List.disjoint_of_nodup_append hf.nodup (List.mem_append_left _ hbegun) hpass
          simp [hnot]
  | none =>
      rw [concludes?, hp, Option.bind_none]
      cases hpass : x.passes? with
      | some n =>
          have hmem : n ∈ passedOver log := List.mem_filterMap.mpr ⟨x, hx, hpass⟩
          cases x <;> cases hpass <;> simpa [ends?] using hmem
      | none =>
          cases x with
          | calledOff w => cases hpass
          | turnedAway n => cases hpass
          | posted e => rfl
          | dropped e => rfl
          | _ => cases hp

end Desk.Filed

theorem filterMap_abandoned (q : JobQueue) (s t : Service) :
    (q.line.map fun w => Effect.result ⟨t, w.number⟩ (.failure w.task.abandonment)).filterMap
      (Effect.ended? s) =
      if t = s then q.line.map fun w => ⟨w.number, .failure w.task.abandonment⟩ else [] := by
  by_cases ht : t = s
  · simp [List.filterMap_map, Effect.ended?, ht, Function.comp_def]
  · simp [List.filterMap_map, Effect.ended?, ht, Function.comp_def]

/-- An engine that is ended tells of every job in a line, in order. -/
theorem Engine.endings_close (e : Engine) (s : Service) :
    e.close.effects.filterMap (Effect.ended? s) =
      (e.queue s).line.map fun w => ⟨w.number, .failure w.task.abandonment⟩ := by
  have hone : ∀ (e : Engine) (t : Service), (e.closeQueue t).effects.filterMap (Effect.ended? s) =
      if t = s then (e.queue t).line.map fun w => ⟨w.number, .failure w.task.abandonment⟩ else [] := by
    intro e t
    rw [closeQueue, afterTurn, Desk.effects_close, filterMap_abandoned]
  simp only [close, Reaction.next, List.filterMap_append, hone]
  obtain _ | ⟨_ | _⟩ := s
  · simp [queue]
  · simp
    rfl
  · simp
    rfl

namespace Reaction

/-- Whether nothing was done for a job, except that it may have been told how it ended. -/
def Silent (r : Reaction) (t : Ticket) : Prop :=
  (∀ e ∈ r.effects, e.job = t → e.isResult = true) ∧ (∀ x ∈ r.engine.hub.timers.armed, x.tag ≠ t) ∧
    ∀ x ∈ r.engine.hub.handlers.entries, ∀ system, x.action ≠ .job t system

/-- How the jobs of a queue ended, as it was told. -/
def endings (r : Reaction) (s : Service) : List Ended := r.effects.filterMap (Effect.ended? s)

theorem mem_endings_iff {r : Reaction} {t : Ticket} {o : Outcome} :
    ⟨t.number, o⟩ ∈ r.endings t.service ↔ .result t o ∈ r.effects := by
  constructor
  · intro h
    obtain ⟨e, he, hended⟩ := List.mem_filterMap.mp h
    cases e with
    | result t' o' =>
        obtain ⟨hservice, hsame⟩ := Option.ite_none_right_eq_some.mp hended
        obtain ⟨service, number⟩ := t
        obtain ⟨service', number'⟩ := t'
        cases hservice
        cases hsame
        exact he
    | _ => cases hended
  · exact fun h => List.mem_filterMap.mpr ⟨_, h, if_pos rfl⟩

end Reaction

namespace Engine

open Deed

variable (config : Config) (link : Link) (clock : Instant)

/-- How the jobs of a queue ended is told in the order in which they ended. -/
theorem endings_run (s : Service) (inputs : List Input) :
    ((idle config link clock).run inputs).endings s =
      ((idle config link clock).log s inputs).filterMap (ends? s) := by
  have hall := (filed_run config link clock s inputs).ended
  rwa [Desk.endings, deskAfter, desk, List.map_nil, List.append_nil] at hall

/-- A job of which it is told how it ended has ended so. -/
theorem ends_of_result {inputs : List Input} {t : Ticket} {o : Outcome}
    (h : .result t o ∈ ((idle config link clock).run inputs).effects) :
    ∃ x ∈ (idle config link clock).log t.service inputs, x.ends? t.service = some ⟨t.number, o⟩ := by
  rw [← Reaction.mem_endings_iff, endings_run] at h
  exact List.mem_filterMap.mp h

/-- Of every job that has ended it is told how. -/
theorem result_of_ends {inputs : List Input} {t : Ticket} {o : Outcome} {x : Deed}
    (hx : x ∈ (idle config link clock).log t.service inputs)
    (hends : x.ends? t.service = some ⟨t.number, o⟩) :
    .result t o ∈ ((idle config link clock).run inputs).effects := by
  rw [← Reaction.mem_endings_iff, endings_run]
  exact List.mem_filterMap.mpr ⟨x, hx, hends⟩

/-- What there is to find in what is seen of the jobs of a queue before they end is found
in what is done there. -/
theorem filterMap_run {β : Type} {s : Service} {f : Effect → Option β}
    (hf : ∀ e x, f e = some x → e.isOf s = true) (inputs : List Input) :
    ((idle config link clock).run inputs).effects.filterMap f =
      ((idle config link clock).log s inputs).flatMap fun x => (x.shown s).filterMap f := by
  have hseen : ((idle config link clock).run inputs).effects.filter (Effect.isOf s) =
      ((idle config link clock).log s inputs).flatMap (shown s) := (filed_run config link clock s inputs).seen
  rw [← List.filterMap_flatMap, ← hseen, List.filterMap_filter]
  refine List.filterMap_congr fun e _ => ?_
  cases he : f e with
  | none => rw [ite_self]
  | some x => rw [if_pos (hf e x he)]

/-- The same of what comes after the first part of a run. -/
theorem endings_run_more (s : Service) (inputs more : List Input) :
    (((idle config link clock).run inputs).engine.run more).endings s =
      (((idle config link clock).run inputs).engine.log s more).filterMap (ends? s) := by
  have hall := endings_run config link clock s (inputs ++ more)
  rw [Reaction.endings, run_append, log_append, Reaction.next, List.filterMap_append, List.filterMap_append,
    ← Reaction.endings, endings_run] at hall
  exact List.append_cancel_left hall

/-- What is seen of the jobs of a queue before they end is seen in what is done there. -/
theorem seen_run_more (s : Service) (inputs more : List Input) :
    (((idle config link clock).run inputs).engine.run more).effects.filter (Effect.isOf s) =
      (((idle config link clock).run inputs).engine.log s more).flatMap (shown s) := by
  have hseen : ∀ inputs, ((idle config link clock).run inputs).effects.filter (Effect.isOf s) =
      ((idle config link clock).log s inputs).flatMap (shown s) := fun inputs =>
    (filed_run config link clock s inputs).seen
  have hall := hseen (inputs ++ more)
  rw [run_append, log_append, Reaction.next, List.filter_append, List.flatMap_append, hseen] at hall
  exact List.append_cancel_left hall

/-- A job that may not wait is taken in if its queue is empty. If not, that is told at once, and only the
number is used up. -/
theorem transfer_exclusive (e : Engine) (side : Side) (t : Transfer) :
    let q := e.queue (.mission side)
    let r := e.transfer side t .exclusive
    (q.line = [] → r.effects = [] ∧
        (r.engine.queue (.mission side)).line = [⟨q.submitted, e.hub.handlers.freshOwner, .transfer t⟩]) ∧
      (q.line ≠ [] → r.effects = [.result ⟨.mission side, q.submitted⟩ (.failed .busy)] ∧
        r.engine.hub = e.hub ∧ r.engine.queue = update e.queue (.mission side) q.counted) := by
  intro q r
  have hidle : q.isIdle = true ↔ q.line = [] := by
    cases hr : q.running <;> simp [JobQueue.isIdle, Fifo.isEmpty, JobQueue.line, hr]
  constructor
  · intro hline
    have hroom : Admission.exclusive = .queue ∨ q.isIdle = true := .inr (hidle.mpr hline)
    have hadmitted := JobQueue.submit_admitted hroom (.mission side) e.hub (.transfer t)
    obtain ⟨hr, hw⟩ := List.append_eq_nil_iff.mp hline
    have hrunning : q.running = none := by simpa using hr
    have hr : r = e.afterTurn (.mission side) _ := congrArg (e.afterTurn (.mission side)) hadmitted
    rw [hr]
    refine ⟨rfl, ?_⟩
    rw [afterTurn, queue_withHub, queue_withQueue, update_self]
    simp [JobQueue.line, hrunning, hw]
  · intro hline
    have hbusy : ¬(Admission.exclusive = .queue ∨ q.isIdle = true) := by
      rintro (h | h)
      · cases h
      · exact hline (hidle.mp h)
    have hsubmit := JobQueue.submit_busy hbusy (.mission side) e.hub (.transfer t)
    have hr : r = e.afterTurn (.mission side) _ := congrArg (e.afterTurn (.mission side)) hsubmit
    rw [hr]
    refine ⟨rfl, rfl, ?_⟩
    rw [afterTurn, queue_withHub, queue_withQueue]

/-- Nothing is done for a job that is not under way and of which nothing was seen in its steps. -/
theorem silent_of_unseen (s : Service) (inputs : List Input) {n : Nat}
    (hidle : ∀ r, (((idle config link clock).run inputs).engine.queue s).running = some r → r.number ≠ n)
    (hunseen : ∀ x ∈ (idle config link clock).log s inputs, ∀ h, x.actor? = some (n, h) → x.shown s = []) :
    ((idle config link clock).run inputs).Silent ⟨s, n⟩ := by
  have hf := filed_run config link clock s inputs
  have hsound := sound_run config link clock inputs
  refine ⟨fun e he hjob => ?_, fun x hx htag => ?_, fun x hx system haction => ?_⟩
  · by_contra hno
    have hresult : e.isResult = false := by simpa using hno
    have hseen : e ∈ ((idle config link clock).deskAfter inputs).seen s := by
      refine List.mem_filter.mpr ⟨he, ?_⟩
      simp [Effect.isOf, hjob, hresult]
    rw [hf.seen] at hseen
    obtain ⟨x, hx, hshown⟩ := List.mem_flatMap.mp hseen
    cases hp : x.progress? s with
    | none => simp [shown, hp] at hshown
    | some p =>
        obtain ⟨m, h, ha⟩ := actor?_of_progress? hp
        have hown := (own_step ha hp).1 e (by simpa [shown, hp] using hshown)
        rw [hjob] at hown
        cases hown
        rw [hunseen x hx h ha] at hshown
        cases hshown
  · obtain ⟨r, hr, hnumber, _⟩ := hsound.tended.owned x hx
    rw [htag] at hr hnumber
    exact hidle r hr hnumber
  · rcases List.mem_cons.mp (hsound.subscribed.mem_iff.mp hx) with rfl | hx
    · cases haction
    · obtain ⟨t, _, hx⟩ := List.mem_flatMap.mp hx
      obtain ⟨r, hr, _, system', haction'⟩ := JobQueue.owner_of_mem_handlers hx
      rw [haction] at haction'
      cases haction'
      exact hidle r hr rfl

theorem silent_of_not_begun (s : Service) (inputs : List Input) {n : Nat}
    (hn : n ∉ begun ((idle config link clock).log s inputs)) :
    ((idle config link clock).run inputs).Silent ⟨s, n⟩ := by
  have hf := filed_run config link clock s inputs
  refine silent_of_unseen config link clock s inputs (fun r hr hnumber => hn ?_) fun x hx h ha => absurd ?_ hn
  · exact hnumber ▸ hf.begun_of_running hr
  · exact begun_of_actor? hf.inTurn hx ha

/-- In every run the jobs of a queue are done one at a time and in the order of their submissions, without
those called off while they waited and those turned away. All that is seen of a job before it ends is seen
in its steps, which are from its start to its end; nothing is done for a job that is not started; and those
that were not passed over end in order, also when the engine is ended. -/
theorem run_single_file (inputs : List Input) (s : Service) :
    let e := idle config link clock
    let r := e.run inputs
    let log := e.log s inputs
    r.effects.filter (Effect.isOf s) = log.flatMap (shown s) ∧
      r.endings s = log.filterMap (ends? s) ∧
      Each (InTurn s) log ∧
      (∀ w h, .started w h ∈ log → (submitted inputs s)[w.number]? = some w.task) ∧
      (∀ n ∉ begun log, r.Silent ⟨s, n⟩) ∧
      ((((r.next close).endings s).map (·.number)).filter (· ∉ passedOver log)).Pairwise (· < ·) ∧
      ∀ side t, let q := r.engine.queue (.mission side)
        let r' := r.engine.transfer side t .exclusive
        (q.line = [] → r'.effects = [] ∧ (r'.engine.queue (.mission side)).line =
            [⟨q.submitted, r.engine.hub.handlers.freshOwner, .transfer t⟩]) ∧
          (q.line ≠ [] → r'.effects = [.result ⟨.mission side, q.submitted⟩ (.failed .busy)] ∧
            r'.engine.hub = r.engine.hub ∧
              r'.engine.queue = update r.engine.queue (.mission side) q.counted) := by
  intro e r log
  have hf : (e.deskAfter inputs).Filed s log := filed_run config link clock s inputs
  have hended : r.endings s = log.filterMap (ends? s) := by
    have hall := hf.ended
    rwa [Desk.endings, deskAfter, desk, List.map_nil, List.append_nil] at hall
  refine ⟨hf.seen, hended, hf.inTurn, hf.asked,
    fun n hn => silent_of_not_begun config link clock s inputs hn, ?_,
    fun side t => transfer_exclusive r.engine side t⟩
  have hclosing : ((r.next close).endings s).map (·.number) =
      (log.filterMap (ends? s)).map (·.number) ++ (r.engine.queue s).line.map (·.number) := by
    rw [Reaction.endings, Reaction.next, List.filterMap_append, ← Reaction.endings, hended, endings_close,
      List.map_append, List.map_map]
    rfl
  have hwaiting : ∀ n ∈ (r.engine.queue s).line.map (·.number), n ∉ passedOver log := by
    intro n hn hpass
    refine List.disjoint_of_nodup_append hf.nodup ?_ hpass
    rw [JobQueue.line, List.map_append] at hn
    rcases List.mem_append.mp hn with hrunning | hwaiting
    · obtain ⟨w, hw, rfl⟩ := List.mem_map.mp hrunning
      obtain ⟨j, hj, rfl⟩ := Option.map_eq_some_iff.mp (Option.mem_toList.mp hw)
      exact List.mem_append_left _ (hf.begun_of_running hj)
    · exact List.mem_append_right _ hwaiting
  have hline : concluded s log ++ (r.engine.queue s).line.map (·.number) =
      begun log ++ (r.engine.queue s).waiting.items.map (·.number) := by
    rw [hf.under, List.append_assoc]
    show _ = concluded s log ++ (((r.engine.queue s).running.map _).toList ++ _)
    cases hr : (r.engine.queue s).running with
    | none => simp [JobQueue.line, hr]
    | some j => simp [JobQueue.line, Running.slot, hr]
  rw [hclosing, List.filter_append, hf.filter_ends,
    List.filter_eq_self.mpr fun n hn => decide_eq_true (hwaiting n hn), hline]
  exact hf.sorted

/-- Of three downloads the second is called off while it waits and the first while it is under way. -/
example :
    let download : Input := .transfer .client (.download ⟨⟨.pilotOf 1, .mission⟩, true⟩) .queue
    let log := (idle .default default 0).log (.mission .client)
      [download, download, download, .tick, .cancel .client 1, .cancel .client 0, .tick]
    begun log = [0, 2] ∧ concluded (.mission .client) log = [0] ∧ passedOver log = [1] := by
  decide +kernel

end Engine

end GroundLink
