import GroundLink.Proofs.UploadTraffic

/-! What an upload is held to before anything of it is on the wire. A list may go up if it is not empty, fits
a count, carries its numbers, is of one type, and has the one current item that may be asked of it
(`Upload.Uploadable`); what is wrong with a list that may not is settled by the first of these that fails
(`Upload.FirstFault`). An upload of such a list ends where it starts, as if it had not been there, and the
next in line starts in its place. -/

namespace GroundLink

open Function Deed

/-- Whether every item of a list carries the number of its place. -/
def Numbered (items : List MissionItem) : Prop :=
  ∀ i, ∀ item : MissionItem, items[i]? = some item → item.seq.toNat = i

/-- Whether exactly one item of a list is current. -/
def Marked (items : List MissionItem) : Prop :=
  ∃ k < items.length, ∀ i, ∀ item : MissionItem, items[i]? = some item → (item.current = true ↔ i = k)

def OfType (missionType : MissionType) (items : List MissionItem) : Prop :=
  ∀ item ∈ items, item.missionType = missionType

namespace Upload

structure Uploadable (u : Upload) : Prop where
  filled : 1 ≤ u.items.length
  fits : u.items.length ≤ 65535
  numbered : Numbered u.items
  marked : u.requireCurrent = true → Marked u.items
  typed : OfType u.list.missionType u.items

/-- What is wrong with a list first. -/
inductive FirstFault (u : Upload) : TransferError → Prop
  | noMissionAvailable (empty : u.items = []) : FirstFault u .noMissionAvailable
  | tooManyMissionItems (long : 65535 < u.items.length) : FirstFault u .tooManyMissionItems
  | invalidSequence (filled : 1 ≤ u.items.length) (fits : u.items.length ≤ 65535)
      (astray : ¬Numbered u.items) :
      FirstFault u .invalidSequence
  | currentInvalid (filled : 1 ≤ u.items.length) (fits : u.items.length ≤ 65535) (numbered : Numbered u.items)
      (required : u.requireCurrent = true) (unmarked : ¬Marked u.items) : FirstFault u .currentInvalid
  | missionTypeNotConsistent (filled : 1 ≤ u.items.length) (fits : u.items.length ≤ 65535)
      (numbered : Numbered u.items) (marked : u.requireCurrent = true → Marked u.items)
      (mixed : ¬OfType u.list.missionType u.items) : FirstFault u .missionTypeNotConsistent

end Upload

theorem numberedFrom_iff {items : List MissionItem} {first : Nat} :
    numberedFrom first items = true ↔ ∀ i item, items[i]? = some item → item.seq.toNat = first + i := by
  refine ⟨fun h i item hi => seq_of_numberedFrom h hi, fun h => ?_⟩
  induction items generalizing first with
  | nil => rfl
  | cons head rest ih =>
      rw [numberedFrom, Bool.and_eq_true]
      refine ⟨decide_eq_true (h 0 head rfl), ih fun i item hi => ?_⟩
      rw [h (i + 1) item hi]
      omega

theorem numbered_iff {items : List MissionItem} : numberedFrom 0 items = true ↔ Numbered items := by
  rw [numberedFrom_iff, Numbered]
  simp only [Nat.zero_add]

theorem marked_cons_of_current {head : MissionItem} {rest : List MissionItem} (h : head.current = true) :
    Marked (head :: rest) ↔ ∀ item ∈ rest, item.current = false := by
  constructor
  · rintro ⟨k, -, hall⟩ item hmem
    obtain ⟨i, hi⟩ := List.mem_iff_getElem?.mp hmem
    have hzero : 0 = k := (hall 0 head rfl).mp h
    have hnext := hall (i + 1) item hi
    rw [← hzero] at hnext
    simpa using hnext
  · intro hall
    refine ⟨0, Nat.succ_pos _, fun i item hi => ?_⟩
    cases i with
    | zero =>
        cases hi
        exact iff_of_true h rfl
    | succ i =>
        have hmem : item ∈ rest := List.mem_iff_getElem?.mpr ⟨i, hi⟩
        rw [hall item hmem]
        exact iff_of_false Bool.false_ne_true (Nat.succ_ne_zero i)

theorem marked_cons_of_not_current {head : MissionItem} {rest : List MissionItem} (h : head.current = false) :
    Marked (head :: rest) ↔ Marked rest := by
  constructor
  · rintro ⟨k, hk, hall⟩
    cases k with
    | zero =>
        have hhead := (hall 0 head rfl).mpr rfl
        rw [h] at hhead
        cases hhead
    | succ k =>
        refine ⟨k, Nat.lt_of_succ_lt_succ hk, fun i item hi => ?_⟩
        rw [hall (i + 1) item hi]
        exact Nat.succ_inj
  · rintro ⟨k, hk, hall⟩
    refine ⟨k + 1, Nat.succ_lt_succ hk, fun i item hi => ?_⟩
    cases i with
    | zero =>
        cases hi
        rw [h]
        exact iff_of_false Bool.false_ne_true (Nat.succ_ne_zero k).symm
    | succ i =>
        rw [hall i item hi]
        exact Nat.succ_inj.symm

theorem countP_current_iff {items : List MissionItem} : items.countP (·.current) = 1 ↔ Marked items := by
  induction items with
  | nil => exact iff_of_false Nat.zero_ne_one fun ⟨k, hk, _⟩ => Nat.not_lt_zero k hk
  | cons head rest ih =>
      cases h : head.current with
      | true =>
          rw [marked_cons_of_current h, List.countP_cons_of_pos h]
          simp
      | false =>
          rw [marked_cons_of_not_current h, ← ih, List.countP_cons_of_neg (by simp [h])]

theorem any_ofType_iff {missionType : MissionType} {items : List MissionItem} :
    items.any (·.missionType ≠ missionType) = true ↔ ¬OfType missionType items := by
  simp [OfType]

open scoped Classical in
theorem uploadFault?_eq (items : List MissionItem) (missionType : MissionType) (requireCurrent : Bool) :
    uploadFault? items missionType requireCurrent =
      if items = [] then some .noMissionAvailable
      else if 65535 < items.length then some .tooManyMissionItems
      else if ¬Numbered items then some .invalidSequence
      else if requireCurrent = true ∧ ¬Marked items then some .currentInvalid
      else if ¬OfType missionType items then some .missionTypeNotConsistent
      else none := by
  have hnumbered : ((!numberedFrom 0 items) = true) = ¬Numbered items := by simp [← numbered_iff]
  have hmarked : ((requireCurrent && items.countP (·.current) ≠ 1) = true) =
      (requireCurrent = true ∧ ¬Marked items) := by
    simp [← countP_current_iff]
  simp only [uploadFault?, List.isEmpty_iff, hnumbered, hmarked, any_ofType_iff, maxItems]

namespace Upload

variable {u : Upload} {e : TransferError}

theorem uploadable_iff : u.Uploadable ↔ u.Faultless := by
  rw [Faultless, uploadFault?_eq]
  constructor
  · rintro ⟨hfilled, hfits, hnumbered, hmarked, htyped⟩
    rw [if_neg (List.ne_nil_of_length_pos hfilled), if_neg (Nat.not_lt.mpr hfits),
      if_neg (not_not.mpr hnumbered), if_neg fun h => h.2 (hmarked h.1), if_neg (not_not.mpr htyped)]
  · intro h
    split_ifs at h with hempty hlong hnumbered hunmarked htyped
    exact ⟨List.length_pos_iff.mpr hempty, Nat.le_of_not_lt hlong, hnumbered,
      fun hrequired => not_not.mp fun hno => hunmarked ⟨hrequired, hno⟩, htyped⟩

theorem firstFault_iff :
    u.FirstFault e ↔ uploadFault? u.items u.list.missionType u.requireCurrent = some e := by
  rw [uploadFault?_eq]
  constructor
  · intro h
    cases h with
    | noMissionAvailable empty => rw [if_pos empty]
    | tooManyMissionItems long =>
        rw [if_neg (List.ne_nil_of_length_pos (Nat.zero_lt_of_lt long)), if_pos long]
    | invalidSequence filled fits astray =>
        rw [if_neg (List.ne_nil_of_length_pos filled), if_neg (Nat.not_lt.mpr fits), if_pos astray]
    | currentInvalid filled fits numbered required unmarked =>
        rw [if_neg (List.ne_nil_of_length_pos filled), if_neg (Nat.not_lt.mpr fits),
          if_neg (not_not.mpr numbered), if_pos ⟨required, unmarked⟩]
    | missionTypeNotConsistent filled fits numbered marked mixed =>
        rw [if_neg (List.ne_nil_of_length_pos filled), if_neg (Nat.not_lt.mpr fits),
          if_neg (not_not.mpr numbered), if_neg fun h => h.2 (marked h.1), if_pos mixed]
  · intro h
    split_ifs at h with hempty hlong hnumbered hunmarked htyped
    all_goals obtain rfl := Option.some.inj h
    · exact .noMissionAvailable hempty
    · exact .tooManyMissionItems hlong
    · exact .currentInvalid (List.length_pos_iff.mpr hempty)
        (Nat.le_of_not_lt hlong) hnumbered hunmarked.1 hunmarked.2
    · exact .missionTypeNotConsistent (List.length_pos_iff.mpr hempty) (Nat.le_of_not_lt hlong) hnumbered
        (fun hrequired => not_not.mp fun hno => hunmarked ⟨hrequired, hno⟩) htyped
    · exact .invalidSequence (List.length_pos_iff.mpr hempty) (Nat.le_of_not_lt hlong) hnumbered

/-- A list may go up, or one thing is wrong with it first. -/
theorem uploadable_or (u : Upload) :
    u.Uploadable ∧ (∀ e, ¬u.FirstFault e) ∨
      ¬u.Uploadable ∧ ∃ e, u.FirstFault e ∧ ∀ e', u.FirstFault e' → e' = e := by
  cases h : uploadFault? u.items u.list.missionType u.requireCurrent with
  | none => exact .inl ⟨uploadable_iff.mpr h, fun e he => nomatch h.symm.trans (firstFault_iff.mp he)⟩
  | some e =>
      have hno : ¬u.Uploadable := fun hu => nomatch h.symm.trans (uploadable_iff.mp hu)
      refine .inr ⟨hno, e, firstFault_iff.mpr h, fun e' he' => ?_⟩
      exact Option.some.inj ((firstFault_iff.mp he').symm.trans h)

end Upload

namespace Waiting

variable {w : Waiting} {s : Service} {h : Hub} {u : Upload}

/-- A job that takes its handlers back leaves the hub as it found it, if nobody else has its name. -/
theorem retire_subscribe (hfresh : ∀ x ∈ h.handlers.entries, x.owner ≠ w.owner) :
    (w.subscribe s h).retire w.owner none = h := by
  have hown : ∀ x ∈ w.task.kinds.map fun kind => (⟨kind, w.owner, .job ⟨s, w.number⟩ w.task.peer.system⟩ :
      Handler Kind Subscriber), ¬decide (x.owner ≠ w.owner) = true := by
    intro x hx
    obtain ⟨kind, -, rfl⟩ := List.mem_map.mp hx
    simp
  have hhandlers : (w.subscribe s h).handlers.unregisterAll w.owner = h.handlers := by
    rw [subscribe, Handlers.unregisterAll, Handlers.registerAll_entries, List.filter_append,
      List.filter_eq_self.mpr fun x hx => decide_eq_true (hfresh x hx), List.filter_eq_nil_iff.mpr hown,
      List.append_nil, Handlers.registerAll_owners]
  exact congrArg (fun handlers => { h with handlers }) hhandlers

theorem opening_task (w : Waiting) (setting : Setting) : (w.opening setting).activity.task = w.task :=
  Task.task_initial setting w.task

/-- An upload of a list that may not go up ends at its start. -/
theorem start_of_fault {e : TransferError} (htask : w.task = .transfer (.upload u))
    (hfault : u.FirstFault e) :
    w.start s h = ⟨.ended ⟨w.number, .failed e⟩, (w.subscribe s h).retire w.owner none, []⟩ := by
  have hmove : w.task.start (h.setting s) = .finish none none (.failed e) := by
    rw [htask, Task.start, Upload.start, Upload.firstFault_iff.mp hfault]
    rfl
  calc w.start s h
    _ = (w.opening (h.setting s)).follow s (w.subscribe s h) (w.task.start (h.setting s)) := rfl
    _ = ⟨.ended ⟨w.number, .failed e⟩, (w.subscribe s h).retire w.owner none, []⟩ := by
        rw [hmove]
        rfl

/-- An upload of a list that may go up reports its beginning, if anyone listens, and
offers the link its count. -/
theorem effects_of_uploadable (htask : w.task = .transfer (.upload u)) (hu : u.Uploadable) :
    (w.start s h).effects = (if u.wantsProgress then [.progress ⟨s, w.number⟩ .zero] else []) ++
      [if h.link.accepts u.count then .sent ⟨s, w.number⟩ u.count
        else .refused ⟨s, w.number⟩ u.count] := by
  have hmove : w.task.start (h.setting s) =
      .proceed (.restart (h.policy s).timeout) (some .zero) (some u.count) (.upload u ⟨.counting, 1⟩) := by
    rw [htask, Task.start, Upload.start, Upload.uploadable_iff.mp hu]
    rfl
  have hreport : (w.opening (h.setting s)).report s (some .zero) =
      if u.wantsProgress then [.progress ⟨s, w.number⟩ .zero] else [] := by
    rw [Running.report, opening_task, htask]
    rfl
  have hf := (w.opening (h.setting s)).follow_follows s (w.subscribe s h) (w.task.start (h.setting s))
  have hstart : (w.opening (h.setting s)).follow s (w.subscribe s h) (w.task.start (h.setting s)) =
      w.start s h := rfl
  rw [hstart, hmove] at hf
  generalize w.start s h = p at hf ⊢
  cases hf with
  | waited wait report message activity taken =>
      have haccepts : h.link.accepts u.count = true := taken _ rfl
      rw [hreport, if_pos haccepts]
      rfl
  | broken wait report m activity refused =>
      have haccepts : h.link.accepts u.count = false := refused
      rw [hreport, haccepts]
      rfl

end Waiting

/-- A queue that starts one of its jobs goes on from there. -/
theorem startDeeds_split {s : Service} {w : Waiting} {h' : Hub} (waiting : List Waiting) (h : Hub)
    (hw : .started w h' ∈ startDeeds s waiting h) :
    ∃ pre ahead behind, waiting = ahead ++ w :: behind ∧
      startDeeds s waiting h = pre ++ startDeeds s (w :: behind) h' := by
  induction waiting generalizing h with
  | nil => cases hw
  | cons w' rest ih =>
      by_cases hfirst : w = w' ∧ h' = h
      · obtain ⟨rfl, rfl⟩ := hfirst
        exact ⟨[], [], rest, rfl, rfl⟩
      · rw [startDeeds] at hw ⊢
        rcases List.mem_cons.mp hw with hsame | hlater
        · cases hsame
          exact absurd ⟨rfl, rfl⟩ hfirst
        · cases hp : (w'.start s h).standing with
          | running r =>
              simp only [hp] at hlater
              cases hlater
          | ended x =>
              simp only [hp] at hlater ⊢
              obtain ⟨pre, ahead, behind, hrest, hdeeds⟩ := ih _ hlater
              exact ⟨.started w' h :: pre, w' :: ahead, behind, by rw [hrest, List.cons_append],
                by rw [hdeeds, List.cons_append]⟩

theorem Running.not_started_of_mem_deeds {s : Service} {w : Waiting} {h' : Hub} (events : List Event) :
    ∀ (r : Running) (h : Hub), .started w h' ∉ r.deeds s events h := by
  induction events with
  | nil => exact fun _ _ => List.not_mem_nil
  | cons e rest ih =>
      intro r h hw
      rw [deeds] at hw
      rcases List.mem_cons.mp hw with hsame | hlater
      · rw [deed] at hsame
        split at hsame <;> cases hsame
      · cases hp : (r.take s h e).standing with
        | running r' =>
            simp only [hp] at hlater
            exact ih r' _ hlater
        | ended x =>
            simp only [hp] at hlater
            obtain ⟨e', -, heq⟩ := List.mem_map.mp hlater
            cases heq

theorem JobQueue.deeds_split {q : JobQueue} {s : Service} {w : Waiting} {h h' : Hub}
    (hw : .started w h' ∈ q.deeds s h) :
    ∃ pre ahead behind, q.waiting.items = ahead ++ w :: behind ∧
      q.deeds s h = pre ++ startDeeds s (w :: behind) h' := by
  cases hr : q.running with
  | none =>
      simp only [deeds, hr] at hw ⊢
      rcases List.mem_append.mp hw with hdropped | hstarted
      · obtain ⟨e, -, heq⟩ := List.mem_map.mp hdropped
        cases heq
      · obtain ⟨pre, ahead, behind, hitems, hdeeds⟩ := startDeeds_split _ _ hstarted
        exact ⟨_, ahead, behind, hitems, by rw [hdeeds, ← List.append_assoc]⟩
  | some r =>
      simp only [deeds, hr] at hw ⊢
      rcases List.mem_append.mp hw with hown | hstarted
      · exact absurd hown (Running.not_started_of_mem_deeds _ _ _)
      · cases hp : (Running.takeAll s q.events r h).standing with
        | running r' =>
            simp only [hp] at hstarted
            cases hstarted
        | ended x =>
            simp only [hp] at hstarted ⊢
            obtain ⟨pre, ahead, behind, hitems, hdeeds⟩ := startDeeds_split _ _ hstarted
            exact ⟨_, ahead, behind, hitems, by rw [hdeeds, ← List.append_assoc]⟩

namespace Engine

/-- A job that starts while an input is taken in was waiting, and the queue goes on with those behind it. -/
theorem deeds_split {e : Engine} {s : Service} {i : Input} {w : Waiting} {h : Hub}
    (hw : .started w h ∈ e.deeds s i) :
    ∃ pre ahead behind, (e.queue s).waiting.items = ahead ++ w :: behind ∧
      e.deeds s i = pre ++ startDeeds s (w :: behind) h := by
  have hnews : ∀ q q' : JobQueue, .started w h ∉ q.news q' := fun q q' hmem => by
    obtain ⟨e, heq⟩ := JobQueue.posted_of_mem_news hmem
    cases heq
  cases i with
  | work t =>
      rw [deeds] at hw ⊢
      split at hw
      · rename_i ht
        subst ht
        rw [if_pos rfl]
        exact JobQueue.deeds_split hw
      · cases hw
  | tick =>
      rw [deeds] at hw ⊢
      rcases List.mem_append.mp hw with hposted | hstarted
      · exact absurd hposted (hnews _ _)
      · obtain ⟨pre, ahead, behind, hitems, hdeeds⟩ := JobQueue.deeds_split hstarted
        have hwaiting : ((e.atTurn s).queue s).waiting = (e.queue s).waiting := by
          rw [queue_atTurn]
          exact ((Desk.Fires.around (e.fires_fireTimers [] fun _ => [])).2.2.2 s).2
        exact ⟨_, ahead, behind, hwaiting ▸ hitems, by rw [hdeeds, ← List.append_assoc]⟩
  | receive header m => exact absurd hw (hnews _ _)
  | fireTimers => exact absurd hw (hnews _ _)
  | transfer side t admission =>
      rw [deeds] at hw
      split at hw
      · rw [JobQueue.submitDeeds] at hw
        split at hw <;> simp at hw
      · cases hw
  | cancel side number =>
      have hcalledOff : ∀ q : JobQueue, .started w h ∉ q.calledOff number := fun q hmem => by
        obtain ⟨x, -, heq⟩ := List.mem_map.mp hmem
        cases heq
      rw [deeds] at hw
      split at hw
      · rw [JobQueue.cancelDeeds] at hw
        split at hw
        · exact absurd hw (hcalledOff _)
        · split at hw
          · cases List.mem_singleton.mp hw
          · exact absurd hw (hcalledOff _)
      · cases hw
  | _ => cases hw

end Engine

namespace Upload

/-- An upload goes on only with a list that may go up, and else nothing is seen of it. -/
theorem keeps_faultless (s : Service) :
    Deed.Keeps s (fun _ _ a => ∀ u state, a = .upload u state → u.Uploadable)
      fun _ x _ a p => ∀ u state, a = .upload u state →
        (x.begins? = none → u.Uploadable) ∧ (¬u.Uploadable → p.effects = []) where
  quiet _ _ _ _ _ hknown := hknown
  begins log w h p _ hp hc := by
    obtain rfl := Option.some.inj hp
    refine ⟨fun u state ha => ⟨fun hlater => (by cases hlater), fun hno => ?_⟩, fun r hr u state ha => ?_⟩
    · obtain ⟨-, e, hfault, -⟩ := (uploadable_or u).resolve_left fun h => hno h.1
      rw [Waiting.start_of_fault (Task.eq_of_initial ha) hfault]
    · have hsame := Makes.task_of_running (x := .started w h) .started hc hr
      rw [ha, Task.task_initial] at hsame
      rcases uploadable_or u with ⟨hu, -⟩ | ⟨-, e, hfault, -⟩
      · exact hu
      · rw [Waiting.start_of_fault hsame.symm hfault] at hr
        cases hr
  goesOn log x n a move p hm hbegins hp hc hknown := by
    refine ⟨fun u state ha => ⟨fun _ => hknown u state ha, fun hno => absurd (hknown u state ha) hno⟩,
      fun r hr u state ha => ?_⟩
    have hsame := hm.task_of_running hc hr
    obtain ⟨state', rfl⟩ := eq_upload_of_task (hsame.symm.trans (congrArg Activity.task ha))
    exact hknown u state' rfl

/-- How the list of an upload is looked at in a run. -/
structure Screened (u : Upload) (t : Ticket) (e : Engine) (inputs : List Input) : Prop where
  verdict : u.Uploadable ∧ (∀ x, ¬u.FirstFault x) ∨
    ¬u.Uploadable ∧ ∃ x, u.FirstFault x ∧ ∀ y, u.FirstFault y → y = x
  /-- Something of the upload is on the wire just if it was started and its list may go up. -/
  onWire : (e.run inputs).effects.filterMap (Effect.offeredBy? t) ≠ [] ↔
    t.number ∈ begun (e.log t.service inputs) ∧ u.Uploadable
  opens : u.Uploadable → ∀ w h, .started w h ∈ e.log t.service inputs → w.number = t.number →
    (started w h).shown t.service = (if u.wantsProgress then [.progress t .zero] else []) ++
      [if h.link.accepts u.count then .sent t u.count else .refused t u.count]
  /-- If something is wrong with the list, the upload ends at its start with the hub as it was, that is told
  at once, and the queue goes on with those that wait behind it. -/
  ends : ∀ x, u.FirstFault x → ∀ before i after, inputs = before ++ i :: after → ∀ w h,
    .started w h ∈ (e.run before).engine.deeds t.service i → w.number = t.number →
      w.start t.service h = ⟨.ended ⟨t.number, .failed x⟩, h, []⟩ ∧
        .result t (.failed x) ∈ ((e.run before).engine.step i).effects ∧
          ∃ pre ahead behind, ((e.run before).engine.queue t.service).waiting.items = ahead ++ w :: behind ∧
            (e.run before).engine.deeds t.service i = pre ++ .started w h :: startDeeds t.service behind h ∧
              ∀ w' ∈ behind.head?, .started w' h ∈ (e.run before).engine.deeds t.service i
  /-- Nothing was ever done for it but to tell how it ended. -/
  silent : ¬u.Uploadable → (e.run inputs).Silent t
  /-- An upload that is first in line is started when its queue works. -/
  starts : ∀ before after, inputs = before ++ .work t.service :: after →
    ((e.run before).engine.queue t.service).running = none →
      ∀ w ∈ ((e.run before).engine.queue t.service).waiting.items.head?, w.number = t.number →
        .started w (e.run before).engine.hub ∈ (e.run before).engine.deeds t.service (.work t.service)

end Upload

namespace Engine

variable (config : Config) (link : Link) (clock : Instant) {inputs : List Input}

/-- A job that starts finds no handler under its name. -/
theorem unnamed_of_started {s : Service} {w : Waiting} {h : Hub}
    (hw : .started w h ∈ (idle config link clock).log s inputs) :
    ∀ x ∈ h.handlers.entries, x.owner ≠ w.owner := by
  let P (_ : Desk) (past : List Deed) : Prop :=
    ∀ w h, .started w h ∈ past → ∀ x ∈ h.handlers.entries, x.owner ≠ w.owner
  have hown : ∀ i d d' deeds past, d.Sound → P d past → Desk.Act i s d deeds d' → P d' (past ++ deeds) := by
    intro i d d' deeds past hs hP hact w h hw
    rcases List.mem_append.mp hw with hold | hnew
    · exact hP w h hold
    · cases hact.plays hnew rfl with
      | started idle waiting =>
          have hmem : w ∈ (d.queue s).waiting.items := waiting ▸ List.mem_cons_self
          exact fun x hx => (hs.subscribed.ne_waiting hs.lined hmem hx).1
  have hrun :=
    keeps_log (P := P) (fun _ _ _ h => h) hown (fun _ _ _ _ _ _ _ _ h _ => h) config link clock inputs
      (fun w h hw => absurd hw List.not_mem_nil)
  exact hrun w h hw

variable {side : Side} {n : Nat} {u : Upload}
  (hasked : (submitted inputs (.mission side))[n]? = some (.transfer (.upload u)))

include hasked

theorem task_of_started {w : Waiting} {h : Hub}
    (hw : .started w h ∈ (idle config link clock).log (.mission side) inputs) (hn : w.number = n) :
    w.task = .transfer (.upload u) := by
  have htask := (filed_run config link clock (.mission side) inputs).asked w h hw
  rw [hn] at htask
  exact Option.some.inj (htask.symm.trans hasked)

/-- An upload that makes a step has a list that may go up, or else it just starts and
nothing is seen of that. -/
theorem screened_of_makes {x : Deed} (hx : x ∈ (idle config link clock).log (.mission side) inputs)
    {a : Activity} {move : Move Activity} {p : Progress} (hm : x.Makes (.mission side) n a move)
    (hp : x.progress? (.mission side) = some p) :
    ∃ state, a = .upload u state ∧ (x.begins? = none → u.Uploadable) ∧ (¬u.Uploadable → p.effects = []) := by
  have hc := chronicled_run config link clock inputs (Upload.keeps_faultless (.mission side))
  obtain ⟨state, rfl⟩ := Upload.eq_upload_of_task (task_of_makes config link clock inputs hasked hx hm)
  obtain ⟨past, rest, hlog⟩ := List.append_of_mem hx
  exact ⟨state, rfl, hc.each past x rest hlog n _ move p hm hp u state rfl⟩

/-- Nothing is seen of the steps of an upload whose list may not go up. -/
theorem shown_of_not_uploadable (hno : ¬u.Uploadable) {x : Deed}
    (hx : x ∈ (idle config link clock).log (.mission side) inputs) {h : Hub} (ha : x.actor? = some (n, h)) :
    x.shown (.mission side) = [] := by
  cases hp : x.progress? (.mission side) with
  | none => rw [shown, hp]; rfl
  | some p =>
      rw [shown_of_progress? hp]
      rcases makes_of_progress? hp with ⟨m, a, move, hm, -⟩ | ⟨hnone, -⟩
      · obtain ⟨h', ha'⟩ := hm.actor?
        obtain ⟨rfl, -⟩ := Prod.mk.inj (Option.some.inj (ha.symm.trans ha'))
        obtain ⟨state, -, -, hseen⟩ := screened_of_makes config link clock hasked hx hm hp
        exact hseen hno
      · exact hnone

theorem shown_of_uploadable (hu : u.Uploadable) {w : Waiting} {h : Hub}
    (hw : .started w h ∈ (idle config link clock).log (.mission side) inputs) (hn : w.number = n) :
    (started w h).shown (.mission side) =
      (if u.wantsProgress then [.progress ⟨.mission side, n⟩ .zero] else []) ++
        [if h.link.accepts u.count then .sent ⟨.mission side, n⟩ u.count
          else .refused ⟨.mission side, n⟩ u.count] := by
  rw [shown_of_progress? rfl,
    Waiting.effects_of_uploadable (task_of_started config link clock hasked hw hn) hu, hn]

/-- An upload is looked at before it is started, and its list goes up only if there is
nothing wrong with it. -/
theorem upload_is_screened : u.Screened ⟨.mission side, n⟩ (idle config link clock) inputs where
  verdict := u.uploadable_or
  onWire := by
    have hf := filed_run config link clock (.mission side) inputs
    rw [offers_run]
    constructor
    · intro hsome
      obtain ⟨m, hm⟩ := List.exists_mem_of_ne_nil _ hsome
      obtain ⟨x, hx, hm⟩ := List.mem_flatMap.mp hm
      obtain ⟨a, move, p, hmakes, hp, -⟩ := makes_of_offers hm
      obtain ⟨h, ha⟩ := hmakes.actor?
      refine ⟨begun_of_actor? hf.inTurn hx ha, ?_⟩
      by_contra hno
      rw [offers, shown_of_not_uploadable config link clock hasked hno hx ha] at hm
      cases hm
    · rintro ⟨hbegun, hu⟩
      obtain ⟨x, hx, hbegins⟩ := List.mem_filterMap.mp hbegun
      obtain ⟨w, h, rfl⟩ : ∃ w h, x = .started w h := by
        cases x <;> first | exact ⟨_, _, rfl⟩ | cases hbegins
      have hn : w.number = n := Option.some.inj hbegins
      have hoffers : u.count ∈ (started w h).offers ⟨.mission side, n⟩ := by
        rw [offers, shown_of_uploadable config link clock hasked hu hx hn, List.filterMap_append]
        refine List.mem_append_right _ ?_
        cases h.link.accepts u.count <;> simp [Effect.offeredBy?]
      exact List.ne_nil_of_mem (List.mem_flatMap.mpr ⟨_, hx, hoffers⟩)
  opens hu w h hw hn := shown_of_uploadable config link clock hasked hu hw hn
  ends x hfault before i after hinputs w h hw hn := by
    have hlog : .started w h ∈ (idle config link clock).log (.mission side) inputs := by
      rw [hinputs, log_append, log]
      exact List.mem_append_right _ (List.mem_append_left _ hw)
    have hstart : w.start (.mission side) h = ⟨.ended ⟨n, .failed x⟩, h, []⟩ := by
      rw [Waiting.start_of_fault (task_of_started config link clock hasked hlog hn) hfault,
        Waiting.retire_subscribe (unnamed_of_started config link clock hlog), hn]
    obtain ⟨pre, ahead, behind, hitems, hdeeds⟩ := deeds_split hw
    have hnext : startDeeds (.mission side) (w :: behind) h =
        .started w h :: startDeeds (.mission side) behind h := by
      rw [startDeeds, hstart]
    rw [hnext] at hdeeds
    refine ⟨hstart, ?_, pre, ahead, behind, hitems, hdeeds, fun w' hw' => ?_⟩
    · have htold : .result ⟨.mission side, n⟩ (.failed x) ∈
          (((idle config link clock).run before).engine.run [i]).effects := by
        rw [← Reaction.mem_endings_iff, endings_run_more, log, log, List.append_nil]
        refine List.mem_filterMap.mpr ⟨_, hw, ?_⟩
        rw [ends?_of_progress? rfl, hstart]
        rfl
      simpa [run, Reaction.next] using htold
    · obtain ⟨rest, rfl⟩ : ∃ rest, behind = w' :: rest := by
        cases behind with
        | nil => cases hw'
        | cons y rest => exact ⟨rest, by rw [Option.mem_some.mp hw']⟩
      rw [hdeeds]
      refine List.mem_append_right _ (List.mem_cons_of_mem _ ?_)
      rw [startDeeds]
      exact List.mem_cons_self
  silent hno := by
    have hc := chronicled_run config link clock inputs (Upload.keeps_faultless (.mission side))
    refine silent_of_unseen config link clock _ inputs (fun r hr hnumber => hno ?_)
      fun x hx h ha => shown_of_not_uploadable config link clock hasked hno hx ha
    have htask : (submitted inputs (.mission side))[r.number]? = some r.activity.task :=
      (sound_run config link clock inputs).lined.asked (JobQueue.slot_mem_line hr)
    rw [hnumber] at htask
    obtain ⟨state, hstate⟩ := Upload.eq_upload_of_task (Option.some.inj (htask.symm.trans hasked))
    exact hc.known r hr u state hstate
  starts before after hinputs hidle w hw hn := by
    have hitems := List.head?_eq_some_iff.mp hw
    obtain ⟨rest, hitems⟩ := hitems
    rw [deeds, if_pos rfl, JobQueue.deeds, hidle]
    simp only [hitems]
    exact List.mem_append_right _ List.mem_cons_self

omit hasked in
/-- Of two uploads the first skips a number, so that only the second goes out, by the
same look at everything. -/
theorem upload_is_screened_before_others :
    let t : Ticket := ⟨.mission .client, 0⟩
    let e := idle .default default 0
    let astray : Upload := { Upload.patrol 2 with items := (Upload.patrol 3).items.eraseIdx 1 }
    let inputs : List Input := [.transfer .client (.upload astray) .queue,
      .transfer .client (.upload (.patrol 2)) .queue, .tick]
    astray.Screened t e inputs ∧ astray.FirstFault .invalidSequence ∧
      (e.run inputs).effects = [.sent ⟨.mission .client, 1⟩ (Upload.patrol 2).count,
        .result t (.failed .invalidSequence)] := by
  intro t e astray inputs
  exact ⟨upload_is_screened .default default 0 (by decide +kernel),
    Upload.firstFault_iff.mpr (by decide +kernel), by decide +kernel⟩

end Engine

end GroundLink
