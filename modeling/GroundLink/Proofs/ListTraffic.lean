import GroundLink.Proofs.Ignorable
import GroundLink.Proofs.Provenance
import GroundLink.Proofs.QueryBounds

/-! Of which list the messages are that a transfer acts on. A transfer tells messages apart by their kind and
by the system they come from, and not by the list they are of or by whom they are for; so with two transfers
side by side one takes what was meant for the other (`Engine.takes_item_of_other_list`). What it hands over is
what came from its peer while it was under way (`Engine.heard_of_items`). So as long as its peer sends it
nothing of other lists, all it hears and hands over is of its own (`Engine.keeps_to_its_list`). -/

namespace GroundLink

open Function Deed

namespace Message

/-- Of which list a message is. -/
def missionType? : Message → Option MissionType
  | missionCount m => some m.missionType
  | missionRequest m => some m.missionType
  | missionRequestInt m => some m.missionType
  | missionRequestList m => some m.missionType
  | missionClearAll m => some m.missionType
  | missionAck m => some m.missionType
  | missionItemInt m => some m.missionType
  | _ => none

/-- Whether a message is of a list, and for our system or for all. -/
def isOf (own : Address) (list : MissionType) (m : Message) : Bool :=
  m.missionType? = some list && m.target?.all fun target => target.system = 0 || target.system = own.system

/-- The item a message brings. -/
def item? : Message → Option MissionItem
  | missionItemInt m => some (.decode m)
  | _ => none

theorem missionType_of_item? {m : Message} {i : MissionItem} (h : m.item? = some i) {list : MissionType}
    {own : Address} (hof : m.isOf own list = true) : i.missionType = list := by
  cases m with
  | missionItemInt m =>
      cases h
      rw [isOf, Bool.and_eq_true, decide_eq_true_eq] at hof
      exact Option.some.inj hof.1
  | _ => cases h

end Message

def Event.item? : Event → Option MissionItem
  | message _ _ m => m.item?
  | expiry _ _ => none

/-- Whether a step of a job takes up and hands over known items only. -/
inductive Move.Gathers (known : List MissionItem) : Move Activity → Prop
  | ignored : Gathers known .ignore
  | waited {wait : Wait} {report : Option Fraction} {message : Option Message} {b : Activity}
      (within : ∀ c, b.collection? = some c → c.items ⊆ known) :
      Gathers known (.proceed wait report message b)
  | finished {message : Option Message} {report : Option Fraction} {o : Outcome}
      (within : ∀ l, o = .success (.items l) → l ⊆ known) : Gathers known (.finish message report o)

namespace Activity

/-- What a job has come by of the list it fetches. -/
def items (a : Activity) : List MissionItem := a.collection?.elim [] (·.items)

theorem collection?_of_length? {a : Activity} (h : a.length? = none) : a.collection? = none :=
  Option.map_eq_none_iff.mp h

variable {p : Policy} {a : Activity} {known : List MissionItem}

/-- A job that fetches no list, and is not told to, comes by no items. -/
theorem Abides.gathers {told : Option Nat} {move : Move Activity} (h : a.Abides p told move)
    (hnone : a.length?.or told = none) : move.Gathers known := by
  cases h with
  | ignored untold => exact .ignored
  | waited asks length lacking =>
      refine .waited fun c hc => ?_
      rw [collection?_of_length? (length.trans hnone)] at hc
      cases hc
  | finished silent whole =>
      refine .finished fun l hl => ?_
      have hlength := whole l hl
      rw [hnone] at hlength
      cases hlength

/-- An item for a collection, whichever kind of job that is of. -/
theorem gathers_onItem {f : Collection → Activity}
    (hcollection : ∀ c, (f c).collection? = some c) (l : ListRef) (c : Collection) (m : MissionItemInt) :
    ((c.onItem l m).map f).Gathers (c.items ++ [.decode m]) := by
  rw [Collection.onItem]
  split
  · refine .waited fun c' hc' => ?_
    obtain rfl := Option.some.inj ((hcollection c).symm.trans hc')
    exact List.subset_append_left _ _
  · simp only
    split
    · refine .finished fun items hitems => ?_
      cases hitems
      exact List.Subset.refl _
    · refine .waited fun c' hc' => ?_
      obtain rfl := Option.some.inj ((hcollection _).symm.trans hc')
      exact List.Subset.refl _

theorem gathers_onMessage (hl : a.Lacking) (setting : Setting) (sender : Address) (m : Message) :
    (a.onMessage setting sender m).Gathers (a.items ++ m.item?.toList) := by
  have habides := abides_onMessage hl setting sender m
  cases a with
  | download d s =>
      cases s with
      | listing retries =>
          cases m with
          | missionCount count =>
              rw [onMessage, Download.onMessage, Download.onCount]
              split
              · refine .finished fun items hitems => ?_
                cases hitems
                exact List.nil_subset _
              · refine .waited fun c hc => ?_
                cases hc
                exact List.nil_subset _
          | _ => exact habides.gathers rfl
      | collecting c =>
          cases m with
          | missionItemInt item =>
              rw [onMessage, Download.onMessage, Download.onItem, Move.map_map]
              exact gathers_onItem (fun _ => rfl) _ _ _
          | _ => exact .ignored
  | receive r c =>
      cases m with
      | missionItemInt item => exact gathers_onItem (fun _ => rfl) _ _ _
      | _ => exact .ignored
  | _ => exact habides.gathers rfl

theorem gathers_onTimeout (hl : a.Lacking) (setting : Setting) : (a.onTimeout setting).Gathers a.items := by
  cases ht : a.task with
  | command attempt =>
      obtain ⟨k, rfl⟩ := command_of_task ht
      exact (abides_onTimeout hl setting).gathers rfl
  | transfer t =>
      rw [onTimeout_transfer ht]
      split
      · exact .finished fun l hl => by cases hl
      · refine .waited fun c hc => ?_
        cases a with
        | download d s =>
            cases s with
            | listing retries => cases hc
            | collecting c' =>
                cases hc
                exact List.Subset.refl _
        | receive r c' =>
            cases hc
            exact List.Subset.refl _
        | _ => cases hc

end Activity

theorem Task.gathers_start (t : Task) (setting : Setting) : (t.start setting).Gathers [] := by
  have hbegins := t.begins_start setting
  have hother : t.announces? = none → (t.start setting).Gathers [] := by
    intro hnone
    generalize t.start setting = move at hbegins
    cases hbegins with
    | waited asks tries reach length lacking =>
        refine .waited fun c hc => ?_
        rw [Activity.collection?_of_length? (length.trans hnone)] at hc
        cases hc
    | finished silent whole =>
        refine .finished fun l hl => ?_
        have hlength := whole l hl
        rw [hnone] at hlength
        cases hlength
  match t with
  | .transfer (.receive r) =>
      rw [start, Receive.start]
      split
      · exact .finished fun l hl => by cases hl
      · split
        · refine .finished fun l hl => ?_
          cases hl
          exact List.Subset.refl _
        · refine .waited fun c hc => ?_
          cases hc
          exact List.Subset.refl _
  | .command _ | .transfer (.upload _) | .transfer (.download _) | .transfer (.clear _)
  | .transfer (.setCurrent _) =>
      exact hother rfl

namespace Running

variable {r : Running} {s : Service} {h : Hub}

theorem Follows.gathered {known : List MissionItem} {move : Move Activity} {p : Progress}
    (hf : r.Follows s h move p) (hr : r.activity.items ⊆ known) (hmove : move.Gathers known) :
    p.Vouches (·.items ⊆ known) (· ⊆ known) := by
  refine hf.vouches (fun _ => hr) (fun b hb => ?_) fun message report l hfinish => ?_
  · cases hmove with
    | waited within =>
        cases hb
        rw [Activity.items]
        cases hc : b.collection? with
        | none => exact List.nil_subset _
        | some c => exact within c hc
    | _ => cases hb
  · subst hfinish
    cases hmove with
    | finished within => exact within l rfl

theorem take_gathered (hl : r.activity.Lacking) {e : Event} (concerns : e.Concerns r) :
    (r.take s h e).Vouches (·.items ⊆ r.activity.items ++ e.item?.toList)
      (· ⊆ r.activity.items ++ e.item?.toList) := by
  have hleft : r.activity.items ⊆ r.activity.items ++ e.item?.toList := List.subset_append_left _ _
  have ht := r.take_takes s h e
  generalize r.take s h e = p at ht
  cases ht with
  | stray stray => exact absurd concerns stray
  | heard concerns => exact (r.follow_follows s h _).gathered hleft (Activity.gathers_onMessage hl _ _ _)
  | expired own =>
      have hgathers := Activity.gathers_onTimeout hl (h.setting s)
      refine (({ r with cookie := none } : Running).follow_follows s h _).gathered hleft ?_
      simpa [Event.item?] using hgathers

end Running

theorem Waiting.start_gathered (w : Waiting) (s : Service) (h : Hub) :
    (w.start s h).Vouches (·.items ⊆ []) (· ⊆ []) := by
  have hf := (w.opening (h.setting s)).follow_follows s (w.subscribe s h) (w.task.start (h.setting s))
  have hempty : (w.task.initial (h.setting s)).items ⊆ [] := by
    cases w.task with
    | command a => exact List.Subset.refl _
    | transfer t => cases t <;> exact List.Subset.refl _
  exact hf.gathered hempty (w.task.gathers_start _)

namespace Deed

variable {log deeds : List Deed} {n : Nat}

/-- The item that a job is brought. -/
def item? (n : Nat) : Deed → Option MissionItem
  | heeded ⟨r, _, e⟩ => if r.number = n then e.item? else none
  | _ => none

/-- The items that a job was brought, in order. -/
def itemsHeard (n : Nat) (log : List Deed) : List MissionItem := log.filterMap (item? n)

theorem itemsHeard_append (n : Nat) (log deeds : List Deed) :
    itemsHeard n (log ++ deeds) = itemsHeard n log ++ itemsHeard n deeds :=
  List.filterMap_append

theorem itemsHeard_heeded (r : Running) (h : Hub) (e : Event) :
    itemsHeard r.number (log ++ [.heeded ⟨r, h, e⟩]) = itemsHeard r.number log ++ e.item?.toList := by
  rw [itemsHeard, filterMap_concat, item?, if_pos rfl, itemsHeard]

end Deed

namespace Desk

variable {i : Input} {s : Service} {d d' : Desk} {log deeds : List Deed}

/-- Whether the items of the job under way, and those of the lists handed over, were brought to the job. -/
abbrev Gathered (s : Service) (d : Desk) (log : List Deed) : Prop :=
  Vouched s (fun n log a => a.items ⊆ itemsHeard n log) (fun n log l => l ⊆ itemsHeard n log) d log

theorem Gathered.act (hg : Gathered s d log) (hc : Charted d) (hf : Filed s d log)
    (hact : Act i s d deeds d') :
    Gathered s d' (log ++ deeds) := by
  refine Vouched.act hg hf hact (fun n a _ ha => ?_) (fun r e running concerns hknown => ?_) fun w _ _ => ?_
  · rw [itemsHeard_append]
    exact List.Subset.trans ha (List.subset_append_left _ _)
  · have hvouches := r.take_gathered (s := s) (h := d.hub) (hc s r running).rationed.1 concerns
    have hmore : r.activity.items ++ e.item?.toList ⊆ itemsHeard r.number log ++ e.item?.toList :=
      List.append_subset.mpr
        ⟨List.Subset.trans hknown (List.subset_append_left _ _), List.subset_append_right _ _⟩
    rw [itemsHeard_heeded]
    exact hvouches.mono (fun _ ha => List.Subset.trans ha hmore) fun _ hl => List.Subset.trans hl hmore
  · have hvouches := w.start_gathered s d.hub
    exact hvouches.mono (fun _ ha => List.Subset.trans ha (List.nil_subset _)) fun _ hl =>
      List.Subset.trans hl (List.nil_subset _)

end Desk

namespace Engine

variable (config : Config) (link : Link) (clock : Instant) (inputs : List Input)

theorem gathered_run (s : Service) :
    ((idle config link clock).deskAfter inputs).Gathered s ((idle config link clock).log s inputs) := by
  have hrun := keeps_log (s := s) (P := fun d past => d.Charted ∧ d.Filed s past ∧ d.Gathered s past)
    (fun i d past h =>
      ⟨h.1.keep (by cases i <;> exact .refl _) fun _ _ hr => ⟨hr, rfl⟩, h.2.1.of_under i, h.2.2.known,
        h.2.2.handed⟩)
    (fun i d d' deeds past hs h hact => ⟨h.1.step hs hact.step, h.2.1.act hs hact, h.2.2.act h.1 h.2.1 hact⟩)
    (fun i t d d' deeds past hts hs h hact => ⟨h.1.step hs hact.step, h.2.1.other hts hact,
      fun r hr => h.2.2.known r ((hact.aside hts).queue ▸ hr), h.2.2.handed⟩)
    config link clock inputs ⟨fun t r hr => ?_, filed_idle config link clock s, fun r hr => ?_, each_nil⟩
  · exact hrun.2.2
  · obtain _ | ⟨_ | _⟩ := t <;> cases hr
  · obtain _ | ⟨_ | _⟩ := s <;> cases hr

variable {inputs} {side : Side} {n : Nat} {t : Transfer}

/-- What is left for a transfer under way is of the kinds it listens to, and from its peer. -/
theorem listens_of_hears (hasked : (submitted inputs (.mission side))[n]? = some (.transfer t))
    {before after : List Input} {header : Header} {m : Message}
    (hinputs : inputs = before ++ .receive header m :: after)
    (hrunning : (((idle config link clock).run before).engine.queue (.mission side)).running.map
      (·.number) = some n)
    {e : Event}
    (he : e ∈ (((idle config link clock).run before).engine.queue (.mission side)).hears header m
      (.mission side)) :
    m.kind ∈ t.kinds ∧ (t.peer.system = 0 ∨ header.sender.system = t.peer.system) := by
  obtain ⟨r, hr, he⟩ := List.mem_flatMap.mp he
  obtain ⟨-, hheard⟩ := Running.shuns_of_mem_hears he
  rw [Option.mem_toList] at hr
  rw [hr, Option.map_some, Option.some.injEq] at hrunning
  have htask := task_of_running config link clock (.receive header m :: after) hr
  rw [← hinputs, hrunning, hasked] at htask
  rw [← Option.some.inj htask] at hheard
  simpa only [Task.shuns, decide_eq_false_iff_not, not_or, not_and_or, not_not] using hheard

/-- The items that a transfer hands over are those that its peer sent while it was under way. -/
theorem heard_of_items {l : List MissionItem}
    (hresult : .result ⟨.mission side, n⟩ (.success (.items l)) ∈
      ((idle config link clock).run inputs).effects)
    {i : MissionItem} (hi : i ∈ l) :
    ∃ x job header m, .heeded x ∈ (idle config link clock).log (.mission side) inputs ∧ x.job.number = n ∧
      x.event = .message job header m ∧ m.item? = some i := by
  obtain ⟨x, hx, hends⟩ := ends_of_result config link clock hresult
  obtain ⟨past, rest, hlog⟩ := List.append_of_mem hx
  have hheard := (gathered_run config link clock inputs (.mission side)).handed past x rest hlog n l hends hi
  obtain ⟨y, hy, hitem⟩ := List.mem_filterMap.mp hheard
  have hlogged : y ∈ (idle config link clock).log (.mission side) inputs := by
    rw [hlog, List.append_cons]
    exact List.mem_append_left _ hy
  cases y with
  | heeded z =>
      obtain ⟨r, h, e⟩ := z
      rw [item?, Option.ite_none_right_eq_some] at hitem
      obtain ⟨hn, hitem⟩ := hitem
      cases e with
      | message job header m => exact ⟨_, job, header, m, hlogged, hn, rfl, hitem⟩
      | expiry job c => cases hitem
  | _ => cases hitem

/-- As long as its peer sends it only what is of its list and for us, a transfer is left alone by all else:
what is of another list or for someone else changes nothing of its queue and of the hub when it comes in. All
that the transfer acts on is of its list, and so are the items it hands over. This is so whatever list the
peer keeps to, since the transfer does not look at it. -/
theorem keeps_to_its_list (hasked : (submitted inputs (.mission side))[n]? = some (.transfer t))
    (list : MissionType) (hpeer : ∀ before header m after, inputs = before ++ .receive header m :: after →
      (((idle config link clock).run before).engine.queue (.mission side)).running.map (·.number) = some n →
        m.kind ∈ t.kinds → (t.peer.system = 0 ∨ header.sender.system = t.peer.system) →
          m.isOf link.own list = true) :
    let e := idle config link clock
    (∀ before header m after, inputs = before ++ .receive header m :: after →
      ((e.run before).engine.queue (.mission side)).running.map (·.number) = some n →
        m.isOf link.own list = false →
          ((e.run before).engine.receive header m).queue (.mission side) =
            (e.run before).engine.queue (.mission side) ∧
            ((e.run before).engine.receive header m).hub = (e.run before).engine.hub) ∧
    (∀ x job header m, .heeded x ∈ e.log (.mission side) inputs → x.job.number = n →
      x.event = .message job header m →
      m.isOf link.own list = true) ∧
    ∀ l, .result ⟨.mission side, n⟩ (.success (.items l)) ∈ (e.run inputs).effects →
      ∀ i ∈ l, i.missionType = list := by
  intro e
  have hheeded : ∀ x job header m, .heeded x ∈ e.log (.mission side) inputs → x.job.number = n →
      x.event = .message job header m → m.isOf link.own list = true := by
    intro x job header m hx hn hevent
    obtain ⟨before, after, hinputs, hrunning, hhears⟩ := heard_of_heeded config link clock inputs hx hevent
    rw [hn] at hrunning
    obtain ⟨hkind, hsender⟩ := listens_of_hears config link clock hasked hinputs hrunning hhears
    exact hpeer before header m after hinputs hrunning hkind hsender
  refine ⟨fun before header m after hinputs hrunning hother => ⟨?_, hub_receive _ header m⟩, hheeded,
    fun l hresult i hi => ?_⟩
  · have hnone : ((e.run before).engine.queue (.mission side)).hears header m (.mission side) = [] := by
      refine List.eq_nil_iff_forall_not_mem.mpr fun x hx => ?_
      obtain ⟨hkind, hsender⟩ := listens_of_hears config link clock hasked hinputs hrunning hx
      rw [hpeer before header m after hinputs hrunning hkind hsender] at hother
      cases hother
    rw [queue_receive, hnone, List.append_nil]
    rfl
  · obtain ⟨x, job, header, m, hx, hn, hevent, hitem⟩ := heard_of_items config link clock hresult hi
    exact Message.missionType_of_item? hitem (hheeded x job header m hx hn hevent)

/-- While a vehicle sends us its mission, another one sends a fence. -/
theorem keeps_to_its_list_beside :
    let link : Link := { (default : Link) with own := Config.default.own }
    let item : MissionItem := .blank
    let fence : MissionItem := { MissionItem.blank with missionType := ⟨1⟩ }
    let inputs : List Input :=
      [.transfer .client (.download ⟨⟨.pilotOf 1, .mission⟩, false⟩) .queue, .tick,
        .receive ⟨.pilotOf 1, 0⟩ (.missionCount ⟨1, link.own, .mission⟩), .tick,
        .receive ⟨.pilotOf 2, 0⟩ (.missionItemInt (fence.encode link.own)), .tick,
        .receive ⟨.pilotOf 1, 1⟩ (.missionItemInt (item.encode link.own)), .tick]
    .result ⟨.mission .client, 0⟩ (.success (.items [item])) ∈ ((idle .default link 0).run inputs).effects ∧
      ∀ i ∈ [item], i.missionType = .mission := by
  intro link item fence inputs
  have hresult : .result ⟨.mission .client, 0⟩ (.success (.items [item])) ∈
      ((idle .default link 0).run inputs).effects := by decide +kernel
  have hasked : (submitted inputs (.mission .client))[0]? =
      some (.transfer (.download ⟨⟨.pilotOf 1, .mission⟩, false⟩)) := by decide +kernel
  have hpeer : ∀ header m, .receive header m ∈ inputs →
      (Address.pilotOf 1).system = 0 ∨ header.sender.system = (Address.pilotOf 1).system →
        m.isOf link.own .mission = true := by
    intro header m hmem hsender
    simp only [inputs, List.mem_cons, List.not_mem_nil, reduceCtorEq, Input.receive.injEq, false_or,
      or_false] at hmem
    obtain ⟨rfl, rfl⟩ | ⟨rfl, rfl⟩ | ⟨rfl, rfl⟩ := hmem
    · decide
    · revert hsender
      decide
    · decide
  obtain ⟨_, _, hitems⟩ :=
    keeps_to_its_list .default link 0 hasked .mission fun before header m after hinputs _ _ =>
      hpeer header m (hinputs ▸ List.mem_append_right _ List.mem_cons_self)
  exact ⟨hresult, hitems _ hresult⟩

/-- One item of a fence ends the download of a mission and the transfer of the fence beside it,
and both hand it over. -/
theorem takes_item_of_other_list :
    let link : Link := { (default : Link) with own := Config.default.own }
    let fence : MissionItem := { MissionItem.blank with missionType := ⟨1⟩ }
    let inputs : List Input :=
      [.transfer .client (.download ⟨⟨.pilotOf 1, .mission⟩, false⟩) .queue,
        .transfer .server (.receive ⟨⟨.pilotOf 1, ⟨1⟩⟩, 1⟩) .queue, .tick,
        .receive ⟨.pilotOf 1, 0⟩ (.missionCount ⟨1, link.own, .mission⟩), .tick,
        .receive ⟨.pilotOf 1, 1⟩ (.missionItemInt (fence.encode link.own)), .tick]
    let r := (idle .default link 0).run inputs
    .result ⟨.mission .client, 0⟩ (.success (.items [fence])) ∈ r.effects ∧
      .result ⟨.mission .server, 0⟩ (.success (.items [fence])) ∈ r.effects := by
  decide +kernel

end Engine

end GroundLink
