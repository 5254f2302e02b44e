import GroundLink.Proofs.Collecting
import GroundLink.Proofs.CommandAnswers
import GroundLink.Proofs.Reporting
import GroundLink.Proofs.Screening
import GroundLink.Proofs.Teardown

/-! What uploads, downloads and commands report. An upload reports its share of the list with each item that
it tries to hand out, a download its share with each item that it has, and either comes from nothing to all by
that; a command reports what it is told. So the reports of a job are an account of what was done for it, in
every run and whatever the link takes or loses (`Engine.progress_is_told`). -/

namespace GroundLink

open Function Deed

namespace Deed

variable {t : Ticket} {n : Nat} {x : Deed}

/-- The message that a job acts on. -/
def hears? (n : Nat) : Deed → Option Message
  | heeded ⟨r, _, .message _ _ m⟩ => if r.number = n then some m else none
  | _ => none

/-- The items that a job has tried to hand out, in order. -/
def tried (t : Ticket) (log : List Deed) : List MissionItemInt :=
  (log.flatMap (offers t)).filterMap Message.itemInt?

theorem tried_concat (t : Ticket) (log : List Deed) (x : Deed) :
    tried t (log ++ [x]) = tried t log ++ (x.offers t).filterMap Message.itemInt? := by
  rw [tried, List.flatMap_append, List.flatMap_singleton, List.filterMap_append, ← tried]

theorem Beside.brings_nothing (hx : x.Beside n) : x.announces? n = none ∧ x.item? n = none := by
  by_contra hbrought
  obtain ⟨a, move, hmakes⟩ := makes_of_brought (.mission .client) hbrought
  exact hx.not_makes hmakes

theorem Beside.hears? (hx : x.Beside n) : x.hears? n = none := by
  cases x with
  | heeded y =>
      obtain ⟨r, h, e⟩ := y
      cases e with
      | message job header m => exact if_neg fun hn => hx h (congrArg (fun m => some (m, h)) hn)
      | expiry job c => rfl
  | _ => rfl

end Deed

namespace Upload

variable {u : Upload} {s : State}

/-- How far an upload has come that hands an item out. -/
def share (u : Upload) (m : MissionItemInt) : Fraction := ⟨m.seq.toNat + 1, u.items.length + 1⟩

theorem share_inside {m : MissionItemInt} (hm : m.seq.toNat < u.items.length) :
    0 < (u.share m).value ∧ (u.share m).value < 1 :=
  Fraction.value_mem_inside (Nat.succ_pos _) (Nat.succ_lt_succ hm)

/-- Whether an upload that makes a move reports its share with an item that it hands out, and only then. -/
structure Shares (u : Upload) (move : Move Activity) : Prop where
  told : move.pace? = (move.message?.bind Message.itemInt?).map u.share
  fits : ∀ m, move.message?.bind Message.itemInt? = some m → m.seq.toNat < u.items.length

section Moves

theorem shares_of_quiet {move : Move Activity} (hquiet : move.message?.bind Message.itemInt? = none)
    (hpace : move.pace? = none) : u.Shares move where
  told := by rw [hpace, hquiet, Option.map_none]
  fits m hm := by rw [hquiet] at hm; cases hm

theorem shares_onTimeout (u : Upload) (policy : Policy) (s : State) :
    u.Shares ((u.onTimeout policy s).map (.upload u)) := by
  unfold onTimeout
  split
  · exact shares_of_quiet rfl rfl
  · refine shares_of_quiet ?_ rfl
    split <;> rfl

theorem shares_onRequest (hu : u.Uploadable) (policy : Policy) (s : State) (seq : Nat) :
    u.Shares ((u.onRequest policy s seq).map (.upload u)) := by
  unfold onRequest
  split
  · exact shares_of_quiet rfl rfl
  · rename_i item has
    split
    · exact shares_of_quiet rfl rfl
    · split
      · exact shares_of_quiet rfl rfl
      · have hseq : (item.encode u.list.peer).seq.toNat = seq := hu.numbered seq item has
        refine ⟨?_, fun m hm => ?_⟩
        · show some _ = some (u.share _)
          rw [share, hseq]
        · cases hm
          rw [hseq]
          exact (List.getElem?_eq_some_iff.mp has).1

theorem shares_onMessage (hu : u.Uploadable) (policy : Policy) (s : State) (sender : Address) (m : Message) :
    u.Shares ((u.onMessage policy s sender m).map (.upload u)) := by
  cases m with
  | missionRequest r =>
      rw [onMessage]
      split
      · exact shares_onRequest hu policy s _
      · exact shares_of_quiet rfl rfl
  | missionRequestInt r => exact shares_onRequest hu policy s _
  | missionAck a =>
      rw [onMessage, onAck]
      split
      · exact shares_of_quiet rfl rfl
      · split <;> exact shares_of_quiet rfl rfl
  | _ => exact shares_of_quiet rfl rfl

/-- An upload under way reports its share of what it hands out. -/
theorem shares_of_makes {service : Service} {n : Nat} {x : Deed} {move : Move Activity} (hu : u.Uploadable)
    (hm : x.Makes service n (.upload u s) move) (hlater : x.begins? = none) : u.Shares move := by
  generalize ha : Activity.upload u s = a at hm
  cases hm with
  | heard =>
      rw [← ha]
      exact shares_onMessage hu _ s _ _
  | expired =>
      rw [← ha]
      exact shares_onTimeout u _ s
  | started => cases hlater
  | cancelled =>
      rw [← ha]
      exact shares_of_quiet rfl rfl

theorem closes_onRequest (u : Upload) (policy : Policy) (s : State) (seq : Nat) :
    (u.onRequest policy s seq).Closes := by
  unfold onRequest
  split
  · trivial
  · split
    · trivial
    · split
      · exact Move.closes_stop _
      · trivial

theorem closes_onMessage (u : Upload) (policy : Policy) (s : State) (sender : Address) (m : Message) :
    (u.onMessage policy s sender m).Closes := by
  cases m with
  | missionRequest r =>
      rw [onMessage]
      split
      · exact u.closes_onRequest policy s _
      · trivial
  | missionRequestInt r => exact u.closes_onRequest policy s _
  | missionAck a =>
      rw [onMessage, onAck]
      split
      · exact Move.closes_stop _
      · split
        · exact rfl
        · exact Move.closes_stop _
  | _ => trivial

theorem closes_onTimeout (u : Upload) (policy : Policy) (s : State) : (u.onTimeout policy s).Closes := by
  unfold onTimeout
  split
  · exact Move.closes_stop _
  · trivial

theorem closes_start (u : Upload) (policy : Policy) : (u.start policy).Closes := by
  unfold start
  split
  · exact Move.closes_stop _
  · trivial

/-- An upload reports that all is done just if it succeeds. -/
theorem closes_of_makes {service : Service} {n : Nat} {x : Deed} {a : Activity} {move : Move Activity}
    (hm : x.Makes service n a move) (ha : a.task = .transfer (.upload u)) : move.Closes := by
  obtain ⟨s, rfl⟩ := eq_upload_of_task ha
  apply hm.of_moves
  · exact fun _ _ _ => (Move.closes_map _ _).mpr (u.closes_onMessage _ s _ _)
  · exact fun _ => (Move.closes_map _ _).mpr (u.closes_onTimeout _ s)
  · exact fun _ => (Move.closes_map _ _).mpr (u.closes_start _)
  · rfl

theorem pace?_start (u : Upload) (setting : Setting) :
    ((Task.transfer (.upload u)).start setting).pace?.toList = Fraction.zero.when u.Uploadable := by
  rw [Task.start, start, Move.pace?_map]
  split
  · rename_i hfault
    rw [Fraction.when_of_not fun hu => ?_]
    · rfl
    · rw [Upload.uploadable_iff.mp hu] at hfault
      cases hfault
  · rename_i hfaultless
    rw [Fraction.when_of (Upload.uploadable_iff.mpr hfaultless)]
    rfl

theorem quiet_start (u : Upload) (setting : Setting) :
    ((Task.transfer (.upload u)).start setting).message?.bind Message.itemInt? = none := by
  rw [Task.start, start]
  split <;> rfl

end Moves

end Upload

namespace Download

variable {d : Download}

/-- How far a download of so many items has come with each but the last of them. -/
def shares (length : Nat) : List Fraction := (List.range (length - 1)).map fun i => ⟨i + 1, length⟩

/-- What a download has reported on the way that has these items of a list of that length. -/
def steps : Option Nat → Option (List MissionItem) → List Fraction
  | some length, some items => (shares length).take items.length
  | _, _ => []

theorem inside_of_mem_shares {length : Nat} {f : Fraction} (hf : f ∈ shares length) :
    0 < f.value ∧ f.value < 1 := by
  obtain ⟨i, hi, rfl⟩ := List.mem_map.mp hf
  have hlt := List.mem_range.mp hi
  exact Fraction.value_mem_inside (Nat.succ_pos i) (by show i + 1 < length; omega)

theorem inside_of_mem_steps {length : Option Nat} {items : Option (List MissionItem)} {f : Fraction}
    (hf : f ∈ steps length items) : 0 < f.value ∧ f.value < 1 := by
  cases length with
  | none => cases hf
  | some length =>
      cases items with
      | none => cases hf
      | some items => exact inside_of_mem_shares (List.mem_of_mem_take hf)

/-- With an item that is not the last a download takes one more step. -/
theorem steps_concat {length : Nat} {items : List MissionItem} (i : MissionItem)
    (hlt : items.length + 1 < length) :
    steps (some length) (some (items ++ [i])) =
      steps (some length) (some items) ++ [⟨items.length + 1, length⟩] := by
  have hnext : (shares length)[items.length]? = some ⟨items.length + 1, length⟩ := by
    rw [shares, List.getElem?_map, List.getElem?_range (by omega)]
    rfl
  rw [steps, steps, List.length_append, List.length_singleton, List.take_add_one, hnext, Option.toList_some]

/-- With the last item there is no step left to take. -/
theorem steps_whole {length : Nat} {items : List MissionItem}
    (hwhole : items.length + 1 = length ∨ items.length = length) :
    steps (some length) (some items) = shares length := by
  rw [steps, List.take_of_length_le]
  rw [shares, List.length_map, List.length_range]
  omega

section Moves

variable {setting : Setting}

theorem paces_onItem {c : Collection} (hlacks : c.items.length < c.expected) (l : ListRef)
    (m : MissionItemInt) :
    steps (some c.expected) (gather none (some (.decode m)) (some c.items)) =
      steps (some c.expected) (some c.items) ++ (c.onItem l m).pace?.toList := by
  rw [Collection.onItem]
  split
  · rename_i hother
    have hsame : gather none (some (MissionItem.decode m)) (some c.items) = some c.items := by
      simp [gather, Option.filter, MissionItem.decode, hother]
    rw [hsame, Move.pace?, Option.toList_none, List.append_nil]
  · rename_i hnext
    have hmore : gather none (some (MissionItem.decode m)) (some c.items) =
        some (c.items ++ [.decode m]) := by
      simp [gather, Option.filter, MissionItem.decode, not_not.mp hnext]
    have hcount : (c.items ++ [MissionItem.decode m]).length = c.items.length + 1 := List.length_append
    rw [hmore]
    simp only
    split
    · rename_i hwhole
      rw [hcount] at hwhole
      rw [steps_whole (.inr (hcount.trans hwhole)), steps_whole (.inl hwhole)]
      exact (List.append_nil _).symm
    · rename_i hlacking
      rw [hcount] at hlacking ⊢
      rw [steps_concat _ (by omega), Move.pace?, Option.toList_some]

/-- What a download reports when it hears a message is its next step, if the message brings it one further. -/
theorem paces_onMessage {state : State} (hl : (Activity.download d state).Lacking) (sender : Address)
    (m : Message) :
    let a := Activity.download d state
    steps (a.length?.or (a.announces? m)) (gather (a.announces? m) m.item? a.gathered?) =
      steps a.length? a.gathered? ++ (a.onMessage setting sender m).pace?.toList := by
  intro a
  show _ = _ ++ ((d.onMessage state m).map (Activity.download d)).pace?.toList
  rw [Move.pace?_map]
  cases state with
  | listing retries =>
      cases m with
      | missionCount count =>
          have hnone : (d.onMessage (.listing retries) (.missionCount count)).pace? = none := by
            rw [onMessage, onCount]
            split <;> rfl
          rw [hnone]
          rfl
      | _ => rfl
  | collecting c =>
      cases m with
      | missionItemInt item =>
          rw [onMessage, onItem, Move.pace?_map]
          exact paces_onItem (hl c rfl).1 d.list item
      | _ =>
          show steps _ (gather none none _) = _
          rw [gather_none]
          exact (List.append_nil _).symm

theorem pace?_onTimeout (state : State) : ((Activity.download d state).onTimeout setting).pace? = none := by
  rw [Activity.onTimeout, Move.pace?_map]
  cases state with
  | listing retries =>
      rw [onTimeout]
      split <;> rfl
  | collecting c =>
      rw [onTimeout, Move.pace?_map, Collection.onTimeout]
      split <;> rfl

/-- Whatever move a download makes, it reports the steps that it takes. -/
theorem paces_of_makes {t : Ticket} {past : List Deed} {x : Deed} {state : State} {move : Move Activity}
    (hm : x.Makes t.service t.number (.download d state) move) (hlater : x.begins? = none)
    (htracks : (Activity.download d state).Tracks t past) :
    steps (announced? t.number (past ++ [x])) (held t.number (past ++ [x])) =
      steps (announced? t.number past) (held t.number past) ++ move.pace?.toList := by
  obtain ⟨hl, hholds, htold, -⟩ := htracks
  obtain ⟨service, n⟩ := t
  have hsilent : x.announces? n = none → x.item? n = none → move.pace? = none →
      steps ((announced? n past).or (x.announces? n)) (gather (x.announces? n) (x.item? n) (held n past)) =
        steps (announced? n past) (held n past) ++ move.pace?.toList := by
    intro hannounces hitem hpace
    rw [hannounces, hitem, hpace, Option.or_none, gather_none, Option.toList_none, List.append_nil]
  rw [announced?_append, announced?_singleton, held_concat]
  generalize ha : Activity.download d state = a at hm
  cases hm with
  | @heard r h job header m =>
      rw [hholds, htold, Deed.announces?, Deed.item?, if_pos rfl, if_pos rfl, ← ha]
      exact paces_onMessage hl _ m
  | expired =>
      rw [← ha] at hsilent ⊢
      exact hsilent (if_pos rfl) (if_pos rfl) (pace?_onTimeout state)
  | started => cases hlater
  | cancelled => exact hsilent rfl rfl rfl

theorem closes_accept {σ : Type} (l : ListRef) (items : List MissionItem) :
    (Collection.accept l items : Move σ).Closes :=
  rfl

theorem closes_onMessage (d : Download) (state : State) (m : Message) : (d.onMessage state m).Closes := by
  cases state with
  | listing retries =>
      cases m with
      | missionCount count =>
          rw [onMessage, onCount]
          split
          · exact closes_accept _ _
          · trivial
      | _ => trivial
  | collecting c =>
      cases m with
      | missionItemInt item =>
          rw [onMessage, onItem, Move.closes_map, Collection.onItem]
          split
          · trivial
          · simp only
            split
            · exact closes_accept _ _
            · trivial
      | _ => trivial

theorem closes_onTimeout (d : Download) (policy : Policy) (state : State) :
    (d.onTimeout policy state).Closes := by
  cases state with
  | listing retries =>
      rw [onTimeout]
      split
      · exact Move.closes_stop _
      · trivial
  | collecting c =>
      rw [onTimeout, Move.closes_map, Collection.onTimeout]
      split
      · exact Move.closes_stop _
      · trivial

theorem eq_download_of_task {a : Activity} (h : a.task = .transfer (.download d)) :
    ∃ state, a = .download d state := by
  cases a <;> cases h
  exact ⟨_, rfl⟩

/-- A download reports that all is done just if it succeeds. -/
theorem closes_of_makes {service : Service} {n : Nat} {x : Deed} {a : Activity} {move : Move Activity}
    (hm : x.Makes service n a move) (ha : a.task = .transfer (.download d)) : move.Closes := by
  obtain ⟨state, rfl⟩ := eq_download_of_task ha
  apply hm.of_moves
  · exact fun _ _ _ => (Move.closes_map _ _).mpr (d.closes_onMessage state _)
  · exact fun _ => (Move.closes_map _ _).mpr (d.closes_onTimeout _ state)
  · exact fun _ => trivial
  · rfl

end Moves

end Download

namespace Attempt

variable {a : Attempt} {own : Address}

/-- What a command reports when it hears a message: how far it has come, if it is told that it is in progress
and the vehicle knows how far. -/
def share? (own : Address) (a : Attempt) : Message → Option Fraction
  | .commandAck ack =>
    if a.isProgress own (.commandAck ack) = true ∧ ack.progress ≠ unknownProgress then
      some ⟨min ack.progress.toNat 100, 100⟩
    else none
  | _ => none

theorem share_range {m : Message} {f : Fraction} (h : a.share? own m = some f) :
    0 ≤ f.value ∧ f.value ≤ 1 := by
  cases m with
  | commandAck ack =>
      obtain ⟨-, hf⟩ := Option.ite_none_right_eq_some.mp h
      cases hf
      exact Fraction.value_mem (Nat.succ_pos 99) (Nat.min_le_right _ _)
  | _ => cases h

theorem pace?_onMessage (policy : Policy) (own : Address) (a : Attempt) (k : Nat) (m : Message) :
    (a.onMessage policy own k m).pace? = a.share? own m := by
  have hears := a.hears_onMessage policy own k m
  cases m with
  | commandAck ack =>
      rw [share?]
      by_cases hprogress : a.isProgress own (.commandAck ack) = true
      · obtain ⟨hminds, hresult⟩ := Bool.and_eq_true_iff.mp hprogress
        obtain ⟨hours, -⟩ := Bool.and_eq_true_iff.mp hminds
        obtain ⟨hfor, hcommand⟩ := Bool.and_eq_true_iff.mp hours
        have hpassed : (!isFor own ack.target || decide (ack.command ≠ a.request.command)) = false := by
          simp [hfor, of_decide_eq_true hcommand]
        rw [onMessage, onAck, hpassed, if_neg Bool.false_ne_true, of_decide_eq_true hresult,
          extend, Move.pace?]
        by_cases hunknown : ack.progress = unknownProgress
        · rw [if_pos hunknown, if_neg fun h => h.2 hunknown]
        · rw [if_neg hunknown, if_pos ⟨hprogress, hunknown⟩]
      · rw [if_neg fun h => hprogress h.1]
        generalize a.onMessage policy own k (.commandAck ack) = move at hears
        cases hears with
        | ignored idle => rfl
        | settled minded idle notTimeout => rfl
        | prolonged report progress => exact absurd progress hprogress
  | _ => rfl

theorem mute_onMessage (policy : Policy) (own : Address) (a : Attempt) (k : Nat) (m : Message) :
    (a.onMessage policy own k m).Mute := by
  have hears := a.hears_onMessage policy own k m
  generalize a.onMessage policy own k m = move at hears
  cases hears with
  | ignored idle => trivial
  | settled minded idle notTimeout => rfl
  | prolonged report progress => trivial

/-- A command that ends reports nothing. -/
theorem mute_of_makes {service : Service} {n k : Nat} {x : Deed} {move : Move Activity}
    (hm : x.Makes service n (.command a k) move) : move.Mute := by
  apply hm.of_moves
  · exact fun _ _ _ => (Move.mute_map _ _).mpr (mute_onMessage _ _ _ _ _)
  · refine fun _ => (Move.mute_map _ _).mpr ?_
    cases k with
    | zero => rfl
    | succ k => trivial
  · exact fun _ => trivial
  · rfl

/-- A command reports what it is told, if it goes by the given address. -/
theorem paces_of_makes {service : Service} {n k : Nat} {x : Deed} {move : Move Activity}
    (hm : x.Makes service n (.command a k) move) (hown : ∀ r h e, x = .heeded ⟨r, h, e⟩ → h.link.own = own) :
    move.pace? = (x.hears? n).bind (a.share? own) := by
  generalize ha : Activity.command a k = b at hm
  cases hm with
  | @heard r h job header m =>
      rw [← ha, Activity.onMessage, Move.pace?_map, pace?_onMessage, Deed.hears?, if_pos rfl,
        Option.bind_some]
      rw [← hown r h _ rfl]
      rfl
  | expired =>
      rw [← ha, Activity.onTimeout, Move.pace?_map]
      cases k <;> rfl
  | @started w h =>
      have htask : w.task = .command a := Task.eq_of_initial ha.symm
      rw [htask]
      rfl
  | cancelled => rfl

end Attempt

/-- What there is to say of all that a job reports while an engine takes in the inputs. -/
structure Task.Reported (task : Task) (t : Ticket) (e : Engine) (inputs : List Input) : Prop where
  range : ∀ f ∈ (e.run inputs).reports t, 0 ≤ f.value ∧ f.value ≤ 1
  /-- Nothing is reported if nobody listens, nor when the engine is ended. -/
  unheard : task.wantsProgress = false → (e.run inputs).reports t = []
  closing : ((e.run inputs).next Engine.close).reports t = (e.run inputs).reports t
  /-- A queue that acts on messages acts on what came in, and on nothing twice. -/
  once : (heard (e.log t.service inputs)).Sublist (received inputs)
  /-- An upload that starts with a list that may go up reports with each item that it tries to hand out. -/
  upload : ∀ u, task = .transfer (.upload u) → u.wantsProgress = true →
    Advances (t.number ∈ begun (e.log t.service inputs) ∧ u.Uploadable) ((e.run inputs).Succeeds t)
      ((((e.run inputs).effects.filterMap (Effect.offeredBy? t)).filterMap Message.itemInt?).map u.share)
      ((e.run inputs).reports t)
  /-- A download that starts reports with each item that it has of the list of which it
  was told, but the last. -/
  download : ∀ d, task = .transfer (.download d) → d.wantsProgress = true →
    let steps :=
      Download.steps (announced? t.number (e.log t.service inputs)) (held t.number (e.log t.service inputs))
    Advances (t.number ∈ begun (e.log t.service inputs)) ((e.run inputs).Succeeds t) steps
      ((e.run inputs).reports t) ∧
      (announced? t.number (e.log t.service inputs) = none → steps = []) ∧
        ∀ length, announced? t.number (e.log t.service inputs) = some length →
          steps <+: Download.shares length ∧ ((e.run inputs).Succeeds t → steps = Download.shares length)
  /-- A command reports each time it hears how far it has come. -/
  command : ∀ a, task = .command a → a.wantsProgress = true →
    (e.run inputs).reports t =
      ((e.log t.service inputs).filterMap (Deed.hears? t.number)).filterMap (a.share? e.hub.link.own)

namespace Engine

variable (config : Config) (link : Link) (clock : Instant) {inputs : List Input}

section Uploads

variable {side : Side} {n : Nat} {u : Upload}
  (hasked : (submitted inputs (.mission side))[n]? = some (.transfer (.upload u)))

include hasked

/-- The items that an upload tries to hand out are of its list. -/
theorem fits_of_tried {m : MissionItemInt}
    (hm : m ∈ tried ⟨.mission side, n⟩ ((idle config link clock).log (.mission side) inputs)) :
    m.seq.toNat < u.items.length := by
  obtain ⟨m', hm', hitem⟩ := List.mem_filterMap.mp hm
  obtain ⟨x, hx, hm'⟩ := List.mem_flatMap.mp hm'
  obtain ⟨a, move, p, hmakes, hp, hcarries⟩ := makes_of_offers hm'
  rw [offers, shown_of_progress? hp, hcarries.offered_eq, Option.mem_toList] at hm'
  have hbrought : move.message?.bind Message.itemInt? = some m := by rw [hm', Option.bind_some, hitem]
  obtain ⟨state, rfl, hlater, -⟩ := screened_of_makes config link clock hasked hx hmakes hp
  cases hbegins : x.begins? with
  | none => exact (Upload.shares_of_makes (hlater hbegins) hmakes hbegins).fits m hbrought
  | some k =>
      obtain ⟨w, h, rfl, hnumber, hactivity, rfl⟩ := hmakes.started_of_begins? hbegins
      rw [task_of_started config link clock hasked hx hnumber, Upload.quiet_start] at hbrought
      cases hbrought

theorem upload_paces :
    Paces ⟨.mission side, n⟩ (.transfer (.upload u)) u.Uploadable
      (fun log => (tried ⟨.mission side, n⟩ log).map u.share)
      ((idle config link clock).log (.mission side) inputs) where
  nil := rfl
  beside past x hbeside := by
    rw [tried_concat, hbeside.offers, List.filterMap_nil, List.append_nil]
  opens past w h hnumber htask := by
    obtain rfl : w.number = n := hnumber
    have hcarries := ((w.opening (h.setting (.mission side))).follow_follows (.mission side)
      (w.subscribe (.mission side) h) (w.task.start (h.setting (.mission side)))).carries
    have hoffers : (started w h).offers ⟨.mission side, w.number⟩ =
        (w.task.start (h.setting (.mission side))).message?.toList := by
      rw [offers, shown_started]
      exact hcarries.offered_eq
    rw [tried_concat, hoffers, filterMap_toList, htask, Upload.quiet_start, Option.toList_none,
      List.append_nil]
  start setting := u.pace?_start setting
  goesOn past x rest hlog a move p hm hlater hp hc := by
    have hx : x ∈ (idle config link clock).log (.mission side) inputs :=
      hlog ▸ List.mem_append_right _ List.mem_cons_self
    obtain ⟨state, rfl, huploadable, -⟩ := screened_of_makes config link clock hasked hx hm hp
    have hshares := Upload.shares_of_makes (huploadable hlater) hm hlater
    have hoffers : x.offers ⟨.mission side, n⟩ = move.message?.toList := by
      rw [offers, shown_of_progress? hp, hc.offered_eq]
    rw [tried_concat, hoffers, filterMap_toList, List.map_append, hshares.told]
    cases move.message?.bind Message.itemInt? <;> rfl
  closes x a move hm ha := Upload.closes_of_makes hm ha
  unopened hno x hx := by
    rcases x.beside_or n with hbeside | ⟨h, ha⟩
    · exact Beside.reports (t := ⟨.mission side, n⟩) hbeside
    · rw [Deed.reports, shown_of_not_uploadable config link clock hasked hno hx ha]
      rfl
  inside f hf := by
    obtain ⟨m, hm, rfl⟩ := List.mem_map.mp hf
    exact Upload.share_inside (fits_of_tried config link clock hasked hm)

end Uploads

section Downloads

variable {t : Ticket} {d : Download}
  (hasked : (submitted inputs t.service)[t.number]? = some (.transfer (.download d)))

include hasked

theorem download_paces :
    Paces t (.transfer (.download d)) True
      (fun log => Download.steps (announced? t.number log) (held t.number log))
      ((idle config link clock).log t.service inputs) where
  nil := rfl
  beside past x hbeside := by
    obtain ⟨htold, hitem⟩ := hbeside.brings_nothing
    rw [announced?_append, announced?_singleton, held_concat, htold, hitem, Option.or_none, gather_none]
  opens past w h hnumber htask := by
    have htold : (started w h).announces? t.number = none := by
      rw [Deed.announces?, if_pos hnumber, htask]
      rfl
    have hitem : (started w h).item? t.number = none := rfl
    rw [announced?_append, announced?_singleton, held_concat, htold, hitem, Option.or_none, gather_none]
  start setting := (Fraction.when_of trivial .zero).symm
  goesOn past x rest hlog a move p hm hlater hp hc := by
    have hx : x ∈ (idle config link clock).log t.service inputs :=
      hlog ▸ List.mem_append_right _ List.mem_cons_self
    have htask := task_of_makes config link clock inputs hasked hx hm
    obtain ⟨state, rfl⟩ := Download.eq_download_of_task htask
    have hchronicled := chronicled_run config link clock inputs (Activity.keeps_fetching t.service)
    have hgathers := hchronicled.each past x rest hlog _ _ move p hm hp trivial
    exact Download.paces_of_makes hm hlater (hgathers.found hlater)
  closes x a move hm ha := Download.closes_of_makes hm ha
  unopened hno := absurd trivial hno
  inside f hf := Download.inside_of_mem_steps hf

end Downloads

section Commands

variable {t : Ticket} {a : Attempt} (hasked : (submitted inputs t.service)[t.number]? = some (.command a))

include hasked

theorem command_reports (hwants : a.wantsProgress = true) :
    ((idle config link clock).run inputs).reports t =
      (((idle config link clock).log t.service inputs).filterMap (Deed.hears? t.number)).filterMap
        (a.share? link.own) := by
  have heach : Each (fun past x =>
      (past ++ [x]).filterMap (fun y => (y.hears? t.number).bind (a.share? link.own)) =
        past.filterMap (fun y => (y.hears? t.number).bind (a.share? link.own)) ++ x.reports t)
      ((idle config link clock).log t.service inputs) := by
    intro past x rest hlog
    have hx : x ∈ (idle config link clock).log t.service inputs :=
      hlog ▸ List.mem_append_right _ List.mem_cons_self
    rw [filterMap_concat]
    congr 1
    rcases tells_run config link clock hasked hwants hx with hbeside | ⟨b, move, p, hm, hp, -, htells, htask⟩
    · rw [hbeside.hears?, hbeside.reports]
      rfl
    · obtain ⟨k, rfl⟩ := Activity.command_of_task htask
      rw [reports_of_mute htells (Attempt.mute_of_makes hm) hp, Attempt.paces_of_makes hm]
      rintro r h e rfl
      exact (kin_of_actor? config link clock inputs hx rfl).2
  rw [reports_run, flatMap_eq_of_each (List.filterMap_nil) heach, List.filterMap_filterMap]

end Commands

theorem reports_close (e : Engine) (t : Ticket) : e.close.reports t = [] := by
  rw [Reaction.reports, effects_close]
  refine List.filterMap_eq_nil_iff.mpr fun x hx => ?_
  obtain ⟨s, -, hx⟩ := List.mem_flatMap.mp hx
  obtain ⟨w, -, rfl⟩ := List.mem_map.mp hx
  rfl

section Jobs

variable {t : Ticket}

theorem upload_advances {u : Upload}
    (hasked : (submitted inputs t.service)[t.number]? = some (.transfer (.upload u)))
    (hwants : u.wantsProgress = true) :
    let r := (idle config link clock).run inputs
    Advances (t.number ∈ begun ((idle config link clock).log t.service inputs) ∧ u.Uploadable) (r.Succeeds t)
      (((r.effects.filterMap (Effect.offeredBy? t)).filterMap Message.itemInt?).map u.share)
        (r.reports t) := by
  intro r
  obtain ⟨service, n⟩ := t
  obtain ⟨⟨a, ha⟩, -⟩ | ⟨side, -, -, rfl⟩ := service_of_submitted hasked
  · cases ha
  have hadvances := advances_of_paces config link clock hasked (upload_paces config link clock hasked) hwants
  have hoffers : r.effects.filterMap (Effect.offeredBy? ⟨.mission side, n⟩) = _ :=
    offers_run config link clock inputs _
  rw [hoffers]
  exact hadvances

theorem download_advances {d : Download}
    (hasked : (submitted inputs t.service)[t.number]? = some (.transfer (.download d)))
    (hwants : d.wantsProgress = true) :
    let log := (idle config link clock).log t.service inputs
    let r := (idle config link clock).run inputs
    Advances (t.number ∈ begun log) (r.Succeeds t)
      (Download.steps (announced? t.number log) (held t.number log)) (r.reports t) := by
  have hadvances :=
    advances_of_paces config link clock hasked (download_paces config link clock hasked) hwants
  simpa only [and_true] using hadvances

/-- A download that succeeds has reported every step. -/
theorem steps_of_announced {length : Nat}
    (hannounced : announced? t.number ((idle config link clock).log t.service inputs) = some length) :
    let steps := Download.steps (some length) (held t.number ((idle config link clock).log t.service inputs))
    steps <+: Download.shares length ∧
      (((idle config link clock).run inputs).Succeeds t → steps = Download.shares length) := by
  intro steps
  constructor
  · cases hheld : held t.number ((idle config link clock).log t.service inputs) with
    | none =>
        have hnone := held_eq_none_iff.mp hheld
        rw [hannounced] at hnone
        cases hnone
    | some items =>
        show Download.steps _ (held _ _) <+: _
        rw [hheld]
        exact List.take_prefix _ _
  · rintro ⟨v, hv⟩
    obtain ⟨items, -, hheld, hlength⟩ := (collects_announced_list config link clock hannounced).result v hv
    show Download.steps _ (held _ _) = _
    rw [hheld]
    exact Download.steps_whole (.inr hlength)

variable {task : Task} (hasked : (submitted inputs t.service)[t.number]? = some task)

include hasked

theorem range_of_reports :
    ∀ f ∈ ((idle config link clock).run inputs).reports t, 0 ≤ f.value ∧ f.value ≤ 1 := by
  cases hwants : task.wantsProgress with
  | false =>
      rw [reports_of_unheard config link clock hasked hwants]
      exact fun f hf => absurd hf List.not_mem_nil
  | true =>
      match task with
      | .transfer (.upload u) => exact (upload_advances config link clock hasked hwants).range
      | .transfer (.download d) => exact (download_advances config link clock hasked hwants).range
      | .command a =>
          rw [command_reports config link clock hasked hwants]
          intro f hf
          obtain ⟨m, -, hshare⟩ := List.mem_filterMap.mp hf
          exact Attempt.share_range hshare

/-- What jobs report is how far they have come. -/
theorem progress_is_told : task.Reported t (idle config link clock) inputs where
  range := range_of_reports config link clock hasked
  unheard hwants := reports_of_unheard config link clock hasked hwants
  closing := by
    rw [Reaction.reports, Reaction.next, List.filterMap_append]
    exact (congrArg _ (reports_close _ t)).trans (List.append_nil _)
  once := heard_sublist config link clock t.service inputs
  upload u htask hwants := upload_advances config link clock (htask ▸ hasked) hwants
  download d htask hwants := by
    refine ⟨download_advances config link clock (htask ▸ hasked) hwants,
      fun hnone => ?_, fun length hlength => ?_⟩
    · rw [hnone]
      rfl
    · rw [hlength]
      exact steps_of_announced config link clock hlength
  command a htask hwants := command_reports config link clock (htask ▸ hasked) hwants

end Jobs

/-- Of two items the first is asked for twice, before the vehicle accepts the list. -/
theorem progress_is_told_twice :
    let t : Ticket := ⟨.mission .client, 0⟩
    let e := idle .default default 0
    let u : Upload := { Upload.patrol 2 with wantsProgress := true }
    let say (m : Message) : List Input := [.receive ⟨.pilotOf 1, 0⟩ m, .tick]
    let ask (seq : UInt16) : List Input := say (.missionRequestInt ⟨seq, Config.default.own, .mission⟩)
    let inputs := [.transfer .client (.upload u) .queue, .tick] ++ ask 0 ++ ask 0 ++ ask 1 ++
      say (.missionAck ⟨.accepted, Config.default.own, .mission⟩)
    (Task.transfer (.upload u)).Reported t e inputs ∧
      (e.run inputs).reports t = [.zero, ⟨1, 3⟩, ⟨1, 3⟩, ⟨2, 3⟩, .one] ∧ (e.run inputs).Succeeds t := by
  intro t e u say ask inputs
  have hreported : (Task.transfer (.upload u)).Reported t e inputs :=
    progress_is_told .default default 0 (by decide +kernel)
  have hreports : (e.run inputs).reports t = [.zero, ⟨1, 3⟩, ⟨1, 3⟩, ⟨2, 3⟩, .one] := by decide +kernel
  refine ⟨hreported, hreports, (hreported.upload u rfl rfl).whole.mp ⟨.one, ?_, Fraction.value_one⟩⟩
  rw [hreports]
  simp

/-- A download has all items, but the link does not take the word that it has: it
fails, and all is not done. -/
example :
    let t : Ticket := ⟨.mission .client, 0⟩
    let say (m : Message) : List Input := [.receive ⟨.pilotOf 1, 0⟩ m, .tick]
    let bring (seq : UInt16) : List Input :=
      say (.missionItemInt (MissionItem.encode Config.default.own { MissionItem.blank with seq }))
    let download : List Input := [.transfer .client (.download ⟨⟨.pilotOf 1, .mission⟩, true⟩) .queue, .tick]
    let announce : List Input := say (.missionCount ⟨2, Config.default.own, .mission⟩)
    let r := (idle .default default 0).run (download ++ announce ++ bring 0 ++ [.accept .never] ++ bring 1)
    r.reports t = [.zero, ⟨1, 2⟩] ∧ .result t (.failed .connectionError) ∈ r.effects := by
  decide +kernel

end Engine

end GroundLink
