import Mathlib.Data.Finset.Card
import Mathlib.Data.List.Chain
import GroundLink.Proofs.Course
import GroundLink.Proofs.UploadAgreement

/-! What an upload makes of the requests of its peer. All it keeps of the items that went out is the
number after the last one, so a request for an earlier item takes it back: `Upload.Tally` relates its
state to the items that went out, in whatever order they were asked for. -/

namespace GroundLink

namespace Effect

/-- The number of the item that went out, if one did. -/
def itemNumber? : Effect → Option Nat
  | sent _ (.missionItemInt m) => some m.seq.toNat
  | _ => none

end Effect

namespace Upload

/-- The numbers of the items that went out, in order. -/
def itemsSent (seen : List Effect) : List Nat := seen.filterMap Effect.itemNumber?

/-- The number after that of the last item that went out. -/
def following (sent : List Nat) : Nat := sent.getLast?.elim 0 (· + 1)

/-- The messages an upload takes for a request of an item. -/
inductive Asks (u : Upload) : Nat → Message → Prop
  | int (r : MissionRequest) : Asks u r.seq.toNat (.missionRequestInt r)
  | older (r : MissionRequest) (stack : u.autopilot = .ardupilot) : Asks u r.seq.toNat (.missionRequest r)

/-- What a step that an upload goes on after has done: an item went out that had gone out before or came
next, or nothing that bears on the items. -/
inductive Serves (p : Policy) (u : Upload) (s : State) : Option Message → State → Prop
  | item {seq : Nat} {item : MissionItem} (has : u.items[seq]? = some item) (near : seq ≤ s.stage.next)
      (spare : seq < s.stage.next → s.retries < p.retries) :
      Serves p u s (some (.missionItemInt (item.encode u.list.peer)))
        ⟨.serving (seq + 1), (if seq < s.stage.next then s.retries else 0) + 1⟩
  | other {message : Option Message} {retries : Nat} (quiet : ∀ m, message ≠ some (.missionItemInt m))
      (grown : s.retries ≤ retries) (spare : retries ≤ max s.retries p.retries) :
      Serves p u s message { s with retries }

variable {p : Policy} {u : Upload} {s s' : State} {wait : Wait} {report : Option Fraction}
  {message : Option Message}

theorem serves_of_onRequest {seq : Nat} (h : u.onRequest p s seq = .proceed wait report message s') :
    Serves p u s message s' := by
  rw [onRequest] at h
  split at h
  · cases h
  · rename_i item hitem
    split at h
    · cases h
    · rename_i hnear
      split at h
      · cases h
      · rename_i hspare
        cases h
        exact .item hitem (Nat.le_of_not_lt hnear) fun hlt => Nat.lt_of_not_le fun hle => hspare ⟨hlt, hle⟩

theorem serves_of_onMessage {sender : Address} {m : Message}
    (h : u.onMessage p s sender m = .proceed wait report message s') : Serves p u s message s' := by
  cases m with
  | missionRequest r =>
      rw [onMessage] at h
      split at h
      · exact serves_of_onRequest h
      · cases h
        exact .other (fun m hm => by cases hm) (Nat.le_refl _) (Nat.le_max_left _ _)
  | missionRequestInt r => exact serves_of_onRequest h
  | missionAck a =>
      rw [onMessage, onAck] at h
      split at h
      · cases h
      · split at h <;> cases h
  | _ => cases h

theorem serves_of_onTimeout (h : u.onTimeout p s = .proceed wait report message s') :
    Serves p u s message s' := by
  rw [onTimeout] at h
  split at h
  · cases h
  · rename_i hspare
    cases h
    refine .other (fun m hm => ?_) (Nat.le_succ _) ((Nat.lt_of_not_le hspare).trans_le (Nat.le_max_right _ _))
    split at hm <;> cases hm

/-- What became of an upload's items, from the numbers of those that went out. -/
structure Tally (p : Policy) (u : Upload) (sent : List Nat) (s : State) : Prop where
  next : s.stage.next = following sent
  /-- No item was left out, and unless the last one to go out had gone out before, the next is a new one. -/
  reached : ∃ m, (∀ k, k ∈ sent ↔ k < m) ∧
    (following sent = m ∨ ∃ before k, sent = before ++ [k] ∧ k ∈ before)
  /-- As long as no later item is asked for than the last one, every request counts as a try. -/
  resent : ∀ l, l <:+ sent → l.IsChain (· ≥ ·) → l.length ≤ s.retries
  bounded : ∀ l, l <:+: sent → l.IsChain (· ≥ ·) → l.length ≤ max 1 p.retries
  spare : s.retries ≤ max 1 p.retries

theorem following_concat (sent : List Nat) (k : Nat) : following (sent ++ [k]) = k + 1 := by
  rw [following, List.getLast?_concat]
  rfl

/-- A descent that ends in a number is that number alone, unless the number was reached before. -/
theorem length_of_isChain_concat {sent l : List Nat} {seq n : Nat} (hsuffix : l <:+ sent ++ [seq])
    (hchain : l.IsChain (· ≥ ·)) (hle : ∀ l', l' <:+ sent → l'.IsChain (· ≥ ·) → l'.length ≤ n) :
    l.length ≤ (if seq < following sent then n else 0) + 1 := by
  rcases List.suffix_concat_iff.mp hsuffix with rfl | ⟨l', rfl, hl'⟩
  · exact Nat.zero_le _
  · obtain ⟨hchain', _, hends⟩ := List.isChain_append.mp hchain
    rw [List.length_append, List.length_singleton]
    refine Nat.add_le_add_right ?_ 1
    cases hlast : l'.getLast? with
    | none => simp [List.getLast?_eq_none_iff.mp hlast]
    | some k =>
        have hk : sent.getLast? = some k := by
          obtain ⟨before, rfl⟩ := hl'
          rw [List.getLast?_append, hlast]
          rfl
        have hseq : seq ≤ k := hends k hlast seq rfl
        have hbehind : seq < following sent := by
          rw [following, hk]
          exact Nat.lt_succ_of_le hseq
        rw [if_pos hbehind]
        exact hle l' hl' hchain'

namespace Tally

variable {sent : List Nat}

theorem start (p : Policy) (u : Upload) : Tally p u [] ⟨.counting, 1⟩ where
  next := rfl
  reached := ⟨0, by simp, .inl rfl⟩
  resent l hl _ := by simp [List.suffix_nil.mp hl]
  bounded l hl _ := by simp [List.infix_nil.mp hl]
  spare := Nat.le_max_left _ _

/-- One more item of those that may go out. -/
theorem concat (h : Tally p u sent s) {seq : Nat} (near : seq ≤ s.stage.next)
    (spare : seq < s.stage.next → s.retries < p.retries) :
    Tally p u (sent ++ [seq]) ⟨.serving (seq + 1), (if seq < s.stage.next then s.retries else 0) + 1⟩ := by
  have hretries : (if seq < s.stage.next then s.retries else 0) + 1 ≤ max 1 p.retries := by
    split
    · rename_i hlt
      exact (spare hlt).trans_le (Nat.le_max_right _ _)
    · exact Nat.le_max_left _ _
  have hresent : ∀ l, l <:+ sent ++ [seq] → l.IsChain (· ≥ ·) →
      l.length ≤ (if seq < s.stage.next then s.retries else 0) + 1 := by
    intro l hl hchain
    rw [h.next]
    exact length_of_isChain_concat hl hchain h.resent
  refine ⟨(following_concat sent seq).symm, ?_, hresent, fun l hl hchain => ?_, hretries⟩
  · obtain ⟨m, hm, hnext⟩ := h.reached
    have hseq : seq ≤ m := by
      refine near.trans ?_
      rw [h.next, following]
      cases hlast : sent.getLast? with
      | none => exact Nat.zero_le _
      | some k => exact (hm k).mp (List.mem_of_getLast? hlast)
    rw [following_concat]
    rcases Nat.lt_or_eq_of_le hseq with hlt | rfl
    · refine ⟨m, fun k => ?_, .inr ⟨sent, seq, rfl, (hm seq).mpr hlt⟩⟩
      rw [List.mem_append, List.mem_singleton, hm k]
      exact ⟨fun hk => hk.elim id fun heq => heq ▸ hlt, .inl⟩
    · refine ⟨seq + 1, fun k => ?_, .inl rfl⟩
      rw [List.mem_append, List.mem_singleton, hm k]
      omega
  · rcases List.infix_concat_iff.mp hl with hsuffix | hinfix
    · exact (hresent l hsuffix hchain).trans hretries
    · exact h.bounded l hinfix hchain

theorem step (h : Tally p u sent s) (hnumbered : numberedFrom 0 u.items = true) (hs : Serves p u s message s')
    (t : Ticket) : Tally p u (sent ++ itemsSent (message.toList.map (.sent t))) s' := by
  cases hs with
  | @item seq item has near spare =>
      have hseq : (item.encode u.list.peer).seq.toNat = seq := by
        rw [← Nat.zero_add seq]
        exact seq_of_numberedFrom hnumbered has
      have hsent :
          itemsSent ((some (Message.missionItemInt (item.encode u.list.peer))).toList.map (.sent t)) =
            [seq] := by
        rw [← hseq]
        rfl
      rw [hsent]
      exact h.concat near spare
  | @other message retries quiet grown spare =>
      have hsent : itemsSent (message.toList.map (.sent t)) = [] := by
        cases message with
        | none => rfl
        | some m => cases m <;> first | rfl | exact absurd rfl (quiet _)
      rw [hsent, List.append_nil]
      exact ⟨h.next, h.reached, fun l hl hchain => (h.resent l hl hchain).trans grown, h.bounded,
        spare.trans (Nat.max_le.mpr ⟨h.spare, Nat.le_max_right _ _⟩)⟩

end Tally

theorem itemsSent_seen (task : Task) (t : Ticket) (report : Option Fraction) (message : Option Message) :
    itemsSent (task.seen t report message) = itemsSent (message.toList.map (.sent t)) := by
  rw [Task.seen, itemsSent, List.filterMap_append, ← itemsSent, ← itemsSent]
  cases report <;> split <;> rfl

theorem eq_upload_of_task {a : Activity} (h : a.task = .transfer (.upload u)) : ∃ s, a = .upload u s := by
  cases a <;> cases h
  exact ⟨_, rfl⟩

/-- An upload that is under way has a list without fault, and its state tells of the items that went out. -/
theorem tally_of_course {own : Address} {t : Ticket} {task : Task} {seen : List Effect} {a : Activity}
    (h : Course p own t task seen a) (hu : task = .transfer (.upload u)) :
    uploadFault? u.items u.list.missionType u.requireCurrent = none ∧
      ∀ s, a = .upload u s → Tally p u (itemsSent seen) s := by
  subst hu
  induction h with
  | @start autopilot wait report message a move =>
      rw [Task.start, Move.map_eq_proceed] at move
      obtain ⟨s, hmove, rfl⟩ := move
      rw [itemsSent_seen]
      rw [Upload.start] at hmove
      split at hmove
      · cases hmove
      · rename_i hvalid
        cases hmove
        refine ⟨hvalid, fun s hs => ?_⟩
        cases hs
        exact .start p u
  | @message autopilot sender m wait report message a b seen past move ih =>
      obtain ⟨s₀, rfl⟩ := eq_upload_of_task past.task_eq
      rw [Activity.onMessage, Move.map_eq_proceed] at move
      obtain ⟨s₁, hmove, rfl⟩ := move
      refine ⟨ih.1, fun s hs => ?_⟩
      cases hs
      rw [itemsSent, List.filterMap_append, ← itemsSent, ← itemsSent, itemsSent_seen]
      exact (ih.2 s₀ rfl).step (of_uploadFault?_eq_none ih.1).2.2 (serves_of_onMessage hmove) t
  | @timeout autopilot wait report message a b seen past move ih =>
      obtain ⟨s₀, rfl⟩ := eq_upload_of_task past.task_eq
      rw [Activity.onTimeout, Move.map_eq_proceed] at move
      obtain ⟨s₁, hmove, rfl⟩ := move
      refine ⟨ih.1, fun s hs => ?_⟩
      cases hs
      rw [itemsSent, List.filterMap_append, ← itemsSent, ← itemsSent, itemsSent_seen]
      exact (ih.2 s₀ rfl).step (of_uploadFault?_eq_none ih.1).2.2 (serves_of_onTimeout hmove) t

theorem Asks.onMessage {seq : Nat} {m : Message} (h : u.Asks seq m) (p : Policy) (s : State)
    (sender : Address) :
    u.onMessage p s sender m = u.onRequest p s seq := by
  cases h with
  | int r => rfl
  | older r stack => rw [Upload.onMessage, if_pos stack]

section Requests

variable {seq : Nat} {item : MissionItem} (has : u.items[seq]? = some item)

include has

theorem onRequest_ahead (h : s.stage.next < seq) : u.onRequest p s seq = .ignore := by
  simp only [onRequest, has, if_pos h]

theorem onRequest_next (h : seq = s.stage.next) :
    u.onRequest p s seq =
      .proceed .extend (some ⟨seq + 1, u.items.length + 1⟩) (some (.missionItemInt (item.encode u.list.peer)))
        ⟨.serving (seq + 1), 1⟩ := by
  subst h
  simp [onRequest, has]

theorem onRequest_spent (h : seq < s.stage.next) (hspent : p.retries ≤ s.retries) :
    u.onRequest p s seq = .stop (.failed .timeout) := by
  simp only [onRequest, has, if_neg (Nat.lt_asymm h), if_pos (And.intro h hspent)]

end Requests

theorem onAck_accepted (u : Upload) (s : State) :
    u.onAck s .accepted =
      if s.stage.next = u.items.length then .finish none (some .one) (.success .done)
      else .stop (.failed .protocolError) := rfl

theorem card_of_mem_iff {sent : List Nat} {m : Nat} (h : ∀ k, k ∈ sent ↔ k < m) : sent.toFinset.card = m := by
  have hrange : sent.toFinset = Finset.range m := by
    ext k
    rw [List.mem_toFinset, Finset.mem_range, h k]
  rw [hrange, Finset.card_range]

end Upload

/-- A mission of the given number of items, for the pilot of the first vehicle. -/
def Upload.patrol (count : Nat) : Upload :=
  Exchange.uploadOf .unknown .mission 1
    ((List.range count).map fun k => { MissionItem.blank with seq := UInt16.ofNat k, current := k = 0 }) false

namespace Running

variable {j : Running} {u : Upload} {s : Upload.State}

/-- What an upload that is under way does with a message that is for it. -/
theorem take_upload (hu : j.activity = .upload u s) (service : Service) (h : Hub) (header : Header)
    (m : Message) :
    j.take service h (.message (some j.number) header m) =
      j.follow service h ((u.onMessage (h.policy service) s header.sender m).map (.upload u)) := by
  rw [take_heard (.inr rfl), hu]
  rfl

/-- A message that is taken goes out, and the job stays under way. -/
theorem follow_sent {h : Hub} {m : Message} (haccepts : h.link.accepts m = true) (j : Running)
    (service : Service) (wait : Wait) (report : Option Fraction) (a : Activity) :
    ∃ j', (j.follow service h (.proceed wait report (some m) a)).standing = .running j' ∧ j'.activity = a ∧
      (j.follow service h (.proceed wait report (some m) a)).effects =
        j.report service report ++ [.sent (j.ticket service) m] := by
  generalize hmove : Move.proceed wait report (some m) a = move
  have hf := j.follow_follows service h move
  generalize j.follow service h move = p at hf ⊢
  cases hf with
  | waited wait report message activity taken =>
      cases hmove
      exact ⟨_, rfl, rfl, rfl⟩
  | broken wait report m activity refused => cases hmove; cases haccepts.symm.trans refused
  | _ => cases hmove

end Running

namespace Engine

variable (config : Config) (link : Link) (clock : Instant) (inputs : List Input)

/-- What an upload that is under way knows of its items. -/
theorem tally_meanwhile {side : Side} {j : Running} {h : Hub} {seen : List Effect} {u : Upload}
    {s : Upload.State} (hm : ((idle config link clock).run inputs).Meanwhile (.mission side) j h seen)
    (hu : j.activity = .upload u s) :
    u.Tally (h.policy (.mission side)) (Upload.itemsSent seen) s := by
  obtain ⟨hkin, hcourse⟩ := course_meanwhile config link clock inputs hm
  rw [hkin.1]
  exact (Upload.tally_of_course hcourse (by rw [hu]; rfl)).2 s hu

/-- An upload goes on behind the item that went out last. No item is left out, but an item that went out
once more takes the upload back: a request for any item but its successor or an earlier one comes to
nothing, and the peer's acceptance ends the upload with success only behind the last item of the list. -/
theorem upload_goes_on {side : Side} {j : Running} {h : Hub} {seen : List Effect} {u : Upload}
    {s : Upload.State} (hm : ((idle config link clock).run inputs).Meanwhile (.mission side) j h seen)
    (hu : j.activity = .upload u s) :
    let sent := Upload.itemsSent seen
    let next := Upload.following sent
    let take := fun header m => j.take (.mission side) h (.message (some j.number) header m)
    ((∀ k, k ∈ sent ↔ k < sent.toFinset.card) ∧
      (next = sent.toFinset.card ∨ ∃ before k, sent = before ++ [k] ∧ k ∈ before)) ∧
    (∀ header seq m item, u.Asks seq m → u.items[seq]? = some item →
      (next < seq → take header m = ⟨.running j, h, []⟩) ∧
      (seq = next → h.link.accepts (.missionItemInt (item.encode u.list.peer)) = true →
        ∃ j', (take header m).standing = .running j' ∧ j'.activity = .upload u ⟨.serving (next + 1), 1⟩ ∧
          (take header m).effects = j.report (.mission side) (some ⟨next + 1, u.items.length + 1⟩) ++
            [.sent (j.ticket (.mission side)) (.missionItemInt (item.encode u.list.peer))])) ∧
    ∀ header ack, ack.result = .accepted →
      (take header (.missionAck ack)).standing =
        .ended ⟨j.number, if next = u.items.length then .success .done else .failed .protocolError⟩ := by
  intro sent next take
  have htally := tally_meanwhile config link clock inputs hm hu
  have hnext : s.stage.next = next := htally.next
  have htake : ∀ header m, take header m =
      j.follow (.mission side) h ((u.onMessage (h.policy (.mission side)) s header.sender m).map
        (.upload u)) :=
    Running.take_upload hu (.mission side) h
  refine ⟨?_, fun header seq m item hasks has => ⟨fun hlt => ?_, fun heq haccepts => ?_⟩,
    fun header ack hack => ?_⟩
  · obtain ⟨m, hreached, hlast⟩ := htally.reached
    rw [Upload.card_of_mem_iff hreached]
    exact ⟨hreached, hlast⟩
  · rw [htake, hasks.onMessage, Upload.onRequest_ahead has (hnext ▸ hlt)]
    rfl
  · subst heq
    rw [htake, hasks.onMessage, Upload.onRequest_next has hnext.symm]
    exact Running.follow_sent haccepts _ _ _ _ _
  · rw [htake, Upload.onMessage, hack, Upload.onAck_accepted, hnext]
    split <;> rfl

/-- An upload of so many items, of which a vehicle has asked for those with the given numbers. -/
def uploading (config : Config) (count : Nat) (seqs : List UInt16) : List Input :=
  [.transfer .client (.upload (.patrol count)) .queue, .tick] ++
    seqs.flatMap fun seq => [.receive ⟨.pilotOf 1, 0⟩ (.missionRequestInt ⟨seq, config.own, .mission⟩), .tick]

theorem meanwhile_uploading (config : Config) (count : Nat) (seqs : List UInt16) {s : Upload.State}
    (h : (((idle config default 0).run (uploading config count seqs)).engine.queue
        (.mission .client)).running.map (fun j => (j.number, j.activity)) =
      some (0, .upload (.patrol count) s)) :
    let r := (idle config default 0).run (uploading config count seqs)
    ∃ j, j.activity = .upload (.patrol count) s ∧
      r.Meanwhile (.mission .client) j r.engine.hub (r.effects.filter (·.job = ⟨.mission .client, 0⟩)) := by
  intro r
  obtain ⟨j, hj, hpair⟩ := Option.map_eq_some_iff.mp h
  obtain ⟨hnumber, hactivity⟩ := Prod.mk.inj hpair
  refine ⟨j, hactivity, ?_⟩
  rw [← hnumber]
  exact Reaction.meanwhile_of_running hj

/-- Of three items two went out, and the first once more: now the third is not to be had. -/
theorem upload_goes_on_retaken :
    let r := (idle .default default 0).run (uploading .default 3 [0, 1, 0])
    let seen := r.effects.filter (·.job = ⟨.mission .client, 0⟩)
    let request : MissionRequest := ⟨2, Config.default.own, .mission⟩
    Upload.itemsSent seen = [0, 1, 0] ∧
      ∃ j, j.activity = .upload (.patrol 3) ⟨.serving 1, 2⟩ ∧
        r.Meanwhile (.mission .client) j r.engine.hub seen ∧
        j.take (.mission .client) r.engine.hub
          (.message (some j.number) ⟨.pilotOf 1, 0⟩ (.missionRequestInt request)) =
            ⟨.running j, r.engine.hub, []⟩ := by
  intro r seen request
  have hsent : Upload.itemsSent seen = [0, 1, 0] := by decide +kernel
  obtain ⟨j, hj, hm⟩ := meanwhile_uploading .default 3 [0, 1, 0] (s := ⟨.serving 1, 2⟩) (by decide +kernel)
  refine ⟨hsent, j, hj, hm, ?_⟩
  have hgoes := upload_goes_on .default default 0 _ hm hj
  rw [hsent] at hgoes
  obtain ⟨item, hitem⟩ : ∃ item, (Upload.patrol 3).items[request.seq.toNat]? = some item :=
    Option.isSome_iff_exists.mp (by decide)
  exact (hgoes.2.1 ⟨.pilotOf 1, 0⟩ _ _ item (.int request) hitem).1 (by decide)

/-- Both items of a mission went out, and the first once more: the vehicle's acceptance ends the upload
with an error. -/
theorem upload_loses_items :
    let r := (idle .default default 0).run (uploading .default 2 [0, 1, 0])
    let accepted : Input := .receive ⟨.pilotOf 1, 0⟩ (.missionAck ⟨.accepted, Config.default.own, .mission⟩)
    Upload.itemsSent r.effects = [0, 1, 0] ∧ (Upload.itemsSent r.effects).toFinset.card = 2 ∧
      (r.engine.run [accepted, .tick]).effects =
        [.result ⟨.mission .client, 0⟩ (.failed .protocolError)] := by
  decide +kernel

/-- As long as no later item is asked for than the one before, an upload sends no more items than it may
try. After as many, the next request for any of them ends it. -/
theorem upload_descent_bounded {side : Side} {j : Running} {h : Hub} {seen : List Effect} {u : Upload}
    {s : Upload.State} (hm : ((idle config link clock).run inputs).Meanwhile (.mission side) j h seen)
    (hu : j.activity = .upload u s) :
    let sent := Upload.itemsSent seen
    (∀ l, l <:+: sent → l.IsChain (· ≥ ·) → l.length ≤ max 1 config.missionRetries.toNat) ∧
      ∀ l, l <:+ sent → l.IsChain (· ≥ ·) → config.missionRetries.toNat ≤ l.length →
        ∀ header seq m item, u.Asks seq m → u.items[seq]? = some item → seq < Upload.following sent →
          let p := j.take (.mission side) h (.message (some j.number) header m)
          p.standing = .ended ⟨j.number, .failed .timeout⟩ ∧ p.effects = [] := by
  intro sent
  have hretries : (h.policy (.mission side)).retries = config.missionRetries.toNat := by
    rw [(course_meanwhile config link clock inputs hm).1.1]
    rfl
  have htally := tally_meanwhile config link clock inputs hm hu
  rw [← hretries]
  refine ⟨htally.bounded, fun l hl hchain hlong header seq m item hasks has hbehind => ?_⟩
  intro p
  have hspent : (h.policy (.mission side)).retries ≤ s.retries := hlong.trans (htally.resent l hl hchain)
  have hp : p = j.follow (.mission side) h (.stop (.failed .timeout)) := by
    show j.take _ _ _ = _
    rw [Running.take_upload hu, hasks.onMessage, Upload.onRequest_spent has (htally.next ▸ hbehind) hspent]
    rfl
  rw [hp]
  exact ⟨rfl, rfl⟩

def twoTries : Config := { Config.default with missionRetries := 2 }

/-- Two items went out, and the first once more: the next request for it ends the upload. -/
theorem upload_descent_bounded_spent :
    let r := (idle twoTries default 0).run (uploading twoTries 2 [0, 1, 0])
    let seen := r.effects.filter (·.job = ⟨.mission .client, 0⟩)
    let request : MissionRequest := ⟨0, Config.default.own, .mission⟩
    Upload.itemsSent seen = [0, 1, 0] ∧
      ∃ j, j.activity = .upload (.patrol 2) ⟨.serving 1, 2⟩ ∧
        r.Meanwhile (.mission .client) j r.engine.hub seen ∧
        (j.take (.mission .client) r.engine.hub
          (.message (some j.number) ⟨.pilotOf 1, 0⟩ (.missionRequestInt request))).standing =
            .ended ⟨j.number, .failed .timeout⟩ := by
  intro r seen request
  have hsent : Upload.itemsSent seen = [0, 1, 0] := by decide +kernel
  obtain ⟨j, hj, hm⟩ := meanwhile_uploading twoTries 2 [0, 1, 0] (s := ⟨.serving 1, 2⟩) (by decide +kernel)
  refine ⟨hsent, j, hj, hm, ?_⟩
  have hbounded := upload_descent_bounded twoTries default 0 _ hm hj
  rw [hsent] at hbounded
  obtain ⟨item, hitem⟩ : ∃ item, (Upload.patrol 2).items[request.seq.toNat]? = some item :=
    Option.isSome_iff_exists.mp (by decide)
  exact (hbounded.2 [1, 0] ⟨[0], rfl⟩ (by simp) (by decide) ⟨.pilotOf 1, 0⟩ _ _ item (.int request) hitem
    (by decide)).1

/-- A request for a later item starts the tries afresh: with two tries the first item goes out four times,
and the upload is still under way. -/
theorem upload_resends_afresh :
    let r := (idle twoTries default 0).run (uploading twoTries 2 [0, 1, 0, 1, 0, 1, 0])
    (Upload.itemsSent r.effects).count 0 = 4 ∧
      r.engine.client.running.map (·.activity) = some (.upload (.patrol 2) ⟨.serving 1, 2⟩) := by
  decide +kernel

end Engine

end GroundLink
