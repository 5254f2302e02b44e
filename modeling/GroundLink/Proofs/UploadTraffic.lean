import GroundLink.Proofs.Conduct
import GroundLink.Proofs.ListTraffic
import GroundLink.Proofs.UploadProgress

/-! What goes out for an upload in all its life. Its peer may ask for the same items over and over, in either
form, and what the link takes of the answers is not up to the upload; still what went out is always a first
part of the list, and the item that comes next is never behind its end (`Upload.Gapless`). Every move keeps
this up, since an item goes out only when it was asked for and was sent before or comes next (`Upload.Does`),
and so does every run (`Engine.upload_sends_what_was_asked`). -/

namespace GroundLink

open Function Deed

/-- The item that goes out with a message. -/
def Message.itemInt? : Message → Option MissionItemInt
  | missionItemInt m => some m
  | _ => none

/-- The items of a job that go out while something is done. -/
def Deed.handsOut (t : Ticket) (x : Deed) : List MissionItemInt := (x.sends t).filterMap Message.itemInt?

/-- The items that went out for a job, in order. -/
def handedOut (t : Ticket) (log : List Deed) : List MissionItemInt := log.flatMap (handsOut t)

namespace Deed

/-- Whether an upload is brought a request for the item of the given number. -/
def AsksFor (u : Upload) (seq : Nat) (x : Deed) : Prop :=
  ∃ y job header m, x = .heeded y ∧ y.event = .message job header m ∧ u.Asks seq m

theorem handedOut_concat (t : Ticket) (log : List Deed) (x : Deed) :
    handedOut t (log ++ [x]) = handedOut t log ++ x.handsOut t := by
  rw [handedOut, List.flatMap_append, List.flatMap_singleton, ← handedOut]

theorem handsOut_of_actor?_none {x : Deed} (hx : x.actor? = none) (t : Ticket) : x.handsOut t = [] := by
  rw [handsOut, sends_of_actor?_none hx, List.filterMap_nil]

/-- Items go out by a move of the job. -/
theorem makes_of_handsOut {t : Ticket} {x : Deed} (hx : x.handsOut t ≠ []) :
    ∃ a move p, x.Makes t.service t.number a move ∧ x.progress? t.service = some p := by
  obtain ⟨i, hi⟩ := List.exists_mem_of_ne_nil _ hx
  obtain ⟨m, hm, _⟩ := List.mem_filterMap.mp hi
  obtain ⟨a, move, p, hmakes, hp, _⟩ := makes_of_offers (sends_subset_offers t x hm)
  exact ⟨a, move, p, hmakes, hp⟩

theorem filterMap_toList {α β : Type} (f : α → Option β) (o : Option α) :
    o.toList.filterMap f = (o.bind f).toList := by
  cases o with
  | none => rfl
  | some a => cases h : f a <;> simp [h]

end Deed

namespace Upload

variable {u : Upload} {s : State} {t : Ticket} {move : Move Activity} {p : Progress} {x : Deed}
    {past log : List Deed}
  {next next' : Nat} {out out' : List MissionItemInt}

/-- Whether there is nothing to say against the list of an upload. -/
def Faultless (u : Upload) : Prop := uploadFault? u.items u.list.missionType u.requireCurrent = none

/-- Whether the items that went out are numbered as the first items of the list are, one item at least for
every number before `next`. -/
def Gapless (u : Upload) (next : Nat) (out : List MissionItemInt) : Prop :=
  ∃ m, next ≤ m ∧ m ≤ u.items.length ∧ ∀ k, k ∈ out.map (·.seq.toNat) ↔ k < m

theorem gapless_nil (u : Upload) : u.Gapless 0 [] := ⟨0, Nat.le_refl 0, Nat.zero_le _, by simp⟩

namespace Gapless

theorem mono (h : u.Gapless next out) (hle : next' ≤ next) : u.Gapless next' out := by
  obtain ⟨m, hnext, hm, hout⟩ := h
  exact ⟨m, hle.trans hnext, hm, hout⟩

/-- What has gone out stays out. -/
theorem later (h : u.Gapless next out) (hlater : u.Gapless 0 out') (hsubset : out ⊆ out') :
    u.Gapless next out' := by
  obtain ⟨m, hnext, _, hout⟩ := h
  obtain ⟨m', _, hm', hout'⟩ := hlater
  refine ⟨m', hnext.trans (Nat.le_of_not_lt fun hlt => ?_), hm', hout'⟩
  have hmem := List.map_subset (·.seq.toNat) hsubset ((hout m').mpr hlt)
  exact Nat.lt_irrefl m' ((hout' m').mp hmem)

/-- An item goes out that did before or comes next. -/
theorem concat (h : u.Gapless next out) (hnumbered : numberedFrom 0 u.items = true) {seq : Nat}
    {item : MissionItem} (has : u.items[seq]? = some item) (near : seq ≤ next) :
    u.Gapless (seq + 1) (out ++ [item.encode u.list.peer]) := by
  obtain ⟨m, hnext, hm, hout⟩ := h
  have hseq : (item.encode u.list.peer).seq.toNat = seq := by
    rw [← Nat.zero_add seq]
    exact seq_of_numberedFrom hnumbered has
  have hlt : seq < u.items.length := (List.getElem?_eq_some_iff.mp has).1
  refine ⟨max m (seq + 1), Nat.le_max_right _ _, Nat.max_le.mpr ⟨hm, hlt⟩, fun k => ?_⟩
  rw [List.map_append, List.mem_append, hout k, List.map_singleton, List.mem_singleton, hseq]
  omega

end Gapless

/-- What an upload does by a move: an item goes out that it was asked for, and that went out before or comes
next, or nothing that bears on the items. -/
inductive Does (u : Upload) (s : State) (asked : Nat → Prop) : Move Activity → Prop
  | ignored : Does u s asked .ignore
  | handed {seq retries : Nat} {item : MissionItem} {wait : Wait} {report : Option Fraction}
      (faultless : u.Faultless) (asks : asked seq) (has : u.items[seq]? = some item)
      (near : seq ≤ s.stage.next) :
      Does u s asked (.proceed wait report (some (.missionItemInt (item.encode u.list.peer)))
        (.upload u ⟨.serving (seq + 1), retries⟩))
  | kept {retries : Nat} {wait : Wait} {report : Option Fraction} {message : Option Message}
      (faultless : u.Faultless) (quiet : message.bind Message.itemInt? = none)
      (count : ∀ c, message = some (.missionCount c) → .missionCount c = u.count) :
      Does u s asked (.proceed wait report message (.upload u { s with retries }))
  | closed {message : Option Message} {report : Option Fraction} {o : Outcome}
      (quiet : message.bind Message.itemInt? = none) (count : ∀ c, message ≠ some (.missionCount c))
      (whole : ∀ v, o = .success v → v = .done ∧ s.stage.next = u.items.length) :
      Does u s asked (.finish message report o)

section Moves

variable {asked : Nat → Prop} {policy : Policy}

theorem does_failed (report : Option Fraction) (e : TransferError) :
    u.Does s asked (.finish none report (.failed e)) :=
  .closed rfl (fun _ h => by cases h) fun _ h => by cases h

theorem does_start (asked : Nat → Prop) (policy : Policy) (u : Upload) :
    u.Does ⟨.counting, 0⟩ asked ((u.start policy).map (.upload u)) := by
  unfold start
  split
  · exact does_failed _ _
  · rename_i hfaultless
    apply Does.kept hfaultless rfl
    intro c hc
    exact (Option.some.inj hc).symm

theorem does_onTimeout (hfaultless : u.Faultless) :
    u.Does s asked ((u.onTimeout policy s).map (.upload u)) := by
  unfold onTimeout
  split
  · exact does_failed _ _
  · apply Does.kept hfaultless
    · split <;> rfl
    · intro c hc
      split at hc
      · exact (Option.some.inj hc).symm
      · cases hc

theorem does_onRequest (hfaultless : u.Faultless) {seq : Nat} (hasks : asked seq) :
    u.Does s asked ((u.onRequest policy s seq).map (.upload u)) := by
  unfold onRequest
  split
  · exact .ignored
  · rename_i item has
    split
    · exact .ignored
    · rename_i hnear
      split
      · exact does_failed _ _
      · exact .handed hfaultless hasks has (Nat.le_of_not_lt hnear)

theorem does_onMessage (hfaultless : u.Faultless) (sender : Address) {m : Message}
    (hasked : ∀ seq, u.Asks seq m → asked seq) :
    u.Does s asked ((u.onMessage policy s sender m).map (.upload u)) := by
  cases m with
  | missionRequest r =>
      rw [onMessage]
      split
      · rename_i hstack
        exact does_onRequest hfaultless (hasked _ (.older r hstack))
      · exact .kept hfaultless rfl fun c hc => by cases hc
  | missionRequestInt r => exact does_onRequest hfaultless (hasked _ (.int r))
  | missionAck a =>
      rw [onMessage, onAck]
      split
      · exact does_failed _ _
      · split
        · rename_i hwhole
          apply Does.closed rfl
          · intro c hc
            cases hc
          · intro v hv
            cases hv
            exact ⟨rfl, hwhole⟩
        · exact does_failed _ _
  | _ => exact .ignored

/-- Whatever move an upload makes, no item is left out; only an upload that starts need not
have been looked at yet. -/
theorem does_of_makes {service : Service} {n : Nat} {a : Activity} (hm : x.Makes service n a move)
    (ha : a = .upload u s) (hfaultless : x.begins? = none → u.Faultless) :
    u.Does s (fun seq => x.AsksFor u seq) move := by
  cases hm with
  | @heard r h job header m =>
      rw [ha]
      exact does_onMessage (hfaultless rfl) _ fun seq hasks => ⟨_, job, header, m, rfl, rfl, hasks⟩
  | expired =>
      rw [ha]
      exact does_onTimeout (hfaultless rfl)
  | @started w h =>
      have htask : w.task = .transfer (.upload u) := Task.eq_of_initial ha
      rw [htask] at ha ⊢
      cases ha
      exact does_start _ _ u
  | cancelled =>
      rw [ha]
      exact .closed rfl (fun c hc => by cases hc) fun v hv => by cases hv

end Moves

/-- How an upload answers a request for the item of a number. One that is neither behind the end of the list
nor ahead finds its item, if there are tries left. -/
inductive Answers (u : Upload) (t : Ticket) (s : State) (seq : Nat) (p : Progress) : Prop
  | ignored {r : Running} (beside : u.items.length ≤ seq ∨ s.stage.next < seq)
      (standing : p.standing = .running r)
      (same : r.activity = .upload u s) (silent : p.effects.filterMap (Effect.offeredBy? t) = [])
  | spent (behind : seq < s.stage.next) (ended : p.standing = .ended ⟨t.number, .failed .timeout⟩)
      (silent : p.effects.filterMap (Effect.offeredBy? t) = [])
  | served {item : MissionItem} (has : u.items[seq]? = some item) (near : seq ≤ s.stage.next)
      (offered : p.effects.filterMap (Effect.offeredBy? t) = [.missionItemInt (item.encode u.list.peer)])

theorem answers_of_carries {policy : Policy} {seq : Nat}
    (hc : p.Carries t (.upload u s) ((u.onRequest policy s seq).map (.upload u))) : u.Answers t s seq p := by
  unfold onRequest at hc
  split at hc
  · rename_i hnone
    obtain ⟨⟨r, hr, hsame⟩, hsilent⟩ := hc.of_ignore
    exact .ignored (.inl (List.getElem?_eq_none_iff.mp hnone)) hr hsame hsilent
  · rename_i item has
    split at hc
    · rename_i hahead
      obtain ⟨⟨r, hr, hsame⟩, hsilent⟩ := hc.of_ignore
      exact .ignored (.inr hahead) hr hsame hsilent
    · rename_i hnear
      split at hc
      · rename_i hspent
        obtain ⟨hended, hsilent⟩ := hc.of_stop
        exact .spent hspent.1 hended hsilent
      · exact .served has (Nat.le_of_not_lt hnear) hc.offered_eq

/-- What comes of a step of an upload, in view of what went out before. -/
structure Dutiful (u : Upload) (t : Ticket) (past : List Deed) (x : Deed) (s : State)
    (p : Progress) : Prop where
  found : u.Gapless s.stage.next (handedOut t past)
  left : u.Gapless 0 (handedOut t (past ++ [x]))
  answer : x.handsOut t = [] ∨
    ∃ seq item, x.AsksFor u seq ∧ u.items[seq]? = some item ∧ x.handsOut t = [item.encode u.list.peer]
  request : ∀ y job header m seq, x = .heeded y → y.event = .message job header m → u.Asks seq m →
    u.Answers t s seq p
  count : ∀ c, .missionCount c ∈ x.offers t → c.count.toNat = u.items.length ∧ c.target = u.list.peer
  whole : ∀ v, p.standing = .ended ⟨t.number, .success v⟩ → v = .done ∧ s.stage.next = u.items.length

section Steps

variable {asked : Nat → Prop}

/-- What goes out by a move. -/
theorem Does.answer (hd : u.Does s asked move) (hc : p.Carries t (.upload u s) move)
    (hp : x.progress? t.service = some p) :
    x.handsOut t = [] ∨ ∃ seq item, asked seq ∧ u.items[seq]? = some item ∧ seq ≤ s.stage.next ∧
      numberedFrom 0 u.items = true ∧ x.handsOut t = [item.encode u.list.peer] := by
  rw [handsOut, sends, shown_of_progress? hp]
  rcases hc.sent_or with hsent | ⟨hsent, _⟩
  · rw [hsent, filterMap_toList]
    cases hd with
    | ignored => exact .inl rfl
    | handed faultless asks has near =>
        exact .inr ⟨_, _, asks, has, near, (of_uploadFault?_eq_none faultless).2.2, rfl⟩
    | kept faultless quiet count =>
        left
        rw [Move.message?, quiet]
        rfl
    | closed quiet count whole =>
        left
        rw [Move.message?, quiet]
        rfl
  · rw [hsent]
    exact .inl rfl

theorem Does.count (hd : u.Does s asked move) (hc : p.Carries t (.upload u s) move)
    (hp : x.progress? t.service = some p) {c : MissionCount} (hmem : .missionCount c ∈ x.offers t) :
    c.count.toNat = u.items.length ∧ c.target = u.list.peer := by
  rw [offers, shown_of_progress? hp, hc.offered_eq, Option.mem_toList] at hmem
  cases hd with
  | ignored => cases hmem
  | handed faultless asks has near => cases hmem
  | kept faultless quiet count =>
      have hcount := count c hmem
      cases hcount
      exact ⟨toNat_count (of_uploadFault?_eq_none faultless).2.1, rfl⟩
  | closed quiet count whole => exact absurd hmem (count c)

/-- An upload goes on behind the item that went out last. -/
theorem Does.goesOn (hd : u.Does s asked move) (hc : p.Carries t (.upload u s) move)
    (hp : x.progress? t.service = some p) (hfound : u.Gapless s.stage.next (handedOut t past))
    (hignored : move = .ignore → u.Faultless) {r : Running} (hr : p.standing = .running r) :
    ∃ s', r.activity = .upload u s' ∧ u.Faultless ∧ u.Gapless s'.stage.next (handedOut t (past ++ [x])) := by
  cases hc with
  | finished standing => cases hr.symm.trans standing
  | refused standing => cases hr.symm.trans standing
  | wentOn standing state sent offered =>
      obtain rfl := Standing.running.inj (hr.symm.trans standing)
      rw [handedOut_concat, handsOut, sends, shown_of_progress? hp, sent, filterMap_toList]
      cases hd with
      | ignored =>
          rcases state with hnext | ⟨_, hsame⟩
          · cases hnext
          · refine ⟨s, hsame, hignored rfl, ?_⟩
            rw [Move.message?, Option.bind_none, Option.toList_none, List.append_nil]
            exact hfound
      | handed faultless asks has near =>
          rcases state with hnext | ⟨hmove, _⟩
          · have hnumbered := (of_uploadFault?_eq_none faultless).2.2
            exact ⟨_, (Option.some.inj hnext).symm, faultless, hfound.concat hnumbered has near⟩
          · cases hmove
      | kept faultless quiet count =>
          rcases state with hnext | ⟨hmove, _⟩
          · refine ⟨_, (Option.some.inj hnext).symm, faultless, ?_⟩
            rw [Move.message?, quiet, Option.toList_none, List.append_nil]
            exact hfound
          · cases hmove
      | closed quiet count whole =>
          rcases state with hnext | ⟨hmove, _⟩
          · cases hnext
          · cases hmove

end Steps

theorem dutiful_of_makes {service : Service} {n : Nat} (hm : x.Makes service n (.upload u s) move)
    (hc : p.Carries ⟨service, n⟩ (.upload u s) move) (hp : x.progress? service = some p)
    (hd : u.Does s (fun seq => x.AsksFor u seq) move)
    (hfound : u.Gapless s.stage.next (handedOut ⟨service, n⟩ past)) :
    u.Dutiful ⟨service, n⟩ past x s p where
  found := hfound
  left := by
    rw [handedOut_concat]
    rcases hd.answer hc hp with hnone | ⟨seq, item, _, has, near, hnumbered, hone⟩
    · rw [hnone, List.append_nil]
      exact hfound.mono (Nat.zero_le _)
    · rw [hone]
      exact (hfound.concat hnumbered has near).mono (Nat.zero_le _)
  answer := (hd.answer hc hp).imp id fun ⟨seq, item, hasks, has, _, _, hone⟩ => ⟨seq, item, hasks, has, hone⟩
  request y job header m seq hx hevent hasks := by
    subst hx
    generalize ha : Activity.upload u s = a at hm
    cases hm with
    | heard =>
        cases hevent
        rw [← ha, Activity.onMessage, hasks.onMessage] at hc
        exact answers_of_carries hc
    | expired => cases hevent
  count c hmem := hd.count hc hp hmem
  whole v hv := by
    obtain ⟨message, report, hmove, _⟩ := hc.of_success hv
    rw [hmove] at hd
    cases hd with
    | closed quiet count whole => exact whole v rfl

/-- What is known of an upload under way. -/
def Known (service : Service) (n : Nat) (log : List Deed) (a : Activity) : Prop :=
  ∀ u s, a = .upload u s → u.Faultless ∧ u.Gapless s.stage.next (handedOut ⟨service, n⟩ log)

theorem handedOut_fresh {service : Service} {n : Nat} (hfresh : ∀ x ∈ log, ∀ h, x.actor? ≠ some (n, h)) :
    handedOut ⟨service, n⟩ log = [] := by
  apply List.flatMap_eq_nil_iff.mpr
  intro x hx
  by_contra hsome
  obtain ⟨a, move, p, hmakes, _⟩ := makes_of_handsOut hsome
  obtain ⟨h, ha⟩ := hmakes.actor?
  exact hfresh x hx h ha

/-- A move that keeps the items in order is one of an upload that does its duty, and leaves it so. -/
theorem known_of_does {service : Service} {n : Nat} {a : Activity} (hm : x.Makes service n a move)
    (hc : p.Carries ⟨service, n⟩ a move) (hp : x.progress? service = some p)
    (hdoes : ∀ u s, a = .upload u s → u.Does s (fun seq => x.AsksFor u seq) move ∧
      u.Gapless s.stage.next (handedOut ⟨service, n⟩ past) ∧ (move = .ignore → u.Faultless)) :
    (∀ u s, a = .upload u s → u.Dutiful ⟨service, n⟩ past x s p) ∧
      ∀ r, p.standing = .running r → Known service n (past ++ [x]) r.activity := by
  refine ⟨fun u s ha => ?_, fun r hr u s' hs' => ?_⟩
  · subst ha
    obtain ⟨hd, hfound, _⟩ := hdoes u s rfl
    exact dutiful_of_makes hm hc hp hd hfound
  · obtain ⟨s, rfl⟩ := eq_upload_of_task ((hm.task_of_running hc hr).symm.trans (congrArg Activity.task hs'))
    obtain ⟨hd, hfound, hignored⟩ := hdoes u s rfl
    obtain ⟨s'', hs'', hfaultless, hgapless⟩ := hd.goesOn hc hp hfound hignored hr
    obtain ⟨-, rfl⟩ := Activity.upload.inj (hs'.symm.trans hs'')
    exact ⟨hfaultless, hgapless⟩

/-- No move of an upload leaves a gap. -/
theorem keeps (service : Service) :
    Deed.Keeps service (Known service) fun past x n a p =>
      ∀ u s, a = .upload u s → u.Dutiful ⟨service, n⟩ past x s p where
  quiet n a log deeds hquiet hknown u s ha := by
    rw [handedOut, flatMap_quiet_of (fun x hx => handsOut_of_actor?_none hx _) hquiet]
    exact hknown u s ha
  begins log w h p hfresh hp hc := by
    have hmakes : (started w h).Makes service w.number _ _ := .started
    refine known_of_does hmakes hc hp fun u s ha => ⟨does_of_makes hmakes ha nofun, ?_, fun hignore => ?_⟩
    · have htask : w.task = .transfer (.upload u) := Task.eq_of_initial ha
      rw [htask] at ha
      cases ha
      rw [handedOut_fresh hfresh]
      exact gapless_nil u
    · have hopens := w.task.start_opens (h.setting service)
      rw [hignore] at hopens
      exact hopens.elim
  goesOn log x n a move p hm hbegins hp hc hknown := by
    apply known_of_does hm hc hp
    intro u s ha
    obtain ⟨hfaultless, hfound⟩ := hknown u s ha
    exact ⟨does_of_makes hm ha fun _ => hfaultless, hfound, fun _ => hfaultless⟩

/-- If each step that hands items out leaves no gap, there never was one. -/
theorem gapless_of_each
    (heach : Each (fun past x => x.handsOut t = [] ∨ u.Gapless 0 (handedOut t (past ++ [x]))) log) :
    ∀ past, past <+: log → u.Gapless 0 (handedOut t past) := by
  intro past
  induction past using List.reverseRecOn with
  | nil => exact fun _ => gapless_nil u
  | append_singleton past x ih =>
      rintro ⟨rest, hlog⟩
      rw [List.append_assoc, List.singleton_append] at hlog
      rcases heach past x rest hlog.symm with hnone | hleft
      · rw [handedOut_concat, hnone, List.append_nil]
        exact ih ⟨_, hlog⟩
      · exact hleft

/-- What there is to say of all that goes out for an upload while an engine takes in the inputs. -/
structure Orderly (u : Upload) (t : Ticket) (e : Engine) (inputs : List Input) : Prop where
  /-- What the link took for the upload, and what was offered to it, comes of what was done in the queue,
  where nothing that came in is acted on twice. -/
  sent : (e.run inputs).effects.filterMap (Effect.sentBy? t) = (e.log t.service inputs).flatMap (Deed.sends t)
  offered : (e.run inputs).effects.filterMap (Effect.offeredBy? t) =
    (e.log t.service inputs).flatMap (Deed.offers t)
  once : (heard (e.log t.service inputs)).Sublist (received inputs)
  /-- An item goes out while a request for it is acted on, which came in from the peer,
  and no other does then. -/
  answer : ∀ x ∈ e.log t.service inputs, x.handsOut t = [] ∨
    ∃ y job header m seq item, x = .heeded y ∧ y.job.number = t.number ∧ y.event = .message job header m ∧
      .receive header m ∈ inputs ∧ (u.list.peer.system = 0 ∨ header.sender.system = u.list.peer.system) ∧
        u.Asks seq m ∧ u.items[seq]? = some item ∧ x.handsOut t = [item.encode u.list.peer]
  request : ∀ y job header m seq, .heeded y ∈ e.log t.service inputs → y.job.number = t.number →
    y.event = .message job header m → u.Asks seq m →
      ∃ s, y.job.activity = .upload u s ∧ u.Answers t s seq (y.job.take t.service y.hub y.event)
  /-- At no time was an item left out, nor does the one that comes next lie beyond. -/
  gapless : ∀ past, past <+: e.log t.service inputs → u.Gapless 0 (handedOut t past)
  found : ∀ past x rest, e.log t.service inputs = past ++ x :: rest →
    ∀ a move, x.Makes t.service t.number a move →
    ∃ s, a = .upload u s ∧ u.Gapless s.stage.next (handedOut t past)
  known : ∀ r, ((e.run inputs).engine.queue t.service).running = some r → r.number = t.number →
    ∃ s, r.activity = .upload u s ∧ u.Gapless s.stage.next (handedOut t (e.log t.service inputs))
  count : ∀ c, .missionCount c ∈ (e.run inputs).effects.filterMap (Effect.offeredBy? t) →
    c.count.toNat = u.items.length ∧ c.target = u.list.peer
  /-- An upload succeeds only when the whole list went out. -/
  whole : ∀ v, .result t (.success v) ∈ (e.run inputs).effects →
    v = .done ∧ u.Gapless u.items.length (handedOut t (e.log t.service inputs))

end Upload

namespace Engine

section Uploads

variable (config : Config) (link : Link) (clock : Instant) {inputs : List Input} {side : Side}
    {n : Nat} {u : Upload}
  (hasked : (submitted inputs (.mission side))[n]? = some (.transfer (.upload u)))

include hasked

/-- An upload does its duty in all its steps. -/
theorem dutiful_run {past rest : List Deed} {x : Deed}
    (hlog : (idle config link clock).log (.mission side) inputs = past ++ x :: rest) {a : Activity}
    {move : Move Activity} {p : Progress} (hm : x.Makes (.mission side) n a move)
    (hp : x.progress? (.mission side) = some p) :
    ∃ s, a = .upload u s ∧ u.Dutiful ⟨.mission side, n⟩ past x s p := by
  have hc := chronicled_run config link clock inputs (Upload.keeps (.mission side))
  have hx : x ∈ (idle config link clock).log (.mission side) inputs :=
    hlog ▸ List.mem_append_right _ List.mem_cons_self
  obtain ⟨s, rfl⟩ := Upload.eq_upload_of_task (task_of_makes config link clock inputs hasked hx hm)
  exact ⟨s, rfl, hc.each past x rest hlog n _ move p hm hp u s rfl⟩

theorem gapless_run {past : List Deed}
    (hpast : past <+: (idle config link clock).log (.mission side) inputs) :
    u.Gapless 0 (handedOut ⟨.mission side, n⟩ past) := by
  refine Upload.gapless_of_each (fun past x rest hlog => or_iff_not_imp_left.mpr fun hsome => ?_) past hpast
  obtain ⟨a, move, p, hm, hp⟩ := makes_of_handsOut hsome
  obtain ⟨s, _, hdutiful⟩ := dutiful_run config link clock hasked hlog hm hp
  exact hdutiful.left

/-- Items go out in answer to requests of the peer. -/
theorem answer_run {x : Deed} (hx : x ∈ (idle config link clock).log (.mission side) inputs)
    (hsome : x.handsOut ⟨.mission side, n⟩ ≠ []) :
    ∃ y job header m seq item, x = .heeded y ∧ y.job.number = n ∧ y.event = .message job header m ∧
      .receive header m ∈ inputs ∧ (u.list.peer.system = 0 ∨ header.sender.system = u.list.peer.system) ∧
        u.Asks seq m ∧ u.items[seq]? = some item ∧
          x.handsOut ⟨.mission side, n⟩ = [item.encode u.list.peer] := by
  obtain ⟨a, move, p, hm, hp⟩ := makes_of_handsOut hsome
  obtain ⟨past, rest, hlog⟩ := List.append_of_mem hx
  obtain ⟨s, _, hdutiful⟩ := dutiful_run config link clock hasked hlog hm hp
  rcases hdutiful.answer with hnone | ⟨seq, item, ⟨y, job, header, m, rfl, hevent, hasks⟩, has, hone⟩
  · exact absurd hnone hsome
  · obtain ⟨h, ha⟩ := hm.actor?
    have hn : y.job.number = n := (Prod.mk.inj (Option.some.inj ha)).1
    obtain ⟨before, after, hinputs, hrunning, hhears⟩ := heard_of_heeded config link clock inputs hx hevent
    rw [hn] at hrunning
    obtain ⟨_, hpeer⟩ := listens_of_hears config link clock hasked hinputs hrunning hhears
    have hreceived : .receive header m ∈ inputs := hinputs ▸ List.mem_append_right _ List.mem_cons_self
    exact ⟨y, job, header, m, seq, item, rfl, hn, hevent, hreceived, hpeer, hasks, has, hone⟩

/-- Uploads send what they are asked for and nothing else, in order and without gaps. -/
theorem upload_sends_what_was_asked : u.Orderly ⟨.mission side, n⟩ (idle config link clock) inputs where
  sent := sends_run config link clock inputs _
  offered := offers_run config link clock inputs _
  once := heard_sublist config link clock _ inputs
  answer x hx := or_iff_not_imp_left.mpr fun hsome => answer_run config link clock hasked hx hsome
  request y job header m seq hy hn hevent hasks := by
    obtain ⟨r, h, e⟩ := y
    obtain rfl : e = .message job header m := hevent
    obtain rfl : r.number = n := hn
    obtain ⟨past, rest, hlog⟩ := List.append_of_mem hy
    obtain ⟨s, hs, hdutiful⟩ := dutiful_run config link clock hasked hlog .heard rfl
    exact ⟨s, hs, hdutiful.request _ job header m seq rfl rfl hasks⟩
  gapless past hpast := gapless_run config link clock hasked hpast
  found past x rest hlog a move hm := by
    obtain ⟨p, hp⟩ := hm.progress?
    obtain ⟨s, hs, hdutiful⟩ := dutiful_run config link clock hasked hlog hm hp
    exact ⟨s, hs, hdutiful.found⟩
  known r hr hn := by
    obtain rfl : r.number = n := hn
    have htask : (submitted inputs (.mission side))[r.number]? = some r.activity.task :=
      (sound_run config link clock inputs).lined.asked (JobQueue.slot_mem_line hr)
    obtain ⟨s, hs⟩ := Upload.eq_upload_of_task (Option.some.inj (htask.symm.trans hasked))
    have hc := chronicled_run config link clock inputs (Upload.keeps (.mission side))
    exact ⟨s, hs, (hc.known r hr u s hs).2⟩
  count c hmem := by
    rw [offers_run] at hmem
    obtain ⟨x, hx, hmem⟩ := List.mem_flatMap.mp hmem
    obtain ⟨a, move, p, hm, hp, _⟩ := makes_of_offers hmem
    obtain ⟨past, rest, hlog⟩ := List.append_of_mem hx
    obtain ⟨s, _, hdutiful⟩ := dutiful_run config link clock hasked hlog hm hp
    exact hdutiful.count c hmem
  whole v hv := by
    obtain ⟨x, hx, hends⟩ := ends_of_result config link clock hv
    obtain ⟨a, move, p, hm, hp, _, hstanding⟩ := makes_of_success hends
    obtain ⟨past, rest, hlog⟩ := List.append_of_mem hx
    obtain ⟨s, _, hdutiful⟩ := dutiful_run config link clock hasked hlog hm hp
    obtain ⟨hdone, hnext⟩ := hdutiful.whole v hstanding
    have hfound := hnext ▸ hdutiful.found
    refine ⟨hdone, hfound.later (gapless_run config link clock hasked (List.prefix_refl _)) ?_⟩
    rw [hlog, handedOut, handedOut, List.flatMap_append]
    exact List.subset_append_left _ _

end Uploads

/-- Of two items the first goes out twice and a third is asked for in vain, before the
vehicle accepts the list. -/
theorem upload_sends_what_was_asked_twice :
    let t : Ticket := ⟨.mission .client, 0⟩
    let e := idle .default default 0
    let inputs := uploading .default 2 [0, 2, 0, 1] ++
      [.receive ⟨.pilotOf 1, 0⟩ (.missionAck ⟨.accepted, Config.default.own, .mission⟩), .tick]
    let out := handedOut t (e.log (.mission .client) inputs)
    (Upload.patrol 2).Orderly t e inputs ∧ out.map (·.seq) = [0, 0, 1] ∧
      .result t (.success .done) ∈ (e.run inputs).effects ∧ (Upload.patrol 2).Gapless 2 out := by
  intro t e inputs out
  have horderly : (Upload.patrol 2).Orderly t e inputs :=
    upload_sends_what_was_asked .default default 0 (by decide +kernel)
  have hresult : .result t (.success .done) ∈ (e.run inputs).effects := by decide +kernel
  exact ⟨horderly, by decide +kernel, hresult, (horderly.whole _ hresult).2⟩

end Engine

end GroundLink
