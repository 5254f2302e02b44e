import GroundLink.Proofs.Drive
import GroundLink.Proofs.UploadProgress

/-! An upload gets through once its count does. The count goes out until the vehicle's first request arrives,
and every count that reaches the vehicle makes it begin anew. From then on, if nothing more is lost, engine
and vehicle go through the list in lock step: an item makes the vehicle ask for the next, and the last one
makes it store the list and accept it (`Script.Session.upload_completes`). -/

namespace GroundLink

namespace Upload

/-- What a vehicle is at that has the first items of an upload and waits for the next. -/
def receiving (u : Upload) (peer : Address) (taken : Nat) : MissionPhase :=
  .receiving (UInt16.ofNat (min u.items.length maxItems)) (u.encoded.take taken) peer u.list.missionType

/-- What went out for an upload: its count so often, and its first items. -/
def sentSoFar (u : Upload) (counts items : Nat) : List Message :=
  List.replicate counts u.count ++ (u.encoded.take items).map .missionItemInt

variable {u : Upload} {v : VehicleMission} {p : Policy} {seq tries : Nat} {item : MissionItem}
    {peer sender : Address}

theorem take_encoded_succ (hitem : u.items[seq]? = some item) :
    u.encoded.take (seq + 1) = u.encoded.take seq ++ [item.encode u.list.peer] := by
  have hget : u.encoded[seq]? = some (item.encode u.list.peer) := by
    rw [encoded, List.getElem?_map, hitem]
    rfl
  rw [List.take_add_one, hget]
  rfl

theorem sentSoFar_succ (hitem : u.items[seq]? = some item) (counts : Nat) :
    u.sentSoFar counts (seq + 1) = u.sentSoFar counts seq ++ [.missionItemInt (item.encode u.list.peer)] := by
  rw [sentSoFar, take_encoded_succ hitem, List.map_append, ← List.append_assoc]
  rfl

/-- Whatever a vehicle is at, a count makes it ask for the first item. -/
theorem count_answered (hempty : u.items ≠ []) (hsize : u.items.length ≤ maxItems) (v : VehicleMission)
    (peer : Address) :
    v.handle peer u.count = ⟨{ v with phase := u.receiving peer 0 },
      [v.request peer 0 u.list.missionType]⟩ := by
  have hsome : UInt16.ofNat (min u.items.length maxItems) ≠ 0 := by
    intro hzero
    have hnone : u.items.length = 0 := by rw [← toNat_count hsize, hzero, UInt16.toNat_zero]
    exact hempty (List.length_eq_zero_iff.mp hnone)
  exact if_neg hsome

section Item

variable (hphase : v.phase = u.receiving peer seq) (hitem : u.items[seq]? = some item)
  (hsize : u.items.length ≤ maxItems) (hnumbered : numberedFrom 0 u.items = true)

include hphase hitem hsize hnumbered

/-- The item that is due makes a vehicle ask for the next one, or if there is none,
store and accept the list. -/
theorem item_answered (other : Address) :
    v.handle other (.missionItemInt (item.encode u.list.peer)) =
      if u.items.length = seq + 1 then
        ⟨{ v.store u.encoded with phase := .idle }, [VehicleMission.ack peer u.list.missionType .accepted]⟩
      else
        ⟨{ v with phase := u.receiving peer (seq + 1) }, [v.request peer (seq + 1) u.list.missionType]⟩ := by
  have hlt : seq < u.items.length := (List.getElem?_eq_some_iff.mp hitem).1
  have hencoded : u.encoded.length = u.items.length := List.length_map _
  have hplace : (item.encode u.list.peer).seq.toNat = seq := by
    rw [← Nat.zero_add seq]
    exact seq_of_numberedFrom hnumbered hitem
  have htaken : (u.encoded.take seq).length = seq := by
    rw [List.length_take]
    omega
  have hlength : (u.encoded.take (seq + 1)).length = seq + 1 := by
    rw [List.length_take]
    omega
  show v.onItem (item.encode u.list.peer) = _
  simp only [VehicleMission.onItem, hphase, receiving]
  rw [if_neg (not_not_intro (hplace.trans htaken.symm)), ← take_encoded_succ hitem,
    toNat_count hsize, hlength]
  by_cases hlast : u.items.length = seq + 1
  · rw [if_pos hlast, if_pos (Nat.le_of_eq hlast),
      List.take_of_length_le (Nat.le_of_eq (hencoded.trans hlast))]
  · rw [if_neg hlast, if_neg fun hle => hlast (Nat.le_antisymm hle hlt)]

end Item

/-- The requests of a vehicle are served, whichever form they have. -/
theorem asks_request (hform : v.legacyRequests = false ∨ u.autopilot = .ardupilot) (hseq : seq ≤ maxItems)
    (peer : Address) (missionType : MissionType) : u.Asks seq (v.request peer seq missionType) := by
  have hplace := toNat_ofNat_of_le_maxItems hseq
  rw [VehicleMission.request]
  split
  · rename_i hlegacy
    have hstack : u.autopilot = .ardupilot := hform.resolve_left (by simp [hlegacy])
    simpa only [hplace] using Asks.older ⟨UInt16.ofNat seq, peer, missionType⟩ hstack
  · simpa only [hplace] using Asks.int (u := u) ⟨UInt16.ofNat seq, peer, missionType⟩

theorem kind_request (v : VehicleMission) (peer : Address) (seq : Nat) (missionType : MissionType) :
    (v.request peer seq missionType).kind ∈ kinds := by
  rw [VehicleMission.request]
  split
  · exact List.mem_cons_self
  · exact List.mem_cons_of_mem _ List.mem_cons_self

theorem onTimeout_counting (htries : tries < p.retries) :
    u.onTimeout p ⟨.counting, tries⟩ =
      .proceed (.restart p.timeout) none (some u.count) ⟨.counting, tries + 1⟩ := by
  rw [onTimeout, if_neg (Nat.not_le.mpr htries)]
  rfl

end Upload

namespace Script.Session

/-- Whether the count of an upload goes out in a round of a drive: it went out in vain before as often as the
upload knows, and nothing else did. -/
structure Announces (config : Config) (link : Link) (σ : Nat → Losses) (s : Session) (u : Upload)
    (start : Vehicle) (k tries : Nat) : Prop where
  serves : ∃ clock c v, (s.drive σ k).Serves config link clock c (.upload u ⟨.counting, tries⟩)
    (u.sentSoFar tries 0) [u.count] v ∧ v.mission.legacyRequests = start.mission.legacyRequests ∧
      v.address = start.address
  lost : s.lostAttempts σ u.count k + 1 = tries

/-- Whether an item of an upload goes out in a round of a drive to a vehicle that has those before it and
waits for this one. -/
structure Hands (config : Config) (link : Link) (σ : Nat → Losses) (s : Session) (u : Upload)
    (start : Vehicle) (tries k seq : Nat) (item : MissionItem) : Prop where
  due : u.items[seq]? = some item
  serves : ∃ clock c v, (s.drive σ k).Serves config link clock c (.upload u ⟨.serving (seq + 1), 1⟩)
    (u.sentSoFar tries (seq + 1)) [.missionItemInt (item.encode u.list.peer)] v ∧
      v.mission.phase = u.receiving link.own seq ∧ v.mission.legacyRequests = start.mission.legacyRequests ∧
      v.address = start.address

/-- What a session comes to whose upload is done. -/
structure Uploaded (s : Session) (u : Upload) (tries : Nat) : Prop where
  rest : s.atRest = true
  outcome : (Engine.firstTicket, .success .done) ∈ s.outcomes
  sent : s.seen.sent = u.sentSoFar tries u.items.length
  phase : s.vehicle.mission.phase = .idle
  stored : s.vehicle.mission.items = u.encoded
  current : s.vehicle.mission.current = 0

section Drive

variable {config : Config} {link : Link} {σ : Nat → Losses} {s : Session} {u : Upload} {start : Vehicle}
  {k seq tries : Nat} {item : MissionItem}
  (hs : Unhurried config link σ s)
  (hsystem : u.list.peer.system = 0 ∨ start.address.system = u.list.peer.system)
  (hsize : u.items.length ≤ maxItems)
  (hform : start.mission.legacyRequests = false ∨ u.autopilot = .ardupilot)

section Hands

variable (hnumbered : numberedFrom 0 u.items = true)

include hs hsystem hsize hform hnumbered

/-- The item makes the vehicle ask for the next one, which goes out, or accept the list. -/
theorem Hands.step (h : Hands config link σ s u start tries k seq item) (hquiet : ¬s.LosesAt σ k) :
    (s.drive σ (k + 1)).Uploaded u tries ∨
      ∃ next, Hands config link σ s u start tries (k + 1) (seq + 1) next := by
  obtain ⟨clock, c, v, hserves, hphase, hlegacy, haddress⟩ := h.serves
  have hearly := hs.early hserves
  have hsystem' : u.list.peer.system = 0 ∨ v.address.system = u.list.peer.system := haddress ▸ hsystem
  have hlt : seq < u.items.length := (List.getElem?_eq_some_iff.mp h.due).1
  have hkept : v.loses (σ k) = false := by
    rw [Bool.eq_false_iff]
    intro hloses
    exact hquiet ⟨by simp [hserves.outbox], hserves.vehicle ▸ hloses⟩
  have hanswer := Upload.item_answered hphase h.due hsize hnumbered link.own
  have hfor : v.isFor (.missionItemInt (item.encode u.list.peer)) = true :=
    Vehicle.isFor_of_target nofun nofun rfl hsystem'
  by_cases hlast : u.items.length = seq + 1
  · rw [if_pos hlast] at hanswer
    have hround := v.round_of_not_loses hfor rfl hanswer hkept
    have hmove : (Activity.upload u ⟨.serving (seq + 1), 1⟩).onMessage
        ((Engine.idle config link clock).hub.setting (.mission .client)) v.header.sender
        (VehicleMission.ack link.own u.list.missionType .accepted) =
          .finish none (some .one) (.success .done) := by
      have hack : u.onAck ⟨.serving (seq + 1), 1⟩ .accepted = .finish none (some .one) (.success .done) :=
        (u.onAck_accepted _).trans (if_pos hlast.symm)
      exact congrArg (Move.map (Activity.upload u)) hack
    have hkind : (VehicleMission.ack link.own u.list.missionType .accepted).kind ∈ Upload.kinds :=
      List.mem_cons_of_mem _ (List.mem_cons_of_mem _ List.mem_cons_self)
    have hdone := hserves.ended hround hearly hs.accepts hkind hsystem' hmove
    refine .inl ⟨hdone.atRest, hdone.outcome, ?_, ?_, ?_, ?_⟩
    · rw [hlast]
      exact hdone.sent.trans (List.append_nil _)
    · exact congrArg (·.mission.phase) hdone.vehicle
    · exact congrArg (·.mission.items) hdone.vehicle
    · exact congrArg (·.mission.current) hdone.vehicle
  · rw [if_neg hlast] at hanswer
    have hround := v.round_of_not_loses hfor rfl hanswer hkept
    have hnext : seq + 1 < u.items.length := by omega
    obtain ⟨next, hget⟩ : ∃ next, u.items[seq + 1]? = some next := ⟨_, List.getElem?_eq_getElem hnext⟩
    have hfits : seq + 1 ≤ maxItems := hlt.trans_le hsize
    have hasks := Upload.asks_request (hlegacy ▸ hform) hfits link.own u.list.missionType
    have hmove := (hasks.onMessage ⟨config.timeoutSpan, config.missionRetries.toNat⟩ ⟨.serving (seq + 1), 1⟩
      v.header.sender).trans (Upload.onRequest_next hget rfl)
    have hgoes := hserves.heard hround hearly hs.accepts (Upload.kind_request _ _ _ _) hsystem'
      (congrArg (Move.map (Activity.upload u)) hmove)
    rw [Option.toList_some, ← Upload.sentSoFar_succ hget] at hgoes
    exact .inr ⟨next, hget, _, _, _, hgoes, rfl, hlegacy, haddress⟩

/-- The items that are left go out one after the other. -/
theorem Hands.completes {k seq : Nat} {item : MissionItem}
    (h : Hands config link σ s u start tries k seq item) (hquiet : ∀ n ≥ k, ¬s.LosesAt σ n) :
    ∃ k, (s.drive σ k).Uploaded u tries := by
  have hlt : seq < u.items.length := (List.getElem?_eq_some_iff.mp h.due).1
  rcases h.step hs hsystem hsize hform hnumbered (hquiet k (Nat.le_refl k)) with hdone | ⟨next, hnext⟩
  · exact ⟨k + 1, hdone⟩
  · exact hnext.completes fun n hn => hquiet n (Nat.le_of_succ_le hn)
termination_by u.items.length - seq

end Hands

section Announces

variable (hvalid : uploadFault? u.items u.list.missionType u.requireCurrent = none)
  (hlost : ∀ k, s.lostAttempts σ u.count k < max 1 config.missionRetries.toNat)

include hs hsystem hform hvalid hlost

/-- The count gets through and the first item goes out, or the count goes out once more. -/
theorem Announces.step (h : Announces config link σ s u start k tries) :
    (∃ item, s.GetsThrough σ u.count k ∧ Hands config link σ s u start tries (k + 1) 0 item) ∨
      tries < config.missionRetries.toNat ∧ Announces config link σ s u start (k + 2) (tries + 1) := by
  obtain ⟨clock, c, v, hserves, hlegacy, haddress⟩ := h.serves
  obtain ⟨hempty, hsize, hnumbered⟩ := of_uploadFault?_eq_none hvalid
  have hsystem' : u.list.peer.system = 0 ∨ v.address.system = u.list.peer.system := haddress ▸ hsystem
  have hanswer := Upload.count_answered hempty hsize v.mission link.own
  have hfor : v.isFor u.count = true := Vehicle.isFor_of_target nofun nofun rfl hsystem'
  cases hloses : v.loses (σ k) with
  | true =>
      have htries : tries < config.missionRetries.toNat :=
        retry_left hserves.outbox (hserves.vehicle ▸ hloses) h.lost hlost
      have hmove := Upload.onTimeout_counting (u := u)
          (p := ⟨config.timeoutSpan, config.missionRetries.toNat⟩) htries
      obtain ⟨v', hagain, haddress', hmission, hmine, _⟩ := hserves.retried hs hfor rfl hanswer hloses
        (congrArg (Move.map (Activity.upload u)) hmove)
      have hsent : u.sentSoFar tries 0 ++ [u.count] = u.sentSoFar (tries + 1) 0 := by
        simp [Upload.sentSoFar, List.replicate_succ']
      have hlegacy' : v'.mission.legacyRequests = start.mission.legacyRequests := by
        rcases hmission with hsame | hnew
        · rw [hsame, hlegacy]
        · rw [hnew, hlegacy]
      rw [hsent] at hagain
      refine .inr ⟨htries, ⟨⟨_, _, _, hagain, hlegacy', haddress'.trans haddress⟩, ?_⟩⟩
      rw [hmine, h.lost]
  | false =>
      have hround := v.round_of_not_loses hfor rfl hanswer hloses
      obtain ⟨item, hget⟩ : ∃ item, u.items[0]? = some item :=
        ⟨_, List.getElem?_eq_getElem (List.length_pos_iff.mpr hempty)⟩
      have hasks := Upload.asks_request (hlegacy ▸ hform) (Nat.zero_le maxItems) link.own u.list.missionType
      have hmove := (hasks.onMessage ⟨config.timeoutSpan, config.missionRetries.toNat⟩ ⟨.counting, tries⟩
        v.header.sender).trans (Upload.onRequest_next hget rfl)
      have hgoes := hserves.heard hround (hs.early hserves) hs.accepts (Upload.kind_request _ _ _ _) hsystem'
        (congrArg (Move.map (Activity.upload u)) hmove)
      rw [Option.toList_some, ← Upload.sentSoFar_succ hget] at hgoes
      exact .inl ⟨item, ⟨hserves.outbox, hserves.vehicle ▸ hloses⟩, hget, _, _, _, hgoes, rfl,
        hlegacy, haddress⟩

/-- The attempts that are left are made until the count gets through, and then the items go out. -/
theorem Announces.completes {k tries : Nat} (h : Announces config link σ s u start k tries)
    (hquiet : ∀ j n, s.GetsThrough σ u.count j → j < n → ¬s.LosesAt σ n) :
    ∃ k tries, (s.drive σ k).Uploaded u tries := by
  rcases h.step hs hsystem hform hvalid hlost with ⟨item, hthrough, hhands⟩ | ⟨htries, hagain⟩
  · obtain ⟨_, hsize, hnumbered⟩ := of_uploadFault?_eq_none hvalid
    obtain ⟨n, hdone⟩ := hhands.completes hs hsystem hsize hform hnumbered fun n hn => hquiet k n hthrough hn
    exact ⟨n, tries, hdone⟩
  · exact hagain.completes hquiet
termination_by config.missionRetries.toNat - tries

end Announces

end Drive

/-- While an upload of a list without fault is driven, to a vehicle that asks for items in the newer form or
is known for an ArduPilot, let fewer counts be sent in vain than there are retries, or none if there are no
retries, and let nothing be lost after one got through. Then the upload is done: it sent every item once and
in order, and the vehicle has stored them all, whatever it was at before. -/
theorem upload_completes (config : Config) (link : Link) (clock : Instant) (vehicle : Vehicle)
    (missionType : MissionType) (system : UInt8) (items : List MissionItem) (wantsProgress : Bool)
    (admission : Admission) (σ : Nat → Losses) (haccepts : link.acceptance = .always)
    (htimeout : 1 ≤ config.timeoutSpan.micros) (hvalid : uploadFault? items missionType true = none)
    (hsystem : system = 0 ∨ vehicle.address.system = system)
    (hform : vehicle.mission.legacyRequests = false ∨ link.autopilot = .ardupilot) :
    let u := Exchange.uploadOf link.autopilot missionType system items wantsProgress
    let order : Order := .upload missionType system items wantsProgress
    let s := ofOrder (.idle config link clock) vehicle order admission
    let encoded := items.map (MissionItem.encode (.pilotOf system))
    (∀ k, (s.drive σ k).HasTime config) →
    (∀ k, s.lostAttempts σ u.count k < max 1 config.missionRetries.toNat) →
    (∀ j k, s.GetsThrough σ u.count j → j < k → ¬s.LosesAt σ k) →
    ∃ k tries, ∀ n ≥ k,
      (⟨.mission .client, 0⟩, .success .done) ∈ (s.drive σ n).outcomes ∧
      (s.drive σ n).seen.sent = List.replicate tries u.count ++ encoded.map .missionItemInt ∧
      (s.drive σ n).vehicle.mission.phase = .idle ∧ (s.drive σ n).vehicle.mission.items = encoded ∧
      (s.drive σ n).vehicle.mission.current = 0 := by
  intro u order s encoded htime hlost hquiet
  have hmove : (Task.transfer (.upload u)).start
      ((Engine.idle config link clock).hub.setting (.mission .client)) =
      .proceed (.restart config.timeoutSpan) (some .zero) (some u.count) (.upload u ⟨.counting, 1⟩) := by
    show (u.start _).map (Activity.upload u) = _
    have hnone : uploadFault? u.items u.list.missionType u.requireCurrent = none := hvalid
    rw [Upload.start, hnone]
    rfl
  have hservice : order.service = .mission .client := rfl
  obtain ⟨hbegun, hidle⟩ := Serves.begun haccepts hservice rfl hmove vehicle admission σ
  have hannounces : Announces config link σ s u vehicle 1 1 :=
    ⟨⟨_, _, _, hbegun, rfl, rfl⟩, congrArg (· + 1) (hidle _)⟩
  obtain ⟨k, tries, hdone⟩ :=
    hannounces.completes ⟨haccepts, htimeout, htime⟩ hsystem hform hvalid hlost hquiet
  refine ⟨k, tries, fun n hn => ?_⟩
  have hsent : u.sentSoFar tries u.items.length = List.replicate tries u.count ++
      encoded.map .missionItemInt := by
    have hall : u.encoded.take u.items.length = encoded :=
      List.take_of_length_le (Nat.le_of_eq (List.length_map _))
    rw [Upload.sentSoFar, hall]
  rw [drive_of_rest hdone.rest hn]
  exact ⟨hdone.outcome, hdone.sent.trans hsent, hdone.phase, hdone.stored, hdone.current⟩

/-- A count is lost, and then the request with which the vehicle answers the next. -/
def slowStart : Nat → Losses
  | 1 => ⟨[0], []⟩
  | 3 => ⟨[], [0]⟩
  | _ => .none

/-- A vehicle that flies a mission and has been left alone with half of another; it asks in the older form. -/
def abandonedVehicle : Vehicle :=
  let item := MissionItem.blank.encode (.pilotOf 1)
  { Vehicle.create (.pilotOf 1) with
    firmware := .ardupilot
    mission := ⟨[item, item], 1, .receiving 4 [item, item] (.pilotOf 9) .mission, true⟩ }

theorem upload_completes_slowStart :
    let config : Config := { Config.default with missionRetries := 3 }
    let link : Link := { (default : Link) with autopilot := .ardupilot }
    let items := (Upload.patrol 2).items
    let u := Exchange.uploadOf .ardupilot .mission 1 items true
    let order : Order := .upload .mission 1 items true
    let s := ofOrder (.idle config link 0) abandonedVehicle order .exclusive
    let encoded := items.map (MissionItem.encode (.pilotOf 1))
    ∃ k tries, ∀ n ≥ k,
      (⟨.mission .client, 0⟩, .success .done) ∈ (s.drive slowStart n).outcomes ∧
      (s.drive slowStart n).seen.sent = List.replicate tries u.count ++ encoded.map .missionItemInt ∧
      (s.drive slowStart n).vehicle.mission.phase = .idle ∧
        (s.drive slowStart n).vehicle.mission.items = encoded ∧
      (s.drive slowStart n).vehicle.mission.current = 0 := by
  intro config link items u order s encoded
  have hrest : (s.drive slowStart 8).atRest = true := by decide +kernel
  have htime : ∀ k, (s.drive slowStart k).HasTime config := drive_all_of_rest hrest (by decide +kernel)
  have hlost : ∀ k, s.lostAttempts slowStart u.count k < max 1 config.missionRetries.toNat := by
    have hfew : s.lostAttempts slowStart u.count 8 < max 1 config.missionRetries.toNat := by decide +kernel
    exact fun k => (lostAttempts_le_of_rest hrest _ k).trans_lt hfew
  have hquiet : ∀ j k, s.GetsThrough slowStart u.count j → j < k → ¬s.LosesAt slowStart k := by
    have hsoon : ∀ k < 8, ∀ j < k, s.GetsThrough slowStart u.count j → ¬s.LosesAt slowStart k := by
      decide +kernel
    intro j k hthrough hjk
    rcases Nat.lt_or_ge k 8 with hk | hk
    · exact hsoon k hk j hjk hthrough
    · exact not_losesAt_of_rest hrest hk
  exact upload_completes config link 0 abandonedVehicle .mission 1 items true .exclusive
    slowStart rfl (by decide) (by decide) (.inr rfl) (.inr rfl) htime hlost hquiet

end Script.Session

end GroundLink
