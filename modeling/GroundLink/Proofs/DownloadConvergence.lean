import GroundLink.Proofs.DownloadAgreement
import GroundLink.Proofs.Drive

/-! A download gets through on a link that loses messages. It is a row of exchanges, one for the list and one
for every item, and in each of them a question is asked until it is answered. If no question is asked in vain
more often than the retries allow, then an answer that arrives opens the next exchange, and the last one
closes the download with all that is stored (`Script.Session.download_converges`). -/

namespace GroundLink

namespace Download

/-- What opens an exchange: the request of the list, or of an item. -/
def question (d : Download) : Nat → Message
  | 0 => d.request
  | i + 1 => .missionRequestInt ⟨UInt16.ofNat i, d.list.peer, d.list.missionType⟩

/-- A download that has asked the question of an exchange so often. -/
def asking (list : List MissionItem) : Nat → Nat → State
  | 0, tries => .listing tries
  | i + 1, tries => .collecting ⟨list.length, list.take i, tries⟩

variable {d : Download} {v : VehicleMission} {i j tries : Nat}

theorem question_collecting (tries : Nat) (hi : i ≤ v.list.length) (hsize : v.list.length ≤ maxItems) :
    Collection.request d.list ⟨v.list.length, v.list.take i, tries⟩ = d.question (i + 1) := by
  have hlength : min (v.list.take i).length maxItems = i := by
    rw [List.length_take]
    omega
  rw [Collection.request, hlength, question]

/-- Different exchanges are opened by different questions. -/
theorem question_inj (hi : i ≤ maxItems) (hj : j ≤ maxItems) (h : d.question i = d.question j) : i = j := by
  cases i with
  | zero =>
      cases j with
      | zero => rfl
      | succ j => cases h
  | succ i =>
      cases j with
      | zero => cases h
      | succ j =>
          have hfields := Message.missionRequestInt.inj h
          have hnumber : UInt16.ofNat i = UInt16.ofNat j := congrArg MissionRequest.seq hfields
          rw [← toNat_ofNat_of_le_maxItems (Nat.le_of_succ_le hi),
            ← toNat_ofNat_of_le_maxItems (Nat.le_of_succ_le hj), hnumber]

theorem isCommand_question (d : Download) (i : Nat) : (d.question i).isCommand = false := by
  cases i <;> rfl

theorem isFor_question {vehicle : Vehicle}
    (hsystem : d.list.peer.system = 0 ∨ vehicle.address.system = d.list.peer.system) (i : Nat) :
    vehicle.isFor (d.question i) = true := by
  cases i with
  | zero => exact Vehicle.isFor_of_target nofun nofun rfl hsystem
  | succ i => exact Vehicle.isFor_of_target nofun nofun rfl hsystem

/-- A vehicle answers the question of every exchange. The answer opens the next exchange, and the last one
completes the list. -/
theorem question_answered (hplaced : v.Placed) (hsize : v.list.length ≤ maxItems) (hi : i ≤ v.list.length)
    (d : Download) (peer : Address) (tries : Nat) :
    ∃ v' answer, v.handle peer (d.question i) = ⟨v', [answer]⟩ ∧ v'.items = v.items ∧ answer.kind ∈ kinds ∧
      (i < v.list.length → ∃ f, d.onMessage (asking v.list i tries) answer =
        .proceed .extend f (some (d.question (i + 1))) (asking v.list (i + 1) 1)) ∧
      (i = v.list.length → d.onMessage (asking v.list i tries) answer =
        .finish (some (d.list.ack .accepted)) (some .one) (.success (.items v.list))) := by
  have hitems : v.items.length = v.list.length := (List.length_map _).symm
  cases i with
  | zero =>
      have hcount : (UInt16.ofNat v.items.length).toNat = v.list.length := by
        rw [hitems, toNat_ofNat_of_le_maxItems hsize]
      refine ⟨{ v with phase := .sending peer },
        .missionCount ⟨UInt16.ofNat v.items.length, peer, d.list.missionType⟩, ?_, rfl, List.mem_cons_self,
        fun hlt => ⟨none, ?_⟩, fun hlast => ?_⟩
      · exact if_neg (by rw [hitems]; exact Nat.not_lt.mpr hsize)
      · show d.onCount (UInt16.ofNat v.items.length).toNat (.listing tries) = _
        rw [hcount, onCount, if_neg (Nat.ne_of_gt hlt), ← question_collecting 1 (Nat.zero_le _) hsize]
        rfl
      · show d.onCount (UInt16.ofNat v.items.length).toNat (.listing tries) = _
        rw [hcount, onCount, if_pos hlast.symm, List.length_eq_zero_iff.mp hlast.symm]
        rfl
  | succ i =>
      obtain ⟨item, hitem⟩ : ∃ item, v.items[i]? = some item :=
        ⟨_, List.getElem?_eq_getElem (by rw [hitems]; exact hi)⟩
      have hseq : (UInt16.ofNat i).toNat = i :=
        toNat_ofNat_of_le_maxItems ((Nat.le_of_succ_le hi).trans hsize)
      have htaken : (v.list.take i).length = i := by
        rw [List.length_take]
        omega
      have hnext : v.list.take i ++ [.decode item] = v.list.take (i + 1) := by
        have hget : v.list[i]? = some (.decode item) := by
          rw [VehicleMission.list, List.getElem?_map, hitem]; rfl
        rw [List.take_add_one, hget]
        rfl
      have hlength : (v.list.take (i + 1)).length = i + 1 := by
        rw [List.length_take]
        omega
      have hmove : d.onMessage (asking v.list (i + 1) tries) (.missionItemInt { item with target := peer }) =
          (Collection.onItem d.list ⟨v.list.length, v.list.take i, tries⟩ { item with target := peer }).map
            .collecting := rfl
      have hdecode : MissionItem.decode { item with target := peer } = .decode item := rfl
      have hplace : ¬({ item with target := peer } : MissionItemInt).seq.toNat ≠ (v.list.take i).length := by
        rw [htaken]
        exact not_not_intro (hplaced i item hitem)
      refine ⟨v, .missionItemInt { item with target := peer }, ?_, rfl,
        List.mem_cons_of_mem _ List.mem_cons_self,
        fun hlt => ⟨some ⟨i + 1, v.list.length⟩, ?_⟩, fun hlast => ?_⟩
      · show v.onRequest peer _ = _
        rw [VehicleMission.onRequest]
        simp only [hseq, hitem]
      · rw [hmove, Collection.onItem, if_neg hplace]
        simp only [hdecode, hnext, hlength, if_neg (Nat.ne_of_lt hlt)]
        rw [question_collecting _ (Nat.le_of_lt hlt) hsize]
        rfl
      · rw [hmove, Collection.onItem, if_neg hplace]
        simp only [hdecode, hnext, hlength, if_pos hlast]
        rw [hlast, List.take_length]
        rfl

/-- While retries are left a question is asked once more when its answer does not come. -/
theorem onTimeout_asking {p : Policy} (hi : i ≤ v.list.length) (hsize : v.list.length ≤ maxItems)
    (htries : tries < p.retries) :
    d.onTimeout p (asking v.list i tries) =
      .proceed (.restart p.timeout) none (some (d.question i)) (asking v.list i (tries + 1)) := by
  cases i with
  | zero => exact if_neg (Nat.not_le.mpr htries)
  | succ i =>
      have hmove : d.onTimeout p (asking v.list (i + 1) tries) =
          (Collection.onTimeout p d.list ⟨v.list.length, v.list.take i, tries⟩).map .collecting := rfl
      rw [hmove, Collection.onTimeout, if_neg (Nat.not_le.mpr htries),
        question_collecting _ (Nat.le_of_succ_le hi) hsize]
      rfl

end Download

namespace Script.Session

open Download

/-- Whether the question of an exchange goes out in a round of a driven download: it was asked in vain before
as often as the download knows, and the later ones were not asked. -/
structure Asks (config : Config) (link : Link) (σ : Nat → Losses) (s : Session) (d : Download)
    (start : Vehicle) (k i tries : Nat) : Prop where
  serves : ∃ clock c sent v, (s.drive σ k).Serves config link clock c
    (.download d (asking start.mission.list i tries))
    sent [d.question i] v ∧ v.mission.items = start.mission.items ∧ v.address = start.address
  lost : s.lostAttempts σ (d.question i) k + 1 = tries
  fresh : ∀ j, i < j → j ≤ start.mission.list.length → s.lostAttempts σ (d.question j) k = 0

namespace Asks

variable {config : Config} {link : Link} {σ : Nat → Losses} {s : Session} {d : Download} {start : Vehicle}
  (hs : Unhurried config link σ s)
  (hsystem : d.list.peer.system = 0 ∨ start.address.system = d.list.peer.system)
  (hplaced : start.mission.Placed) (hsize : start.mission.list.length ≤ maxItems)
  (hlost : ∀ i ≤ start.mission.list.length, ∀ k,
    s.lostAttempts σ (d.question i) k < max 1 config.missionRetries.toNat)

include hs hsystem hplaced hsize hlost

/-- The answer completes the list, or opens the next exchange, or the question goes out once more. -/
theorem step {k i tries : Nat} (h : Asks config link σ s d start k i tries)
    (hi : i ≤ start.mission.list.length) :
    (∃ sent v,
      (s.drive σ (k + 1)).Concludes (.success (.items start.mission.list)) sent [d.list.ack .accepted] v ∧
        v.mission.items = start.mission.items) ∨
      i < start.mission.list.length ∧ Asks config link σ s d start (k + 1) (i + 1) 1 ∨
      tries < config.missionRetries.toNat ∧ Asks config link σ s d start (k + 2) i (tries + 1) := by
  obtain ⟨clock, c, sent, v, hserves, hitems, haddress⟩ := h.serves
  have hearly := hs.early hserves
  have hlist : v.mission.list = start.mission.list := by rw [VehicleMission.list, hitems, VehicleMission.list]
  have hsystem' : d.list.peer.system = 0 ∨ v.address.system = d.list.peer.system := haddress ▸ hsystem
  have hlater : ∀ j, i < j → j ≤ start.mission.list.length → s.lostAttempts σ (d.question j) (k + 1) = 0 := by
    intro j hij hj
    rw [lostAttempts_succ_of_ne, h.fresh j hij hj]
    rw [hserves.outbox]
    intro heq
    exact absurd (question_inj (hi.trans hsize) (hj.trans hsize) (List.cons.inj heq).1) (Nat.ne_of_lt hij)
  obtain ⟨mission, answer, hanswer, hkept, hkind, hgoes, hends⟩ := question_answered (v := v.mission)
    (fun n item hn => hplaced n item (hitems ▸ hn)) (hlist ▸ hsize) (hlist ▸ hi) d link.own tries
  rw [hlist] at hgoes hends
  have hfor := isFor_question hsystem' i
  have hcommand := isCommand_question d i
  cases hloses : v.loses (σ k) with
  | true =>
      have htries : tries < config.missionRetries.toNat :=
        retry_left hserves.outbox (hserves.vehicle ▸ hloses) h.lost (hlost i hi)
      have hmove := onTimeout_asking (d := d)
          (p := ⟨config.timeoutSpan, config.missionRetries.toNat⟩) hi hsize htries
      obtain ⟨v', hagain, haddress', hmission, hmine, hothers⟩ :=
        hserves.retried hs hfor hcommand hanswer hloses
          (congrArg (Move.map (Activity.download d)) hmove)
      have hitems' : v'.mission.items = start.mission.items := by
        rcases hmission with hsame | hnew
        · rw [hsame, hitems]
        · rw [hnew, hkept, hitems]
      refine .inr
        (.inr ⟨htries, ⟨⟨_, _, _, _, hagain, hitems', haddress'.trans haddress⟩, ?_, fun j hij hj => ?_⟩⟩)
      · rw [hmine, h.lost]
      · rw [hothers _ fun heq => Nat.ne_of_gt hij (question_inj (hj.trans hsize) (hi.trans hsize) heq),
          h.fresh j hij hj]
  | false =>
      have hround := v.round_of_not_loses hfor hcommand hanswer hloses
      rcases Nat.lt_or_eq_of_le hi with hlt | rfl
      · obtain ⟨f, hmove⟩ := hgoes hlt
        have hnext : (s.drive σ (k + 1)).Serves config link clock c
            (.download d (asking start.mission.list (i + 1) 1)) (sent ++ [d.question (i + 1)])
            [d.question (i + 1)] _ :=
          hserves.heard hround hearly hs.accepts hkind hsystem'
            (congrArg (Move.map (Activity.download d)) hmove)
        refine .inr (.inl ⟨hlt, ⟨⟨_, _, _, _, hnext, hkept.trans hitems, haddress⟩, ?_, fun j hij hj => ?_⟩⟩)
        · rw [hlater (i + 1) (Nat.lt_succ_self i) hlt]
        · exact hlater j (Nat.lt_of_succ_lt hij) hj
      · have hdone := hserves.ended hround hearly hs.accepts hkind hsystem'
          (congrArg (Move.map (Activity.download d)) (hends rfl))
        exact .inl ⟨_, _, hdone, hkept.trans hitems⟩

/-- The exchanges that are left are gone through, and the attempts that are left for each. -/
theorem concludes {k i tries : Nat} (h : Asks config link σ s d start k i tries)
    (hi : i ≤ start.mission.list.length) :
    ∃ k sent v, (s.drive σ k).Concludes (.success (.items start.mission.list)) sent [] v ∧
      v.mission.items = start.mission.items := by
  rcases h.step hs hsystem hplaced hsize hlost hi with
    ⟨sent, v, hdone, hitems⟩ | ⟨hlt, hnext⟩ | ⟨htries, hagain⟩
  · obtain ⟨v', hround, hkept⟩ := v.round_ack (σ (k + 1)) ⟨.accepted, d.list.peer, d.list.missionType⟩
    exact ⟨k + 2, sent, v', hdone.closed hround, hkept.trans hitems⟩
  · exact hnext.concludes hlt
  · exact hagain.concludes hi
termination_by (start.mission.list.length - i, config.missionRetries.toNat - tries)

end Asks

/-- While a download is driven, let the messages and answers that are lost be such that no question, for the
list or for one of the items, is asked in vain as often as there are retries, or once if there are none. Then
the download ends with all the items that the vehicle has stored. -/
theorem download_converges (config : Config) (link : Link) (clock : Instant) (vehicle : Vehicle)
    (missionType : MissionType) (system : UInt8) (wantsProgress : Bool) (admission : Admission)
    (σ : Nat → Losses) (haccepts : link.acceptance = .always) (htimeout : 1 ≤ config.timeoutSpan.micros)
    (hsystem : system = 0 ∨ vehicle.address.system = system) (hplaced : vehicle.mission.Placed)
    (hsize : vehicle.mission.items.length ≤ maxItems) :
    let d : Download := ⟨⟨.pilotOf system, missionType⟩, wantsProgress⟩
    let s := ofOrder (.idle config link clock) vehicle (.download missionType system wantsProgress) admission
    (∀ k, (s.drive σ k).HasTime config) →
    (∀ i ≤ vehicle.mission.items.length, ∀ k,
      s.lostAttempts σ (d.question i) k < max 1 config.missionRetries.toNat) →
    ∃ k, ∀ n ≥ k,
      (⟨.mission .client, 0⟩, .success (.items (vehicle.mission.items.map MissionItem.decode))) ∈
        (s.drive σ n).outcomes ∧
      (s.drive σ n).vehicle.mission.items = vehicle.mission.items := by
  intro d s htime hlost
  have hlength : vehicle.mission.list.length = vehicle.mission.items.length := List.length_map _
  have hmove : (Task.transfer (.download d)).start
      ((Engine.idle config link clock).hub.setting (.mission .client)) =
      .proceed (.restart config.timeoutSpan) (some .zero) (some d.request) (.download d (.listing 1)) := rfl
  have hservice : (Order.download missionType system wantsProgress).service = .mission .client := rfl
  obtain ⟨hbegun, hidle⟩ := Serves.begun haccepts hservice rfl hmove vehicle admission σ
  have hasks : Asks config link σ s d vehicle 1 0 1 :=
    ⟨⟨_, _, _, _, hbegun, rfl, rfl⟩, congrArg (· + 1) (hidle _), fun j _ _ => hidle _⟩
  obtain ⟨k, sent, v, hdone, hitems⟩ := hasks.concludes ⟨haccepts, htimeout, htime⟩ hsystem hplaced
    (hlength ▸ hsize) (fun i hi => hlost i (hlength ▸ hi)) (Nat.zero_le _)
  refine ⟨k, fun n hn => ?_⟩
  rw [drive_of_rest hdone.atRest hn]
  exact ⟨hdone.outcome, hdone.vehicle ▸ hitems⟩

/-- A request of the list is lost, then an answer to it, then an answer with the first item. Of the second
item a request is lost, and then an answer. -/
def patchy : Nat → Losses
  | 1 => ⟨[0], []⟩
  | 3 => ⟨[], [0]⟩
  | 6 => ⟨[], [0]⟩
  | 9 => ⟨[0], []⟩
  | 11 => ⟨[], [0]⟩
  | _ => .none

theorem download_converges_patchy :
    let config : Config := { Config.default with missionRetries := 3 }
    let s := ofOrder (.idle config default 0) Exchange.stockedVehicle (.download .mission 1 false) .queue
    ∃ k, ∀ n ≥ k,
      (⟨.mission .client, 0⟩, .success (.items Exchange.stops)) ∈ (s.drive patchy n).outcomes ∧
      (s.drive patchy n).vehicle.mission.items = Exchange.stops.map (MissionItem.encode (.pilotOf 1)) := by
  intro config s
  have hrest : (s.drive patchy 15).atRest = true := by decide +kernel
  have htime : ∀ k, (s.drive patchy k).HasTime config := drive_all_of_rest hrest (by decide +kernel)
  have hlost : ∀ i ≤ 2, ∀ k, s.lostAttempts patchy (Download.question ⟨⟨.pilotOf 1, .mission⟩, false⟩ i) k <
      max 1 config.missionRetries.toNat := by
    have hfew : ∀ i ≤ 2, s.lostAttempts patchy (Download.question ⟨⟨.pilotOf 1, .mission⟩, false⟩ i) 15 <
        max 1 config.missionRetries.toNat := by decide +kernel
    intro i hi k
    exact (lostAttempts_le_of_rest hrest _ k).trans_lt (hfew i hi)
  exact download_converges config default 0 Exchange.stockedVehicle .mission 1 false .queue
    patchy rfl (by decide) (.inr rfl) Exchange.placed_stockedVehicle (by decide) htime hlost

end Script.Session

end GroundLink
