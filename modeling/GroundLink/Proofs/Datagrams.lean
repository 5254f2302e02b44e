import Mathlib.Data.List.Induction
import GroundLink.Network.Udp

/-! What a link over datagrams learns from its traffic. Datagrams come to its socket and wait there until the
link is polled, and messages are handed to it to send. Three things follow from one stream by filters of their
own: the address from the first datagram that can be read, whatever system it is from; the flight stack from
the last heartbeat of the target's that tells one (`Latest`); and the messages given out from all that can be
read. A datagram at a time is enough (`Knows.concat`), since a poll takes what waits one after another
(`poll_eq_foldl`). What cannot be read leaves no trace. -/

namespace GroundLink

variable {α : Type}

namespace Datagram

def Readable (d : Datagram α) : Prop := d.content.isSome

instance (d : Datagram α) : Decidable d.Readable := inferInstanceAs (Decidable (_ = true))

/-- A heartbeat of the target's that reports one of the flight stacks told apart. -/
inductive Tells (target : UInt8) : Datagram α → Autopilot → Prop
  | px4 {source : α} {header : Header} {m : Heartbeat} (hsystem : header.sender.system = target)
      (hfirmware : m.firmware = .px4) : Tells target ⟨source, some (header, .heartbeat m)⟩ .px4
  | ardupilot {source : α} {header : Header} {m : Heartbeat} (hsystem : header.sender.system = target)
      (hfirmware : m.firmware = .ardupilot) : Tells target ⟨source, some (header, .heartbeat m)⟩ .ardupilot

end Datagram

namespace UdpLink

/-- A datagram comes to the socket, the link is polled, or it is handed a message to send. -/
inductive Event (α : Type)
  | arrive (d : Datagram α)
  | poll
  | send (m : Message)

def Event.arrival? : Event α → Option (Datagram α)
  | .arrive d => some d
  | _ => none

/-- All but the arrival of a datagram that cannot be read. -/
def Event.Legible : Event α → Prop
  | .arrive d => d.Readable
  | _ => True

instance (e : Event α) : Decidable e.Legible :=
  match e with
  | .arrive d => inferInstanceAs (Decidable d.Readable)
  | .poll | .send _ => isTrue trivial

/-- A link with its socket and what has gone through the two. -/
structure Traffic (α : Type) where
  link : UdpLink α
  waiting : List (Datagram α)
  taken : List (Datagram α)
  /-- What the polls gave, one after another. -/
  given : List (Header × Message)
  parcels : List (Parcel α)

namespace Traffic

def initial (own : Address) (target : UInt8) (configured : Option α) : Traffic α :=
  ⟨bind own target configured, [], [], [], []⟩

def step (t : Traffic α) : Event α → Traffic α
  | .arrive d => { t with waiting := t.waiting ++ [d] }
  | .poll =>
    let (link, messages) := t.link.poll t.waiting
    { t with link, waiting := [], taken := t.taken ++ t.waiting, given := t.given ++ messages }
  | .send m =>
    match t.link.send? m with
    | none => t
    | some (link, parcel) => { t with link, parcels := t.parcels ++ [parcel] }

def run (t : Traffic α) (events : List (Event α)) : Traffic α := events.foldl step t

theorem run_concat (t : Traffic α) (events : List (Event α)) (e : Event α) :
    t.run (events ++ [e]) = (t.run events).step e := by
  rw [run, List.foldl_append]
  rfl

theorem step_send_unknown {t : Traffic α} (h : t.link.remote = none) (m : Message) :
    t.step (.send m) = t := by
  simp only [step, send?, h, Option.map_none]

end Traffic

def arrivals (events : List (Event α)) : List (Datagram α) := events.filterMap Event.arrival?

/-- Where the first of the datagrams that can be read came from. -/
def firstSource? (ds : List (Datagram α)) : Option α := (ds.find? fun d => d.Readable).map (·.source)

/-- The flight stack that the last of the datagrams to tell one tells; unknown if none does. -/
inductive Latest (target : UInt8) (ds : List (Datagram α)) : Autopilot → Prop
  | silent (h : ∀ d ∈ ds, ∀ a, ¬ d.Tells target a) : Latest target ds .unknown
  | told {before : List (Datagram α)} {d : Datagram α} {after : List (Datagram α)} {a : Autopilot}
      (hsplit : ds = before ++ d :: after) (h : d.Tells target a)
      (hafter : ∀ d ∈ after, ∀ a, ¬ d.Tells target a) :
      Latest target ds a

/-- What a link knows after it has taken datagrams in. -/
structure Knows (target : UInt8) (configured : Option α) (ds : List (Datagram α)) (l : UdpLink α) : Prop where
  system : l.target = target
  remote : l.remote = configured.or (firstSource? ds)
  autopilot : Latest target ds l.autopilot

/-- What becomes of a link by one datagram. -/
def take (l : UdpLink α) (d : Datagram α) : UdpLink α :=
  match d.content with
  | none => l
  | some (header, m) => l.observe d.source header m

section Datagrams

variable {l : UdpLink α} {d : Datagram α} {target : UInt8} {configured : Option α} {ds : List (Datagram α)}

theorem poll_eq_foldl (l : UdpLink α) (ds : List (Datagram α)) :
    l.poll ds = (ds.foldl take l, ds.filterMap (·.content)) := by
  induction ds generalizing l with
  | nil => rfl
  | cons d rest ih =>
      rw [poll, List.foldl_cons]
      cases hd : d.content with
      | none =>
          rw [List.filterMap_cons_none hd, take, hd]
          exact ih l
      | some c =>
          rw [List.filterMap_cons_some hd, take, hd]
          dsimp only
          rw [ih]

theorem take_unreadable (h : ¬ d.Readable) (l : UdpLink α) : l.take d = l := by
  have hnone : d.content = none := Option.not_isSome_iff_eq_none.mp h
  rw [take, hnone]

theorem target_take (l : UdpLink α) (d : Datagram α) : (l.take d).target = l.target := by
  unfold take
  split <;> rfl

theorem own_poll (l : UdpLink α) (ds : List (Datagram α)) :
    (l.poll ds).1.own = l.own ∧ (l.poll ds).1.sequence = l.sequence := by
  rw [poll_eq_foldl]
  induction ds generalizing l with
  | nil => exact ⟨rfl, rfl⟩
  | cons d rest ih =>
      have htake : (l.take d).own = l.own ∧ (l.take d).sequence = l.sequence := by
        unfold take
        split <;> exact ⟨rfl, rfl⟩
      obtain ⟨hown, hsequence⟩ := ih (l.take d)
      exact ⟨hown.trans htake.1, hsequence.trans htake.2⟩

theorem firstSource?_concat (ds : List (Datagram α)) (d : Datagram α) :
    firstSource? (ds ++ [d]) = (firstSource? ds).or (if d.Readable then some d.source else none) := by
  unfold firstSource?
  rw [List.find?_append]
  cases ds.find? fun d => d.Readable with
  | some found => simp
  | none =>
      by_cases hd : d.Readable
      · simp [hd]
      · simp [hd]

/-- An address that is known stays; one that is not comes from the first datagram that can be read. -/
theorem remote_take (l : UdpLink α) (d : Datagram α) :
    (l.take d).remote = l.remote.or (if d.Readable then some d.source else none) := by
  by_cases hd : d.Readable
  · rw [if_pos hd]
    obtain ⟨⟨header, m⟩, hcontent⟩ := Option.isSome_iff_exists.mp hd
    rw [take, hcontent]
    simp only [observe]
  · rw [if_neg hd, take_unreadable hd, Option.or_none]

/-- What a link hears is what a datagram tells. -/
theorem heard?_eq_some_iff (l : UdpLink α) (source : α) (header : Header) (m : Message) (a : Autopilot) :
    l.heard? header m = some a ↔ Datagram.Tells l.target ⟨source, some (header, m)⟩ a := by
  constructor
  · intro h
    cases m with
    | heartbeat m =>
        rw [heard?, Option.ite_none_right_eq_some] at h
        obtain ⟨hsystem, hfirmware⟩ := h
        unfold Autopilot.ofFirmware? at hfirmware
        split at hfirmware
        · rename_i hardupilot
          cases hfirmware
          exact .ardupilot hsystem hardupilot
        · rw [Option.ite_none_right_eq_some] at hfirmware
          obtain ⟨hpx4, heq⟩ := hfirmware
          cases heq
          exact .px4 hsystem hpx4
    | _ => cases h
  · intro h
    have hother : Firmware.px4 ≠ .ardupilot := by decide
    cases h with
    | px4 hsystem hfirmware => simp [heard?, Autopilot.ofFirmware?, hsystem, hfirmware, hother]
    | ardupilot hsystem hfirmware => simp [heard?, Autopilot.ofFirmware?, hsystem, hfirmware]

/-- A datagram that tells a flight stack makes it the one of the link, and every other leaves the link's. -/
theorem autopilot_take (l : UdpLink α) (d : Datagram α) :
    (d.Tells l.target (l.take d).autopilot) ∨
      (∀ a, ¬ d.Tells l.target a) ∧ (l.take d).autopilot = l.autopilot := by
  obtain ⟨source, content⟩ := d
  cases content with
  | none => exact .inr ⟨fun a h => (by cases h), rfl⟩
  | some c =>
      obtain ⟨header, m⟩ := c
      have htake : (l.take ⟨source, some (header, m)⟩).autopilot = (l.heard? header m).getD l.autopilot := rfl
      rw [htake]
      cases hheard : l.heard? header m with
      | none =>
          refine .inr ⟨fun a h => ?_, rfl⟩
          rw [(l.heard?_eq_some_iff source header m a).mpr h] at hheard
          cases hheard
      | some a => exact .inl ((l.heard?_eq_some_iff source header m a).mp hheard)

theorem Latest.concat_silent {a : Autopilot} (h : Latest target ds a) (hd : ∀ a, ¬ d.Tells target a) :
    Latest target (ds ++ [d]) a := by
  cases h with
  | silent hnone =>
      refine .silent fun d' hd' => ?_
      rcases List.mem_append.mp hd' with hold | hnew
      · exact hnone d' hold
      · rw [List.mem_singleton.mp hnew]
        exact hd
  | @told before teller after _ hsplit htells hafter =>
      refine .told (by rw [hsplit, List.append_assoc, List.cons_append]) htells fun d' hd' => ?_
      rcases List.mem_append.mp hd' with hold | hnew
      · exact hafter d' hold
      · rw [List.mem_singleton.mp hnew]
        exact hd

/-- One more datagram. -/
theorem Knows.concat (h : Knows target configured ds l) (d : Datagram α) :
    Knows target configured (ds ++ [d]) (l.take d) := by
  constructor
  · exact (target_take l d).trans h.system
  · calc
      (l.take d).remote = l.remote.or (if d.Readable then some d.source else none) := remote_take l d
      _ = (configured.or (firstSource? ds)).or (if d.Readable then some d.source else none) := by
        rw [h.remote]
      _ = configured.or (firstSource? (ds ++ [d])) := by rw [Option.or_assoc, firstSource?_concat]
  · rcases autopilot_take l d with htells | ⟨hsilent, hsame⟩
    · rw [h.system] at htells
      exact .told rfl htells fun _ hmem => absurd hmem List.not_mem_nil
    · rw [h.system] at hsilent
      rw [hsame]
      exact h.autopilot.concat_silent hsilent

/-- A poll takes in what waits, one datagram after another. -/
theorem Knows.poll {more : List (Datagram α)} (h : Knows target configured ds l) :
    Knows target configured (ds ++ more) (l.poll more).1 := by
  rw [poll_eq_foldl]
  induction more generalizing l ds with
  | nil =>
      rw [List.append_nil]
      exact h
  | cons d rest ih =>
      rw [List.append_cons]
      exact ih (h.concat d)

/-- What cannot be read changes nothing and does not keep what comes after it. -/
theorem poll_filter_readable (l : UdpLink α) (ds : List (Datagram α)) :
    l.poll (ds.filter fun d => d.Readable) = l.poll ds := by
  induction ds generalizing l with
  | nil => rfl
  | cons d rest ih =>
      rw [List.filter_cons]
      by_cases hd : d.Readable
      · rw [if_pos (decide_eq_true hd), poll, poll]
        simp only [ih]
      · have hnone : d.content = none := Option.not_isSome_iff_eq_none.mp hd
        have hskip : l.poll (d :: rest) = l.poll rest := by rw [UdpLink.poll, hnone]
        rw [if_neg (by simpa using hd), ih l, hskip]

end Datagrams

/-- The state of a link's traffic, told by what has happened. -/
structure Told (own : Address) (target : UInt8) (configured : Option α) (events : List (Event α))
    (t : Traffic α) : Prop where
  arrived : arrivals events = t.taken ++ t.waiting
  given : t.given = t.taken.filterMap (·.content)
  knows : Knows target configured t.taken t.link
  sender : t.link.own = own
  sequence : t.link.sequence = UInt8.ofNat t.parcels.length
  stamped : ∀ (k : Nat) (p : Parcel α), t.parcels[k]? = some p →
    p.header = ⟨own, UInt8.ofNat k⟩ ∧ t.link.remote = some p.destination

namespace Told

variable {own : Address} {target : UInt8} {configured : Option α} {events : List (Event α)} {t : Traffic α}

theorem initial (own : Address) (target : UInt8) (configured : Option α) :
    Told own target configured [] (.initial own target configured) := by
  refine ⟨rfl, rfl, ⟨rfl, ?_, .silent fun _ h => absurd h List.not_mem_nil⟩, rfl, rfl, ?_⟩
  · exact (Option.or_none).symm
  · intro k p hp
    cases hp

variable (h : Told own target configured events t)

include h

theorem arrive (d : Datagram α) :
    Told own target configured (events ++ [.arrive d]) (t.step (.arrive d)) := by
  refine ⟨?_, h.given, h.knows, h.sender, h.sequence, h.stamped⟩
  calc
    arrivals (events ++ [.arrive d]) = arrivals events ++ [d] := by
      unfold arrivals
      rw [List.filterMap_append]
      rfl
    _ = t.taken ++ (t.waiting ++ [d]) := by rw [h.arrived, List.append_assoc]

theorem arrived_concat {e : Event α} (he : e.arrival? = none) :
    arrivals (events ++ [e]) = t.taken ++ t.waiting := by
  rw [← h.arrived, arrivals, List.filterMap_append, List.filterMap_cons_none he, List.filterMap_nil,
    List.append_nil, arrivals]

theorem poll : Told own target configured (events ++ [.poll]) (t.step .poll) := by
  have hown := own_poll t.link t.waiting
  refine ⟨?_, ?_, h.knows.poll, hown.1.trans h.sender, hown.2.trans h.sequence, ?_⟩
  · rw [h.arrived_concat rfl]
    exact (List.append_nil _).symm
  · calc
      (t.step .poll).given = t.given ++ (t.link.poll t.waiting).2 := rfl
      _ = (t.taken ++ t.waiting).filterMap (·.content) := by
        rw [h.given, poll_eq_foldl, List.filterMap_append]
  · intro k p hp
    obtain ⟨hheader, hdestination⟩ := h.stamped k p hp
    exact ⟨hheader, remote_poll hdestination t.waiting⟩

theorem step_send {a : α} (hremote : t.link.remote = some a) (m : Message) :
    t.step (.send m) =
      { t with
        link := { t.link with sequence := t.link.sequence + 1 }
        parcels := t.parcels ++ [⟨a, ⟨own, UInt8.ofNat t.parcels.length⟩, m⟩] } := by
  simp only [Traffic.step, send?, hremote, Option.map_some, h.sender, h.sequence]

theorem send (m : Message) : Told own target configured (events ++ [.send m]) (t.step (.send m)) := by
  have harrived : arrivals (events ++ [.send m]) = t.taken ++ t.waiting := h.arrived_concat rfl
  cases hremote : t.link.remote with
  | none =>
      rw [Traffic.step_send_unknown hremote]
      exact ⟨harrived, h.given, h.knows, h.sender, h.sequence, h.stamped⟩
  | some a =>
      rw [h.step_send hremote]
      refine ⟨harrived, h.given, ⟨h.knows.system, h.knows.remote, h.knows.autopilot⟩, h.sender, ?_, ?_⟩
      · rw [List.length_append, List.length_singleton, UInt8.ofNat_add, ← h.sequence]
        rfl
      · intro k p hp
        rcases Nat.lt_trichotomy k t.parcels.length with hlt | heq | hgt
        · rw [List.getElem?_append_left hlt] at hp
          exact h.stamped k p hp
        · rw [heq, List.getElem?_concat_length] at hp
          obtain rfl := Option.some.inj hp
          exact ⟨by rw [heq], hremote⟩
        · rw [List.getElem?_eq_none (by rw [List.length_append, List.length_singleton]; omega)] at hp
          cases hp

theorem step (e : Event α) : Told own target configured (events ++ [e]) (t.step e) := by
  cases e with
  | arrive d => exact h.arrive d
  | poll => exact h.poll
  | send m => exact h.send m

omit h

theorem run (own : Address) (target : UInt8) (configured : Option α) (events : List (Event α)) :
    Told own target configured events ((Traffic.initial own target configured).run events) := by
  induction events using List.reverseRecOn with
  | nil => exact initial own target configured
  | append_singleton events e ih =>
      rw [Traffic.run_concat]
      exact ih.step e

end Told

namespace Traffic

theorem remote_step {t : Traffic α} {a : α} (h : t.link.remote = some a) (e : Event α) :
    (t.step e).link.remote = some a := by
  cases e with
  | arrive d => exact h
  | poll => exact remote_poll h t.waiting
  | send m =>
      simp only [step, send?, h, Option.map_some]

theorem remote_run {t : Traffic α} {a : α} (h : t.link.remote = some a) (events : List (Event α)) :
    (t.run events).link.remote = some a := by
  induction events using List.reverseRecOn with
  | nil => exact h
  | append_singleton events e ih =>
      rw [run_concat]
      exact remote_step ih e

/-- The traffic without the datagrams that cannot be read. -/
def legible (t : Traffic α) : Traffic α :=
  { t with waiting := t.waiting.filter fun d => d.Readable, taken := t.taken.filter fun d => d.Readable }

theorem legible_step (t : Traffic α) {e : Event α} (he : e.Legible) :
    (t.step e).legible = t.legible.step e := by
  cases e with
  | arrive d =>
      have hd : [d].filter (fun d => d.Readable) = [d] := by
        simpa using (show d.Readable from he)
      simp only [legible, step, List.filter_append, hd]
  | poll => simp only [legible, step, poll_filter_readable, List.filter_append, List.filter_nil]
  | send m =>
      simp only [legible, step]
      cases t.link.send? m <;> rfl

theorem legible_arrive (t : Traffic α) {e : Event α} (he : ¬ e.Legible) : (t.step e).legible = t.legible := by
  cases e with
  | arrive d =>
      have hd : [d].filter (fun d => d.Readable) = [] := by
        simpa using (show ¬ d.Readable from he)
      simp only [legible, step, List.filter_append, hd, List.append_nil]
  | poll => exact absurd trivial he
  | send m => exact absurd trivial he

theorem legible_run (t : Traffic α) (events : List (Event α)) :
    (t.run events).legible = t.legible.run (events.filter fun e => e.Legible) := by
  induction events using List.reverseRecOn with
  | nil => rfl
  | append_singleton events e ih =>
      rw [run_concat, List.filter_append]
      by_cases he : e.Legible
      · have hkept : [e].filter (fun e => e.Legible) = [e] := by simpa using he
        rw [legible_step _ he, ih, hkept, run_concat]
      · have hleft : [e].filter (fun e => e.Legible) = [] := by simpa using he
        rw [legible_arrive _ he, ih, hleft, List.append_nil]

end Traffic

/-- What a link learns from its traffic. At every moment its address is the configured one or else where the
first datagram taken in that could be read came from, and no address that is known is given up; its flight
stack is the one told by the last heartbeat of the target's to tell one; and the polls have given the messages
that could be read in the order they came, so that a poll leaves none of them behind. A message is sent on if
there is an address, and then it carries the link's own name and the number of messages sent before it; one
that finds no address uses up no number. Without the datagrams that cannot be read, all is the same. -/
theorem learns_from_traffic (own : Address) (target : UInt8) (configured : Option α)
    (events : List (Event α)) :
    let run := (Traffic.initial own target configured).run
    let t := run events
    Told own target configured events t ∧
      (∀ (k : Nat) (p : Parcel α), t.parcels[k]? = some p → p.header.sequence.toNat = k % 256) ∧
      (run (events ++ [.poll])).given = (arrivals events).filterMap (·.content) ∧
      (∀ a part, part <+: events → (run part).link.remote = some a → t.link.remote = some a) ∧
      (∀ m, t.link.remote = none → run (events ++ [.send m]) = t) ∧
      (∀ m a, t.link.remote = some a → run (events ++ [.send m]) =
        { t with
          link := { t.link with sequence := t.link.sequence + 1 }
          parcels := t.parcels ++ [⟨a, ⟨own, UInt8.ofNat t.parcels.length⟩, m⟩] }) ∧
      run (events.filter fun e => e.Legible) = t.legible := by
  intro run t
  have htold : Told own target configured events t := Told.run own target configured events
  have hpolled : (run (events ++ [.poll])) = t.step .poll := Traffic.run_concat _ _ _
  refine ⟨htold, ?_, ?_, ?_, ?_, ?_, ?_⟩
  · intro k p hp
    rw [(htold.stamped k p hp).1]
    exact UInt8.toNat_ofNat'
  · have htaken : (t.step .poll).taken = t.taken ++ t.waiting := rfl
    rw [hpolled, htold.poll.given, htold.arrived, htaken]
  · rintro a part ⟨later, rfl⟩ hknown
    have hsplit : t = (run part).run later := List.foldl_append
    rw [hsplit]
    exact Traffic.remote_run hknown later
  · intro m hremote
    exact (Traffic.run_concat _ _ _).trans (Traffic.step_send_unknown hremote m)
  · intro m a hremote
    exact (Traffic.run_concat _ _ _).trans (htold.step_send hremote m)
  · exact (Traffic.legible_run (Traffic.initial own target configured) events).symm

-- a heartbeat of another system makes the address known and not the flight stack
example :
    let beat (system : UInt8) (firmware : Firmware) : Datagram Nat :=
      ⟨7, some (⟨⟨system, 1⟩, 0⟩, .heartbeat { (default : Heartbeat) with firmware })⟩
    let t :=
      (Traffic.initial ⟨245, 190⟩ 1 none).run [.send default, .arrive ⟨3, none⟩, .arrive (beat 9 .px4), .poll]
    t.link.remote = some 7 ∧ t.link.autopilot = .unknown ∧ t.parcels.length = 0 ∧
      ((t.run [.send default, .arrive (beat 1 .px4), .poll]).link.autopilot, t.given.length) = (.px4, 1) := by
  decide +kernel

end UdpLink

end GroundLink
