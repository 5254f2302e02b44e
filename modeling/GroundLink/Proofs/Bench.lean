import GroundLink.Proofs.SilentPeers

/-! One job by itself. It takes in what its queue would hand it, one thing after the other, on a hub of which
only the clock, the link and its own timer matter to it. So two jobs can be held against each other that run
in different queues, or in different engines. -/

namespace GroundLink

/-- What may happen to a job under way, or around it. -/
inductive Feed
  | message (header : Header) (message : Message)
  /-- A pass over the timers: that of the job goes off if it is due. -/
  | pass
  /-- The job hears that its timer went off, if it did. -/
  | expiry
  | cancel
  | clock (now : Instant)
  | accept (acceptance : Acceptance)

def Feed.isCount : Feed → Bool
  | message _ (.missionCount _) => true
  | _ => false

theorem Feed.isCount_iff {f : Feed} :
    f.isCount = true ↔ ∃ header m, f = .message header (.missionCount m) := by
  cases f with
  | message header m => cases m <;> simp [isCount]
  | _ => simp [isCount]

/-- A message that was offered to the link, and whether it was taken. -/
def Effect.attempt? : Effect → Option (Bool × Message)
  | sent _ m => some (true, m)
  | refused _ m => some (false, m)
  | _ => none

def Progress.attempts (p : Progress) : List (Bool × Message) := p.effects.filterMap Effect.attempt?

namespace Hub

/-- The deadline and the span of the timer of a cookie, while it is armed. -/
def alarm? (h : Hub) (c : Option Cookie) : Option (Instant × Span) :=
  c.bind fun c => (h.timers.armed.find? (·.cookie = c)).map fun x => (x.deadline, x.span)

/-- Whether a cookie is not handed out any more: neither that of an armed timer nor the given one. -/
structure Fresh (h : Hub) (c : Option Cookie) : Prop where
  armed : ∀ x ∈ h.timers.armed, x.cookie < h.timers.issued
  own : ∀ d, c = some d → d < h.timers.issued

/-- Fires the timer of a cookie if it is due. -/
def lapse (h : Hub) (c : Option Cookie) : Hub := if (h.alarm? c).any (·.1 ≤ h.clock) then h.disarm c else h

/-- Whether two hubs are the same to a transfer, but for its timer. -/
structure Like (h h' : Hub) : Prop where
  clock : h'.clock = h.clock
  timeout : h'.timeout = h.timeout
  retries : h'.missionRetries = h.missionRetries
  acceptance : h'.link.acceptance = h.link.acceptance

end Hub

def Running.expire (r : Running) (s : Service) (h : Hub) : Progress :=
  match r.cookie with
  | none => ⟨.running r, h, []⟩
  | some c => if (h.alarm? (some c)).isSome then ⟨.running r, h, []⟩ else r.take s h (.expiry r.number c)

namespace Progress

def withHub (p : Progress) (hub : Hub) : Progress := { p with hub }

/-- What comes of a job by one more step; nothing does after its end. -/
def go (p : Progress) (f : Running → Hub → Progress) : Progress :=
  match p.standing with
  | .running r => (f r p.hub).preceded p.effects
  | .ended _ => p

def feed (s : Service) (p : Progress) : Feed → Progress
  | .message header m => p.go fun r h => r.take s h (.message (some r.number) header m)
  | .pass => p.go fun r h => ⟨.running r, h.lapse r.cookie, []⟩
  | .expiry => p.go fun r h => r.expire s h
  | .cancel => p.go fun r h => r.cancel s h
  | .clock now => p.withHub { p.hub with clock := now }
  | .accept acceptance => p.withHub { p.hub with link := { p.hub.link with acceptance } }

def feedAll (s : Service) (feeds : List Feed) (p : Progress) : Progress := feeds.foldl (feed s) p

end Progress

/-- What comes of a job from its start on. -/
def Waiting.bench (w : Waiting) (s : Service) (h : Hub) (feeds : List Feed) : Progress :=
  (w.start s h).feedAll s feeds

namespace Hub

variable {h : Hub} {c : Option Cookie}

theorem Fresh.disarm (hf : h.Fresh c) (d : Option Cookie) : (h.disarm d).Fresh c := by
  cases d with
  | none => exact hf
  | some d => exact ⟨fun x hx => hf.armed x (Timers.mem_remove.mp hx).1, hf.own⟩

theorem Fresh.none (hf : h.Fresh c) : h.Fresh none := ⟨hf.armed, nofun⟩

theorem Fresh.congr {h' : Hub} (hf : h.Fresh c) (htimers : h'.timers = h.timers) : h'.Fresh c :=
  ⟨fun x hx => htimers ▸ hf.armed x (htimers ▸ hx), fun d hd => htimers ▸ hf.own d hd⟩

theorem Fresh.await (hf : h.Fresh c) (t : Ticket) (w : Wait) : (h.await t c w).2.Fresh (h.await t c w).1 := by
  cases w with
  | restart span =>
      have hless := hf.disarm c
      refine ⟨fun x hx => ?_, fun d hd => ?_⟩
      · rcases List.mem_append.mp hx with hx | hx
        · exact Nat.lt_succ_of_lt (hless.armed x hx)
        · rw [List.mem_singleton.mp hx]
          exact Nat.lt_succ_self _
      · cases hd
        exact Nat.lt_succ_self _
  | extend =>
      cases c with
      | none => exact hf
      | some c =>
          refine ⟨fun x hx => ?_, hf.own⟩
          obtain ⟨y, hy, hcookie, -⟩ := Timers.mem_refresh hx
          exact hcookie ▸ hf.armed y hy

theorem Fresh.offered (hf : h.Fresh c) (m : Option Message) : (h.offered m).Fresh c :=
  hf.congr (h.offered_timers m)

@[simp] theorem alarm?_offered (h : Hub) (m : Option Message) (c : Option Cookie) :
    (h.offered m).alarm? c = h.alarm? c := by
  cases m <;> rfl

theorem Like.symm {h' : Hub} (hl : h.Like h') : h'.Like h :=
  ⟨hl.clock.symm, hl.timeout.symm, hl.retries.symm, hl.acceptance.symm⟩

theorem Like.trans {h' h'' : Hub} (hl : h.Like h') (hl' : h'.Like h'') : h.Like h'' :=
  ⟨hl'.clock.trans hl.clock, hl'.timeout.trans hl.timeout, hl'.retries.trans hl.retries,
    hl'.acceptance.trans hl.acceptance⟩

theorem like_disarm (h : Hub) (c : Option Cookie) : h.Like (h.disarm c) := by
  cases c <;> exact ⟨rfl, rfl, rfl, rfl⟩

theorem like_await (h : Hub) (t : Ticket) (c : Option Cookie) (w : Wait) : h.Like (h.await t c w).2 := by
  cases w <;> cases c <;> exact ⟨rfl, rfl, rfl, rfl⟩

theorem like_lapse (h : Hub) (c : Option Cookie) : h.Like (h.lapse c) := by
  rw [Hub.lapse]
  split
  · exact h.like_disarm c
  · exact ⟨rfl, rfl, rfl, rfl⟩

theorem Like.offered {h' : Hub} (hl : h.Like h') (m : Option Message) :
    (h.offered m).Like (h'.offered m) := by
  cases m with
  | none => exact hl
  | some m => exact ⟨hl.clock, hl.timeout, hl.retries, congrArg Acceptance.next hl.acceptance⟩

theorem Fresh.lapse (hf : h.Fresh c) (d : Option Cookie) : (h.lapse d).Fresh c := by
  rw [Hub.lapse]
  split
  · exact hf.disarm d
  · exact hf

/-- A timer that is armed anew runs for its whole span. -/
theorem alarm?_restart (hf : h.Fresh c) (t : Ticket) (span : Span) :
    (h.await t c (.restart span)).2.alarm? (h.await t c (.restart span)).1 =
      some (h.clock.after span, span) := by
  have hless := (hf.disarm c).armed
  have hclock : (h.disarm c).clock = h.clock := by cases c <;> rfl
  have hnone : (h.disarm c).timers.armed.find? (·.cookie = (h.disarm c).timers.issued) = none :=
    List.find?_eq_none.mpr fun x hx => by simpa using Nat.ne_of_lt (hless x hx)
  change ((((h.disarm c).timers.add (h.disarm c).clock span t).armed.find? _).map _) = _
  rw [Timers.add_armed, List.find?_append, Timers.fresh, hnone, hclock]
  simp

theorem alarm?_extend (t : Ticket) :
    (h.await t c .extend).2.alarm? (h.await t c .extend).1 =
      (h.alarm? c).map fun a => (h.clock.after a.2, a.2) := by
  cases c with
  | none => rfl
  | some c =>
      have hcookie : ∀ x : Timer Ticket,
          (if x.cookie = c then { x with deadline := h.clock.after x.span } else x).cookie = x.cookie := by
        intro x
        split <;> rfl
      change (((h.timers.refresh h.clock c).armed.find? _).map _) = (((h.timers.armed.find? _).map _).map _)
      rw [Timers.refresh, List.find?_map]
      simp only [Function.comp_def, hcookie]
      cases hx : h.timers.armed.find? (·.cookie = c) with
      | none => rfl
      | some x =>
          have hc := List.find?_some hx
          rw [decide_eq_true_eq] at hc
          simp [hc]

theorem alarm?_disarm (h : Hub) (c : Option Cookie) : (h.disarm c).alarm? c = none := by
  cases c with
  | none => rfl
  | some c =>
      have hnone : (h.timers.remove c).armed.find? (·.cookie = c) = none :=
        List.find?_eq_none.mpr fun x hx => by simpa using (Timers.mem_remove.mp hx).2
      change (((h.timers.remove c).armed.find? _).map _) = none
      rw [hnone]
      rfl

theorem alarm?_lapse (h : Hub) (c : Option Cookie) :
    (h.lapse c).alarm? c = if (h.alarm? c).any (·.1 ≤ h.clock) then none else h.alarm? c := by
  rw [lapse]
  split
  · exact h.alarm?_disarm c
  · rfl

end Hub

end GroundLink
