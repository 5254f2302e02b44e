import GroundLink.Proofs.Attendance

/-! The end of an engine. A queue that is ended gives back what its job under way holds, the handlers of one
owner and one timer, and nothing else (`JobQueue.sheds_close`); so an engine takes from the tables it shares
what is its own, and leaves to others what is theirs (`Engine.sheds_close`). Of an engine in use everything in
the tables is its own. What it tells is told of the jobs that stand in its lines, and these are, in order, the
jobs that were submitted and of which nobody was told how they ended (`Desk.Sound.numbers_line`). -/

namespace GroundLink

/-- How the jobs of a queue fail when their engine ends. -/
def Service.abandonment : Service → Outcome
  | .commands => .commandFailed .connectionError
  | .mission _ => .failed .cancelled

namespace Hub

/-- Whether a hub has lost the handlers of some owners and the timers of some cookies, and
is the same otherwise. -/
structure Sheds (h : Hub) (owners : List Owner) (cookies : List Cookie) (h' : Hub) : Prop where
  link : h'.link = h.link
  handlers : h'.handlers.entries = h.handlers.entries.filter (·.owner ∉ owners)
  timers : h'.timers.armed = h.timers.armed.filter (·.cookie ∉ cookies)

variable {h h' h'' : Hub} {owners owners' : List Owner} {cookies cookies' : List Cookie}

theorem Sheds.refl (h : Hub) : h.Sheds [] [] h where
  link := rfl
  handlers := (List.filter_eq_self.mpr fun _ _ => decide_eq_true List.not_mem_nil).symm
  timers := (List.filter_eq_self.mpr fun _ _ => decide_eq_true List.not_mem_nil).symm

theorem Sheds.trans (hs : h.Sheds owners cookies h') (hs' : h'.Sheds owners' cookies' h'') :
    h.Sheds (owners ++ owners') (cookies ++ cookies') h'' where
  link := hs'.link.trans hs.link
  handlers := by
    rw [hs'.handlers, hs.handlers, List.filter_filter]
    apply List.filter_congr
    intro x _
    simp [Bool.and_comm]
  timers := by
    rw [hs'.timers, hs.timers, List.filter_filter]
    apply List.filter_congr
    intro x _
    simp [Bool.and_comm]

theorem sheds_unregisterAll (h : Hub) (owner : Owner) :
    h.Sheds [owner] [] { h with handlers := h.handlers.unregisterAll owner } where
  link := rfl
  handlers := by
    apply List.filter_congr
    intro x _
    simp
  timers := (Sheds.refl h).timers

theorem sheds_disarm (h : Hub) (cookie : Option Cookie) : h.Sheds [] cookie.toList (h.disarm cookie) := by
  cases cookie with
  | none => exact .refl h
  | some c =>
      refine ⟨rfl, (Sheds.refl h).handlers, ?_⟩
      apply List.filter_congr
      intro x _
      simp

theorem sheds_retire (h : Hub) (owner : Owner) (cookie : Option Cookie) :
    h.Sheds [owner] cookie.toList (h.retire owner cookie) := by
  have hboth := (h.sheds_disarm cookie).trans ((h.disarm cookie).sheds_unregisterAll owner)
  rwa [List.nil_append, List.append_nil] at hboth

end Hub

namespace JobQueue

/-- Who owns the handlers of a queue: the job under way. -/
def owners (q : JobQueue) : List Owner := q.running.toList.map (·.owner)

def cookies (q : JobQueue) : List Cookie := q.running.toList.flatMap (·.cookie.toList)

theorem sheds_close (q : JobQueue) (s : Service) (h : Hub) :
    h.Sheds q.owners q.cookies (q.close s h).hub := by
  cases hr : q.running with
  | none =>
      simp only [owners, cookies, close, hr]
      exact .refl h
  | some r =>
      simp only [owners, cookies, close, hr, Option.toList_some, List.map_cons, List.map_nil,
        List.flatMap_cons, List.flatMap_nil, List.append_nil]
      exact h.sheds_retire r.owner r.cookie

end JobQueue

namespace Engine

/-- Who owns the handlers of an engine: the jobs under way, and whoever hears the answers to commands. -/
def owners (e : Engine) : List Owner := commandOwner :: Service.all.flatMap fun s => (e.queue s).owners

def cookies (e : Engine) : List Cookie := Service.all.flatMap fun s => (e.queue s).cookies

/-- The same engine with other entries in the tables that it shares. -/
def sharing (e : Engine) (handlers : List (Handler Kind Subscriber))
    (timers : List (Timer Ticket)) : Engine :=
  { e with
    hub :=
      { e.hub with
        handlers := { e.hub.handlers with entries := handlers }
        timers := { e.hub.timers with armed := timers } } }

theorem sheds_closeQueue (e : Engine) (s : Service) :
    e.hub.Sheds (e.queue s).owners (e.queue s).cookies (e.closeQueue s).engine.hub :=
  (e.queue s).sheds_close s e.hub

theorem sheds_close (e : Engine) : e.hub.Sheds e.owners e.cookies e.close.engine.hub := by
  let e₀ : Engine := { e with hub := { e.hub with handlers := e.hub.handlers.unregisterAll commandOwner } }
  let e₁ : Engine := (e₀.closeQueue .commands).engine
  let e₂ : Engine := (e₁.closeQueue (.mission .client)).engine
  have hcommand : e.hub.Sheds [commandOwner] [] e₀.hub := e.hub.sheds_unregisterAll commandOwner
  have hall :=
    ((hcommand.trans (e₀.sheds_closeQueue .commands)).trans (e₁.sheds_closeQueue (.mission .client))).trans
      (e₂.sheds_closeQueue (.mission .server))
  simp only [List.append_assoc] at hall
  simp only [owners, cookies, Service.all, List.flatMap_cons, List.flatMap_nil, List.append_nil]
  exact hall

theorem effects_close (e : Engine) :
    e.close.effects = Service.all.flatMap fun s =>
      (e.queue s).line.map fun w => .result ⟨s, w.number⟩ (.failure w.task.abandonment) := by
  simp only [close, Reaction.next, closeQueue, afterTurn, Desk.effects_close, Service.all, List.flatMap_cons,
    List.flatMap_nil, List.append_nil, List.append_assoc]
  rfl

theorem abandonment_of_submitted {inputs : List Input} {s : Service} {n : Nat} {task : Task}
    (h : (submitted inputs s)[n]? = some task) : .failure task.abandonment = s.abandonment := by
  obtain ⟨⟨a, rfl⟩, rfl⟩ | ⟨side, t, rfl, rfl⟩ := service_of_submitted h <;> rfl

end Engine

/-- The jobs of a queue of which nobody was told how they ended, in the order in which they were submitted. -/
def Reaction.untold (r : Reaction) (inputs : List Input) (s : Service) : List Nat :=
  (List.range (Engine.submitted inputs s).length).filter fun n => r.effects.countP (·.settles ⟨s, n⟩) = 0

namespace Desk.Sound

variable {d : Desk}

/-- The jobs in a line are those that were submitted and not told of, if none is still to be told of. -/
theorem numbers_line (h : Sound d) (hsettled : d.owing = []) (s : Service) :
    (d.queue s).line.map (·.number) = (List.range (d.asked s).length).filter fun n => d.told ⟨s, n⟩ = 0 := by
  have hplaced := (h.lined.placed s).map Prod.snd
  rw [List.map_map, List.zipIdx_map_snd, ← List.range_eq_range'] at hplaced
  have hmem : ∀ n, n ∈ (d.queue s).line.map (·.number) ↔
      n ∈ (List.range (d.asked s).length).filter fun n => d.told ⟨s, n⟩ = 0 := by
    intro n
    have honce : d.standing ⟨s, n⟩ + d.owed ⟨s, n⟩ + d.told ⟨s, n⟩ =
        if n < (d.queue s).submitted then 1 else 0 :=
      h.accounted.once ⟨s, n⟩
    have howed : d.owed ⟨s, n⟩ = 0 := by
      rw [owed, hsettled]
      rfl
    have hstanding : n ∈ (d.queue s).line.map (·.number) ↔ 0 < d.standing ⟨s, n⟩ := by
      rw [standing, List.countP_pos_iff, List.mem_map]
      simp only [decide_eq_true_eq]
    rw [howed, h.lined.counted] at honce
    rw [hstanding, List.mem_filter, List.mem_range, decide_eq_true_eq]
    split at honce <;> omega
  have hsorted : ((d.queue s).line.map (·.number)).Pairwise (· < ·) := List.pairwise_lt_range.sublist hplaced
  have hsorted' : ((List.range (d.asked s).length).filter fun n => d.told ⟨s, n⟩ = 0).Pairwise (· < ·) :=
    List.pairwise_lt_range.filter _
  have hperm : ((d.queue s).line.map (·.number)).Perm
      ((List.range (d.asked s).length).filter fun n => d.told ⟨s, n⟩ = 0) := by
    apply (List.perm_ext_iff_of_nodup _ _).mpr hmem
    · exact hsorted.imp Nat.ne_of_lt
    · exact hsorted'.imp Nat.ne_of_lt
  apply hperm.eq_of_pairwise _ hsorted hsorted'
  intro a b _ _ hab hba
  exact absurd hba (Nat.lt_asymm hab)

/-- Every handler in the table is the engine's. -/
theorem owner_mem (h : Sound d) {x : Handler Kind Subscriber} (hx : x ∈ d.hub.handlers.entries) :
    x.owner = Engine.commandOwner ∨ ∃ s, x.owner ∈ (d.queue s).owners := by
  rcases List.mem_cons.mp (h.subscribed.mem_iff.mp hx) with rfl | hx
  · exact .inl rfl
  · obtain ⟨s, _, hx⟩ := List.mem_flatMap.mp hx
    obtain ⟨r, hr, howner, _⟩ := JobQueue.owner_of_mem_handlers hx
    refine .inr ⟨s, ?_⟩
    rw [JobQueue.owners, hr, howner]
    exact List.mem_singleton_self _

/-- And so is every timer. -/
theorem cookie_mem (h : Sound d) {x : Timer Ticket} (hx : x ∈ d.hub.timers.armed) :
    ∃ s, x.cookie ∈ (d.queue s).cookies := by
  obtain ⟨r, hr, -, hc⟩ := h.tended.owned x hx
  refine ⟨x.tag.service, ?_⟩
  rw [JobQueue.cookies, hr]
  simp [hc]

end Desk.Sound

namespace Engine

/-- Ending an engine fails every job of which nobody was told how it ended: the commands in the order of their
submissions, then our transfers, then our peers', after all that was told before. Nothing is offered to the
link, and the tables that the engine shares are left empty. If others put handlers or timers there, in
whatever places, the same is told, and what is left is theirs, as it was. -/
theorem close_fails_pending (config : Config) (link : Link) (clock : Instant) (inputs : List Input) :
    let r := (idle config link clock).run inputs
    let ended := r.next close
    let fails (s : Service) (outcome : Outcome) : List Effect :=
      (r.untold inputs s).map fun n => .result ⟨s, n⟩ outcome
    ended.effects = r.effects ++ fails .commands (.commandFailed .connectionError) ++
        fails (.mission .client) (.failed .cancelled) ++ fails (.mission .server) (.failed .cancelled) ∧
      (∀ s, (r.engine.queue s).line.map (·.number) = r.untold inputs s ∧ (ended.engine.queue s).line = []) ∧
      ended.engine.hub.link = r.engine.hub.link ∧
      ended.engine.hub.handlers.entries = [] ∧ ended.engine.hub.timers.armed = [] ∧
      ∀ handlers timers, let shared := (r.engine.sharing handlers timers).close
        shared.effects = r.engine.close.effects ∧ shared.engine.hub.link = r.engine.hub.link ∧
          shared.engine.hub.handlers.entries = handlers.filter (·.owner ∉ r.engine.owners) ∧
          shared.engine.hub.timers.armed = timers.filter (·.cookie ∉ r.engine.cookies) := by
  intro r ended fails
  have hsound : ((idle config link clock).deskAfter inputs).Sound := sound_run config link clock inputs
  have hsheds : r.engine.hub.Sheds r.engine.owners r.engine.cookies ended.engine.hub := sheds_close r.engine
  have hline : ∀ s, (r.engine.queue s).line.map (·.number) = r.untold inputs s :=
    fun s => hsound.numbers_line rfl s
  have hfails : ∀ s,
      ((r.engine.queue s).line.map fun w => Effect.result ⟨s, w.number⟩ (.failure w.task.abandonment)) =
      fails s s.abandonment := by
    intro s
    simp only [fails, ← hline, List.map_map]
    apply List.map_congr_left
    intro w hw
    rw [abandonment_of_submitted (hsound.lined.asked hw)]
    rfl
  refine ⟨?_, fun s => ⟨hline s, ?_⟩, hsheds.link, ?_, ?_, fun handlers timers => ?_⟩
  · show r.effects ++ r.engine.close.effects = _
    rw [effects_close]
    simp only [hfails, Service.all, List.flatMap_cons, List.flatMap_nil, List.append_nil, List.append_assoc]
    rfl
  · obtain _ | ⟨_ | _⟩ := s <;> rfl
  · rw [hsheds.handlers, List.filter_eq_nil_iff]
    intro x hx hleft
    apply of_decide_eq_true hleft
    rcases hsound.owner_mem hx with hcommand | ⟨s, hs⟩
    · rw [hcommand]
      exact List.mem_cons_self
    · exact List.mem_cons_of_mem _ (List.mem_flatMap.mpr ⟨s, Service.mem_all s, hs⟩)
  · rw [hsheds.timers, List.filter_eq_nil_iff]
    intro x hx hleft
    apply of_decide_eq_true hleft
    obtain ⟨s, hs⟩ := hsound.cookie_mem hx
    exact List.mem_flatMap.mpr ⟨s, Service.mem_all s, hs⟩
  · have hshared := sheds_close (r.engine.sharing handlers timers)
    refine ⟨?_, hshared.link, hshared.handlers, hshared.timers⟩
    rw [effects_close, effects_close]
    rfl

end Engine

end GroundLink
