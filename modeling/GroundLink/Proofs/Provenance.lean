import GroundLink.Proofs.Budget
import GroundLink.Proofs.Reception
import GroundLink.Proofs.Strike

/-! Where the messages come from that jobs act on. Each was received while its job was under way, and the
queue of the job heard it then (`Engine.heard_of_heeded`). -/

namespace GroundLink

open Function Deed

namespace Engine

/-- What is done at some point of a log is done while one of the inputs is taken in. -/
theorem log_split {s : Service} {x : Deed} {rest : List Deed} (inputs : List Input) :
    ∀ {e : Engine} {past : List Deed}, e.log s inputs = past ++ x :: rest →
      ∃ before i after left right, inputs = before ++ i :: after ∧ past = e.log s before ++ left ∧
        (e.run before).engine.deeds s i = left ++ x :: right := by
  induction inputs with
  | nil =>
      intro e past h
      cases past <;> cases h
  | cons i inputs ih =>
      intro e past h
      rw [log] at h
      rcases List.append_eq_append_iff.mp h with ⟨left, rfl, hlater⟩ | ⟨right, hnow, hrest⟩
      · obtain ⟨before, i', after, left', right, rfl, rfl, hdeeds⟩ := ih hlater
        refine ⟨i :: before, i', after, left', right, rfl, ?_, hdeeds⟩
        rw [log, List.append_assoc]
      · cases right with
        | nil =>
            rw [List.append_nil] at hnow
            obtain ⟨before, i', after, left', right, rfl, hpast, hdeeds⟩ :=
              @ih (e.step i).engine [] hrest.symm
            refine ⟨i :: before, i', after, left', right, rfl, ?_, hdeeds⟩
            rw [log, List.append_assoc, ← hpast, List.append_nil, hnow]
        | cons y right =>
            cases hrest
            exact ⟨[], i, inputs, past, right, rfl, rfl, hnow⟩

variable (config : Config) (link : Link) (clock : Instant) (inputs : List Input)

/-- A message that a job acts on was received while the job was under way, and its queue heard it then. -/
theorem heard_of_heeded {s : Service} {x : Taking} {job : Option Nat} {header : Header} {m : Message}
    (hx : .heeded x ∈ (idle config link clock).log s inputs) (hevent : x.event = .message job header m) :
    ∃ before after, inputs = before ++ .receive header m :: after ∧
      let e := ((idle config link clock).run before).engine
      (e.queue s).running.map (·.number) = some x.job.number ∧ x.event ∈ (e.queue s).hears header m s := by
  obtain ⟨past, rest, hlog⟩ := List.append_of_mem hx
  obtain ⟨⟨started, w, h, since, later, hpast, hnumber, _⟩, hlives, _⟩ :=
    ((fresh_run config link clock s inputs).apt past (.heeded x) rest hlog).heeds x rfl
  -- the log is taken apart where the message was left for the queue
  have hpost : (idle config link clock).log s inputs =
      (started ++ .started w h :: since) ++ .posted x.event :: (later ++ .heeded x :: rest) := by
    rw [hlog, hpast]
    simp
  obtain ⟨before, i, after, left, right, rfl, hbefore, hdeeds⟩ := log_split inputs hpost
  obtain rfl : i = .receive header m := by
    have hposted : posted x.event ∈ ((idle config link clock).run before).engine.deeds s i :=
      hdeeds ▸ List.mem_append_right _ List.mem_cons_self
    rw [hevent] at hposted
    exact received_of_posted _ hposted
  rw [deeds_receive] at hdeeds
  obtain rfl : left = [] := by
    have hlength := congrArg List.length hdeeds
    have hone := (((idle config link clock).run before).engine.queue s).length_hears_le header m s
    rw [List.length_map, List.length_append, List.length_cons] at hlength
    exact List.eq_nil_of_length_eq_zero (by omega)
  refine ⟨before, after, rfl, ?_, ?_⟩
  · rw [List.append_nil] at hbefore
    have hunder := (filed_run config link clock s before).under
    have hbegun : w.number ∈ begun ((idle config link clock).log s before) :=
      List.mem_filterMap.mpr ⟨.started w h, hbefore ▸ List.mem_append_right _ List.mem_cons_self, rfl⟩
    rw [hunder] at hbegun
    rcases List.mem_append.mp hbegun with hended | hrunning
    · refine absurd ?_ hlives
      rw [hpast, ← hnumber, ← List.cons_append, ← List.append_assoc, hbefore, concluded,
        List.filterMap_append]
      exact List.mem_append_left _ hended
    · exact hnumber ▸ Option.mem_toList.mp hrunning
  · have hposted : posted x.event ∈
        ((((idle config link clock).run before).engine.queue s).hears header m s).map posted :=
      hdeeds ▸ List.mem_cons_self
    obtain ⟨e, he, heq⟩ := List.mem_map.mp hposted
    cases heq
    exact he

/-- All steps of jobs find the policies and the address of the engine they belong to. -/
theorem kin_of_actor? {s : Service} {x : Deed} (hx : x ∈ (idle config link clock).log s inputs)
    {n : Nat} {h : Hub} (ha : x.actor? = some (n, h)) : (idle config link clock).hub.Kin h := by
  have hrun := keeps_log (s := s)
    (P := fun d past => (idle config link clock).hub.Kin d.hub ∧
      ∀ x ∈ past, ∀ n h, x.actor? = some (n, h) → (idle config link clock).hub.Kin h)
    (fun i d past h => ⟨h.1.trans (by cases i <;> exact .refl _), h.2⟩)
    (fun i d d' deeds past _ h hact => by
      refine ⟨h.1.trans hact.step.kin, fun x hx n hub ha => ?_⟩
      rcases List.mem_append.mp hx with hold | hnew
      · exact h.2 x hold n hub ha
      · cases hact.plays hnew ha <;> (cases ha; exact h.1))
    (fun i t d d' deeds past _ _ h hact => ⟨h.1.trans hact.step.kin, h.2⟩) config link clock inputs
    ⟨.refl _, fun x hx => absurd hx List.not_mem_nil⟩
  exact hrun.2 x hx n h ha

end Engine

end GroundLink
