import Mathlib.Data.List.Induction
import GroundLink.Proofs.Isolation

/-! What becomes of the messages that come in. Only what comes in is left for a queue as a message
(`Engine.received_of_posted`), once if at all, and a queue takes what was left for it in order. So what its
jobs have heard is a selection of what came in, and nothing is heard twice (`Engine.heard_sublist`). -/

namespace GroundLink

open Function Deed

/-- The message an event brings. -/
def Event.received? : Event → Option (Header × Message)
  | message _ header m => some (header, m)
  | expiry _ _ => none

/-- The message that comes in. -/
def Input.received? : Input → Option (Header × Message)
  | receive header m => some (header, m)
  | _ => none

/-- The message that a job acts on. -/
def Deed.heard? : Deed → Option (Header × Message)
  | heeded x => x.event.received?
  | _ => none

/-- The messages that the jobs of a queue have acted on, in order. -/
def heard (log : List Deed) : List (Header × Message) := log.filterMap Deed.heard?

/-- The messages that came in, in order. -/
def received (inputs : List Input) : List (Header × Message) := inputs.filterMap Input.received?

/-- The event a subscriber leaves tells what was received. -/
theorem Subscriber.message_of_event? {x : Subscriber} {s : Service} {header : Header}
    {m : Message} {e : Event} (h : x.event? s header m = some e) : ∃ job, e = .message job header m := by
  cases x <;>
    (rw [event?, Option.ite_none_right_eq_some] at h
     exact ⟨_, (Option.some.inj h.2).symm⟩)

namespace Deed

variable {log deeds : List Deed}

theorem postings_append (log deeds : List Deed) : postings (log ++ deeds) = postings log ++ postings deeds :=
  List.filterMap_append

theorem postings_map_posted (events : List Event) : postings (events.map .posted) = events := by
  rw [postings, List.filterMap_map]
  exact List.filterMap_some

/-- What jobs act on is taken from the queue. -/
theorem heard_sublist_taken (log : List Deed) :
    (heard log).Sublist ((taken log).filterMap Event.received?) := by
  induction log with
  | nil => exact List.Sublist.refl []
  | cons x log ih =>
      cases x with
      | heeded t =>
          have hheard : heard (.heeded t :: log) = t.event.received?.toList ++ heard log :=
            List.filterMap_cons.trans (by cases ht : t.event.received? <;> simp [heard?, ht, heard])
          have htaken : (taken (.heeded t :: log)).filterMap Event.received? =
              t.event.received?.toList ++ (taken log).filterMap Event.received? :=
            List.filterMap_cons.trans (by cases ht : t.event.received? <;> simp [taken])
          rw [hheard, htaken]
          exact ih.append_left _
      | dropped e => exact ih.trans ((List.sublist_cons_self e (taken log)).filterMap _)
      | _ => exact ih

end Deed

namespace Engine

/-- Only what comes in is left for a queue as a message. -/
theorem received_of_posted (e : Engine) {s : Service} {i : Input} {job : Option Nat}
    {header : Header} {m : Message} (h : .posted (.message job header m) ∈ e.deeds s i) :
    i = .receive header m := by
  let P (past : List Deed) : Prop :=
    ∀ job header m, posted (.message job header m) ∈ past → i = .receive header m
  have hact : ∀ d d' deeds past, P past → Desk.Act i s d deeds d' → P (past ++ deeds) := by
    intro d d' deeds past hpast hact job header m hmem
    rcases List.mem_append.mp hmem with hold | hnew
    · exact hpast job header m hold
    · cases hact with
      | clear idle =>
          obtain ⟨e, _, he⟩ := List.mem_map.mp hnew
          cases he
      | deliver received subscribed heard =>
          obtain ⟨job', rfl⟩ := Subscriber.message_of_event? heard
          cases List.mem_singleton.mp hnew
          exact received
      | tell owing => cases hnew
      | enrol asked => cases hnew
      | _ => cases List.mem_singleton.mp hnew
  have hnone : P [] := fun _ _ _ hnone => absurd hnone List.not_mem_nil
  exact logs_step (P := fun _ => P) hact (fun _ _ _ _ _ _ h _ => h) e [] (fun _ => []) hnone job header m h

variable (config : Config) (link : Link) (clock : Instant)

/-- While an input is taken in, at most the message that it brings is left for a queue. -/
theorem posted_sublist (s : Service) (before : List Input) (i : Input) :
    ((postings (((idle config link clock).run before).engine.deeds s i)).filterMap Event.received?).Sublist
      i.received?.toList := by
  generalize he : ((idle config link clock).run before).engine = e
  have hmem : ∀ x ∈ (postings (e.deeds s i)).filterMap Event.received?, i.received? = some x := by
    intro x hx
    obtain ⟨event, hevent, hx⟩ := List.mem_filterMap.mp hx
    obtain ⟨deed, hdeed, hposts⟩ := List.mem_filterMap.mp hevent
    cases deed with
    | posted event' =>
        cases hposts
        cases event with
        | message job header m =>
            cases hx
            rw [received_of_posted e hdeed]
            rfl
        | expiry job c => cases hx
    | _ => cases hposts
  have hlength : ((postings (e.deeds s i)).filterMap Event.received?).length ≤ i.received?.toList.length := by
    cases i with
    | receive header m =>
        subst he
        rw [deeds_receive, postings_map_posted]
        exact (List.length_filterMap_le _ _).trans (JobQueue.length_hears_le _ header m s)
    | _ =>
        refine (congrArg List.length (List.eq_nil_iff_forall_not_mem.mpr fun x hx => ?_)).le
        cases hmem x hx
  generalize (postings (e.deeds s i)).filterMap Event.received? = messages at hmem hlength ⊢
  match messages with
  | [] => exact List.nil_sublist _
  | [x] =>
      rw [hmem x (List.mem_singleton_self x)]
      exact List.Sublist.refl _
  | x :: y :: more =>
      rw [hmem x List.mem_cons_self] at hlength
      simp at hlength

/-- The messages that are taken from a queue are a selection of those that came in, in order
and none of them twice. -/
theorem taken_sublist (s : Service) (inputs : List Input) :
    ((taken ((idle config link clock).log s inputs)).filterMap Event.received?).Sublist
      (received inputs) := by
  have hposted : ((postings ((idle config link clock).log s inputs)).filterMap Event.received?).Sublist
      (received inputs) := by
    induction inputs using List.reverseRecOn with
    | nil => exact List.Sublist.refl []
    | append_singleton before i ih =>
        have hreceived : received (before ++ [i]) = received before ++ i.received?.toList := by
          rw [received, List.filterMap_append, ← received]
          cases hi : i.received? <;> simp [hi]
        rw [hreceived, log_append, log, log, List.append_nil, postings_append, List.filterMap_append]
        exact ih.append (posted_sublist config link clock s before i)
  have horder := (fresh_run config link clock s inputs).order
  rw [horder, List.filterMap_append] at hposted
  exact (List.sublist_append_left _ _).trans hposted

/-- So are those that its jobs act on. -/
theorem heard_sublist (s : Service) (inputs : List Input) :
    (heard ((idle config link clock).log s inputs)).Sublist (received inputs) :=
  (heard_sublist_taken _).trans (taken_sublist config link clock s inputs)

end Engine

end GroundLink
