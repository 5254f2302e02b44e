import Mathlib.Data.List.Induction
import Mathlib.Data.List.Nodup
import GroundLink.Proofs.TimerScene

/-! The life of a timer, from the moment it is armed to the one it fires or is removed, over any turns of a
caller and whatever the owners of the timers do in the passes. -/

namespace GroundLink.Timers

open Relation

variable {τ : Type}

/-- Whether a scene can come about, with the pass under way in it. -/
inductive Scene.Reached : Option Sweep → Scene τ → Prop
  | start (clock : Instant) : Reached none (.empty, ⟨clock, []⟩)
  | next {p : Option Sweep} {s : Scene τ} {m : Moment τ} (h : Reached p s) (hnext : s.Next p m) :
      Reached (m.sweep p) (s.after m)

/-- Whether the timer of a cookie was armed once and is no more. -/
def Absent (t : Timers τ) (c : Cookie) : Prop := c < t.issued ∧ ∀ x ∈ t.armed, x.cookie ≠ c

/-- Whether a timer may fire after `past`: a pass is under way, it was armed before that pass, and what was
left of its span has gone by when the pass began. -/
def Ripe (past : List (Moment τ)) (x : Timer τ) : Prop :=
  ∃ u b during, past = u ++ b :: during ∧ b.incident = .began ∧ (∀ n ∈ during, n.Within) ∧
    (∃ a ∈ u, a.incident = .added x.cookie x.span x.tag) ∧
    Since (fun n => n.Sets x.cookie ∧ min (n.clock.toNat + x.span.micros) (UInt64.size - 1) ≤ b.clock.toNat)
      (Moment.Sets x.cookie) past

section
variable {t : Timers τ} {c : Cookie}

theorem contains_iff : t.contains c = true ↔ ∃ x ∈ t.armed, x.cookie = c := by simp [contains]

theorem Absent.remove (h : t.Absent c) : t.remove c = t := by
  have hkept : t.armed.filter (·.cookie ≠ c) = t.armed :=
    List.filter_eq_self.mpr fun x hx => by simpa using h.2 x hx
  rw [Timers.remove, hkept]

theorem Absent.refresh (h : t.Absent c) (now : Instant) : t.refresh now c = t := by
  have hkept : (t.armed.map fun x => if x.cookie = c then { x with deadline := now.after x.span } else x) =
      t.armed :=
    (List.map_congr_left fun x hx => if_neg (h.2 x hx)).trans (List.map_id' _)
  rw [Timers.refresh, hkept]

end

section
variable {p : Option Sweep} {s : Scene τ} {m : Moment τ} {c : Cookie}

theorem Moment.sweep_of_within (h : m.Within) : m.sweep p = p := by
  rw [Moment.sweep]
  cases hm : m.incident with
  | began => exact absurd hm h.1
  | ended => exact absurd hm h.2
  | _ => rfl

theorem Scene.Next.issued_le (h : s.Next p m) : s.1.issued ≤ m.table.issued := by
  rw [h.table]
  cases m.incident with
  | added c span tag => exact Nat.le_succ _
  | _ => exact Nat.le_refl _

theorem Scene.Next.issued_of_adds (h : s.Next p m) (hc : m.Adds c) : m.table.issued = c + 1 := by
  obtain ⟨span, tag, hm⟩ := id hc
  rw [h.table, hm, h.fresh c hc]
  rfl

theorem exists_remove_iff {t : Timers τ} {c' : Cookie} :
    (∃ x ∈ (t.remove c').armed, x.cookie = c) ↔ (∃ x ∈ t.armed, x.cookie = c) ∧ c ≠ c' := by
  simp only [mem_remove]
  constructor
  · rintro ⟨x, ⟨hx, hne⟩, rfl⟩
    exact ⟨⟨x, hx, rfl⟩, hne⟩
  · rintro ⟨⟨x, hx, rfl⟩, hne⟩
    exact ⟨x, ⟨hx, hne⟩, rfl⟩

/-- A timer is armed after a moment if it is new there, or was armed and is not gone. -/
theorem Scene.Next.armed_iff (h : s.Next p m) :
    (∃ x ∈ m.table.armed, x.cookie = c) ↔ m.Adds c ∨ ((∃ x ∈ s.1.armed, x.cookie = c) ∧ ¬m.Ends c) := by
  obtain ⟨i, clock, table⟩ := m
  obtain rfl : table = s.1.change clock i := h.table
  cases i with
  | added c' span tag =>
      have hc' : c' = s.1.issued := h.fresh c' ⟨span, tag, rfl⟩
      simp [change, Moment.Adds, Moment.Ends, hc', or_and_right, exists_or, or_comm]
  | refreshed c' =>
      have hcookies : c ∈ (s.1.refresh clock c').armed.map (·.cookie) ↔ c ∈ s.1.armed.map (·.cookie) := by
        rw [cookies_refresh]
      simpa [change, Moment.Adds, Moment.Ends] using hcookies
  | removed c' =>
      rw [change, exists_remove_iff]
      simp [Moment.Adds, Moment.Ends, eq_comm]
  | fired x =>
      rw [change, exists_remove_iff]
      simp [Moment.Adds, Moment.Ends, eq_comm]
  | clockSet | began | ended => simp [change, Moment.Adds, Moment.Ends]

theorem Scene.Next.absent (h : s.Next p m) (hc : s.1.Absent c) : m.table.Absent c := by
  refine ⟨Nat.lt_of_lt_of_le hc.1 h.issued_le, fun x hx hcookie => ?_⟩
  rcases h.armed_iff.mp ⟨x, hx, hcookie⟩ with hadds | ⟨⟨y, hy, hcookie⟩, -⟩
  · exact absurd (h.fresh c hadds) (Nat.ne_of_lt hc.1)
  · exact hc.2 y hy hcookie

theorem Scene.Next.absent_of_ends (h : s.Next p m) (hissued : c < s.1.issued) (hends : m.Ends c) :
    m.table.Absent c := by
  refine ⟨Nat.lt_of_lt_of_le hissued h.issued_le, fun x hx hcookie => ?_⟩
  rcases h.armed_iff.mp ⟨x, hx, hcookie⟩ with hadds | ⟨-, hkept⟩
  · exact absurd (h.fresh c hadds) (Nat.ne_of_lt hissued)
  · exact hkept hends

/-- Nothing is done to a timer that is absent. -/
theorem Scene.Next.table_of_absent (h : s.Next p m) (hc : s.1.Absent c)
    (hm : m.incident = .refreshed c ∨ m.incident = .removed c) : m.table = s.1 := by
  rw [h.table]
  rcases hm with hm | hm
  · rw [hm]
    exact hc.refresh m.clock
  · rw [hm]
    exact hc.remove

theorem Scene.Next.armed_of_fired {x : Timer τ} (h : s.Next p m) (hx : m.incident = .fired x) :
    x ∈ s.1.armed := by
  obtain ⟨q, -, hdue⟩ := h.due x hx
  exact (armed_of_due? hdue).1

end

section
variable {p : Option Sweep} {s : Scene τ} {before rest : List (Moment τ)} {m : Moment τ} {c : Cookie}

theorem mem_handedOut_iff {past : List (Moment τ)} : c ∈ handedOut past ↔ ∃ m ∈ past, m.Adds c := by
  rw [handedOut, List.mem_filterMap]
  refine exists_congr fun m => and_congr_right fun _ => ?_
  rw [Moment.Adds]
  cases m.incident <;> simp [Incident.handedOut?]

theorem mem_fired_iff {past : List (Moment τ)} {x : Timer τ} :
    x ∈ fired past ↔ ∃ m ∈ past, m.incident = .fired x := by
  rw [fired, List.mem_filterMap]
  refine exists_congr fun m => and_congr_right fun _ => ?_
  cases m.incident <;> simp [Incident.fired?]

namespace Scene.Reached

theorem left_past (h : Reached p s) : left s.2.past = s.1 := by
  cases h with
  | start clock => rfl
  | next h hnext => exact left_concat

/-- A moment of the past comes next after what lies before it. -/
theorem split (h : Reached p s) (hpast : s.2.past = before ++ m :: rest) :
    ∃ p' s', Reached p' s' ∧ s'.Next p' m ∧ s'.2.past = before := by
  induction h generalizing rest with
  | start clock => exact absurd hpast.symm (by simp)
  | @next p s n h hnext ih =>
      rcases split_concat hpast with ⟨rfl, rfl, rfl⟩ | ⟨rest', -, hpast⟩
      · exact ⟨p, s, h, hnext, rfl⟩
      · exact ih hpast

theorem prior (h : Reached p s) (hpast : s.2.past = before ++ rest) :
    ∃ p' s', Reached p' s' ∧ s'.2.past = before := by
  cases rest with
  | nil => exact ⟨p, s, h, by rw [hpast, List.append_nil]⟩
  | cons m rest =>
      obtain ⟨p', s', h', -, hbefore⟩ := h.split hpast
      exact ⟨p', s', h', hbefore⟩

theorem ascending (h : Reached p s) :
    (handedOut s.2.past).Pairwise (· < ·) ∧ ∀ c ∈ handedOut s.2.past, c < s.1.issued := by
  induction h with
  | start clock => exact ⟨List.Pairwise.nil, fun _ hc => absurd hc List.not_mem_nil⟩
  | @next p s m h hnext ih =>
      have hlast (c : Cookie) (hc : c ∈ m.incident.handedOut?.toList) : m.Adds c := by
        have hm := mem_handedOut_iff.mp (by rwa [handedOut_concat] : c ∈ handedOut ([] ++ [m]))
        simpa using hm
      change (handedOut (s.2.past ++ [m])).Pairwise _ ∧ ∀ c ∈ handedOut (s.2.past ++ [m]), c < m.table.issued
      rw [handedOut_concat]
      refine ⟨List.pairwise_append.mpr ⟨ih.1, ?_, fun c hc d hd => ?_⟩, fun c hc => ?_⟩
      · cases m.incident.handedOut? <;> simp
      · rw [hnext.fresh d (hlast d hd)]
        exact ih.2 c hc
      · rcases List.mem_append.mp hc with hc | hc
        · exact Nat.lt_of_lt_of_le (ih.2 c hc) hnext.issued_le
        · rw [hnext.issued_of_adds (hlast c hc)]
          exact Nat.lt_succ_self c

theorem issued_of_adds (h : Reached p s) (hc : ∃ a ∈ s.2.past, a.Adds c) : c < s.1.issued :=
  h.ascending.2 c (mem_handedOut_iff.mpr hc)

theorem armed_iff (h : Reached p s) :
    (∃ x ∈ s.1.armed, x.cookie = c) ↔ Since (Moment.Adds c) (Moment.Ends c) s.2.past := by
  induction h with
  | start clock => simp [empty, Since]
  | next h hnext ih => exact hnext.armed_iff.trans (by rw [ih]; exact since_concat.symm)

/-- How an armed timer was last given its whole span. -/
theorem armed (h : Reached p s) {x : Timer τ} (hx : x ∈ s.1.armed) :
    (∃ a ∈ s.2.past, a.incident = .added x.cookie x.span x.tag) ∧
      Since (fun m => m.Sets x.cookie ∧ m.clock.after x.span = x.deadline)
        (Moment.Sets x.cookie) s.2.past := by
  induction h generalizing x with
  | start clock => exact absurd hx List.not_mem_nil
  | @next p s m h hnext ih =>
      change (∃ a ∈ s.2.past ++ [m], _) ∧ Since _ _ (s.2.past ++ [m])
      rw [since_concat]
      have hlast : m ∈ s.2.past ++ [m] := List.mem_append_right _ List.mem_cons_self
      have hearlier : ∀ a ∈ s.2.past, a ∈ s.2.past ++ [m] := fun a ha => List.mem_append_left _ ha
      change x ∈ m.table.armed at hx
      rw [hnext.table] at hx
      rcases armed_of_change hx with ⟨hx, hkept, -⟩ | ⟨c, span, tag, hm, rfl⟩ | ⟨y, hy, hm, rfl⟩
      · obtain ⟨⟨a, ha, hadded⟩, hsince⟩ := ih hx
        refine ⟨⟨a, hearlier a ha, hadded⟩, .inr ⟨hsince, ?_⟩⟩
        rintro (hadds | hrefreshed)
        · have hlt : x.cookie < s.1.issued := h.issued_of_adds ⟨a, ha, x.span, x.tag, hadded⟩
          exact absurd (hnext.fresh _ hadds) (Nat.ne_of_lt hlt)
        · exact hkept hrefreshed
      · obtain rfl : c = s.1.issued := hnext.fresh c ⟨span, tag, hm⟩
        exact ⟨⟨m, hlast, hm⟩, .inl ⟨.inl ⟨span, tag, hm⟩, rfl⟩⟩
      · obtain ⟨⟨a, ha, hadded⟩, -⟩ := ih hy
        exact ⟨⟨a, hearlier a ha, hadded⟩, .inl ⟨.inr hm, rfl⟩⟩

/-- Where the pass under way began. -/
theorem sweep (h : Reached p s) {q : Sweep} (hq : p = some q) :
    q.horizon ≤ s.1.issued ∧ ∃ u b during, s.2.past = u ++ b :: during ∧ b.incident = .began ∧
      b.clock = q.now ∧
      (∀ n ∈ during, n.Within) ∧ ∀ n ∈ during, ∀ c, n.Adds c → q.horizon ≤ c := by
  induction h generalizing q with
  | start clock => cases hq
  | @next p s m h hnext ih =>
      by_cases hwithin : m.Within
      · rw [Moment.sweep_of_within hwithin] at hq
        obtain ⟨hissued, u, b, during, hpast, hb, hclock, hduring, hyoung⟩ := ih hq
        refine ⟨Nat.le_trans hissued hnext.issued_le, u, b, during ++ [m], ?_, hb, hclock, ?_, ?_⟩
        · change s.2.past ++ [m] = _
          rw [hpast, List.append_assoc, List.cons_append]
        · exact List.forall_mem_append.mpr ⟨hduring, List.forall_mem_singleton.mpr hwithin⟩
        · refine List.forall_mem_append.mpr ⟨hyoung, List.forall_mem_singleton.mpr fun c hc => ?_⟩
          rw [hnext.fresh c hc]
          exact hissued
      · cases hm : m.incident with
        | began =>
            rw [Moment.sweep, hm, Option.some.injEq] at hq
            subst hq
            exact ⟨Nat.le_refl _, s.2.past, m, [], rfl, hm, rfl, nofun, nofun⟩
        | ended =>
            rw [Moment.sweep, hm] at hq
            cases hq
        | _ => exact absurd ⟨by rw [hm]; nofun, by rw [hm]; nofun⟩ hwithin

theorem ripe (h : Reached p s) (hnext : s.Next p m) {x : Timer τ} (hm : m.incident = .fired x) :
    Ripe s.2.past x := by
  obtain ⟨q, hq, hdue⟩ := hnext.due x hm
  obtain ⟨⟨a, ha, hadded⟩, hsince⟩ := h.armed (armed_of_due? hdue).1
  obtain ⟨-, u, b, during, hpast, hb, hclock, hduring, hyoung⟩ := h.sweep hq
  refine ⟨u, b, during, hpast, hb, hduring, ⟨a, ?_, hadded⟩, hsince.mono fun n _ hn => ⟨hn.1, ?_⟩⟩
  · rw [hpast] at ha
    rcases List.mem_append.mp ha with ha | ha
    · exact ha
    · rcases List.mem_cons.mp ha with rfl | ha
      · rw [hb] at hadded
        cases hadded
      · exact absurd (hyoung a ha x.cookie ⟨x.span, x.tag, hadded⟩) (Nat.not_le.mpr (old_of_due? hdue))
  · rw [← Instant.toNat_after, hn.2, hclock]
    exact UInt64.le_iff_toNat_le.mp (armed_of_due? hdue).2

/-- What fired is absent ever after, so that nothing fires twice. -/
theorem fired_nodup (h : Reached p s) :
    ((fired s.2.past).map (·.cookie)).Nodup ∧ ∀ x ∈ fired s.2.past, s.1.Absent x.cookie := by
  induction h with
  | start clock => exact ⟨List.nodup_nil, nofun⟩
  | @next p s m h hnext ih =>
      have hlater : ∀ x ∈ fired s.2.past, m.table.Absent x.cookie := fun x hx => hnext.absent (ih.2 x hx)
      change ((fired (s.2.past ++ [m])).map _).Nodup ∧ ∀ x ∈ fired (s.2.past ++ [m]), m.table.Absent x.cookie
      rw [fired_concat]
      cases hm : m.incident with
      | fired x =>
          have hx : x ∈ s.1.armed := hnext.armed_of_fired hm
          obtain ⟨⟨a, ha, hadded⟩, -⟩ := h.armed hx
          have hissued : x.cookie < s.1.issued := h.issued_of_adds ⟨a, ha, x.span, x.tag, hadded⟩
          rw [Incident.fired?, Option.toList_some, List.map_append, List.map_singleton]
          constructor
          · rw [← List.concat_eq_append, List.nodup_concat]
            refine ⟨fun hmem => ?_, ih.1⟩
            obtain ⟨y, hy, hcookie⟩ := List.mem_map.mp hmem
            exact (ih.2 y hy).2 x hx hcookie.symm
          · exact List.forall_mem_append.mpr ⟨hlater,
              List.forall_mem_singleton.mpr (hnext.absent_of_ends hissued (.inr ⟨x, hm, rfl⟩))⟩
      | _ => simpa [Incident.fired?] using ⟨ih.1, hlater⟩

/-- What is gone stays so, whatever is asked of it. -/
theorem gone (h : Reached p s) (hpast : s.2.past = before ++ m :: rest) (hends : m.Ends c)
    (hadded : ∃ a ∈ before, a.Adds c) :
    s.1.Absent c ∧ (∀ x ∈ fired rest, x.cookie ≠ c) ∧ ∀ mid n behind, rest = mid ++ n :: behind →
      (n.incident = .refreshed c ∨ n.incident = .removed c) → n.table = left (before ++ m :: mid) := by
  induction h generalizing rest with
  | start clock => exact absurd hpast.symm (by simp)
  | @next p s k h hnext ih =>
      rcases split_concat hpast with ⟨rfl, rfl, rfl⟩ | ⟨rest', rfl, hpast'⟩
      · refine ⟨hnext.absent_of_ends (h.issued_of_adds hadded) hends, nofun, fun mid n behind hsplit => ?_⟩
        exact absurd hsplit.symm (by simp)
      · obtain ⟨habsent, hfired, hidle⟩ := ih hpast'
        refine ⟨hnext.absent habsent, fun x hx => ?_, fun mid n behind hsplit hn => ?_⟩
        · obtain ⟨n, hn, hx⟩ := mem_fired_iff.mp hx
          rcases List.mem_append.mp hn with hn | hn
          · exact hfired x (mem_fired_iff.mpr ⟨n, hn, hx⟩)
          · rw [List.mem_singleton.mp hn] at hx
            exact habsent.2 x (hnext.armed_of_fired hx)
        · rcases split_concat hsplit with ⟨-, rfl, rfl⟩ | ⟨behind', -, hsplit'⟩
          · rw [← hpast', h.left_past]
            exact hnext.table_of_absent habsent hn
          · exact hidle mid n behind' hsplit' hn

theorem moves {q : Sweep} {s' : Scene τ} (h : Reached (some q) s) (hmoves : ReflTransGen (Moves q) s s') :
    Reached (some q) s' := by
  induction hmoves with
  | refl => exact h
  | tail _ hstep ih =>
      obtain ⟨m, hnext, hwithin, rfl⟩ := hstep
      have hreached := ih.next hnext
      rwa [Moment.sweep_of_within hwithin] at hreached

theorem perform (h : Reached p s) (a : Act τ) : Reached p (s.perform a) := by
  obtain ⟨m, hnext, hwithin, hperform⟩ := next_perform p s a
  have hreached := h.next hnext
  rwa [Moment.sweep_of_within hwithin, ← hperform] at hreached

theorem pass (h : Reached none s) (owners : Owners τ) : Reached none (s.turn owners .pass) := by
  have hbegan : Reached (some ⟨s.2.clock, s.1.issued⟩) (s.note .began) :=
    h.next (m := ⟨.began, s.2.clock, s.1⟩) ⟨rfl, nofun, nofun⟩
  have hended := hbegan.moves (moves_passFrom ⟨s.2.clock, s.1.issued⟩ owners s.1.size (s.note .began))
  exact hended.next (m := ⟨.ended, _, _⟩) ⟨rfl, nofun, nofun⟩

end Scene.Reached

theorem reached_run (owners : Owners τ) (clock : Instant) (turns : List (Turn τ)) :
    Scene.Reached none (Scene.run owners clock turns) := by
  induction turns using List.reverseRecOn with
  | nil => exact .start clock
  | append_singleton turns t ih =>
      rw [Scene.run, List.foldl_append]
      cases t with
      | act a => exact ih.perform a
      | pass => exact ih.pass owners

end

/-- What the lives of the timers in a past are like. -/
structure LifeCycle (past : List (Moment τ)) : Prop where
  /-- Every cookie is larger than those handed out before it. -/
  ascending : (handedOut past).Pairwise (· < ·)
  once : ((fired past).map (·.cookie)).Nodup
  /-- A timer fires as it was armed, in a pass that began after that, and late enough
  for its last whole span. -/
  ripe : ∀ before m rest x, past = before ++ m :: rest → m.incident = .fired x → Ripe before x
  /-- At every time the armed timers are those that were added and neither fired nor were removed since. -/
  contained : ∀ before rest, past = before ++ rest → ∀ c,
    (left before).contains c = true ↔ Since (Moment.Adds c) (Moment.Ends c) before
  /-- What has fired or was removed never fires again, and to refresh or remove it
  leaves the table as it was. -/
  gone : ∀ before m rest c, past = before ++ m :: rest → m.Ends c → (∃ a ∈ before, a.Adds c) →
    (∀ x ∈ fired rest, x.cookie ≠ c) ∧ ∀ mid n behind, rest = mid ++ n :: behind →
      (n.incident = .refreshed c ∨ n.incident = .removed c) → n.table = left (before ++ m :: mid)

/-- Whatever is done with a table of timers, and whatever their owners do as they fire, the
timers live like this. -/
theorem lifeCycle_run (owners : Owners τ) (clock : Instant) (turns : List (Turn τ)) :
    LifeCycle (Scene.run owners clock turns).2.past ∧
      left (Scene.run owners clock turns).2.past = (Scene.run owners clock turns).1 := by
  have h := reached_run owners clock turns
  refine ⟨⟨h.ascending.1, h.fired_nodup.1, ?_, ?_, ?_⟩, h.left_past⟩
  · intro before m rest x hpast hm
    obtain ⟨p, s, hs, hnext, rfl⟩ := h.split hpast
    exact hs.ripe hnext hm
  · intro before rest hpast c
    obtain ⟨p, s, hs, rfl⟩ := h.prior hpast
    rw [hs.left_past, contains_iff]
    exact hs.armed_iff
  · intro before m rest c hpast hends hadded
    exact (h.gone hpast hends hadded).2

/-- A timer that arms another one as it fires, due at once: that one is left for the next pass. -/
example :
    let rearm : Owners Unit := fun x _ => if x.cookie = 0 then [.add ⟨0⟩ ()] else []
    let turns : List (Turn Unit) := [.act (.add ⟨10000000⟩ ()), .act (.set 10000), .pass]
    (fired (Scene.run rearm 0 turns).2.past).map (·.cookie) = [0] ∧
      (fired (Scene.run rearm 0 (turns ++ [.pass])).2.past).map (·.cookie) = [0, 1] := by
  decide +kernel

end GroundLink.Timers
