import Mathlib.Data.List.Nodup
import Mathlib.Data.List.Induction
import Mathlib.Logic.Function.Basic
import GroundLink.Script.Handlers

/-! Dispatches among changes to the table of handlers. A scene is a table with the dispatches under way and
with all that has happened so far. A handler that is called may do anything before the dispatch goes on: name
owners, register and take out handlers, dispatch messages in turn. So the dispatches under way go on in any
order here, and whatever the order, each calls the handlers that stood in the table when it began, once for
each registration and in the order of these (`Scene.Faithful`). What messages and their kinds are is left
open. The scripts for a table are such scenes. -/

namespace GroundLink.Handlers

open Function

/-- What happens at a table. Dispatches go by numbers, in the order in which they begin. -/
inductive Moment (κ μ η : Type)
  | allocated (owner : Owner)
  | registered (h : Handler κ η)
  | unregistered (kind : κ) (owner : Owner)
  | unregisteredAll (owner : Owner)
  | began (n : Nat) (header : Header) (m : μ)
  | called (n : Nat) (action : η) (header : Header) (m : μ)
  /-- A dispatch is over, and says how many it called. -/
  | returned (n count : Nat)

/-- A dispatch under way: whom it has left to call, and how many there are in all. -/
structure Call (μ η : Type) where
  header : Header
  message : μ
  left : List η
  count : Nat

structure Scene (κ μ η : Type) where
  table : Handlers κ η
  begun : Nat
  underWay : Nat → Option (Call μ η)
  past : List (Moment κ μ η)

/-- What is done next, by a handler or by someone outside; `goOn` has a dispatch make
its next call, or return. -/
inductive Turn (κ μ η : Type)
  | allocate
  | register (kind : κ) (owner : Owner) (action : η)
  | unregister (kind : κ) (owner : Owner)
  | unregisterAll (owner : Owner)
  | dispatch (header : Header) (m : μ)
  | goOn (n : Nat)

variable {κ μ η : Type} [DecidableEq κ]

namespace Scene

variable (kindOf : μ → κ)

def note (s : Scene κ μ η) (x : Moment κ μ η) : Scene κ μ η := { s with past := s.past ++ [x] }

def begin (s : Scene κ μ η) (header : Header) (m : μ) : Scene κ μ η :=
  let called := s.table.matching (kindOf m)
  { s with begun := s.begun + 1,
           underWay := update s.underWay s.begun (some ⟨header, m, called, called.length⟩) }.note
    (.began s.begun header m)

def advance (s : Scene κ μ η) (n : Nat) (c : Call μ η) : Scene κ μ η :=
  match c.left with
  | [] => { s with underWay := update s.underWay n none }.note (.returned n c.count)
  | a :: left =>
    { s with underWay := update s.underWay n (some { c with left }) }.note (.called n a c.header c.message)

def turn (s : Scene κ μ η) : Turn κ μ η → Scene κ μ η
  | .allocate => { s with table := s.table.allocate }.note (.allocated s.table.freshOwner)
  | .register kind owner action =>
    { s with table := s.table.register kind owner action }.note (.registered ⟨kind, owner, action⟩)
  | .unregister kind owner =>
    { s with table := s.table.unregister kind owner }.note (.unregistered kind owner)
  | .unregisterAll owner => { s with table := s.table.unregisterAll owner }.note (.unregisteredAll owner)
  | .dispatch header m => s.begin kindOf header m
  | .goOn n =>
    match s.underWay n with
    | some c => s.advance n c
    | none => s

theorem turn_goOn {s : Scene κ μ η} {n : Nat} {c : Call μ η} (h : s.underWay n = some c) :
    s.turn kindOf (.goOn n) = s.advance n c := by
  rw [turn, h]

def opened : Scene κ μ η := ⟨empty, 0, fun _ => none, []⟩

/-- All that comes of a list of turns. -/
def run (turns : List (Turn κ μ η)) : Scene κ μ η := turns.foldl (turn kindOf) opened

end Scene

namespace Moment

def owner? : Moment κ μ η → Option Owner
  | allocated owner => some owner
  | _ => none

def handler? : Moment κ μ η → Option (Handler κ η)
  | registered h => some h
  | _ => none

def removes : Moment κ μ η → Handler κ η → Bool
  | unregistered kind owner, h => h.kind = kind && h.owner = owner
  | unregisteredAll owner, h => h.owner = owner
  | _, _ => false

/-- Whether a moment belongs to the dispatch of a number. -/
def of (n : Nat) : Moment κ μ η → Bool
  | began k _ _ => k = n
  | called k _ _ _ => k = n
  | returned k _ => k = n
  | _ => false

end Moment

def Turn.goesOn (n : Nat) : Turn κ μ η → Bool
  | goOn k => k = n
  | _ => false

/-- The handlers that were registered and not taken out since, in the order of their registration. -/
def standing : List (Moment κ μ η) → List (Handler κ η)
  | [] => []
  | x :: later => (x.handler?.toList.filter fun h => !later.any (·.removes h)) ++ standing later

/-- Whom a message is for that is dispatched now. -/
def due (kindOf : μ → κ) (past : List (Moment κ μ η)) (m : μ) : List η :=
  ((standing past).filter fun h => h.kind = kindOf m).map (·.action)

/-- Whether this is what a dispatch has come to after its beginning: it calls those for whom its message is,
in their order, and returns their number when it has called the last. -/
def Tale (n : Nat) (header : Header) (m : μ) (due : List η) (moments : List (Moment κ μ η)) : Prop :=
  ∃ made left, due = made ++ left ∧
    (moments = made.map (.called n · header m) ∨
      left = [] ∧ moments = made.map (.called n · header m) ++ [.returned n due.length])

theorem standing_concat (past : List (Moment κ μ η)) (x : Moment κ μ η) :
    standing (past ++ [x]) = (standing past).filter (fun h => !x.removes h) ++ x.handler?.toList := by
  induction past with
  | nil => simp [standing]
  | cons y later ih => simp [standing, ih, List.filter_filter, Bool.and_comm]

namespace Scene

/-- The steps of a scene. -/
inductive Step (kindOf : μ → κ) (s : Scene κ μ η) : Scene κ μ η → Prop
  | changed {table : Handlers κ η} {x : Moment κ μ η} (beside : ∀ n, x.of n = false)
      (entries : table.entries = s.table.entries.filter (fun h => !x.removes h) ++ x.handler?.toList)
      (owners : List.range table.owners = List.range s.table.owners ++ x.owner?.toList) :
      Step kindOf s ⟨table, s.begun, s.underWay, s.past ++ [x]⟩
  | began {header : Header} {m : μ} {called : List η} (snapshot : called = s.table.matching (kindOf m)) :
      Step kindOf s ⟨s.table, s.begun + 1,
        update s.underWay s.begun (some ⟨header, m, called, called.length⟩),
        s.past ++ [.began s.begun header m]⟩
  | called {n : Nat} {header : Header} {m : μ} {a : η} {left : List η} {count : Nat}
      (call : s.underWay n = some ⟨header, m, a :: left, count⟩) :
      Step kindOf s ⟨s.table, s.begun, update s.underWay n (some ⟨header, m, left, count⟩),
        s.past ++ [.called n a header m]⟩
  | returned {n : Nat} {header : Header} {m : μ} {count : Nat}
      (call : s.underWay n = some ⟨header, m, [], count⟩) :
      Step kindOf s ⟨s.table, s.begun, update s.underWay n none, s.past ++ [.returned n count]⟩

variable {kindOf : μ → κ} {s s' : Scene κ μ η} {n : Nat}

theorem filter_not_removes (entries : List (Handler κ η)) {x : Moment κ μ η}
    (hx : x.removes = fun _ => false) :
    entries.filter (fun h => !x.removes h) = entries := by
  rw [hx]
  exact List.filter_true entries

theorem step_turn (kindOf : μ → κ) (s : Scene κ μ η) (t : Turn κ μ η) :
    s.turn kindOf t = s ∨ Step kindOf s (s.turn kindOf t) := by
  cases t with
  | allocate =>
      refine .inr (.changed (fun _ => rfl) ?_ List.range_succ)
      rw [filter_not_removes _ rfl]
      exact (List.append_nil _).symm
  | register kind owner action =>
      refine .inr (.changed (fun _ => rfl) ?_ (List.append_nil _).symm)
      rw [filter_not_removes _ rfl]
      rfl
  | unregister kind owner =>
      exact .inr (.changed (fun _ => rfl) (List.append_nil _).symm (List.append_nil _).symm)
  | unregisterAll owner =>
      refine .inr (.changed (fun _ => rfl) ?_ (List.append_nil _).symm)
      simp [unregisterAll, Moment.removes, Moment.handler?]
  | dispatch header m => exact .inr (.began rfl)
  | goOn n =>
      cases hcall : s.underWay n with
      | none =>
          rw [turn, hcall]
          exact .inl rfl
      | some c =>
          rw [turn_goOn kindOf hcall]
          obtain ⟨header, m, left, count⟩ := c
          cases left with
          | nil => exact .inr (.returned hcall)
          | cons a left => exact .inr (.called hcall)

/-- What steps keep holds at all times. -/
theorem keeps_run {P : Scene κ μ η → Prop} (hopened : P opened)
    (hstep : ∀ s s', P s → Step kindOf s s' → P s') (turns : List (Turn κ μ η)) : P (run kindOf turns) := by
  induction turns using List.reverseRecOn with
  | nil => exact hopened
  | append_singleton turns t ih =>
      rw [run, List.foldl_append]
      rcases step_turn kindOf (run kindOf turns) t with hsame | hnext
      · exact (congrArg P hsame).mpr ih
      · exact hstep _ _ ih hnext

/-- What a moment makes of the table. -/
theorem Step.moved (h : Step kindOf s s') : ∃ x, s'.past = s.past ++ [x] ∧
    s'.table.entries = s.table.entries.filter (fun h => !x.removes h) ++ x.handler?.toList ∧
      List.range s'.table.owners = List.range s.table.owners ++ x.owner?.toList := by
  have hsame : ∀ {x : Moment κ μ η}, x.removes = (fun _ => false) → x.handler? = none →
      s.table.entries = s.table.entries.filter (fun h => !x.removes h) ++ x.handler?.toList := by
    intro x hx hnone
    rw [filter_not_removes _ hx, hnone]
    exact (List.append_nil _).symm
  cases h with
  | changed beside entries owners => exact ⟨_, rfl, entries, owners⟩
  | began snapshot => exact ⟨_, rfl, hsame rfl rfl, (List.append_nil _).symm⟩
  | called call => exact ⟨_, rfl, hsame rfl rfl, (List.append_nil _).symm⟩
  | returned call => exact ⟨_, rfl, hsame rfl rfl, (List.append_nil _).symm⟩

/-- The handlers and the owners of a table come of what happened. -/
structure Kept (s : Scene κ μ η) : Prop where
  entries : s.table.entries = standing s.past
  owners : s.past.filterMap Moment.owner? = List.range s.table.owners

theorem Kept.step (h : s.Kept) (hs : Step kindOf s s') : s'.Kept := by
  obtain ⟨x, hpast, hentries, howners⟩ := hs.moved
  constructor
  · rw [hpast, standing_concat, hentries, h.entries]
  · rw [hpast, List.filterMap_append, howners, h.owners]
    cases hx : x.owner? <;> simp [hx]

theorem kept_run (turns : List (Turn κ μ η)) : (run kindOf turns).Kept :=
  keeps_run ⟨rfl, rfl⟩ (fun _ _ h hs => h.step hs) turns

theorem Kept.matching_eq (h : s.Kept) (m : μ) : s.table.matching (kindOf m) = due kindOf s.past m := by
  rw [matching, h.entries, due]

/-- Where the dispatch of a number stands. -/
inductive Tracked (kindOf : μ → κ) (s : Scene κ μ η) (n : Nat) : Prop
  | ahead (late : s.begun ≤ n) (idle : s.underWay n = none) (unseen : s.past.filter (·.of n) = [])
  | going {before rest : List (Moment κ μ η)} {header : Header} {m : μ} {made left : List η}
      (begun : n < s.begun) (split : s.past = before ++ .began n header m :: rest)
      (first : before.filter (·.of n) = []) (snapshot : due kindOf before m = made ++ left)
      (call : s.underWay n = some ⟨header, m, left, (due kindOf before m).length⟩)
      (calls : rest.filter (·.of n) = made.map (.called n · header m))
  | closed {before rest : List (Moment κ μ η)} {header : Header} {m : μ} (begun : n < s.begun)
      (split : s.past = before ++ .began n header m :: rest) (first : before.filter (·.of n) = [])
      (idle : s.underWay n = none)
      (calls : rest.filter (·.of n) =
        (due kindOf before m).map (.called n · header m) ++ [.returned n (due kindOf before m).length])

omit [DecidableEq κ] in
theorem append_concat {past before rest : List (Moment κ μ η)} {began : Moment κ μ η}
    (split : past = before ++ began :: rest) (x : Moment κ μ η) :
    past ++ [x] = before ++ began :: (rest ++ [x]) := by
  rw [split, List.append_assoc, List.cons_append]

/-- What happens beside a dispatch does not move it. -/
theorem Tracked.beside (h : s.Tracked kindOf n) {x : Moment κ μ η} (hbegun : n < s'.begun ↔ n < s.begun)
    (hcall : s'.underWay n = s.underWay n) (hpast : s'.past = s.past ++ [x]) (hx : x.of n = false) :
    s'.Tracked kindOf n := by
  have hfilter : [x].filter (·.of n) = [] := List.filter_eq_nil_iff.mpr fun y hy => by simp_all
  cases h with
  | ahead late idle unseen =>
      refine .ahead (Nat.le_of_not_lt fun hlt => absurd (hbegun.mp hlt) (Nat.not_lt.mpr late))
        (hcall.trans idle) ?_
      rw [hpast, List.filter_append, unseen, hfilter, List.append_nil]
  | @going before rest header m made left begun split first snapshot call calls =>
      have hsplit := hpast.trans (append_concat split x)
      refine .going (hbegun.mpr begun) hsplit first snapshot (hcall.trans call) ?_
      rw [List.filter_append, calls, hfilter, List.append_nil]
  | @closed before rest header m begun split first idle calls =>
      have hsplit := hpast.trans (append_concat split x)
      refine .closed (hbegun.mpr begun) hsplit first (hcall.trans idle) ?_
      rw [List.filter_append, calls, hfilter, List.append_nil]

theorem Tracked.step (h : s.Tracked kindOf n) (hk : s.Kept) (hs : Step kindOf s s') :
    s'.Tracked kindOf n := by
  cases hs with
  | changed beside entries owners => exact h.beside Iff.rfl rfl rfl (beside n)
  | @began header m called snapshot =>
      by_cases hn : n = s.begun
      · subst hn
        cases h with
        | ahead late idle unseen =>
            obtain rfl : called = due kindOf s.past m := snapshot.trans (hk.matching_eq m)
            exact .going (Nat.lt_succ_self _) rfl unseen (List.nil_append _).symm (update_self _ _ _) rfl
        | going begun => exact absurd begun (Nat.lt_irrefl _)
        | closed begun => exact absurd begun (Nat.lt_irrefl _)
      · refine h.beside ?_ (update_of_ne hn _ _) rfl (by simpa [Moment.of] using Ne.symm hn)
        change n < s.begun + 1 ↔ n < s.begun
        omega
  | @called k header m a left count call =>
      by_cases hn : n = k
      · subst hn
        cases h with
        | ahead late idle => exact absurd (idle.symm.trans call) nofun
        | @going before rest header' m' made left' begun split first snapshot call' calls =>
            obtain ⟨⟩ := call'.symm.trans call
            refine .going begun (append_concat split _) first (snapshot.trans (List.append_cons ..))
              (update_self _ _ _) ?_
            rw [List.filter_append, calls, List.map_append]
            simp [Moment.of]
        | closed begun split first idle => exact absurd (idle.symm.trans call) nofun
      · exact h.beside Iff.rfl (update_of_ne hn _ _) rfl (by simpa [Moment.of] using Ne.symm hn)
  | @returned k header m count call =>
      by_cases hn : n = k
      · subst hn
        cases h with
        | ahead late idle => exact absurd (idle.symm.trans call) nofun
        | @going before rest header' m' made left' begun split first snapshot call' calls =>
            obtain ⟨⟩ := call'.symm.trans call
            refine .closed begun (append_concat split _) first (update_self _ _ _) ?_
            rw [List.filter_append, calls, snapshot, List.append_nil]
            simp [Moment.of]
        | closed begun split first idle => exact absurd (idle.symm.trans call) nofun
      · exact h.beside Iff.rfl (update_of_ne hn _ _) rfl (by simpa [Moment.of] using Ne.symm hn)

theorem tracked_run (turns : List (Turn κ μ η)) (n : Nat) : (run kindOf turns).Tracked kindOf n :=
  (keeps_run (P := fun s => s.Kept ∧ s.Tracked kindOf n) ⟨⟨rfl, rfl⟩, .ahead (Nat.zero_le n) rfl rfl⟩
    (fun _ _ h hs => ⟨h.1.step hs, h.2.step h.1 hs⟩) turns).2

/-- A list has one first element of a kind. -/
theorem eq_of_first {α : Type} {p : α → Bool} {before before' rest rest' : List α} {x x' : α}
    (h : before ++ x :: rest = before' ++ x' :: rest') (hbefore : before.filter p = [])
    (hbefore' : before'.filter p = []) (hx : p x = true) (hx' : p x' = true) :
    before = before' ∧ x = x' ∧ rest = rest' := by
  have hfirst : ∀ {before rest : List α} {x : α}, before.filter p = [] → p x = true →
      (before ++ x :: rest).takeWhile (!p ·) = before := by
    intro before rest x hbefore hx
    rw [List.filter_eq_nil_iff] at hbefore
    rw [List.takeWhile_append_of_pos fun y hy => by simpa using hbefore y hy]
    simp [hx]
  have heq : before = before' := by rw [← hfirst hbefore hx, h, hfirst hbefore' hx']
  subst heq
  exact ⟨rfl, List.cons_eq_cons.mp (List.append_cancel_left h)⟩

omit [DecidableEq κ] in
theorem filter_split (before rest : List (Moment κ μ η)) (header : Header) (m : μ) :
    (before ++ .began n header m :: rest).filter (·.of n) =
      before.filter (·.of n) ++ .began n header m :: rest.filter (·.of n) := by
  simp [Moment.of]

/-- A dispatch begins once. -/
theorem Tracked.first_eq_nil (h : s.Tracked kindOf n) {before rest : List (Moment κ μ η)}
    {header : Header} {m : μ} (hsplit : s.past = before ++ .began n header m :: rest) :
    before.filter (·.of n) = [] := by
  have hlater : ∀ {moments : List (Moment κ μ η)} {header' : Header} {m' : μ} {calls : List (Moment κ μ η)},
      .began n header' m' :: calls = moments ++ .began n header m :: rest.filter (·.of n) →
        (∀ x ∈ calls, x ≠ .began n header m) → moments = [] := by
    intro moments header' m' calls heq hcalls
    cases moments with
    | nil => rfl
    | cons y moments =>
        rw [List.cons_append, List.cons_eq_cons] at heq
        exact absurd rfl (hcalls _ (heq.2 ▸ List.mem_append_right _ (List.mem_cons_self ..)))
  have hfilter := filter_split (n := n) before rest header m
  rw [← hsplit] at hfilter
  cases h with
  | ahead late idle unseen => exact absurd (unseen.symm.trans hfilter) (by simp)
  | going begun split first snapshot call calls =>
      rw [split, filter_split, first, calls] at hfilter
      exact hlater hfilter fun x hx => by
        obtain ⟨a, -, rfl⟩ := List.mem_map.mp hx
        exact nofun
  | closed begun split first idle calls =>
      rw [split, filter_split, first, calls] at hfilter
      refine hlater hfilter fun x hx => ?_
      rcases List.mem_append.mp hx with hx | hx
      · obtain ⟨a, -, rfl⟩ := List.mem_map.mp hx
        exact nofun
      · cases List.mem_singleton.mp hx
        exact nofun

theorem Tracked.of_split (h : s.Tracked kindOf n) {before rest : List (Moment κ μ η)}
    {header : Header} {m : μ} (hsplit : s.past = before ++ .began n header m :: rest) :
    n < s.begun ∧ ∃ made left, due kindOf before m = made ++ left ∧
      (s.underWay n = some ⟨header, m, left, (due kindOf before m).length⟩ ∧
          rest.filter (·.of n) = made.map (.called n · header m) ∨
        s.underWay n = none ∧ left = [] ∧
          rest.filter (·.of n) = made.map (.called n · header m) ++
            [.returned n (due kindOf before m).length]) := by
  have hfirst := h.first_eq_nil hsplit
  have hown : (Moment.began n header m : Moment κ μ η).of n = true := decide_eq_true rfl
  cases h with
  | ahead late idle unseen =>
      refine absurd (List.filter_eq_nil_iff.mp unseen (.began n header m) ?_) (not_not_intro hown)
      exact hsplit ▸ List.mem_append_right _ (List.mem_cons_self ..)
  | going begun split first snapshot call calls =>
      obtain ⟨rfl, hbegan, rfl⟩ :=
        eq_of_first (split.symm.trans hsplit) first hfirst (decide_eq_true rfl) hown
      cases hbegan
      exact ⟨begun, _, _, snapshot, .inl ⟨call, calls⟩⟩
  | closed begun split first idle calls =>
      obtain ⟨rfl, hbegan, rfl⟩ :=
        eq_of_first (split.symm.trans hsplit) first hfirst (decide_eq_true rfl) hown
      cases hbegan
      exact ⟨begun, _, [], (List.append_nil _).symm, .inr ⟨idle, rfl, calls⟩⟩

/-- How often a dispatch has to go on. -/
def remaining (s : Scene κ μ η) (n : Nat) : Nat := (s.underWay n).elim 0 fun c => c.left.length + 1

theorem remaining_turn (h : n < s.begun) (t : Turn κ μ η) :
    n < (s.turn kindOf t).begun ∧ (s.turn kindOf t).remaining n =
      s.remaining n - if t.goesOn n then 1 else 0 := by
  cases t with
  | dispatch header m =>
      refine ⟨Nat.lt_succ_of_lt h, ?_⟩
      simp [turn, begin, note, remaining, Turn.goesOn, Nat.ne_of_lt h]
  | goOn k =>
      cases hk : s.underWay k with
      | none =>
          rw [turn, hk]
          refine ⟨h, ?_⟩
          by_cases hn : k = n
          · simp [remaining, ← hn, hk]
          · simp [Turn.goesOn, hn]
      | some c =>
          rw [turn_goOn kindOf hk]
          obtain ⟨header, m, left, count⟩ := c
          by_cases hn : k = n
          · subst hn
            cases left with
            | nil => simp [advance, note, remaining, Turn.goesOn, hk, h]
            | cons a left => simp [advance, note, remaining, Turn.goesOn, hk, h]
          · cases left with
            | nil => simp [advance, note, remaining, Turn.goesOn, hn, Ne.symm hn, h]
            | cons a left => simp [advance, note, remaining, Turn.goesOn, hn, Ne.symm hn, h]
  | _ => exact ⟨h, rfl⟩

theorem remaining_foldl (h : n < s.begun) (more : List (Turn κ μ η)) :
    (more.foldl (turn kindOf) s).remaining n = s.remaining n - more.countP (·.goesOn n) := by
  induction more generalizing s with
  | nil => rfl
  | cons t more ih =>
      obtain ⟨hbegun, hremaining⟩ := remaining_turn h t
      rw [List.foldl_cons, ih hbegun, hremaining, List.countP_cons]
      omega

theorem run_append (turns more : List (Turn κ μ η)) :
    run kindOf (turns ++ more) = more.foldl (turn kindOf) (run kindOf turns) := List.foldl_append

theorem past_foldl (kindOf : μ → κ) (more : List (Turn κ μ η)) (s : Scene κ μ η) :
    ∃ later, (more.foldl (turn kindOf) s).past = s.past ++ later := by
  induction more generalizing s with
  | nil => exact ⟨[], (List.append_nil _).symm⟩
  | cons t more ih =>
      obtain ⟨later, hlater⟩ := ih (s.turn kindOf t)
      rw [List.foldl_cons, hlater]
      rcases step_turn kindOf s t with hsame | hstep
      · exact ⟨later, by rw [hsame]⟩
      · obtain ⟨x, hpast, -⟩ := hstep.moved
        exact ⟨x :: later, by rw [hpast, List.append_assoc, List.singleton_append]⟩

/-- A dispatch that goes on often enough returns. -/
theorem returned_run (turns more : List (Turn κ μ η)) {before rest : List (Moment κ μ η)}
    {header : Header} {m : μ} (hsplit : (run kindOf turns).past = before ++ .began n header m :: rest)
    (hmore : (due kindOf before m).length < more.countP (·.goesOn n)) :
    .returned n (due kindOf before m).length ∈ (run kindOf (turns ++ more)).past := by
  obtain ⟨hbegun, made, left, hdue, hcall⟩ := (tracked_run turns n).of_split hsplit
  have hremaining : (run kindOf turns).remaining n ≤ (due kindOf before m).length + 1 := by
    rcases hcall with ⟨hcall, -⟩ | ⟨hidle, -⟩
    · simp [remaining, hcall, hdue]
    · simp [remaining, hidle]
  have hzero : (run kindOf (turns ++ more)).remaining n = 0 := by
    rw [run_append, remaining_foldl hbegun]
    omega
  obtain ⟨later, hlater⟩ := past_foldl kindOf more (run kindOf turns)
  rw [← run_append, hsplit, List.append_assoc, List.cons_append] at hlater
  obtain ⟨-, made', left', -, hcall'⟩ := (tracked_run (turns ++ more) n).of_split hlater
  rcases hcall' with ⟨hcall', -⟩ | ⟨-, -, hcalls'⟩
  · simp [remaining, hcall'] at hzero
  · have hmem : .returned n (due kindOf before m).length ∈ (rest ++ later).filter (·.of n) :=
      hcalls' ▸ List.mem_append_right _ (List.mem_singleton_self _)
    exact hlater ▸ List.mem_append_right _ (List.mem_cons_of_mem _ (List.mem_of_mem_filter hmem))

/-- How a scene has come about. -/
structure Faithful (kindOf : μ → κ) (s : Scene κ μ η) : Prop where
  entries : s.table.entries = standing s.past
  /-- A dispatch begins once, and what comes of it is told by those who stand in the table then. -/
  served : ∀ before n header m rest, s.past = before ++ .began n header m :: rest →
    before.filter (·.of n) = [] ∧ Tale n header m (due kindOf before m) (rest.filter (·.of n))
  /-- Nothing is called or returns but for a dispatch. -/
  asked : ∀ n, ∀ x ∈ s.past, x.of n = true → ∃ header m, .began n header m ∈ s.past
  owners : (s.past.filterMap Moment.owner?).Nodup

theorem faithful_of_run (turns : List (Turn κ μ η)) : (run kindOf turns).Faithful kindOf where
  entries := (kept_run turns).entries
  served before n header m rest hsplit := by
    have htracked : (run kindOf turns).Tracked kindOf n := tracked_run turns n
    obtain ⟨-, made, left, hdue, hcall⟩ := htracked.of_split hsplit
    exact ⟨htracked.first_eq_nil hsplit, made, left, hdue, hcall.imp And.right And.right⟩
  asked n x hx hof := by
    have htracked : (run kindOf turns).Tracked kindOf n := tracked_run turns n
    cases htracked with
    | ahead late idle unseen => exact absurd hof (List.filter_eq_nil_iff.mp unseen x hx)
    | going begun split => exact ⟨_, _, split ▸ List.mem_append_right _ (List.mem_cons_self ..)⟩
    | closed begun split => exact ⟨_, _, split ▸ List.mem_append_right _ (List.mem_cons_self ..)⟩
  owners := by
    rw [(kept_run turns).owners]
    exact List.nodup_range

end Scene

end GroundLink.Handlers

namespace GroundLink.Script

open Handlers (Scene Moment Turn)

/-- Whether a step is one that is made: a step on behalf of an owner that nobody has named is not. -/
def HandlerEvent.made : HandlerEvent → Bool
  | acted .unknownOwner => false
  | _ => true

/-- All that is seen of a step, and what it comes to. -/
def HandlerEntry.events (e : HandlerEntry) : List HandlerEvent := e.seen ++ [.acted e.answer]

/-- What a script sees of a moment. -/
def event? : Moment Kind Message HandlerAction → Option HandlerEvent
  | .allocated _ => some (.acted .allocated)
  | .began _ _ _ => none
  | .called _ a header m => some (.call a.name header m)
  | .returned _ count => some (.acted (.called count))
  | _ => some (.acted .nothing)

namespace HandlerState

/-- A step and the answer to it, as a handler makes it. -/
def make (depth : Nat) (s : HandlerState) (step : HandlerStep) : HandlerState :=
  let (answer, s) := s.step depth step
  s.see (.acted answer)

/-- Calls a handler that goes on with its script if the depth left is not zero. -/
def call : Nat → Header → Message → HandlerState → HandlerAction → HandlerState
  | 0, header, m, s, h => s.see (.call h.name header m)
  | depth + 1, header, m, s, h => h.reaction.foldl (make depth) (s.see (.call h.name header m))

theorem step_dispatch (depth : Nat) (header : Header) (m : Message) (s : HandlerState) :
    s.step depth (.dispatch header m) = (.called (s.table.matching m.kind).length,
      (s.table.matching m.kind).foldl (call depth header m) s) := by
  cases depth <;> rfl

/-- Whether a scene has the table of a script, and its past is what the script saw. -/
structure ShownBy (s : HandlerState) (before : List HandlerEvent)
    (c : Scene Kind Message HandlerAction) : Prop where
  table : c.table = s.table
  past : c.past.filterMap event? = before ++ s.seen.filter HandlerEvent.made

/-- Whether turns lead from a scene to one that a script shows, with the dispatches under way as they were. -/
def Reached (s : HandlerState) (before : List HandlerEvent) (c : Scene Kind Message HandlerAction) : Prop :=
  ∃ turns : List (Turn Kind Message HandlerAction), let c' := turns.foldl (Scene.turn Message.kind) c
    s.ShownBy before c' ∧ c.begun ≤ c'.begun ∧ ∀ n < c.begun, c'.underWay n = c.underWay n

variable {s s' : HandlerState} {before : List HandlerEvent} {c : Scene Kind Message HandlerAction}

theorem ShownBy.reached (h : s.ShownBy before c) : s.Reached before c :=
  ⟨[], h, Nat.le_refl _, fun _ _ => rfl⟩

theorem Reached.trans (h : s.Reached before c) (hnext : ∀ c', s.ShownBy before c' → s'.Reached before c') :
    s'.Reached before c := by
  obtain ⟨turns, hshown, hbegun, hsame⟩ := h
  obtain ⟨turns', hshown', hbegun', hsame'⟩ := hnext _ hshown
  refine ⟨turns ++ turns', ?_⟩
  rw [List.foldl_append]
  exact ⟨hshown', Nat.le_trans hbegun hbegun',
    fun n hn => (hsame' n (Nat.lt_of_lt_of_le hn hbegun)).trans (hsame n hn)⟩

theorem ShownBy.grow (h : s.ShownBy before c) {c' : Scene Kind Message HandlerAction}
    {x : Moment Kind Message HandlerAction} {e : HandlerEvent} (htable : c'.table = s'.table)
    (hpast : c'.past = c.past ++ [x]) (hseen : s'.seen = s.seen ++ [e]) (hx : event? x = some e)
    (he : e.made = true) : s'.ShownBy before c' := by
  refine ⟨htable, ?_⟩
  rw [hpast, List.filterMap_append, h.past, hseen, List.filter_append, ← List.append_assoc]
  simp [hx, he]

/-- A turn that begins no dispatch and moves none. -/
theorem ShownBy.reached_turn (h : s.ShownBy before c) (t : Turn Kind Message HandlerAction)
    {x : Moment Kind Message HandlerAction} {e : HandlerEvent}
    (hturn : c.turn Message.kind t = ⟨s'.table, c.begun, c.underWay, c.past ++ [x]⟩)
    (hseen : s'.seen = s.seen ++ [e]) (hx : event? x = some e) (he : e.made = true) :
    s'.Reached before c := by
  refine ⟨[t], ?_⟩
  rw [List.foldl_cons, List.foldl_nil, hturn]
  exact ⟨h.grow rfl rfl hseen hx he, Nat.le_refl _, fun _ _ => rfl⟩

/-- A step on behalf of an owner. -/
theorem ShownBy.reached_onBehalf (h : s.ShownBy before c) (owner : String)
    {f : Handlers Kind HandlerAction → Owner → Handlers Kind HandlerAction}
    {t : Owner → Turn Kind Message HandlerAction} {x : Owner → Moment Kind Message HandlerAction}
    (ht : ∀ o, c.turn Message.kind (t o) = ⟨f c.table o, c.begun, c.underWay, c.past ++ [x o]⟩)
    (hx : ∀ o, event? (x o) = some (.acted .nothing)) :
    ((s.onBehalf owner f).2.see (.acted (s.onBehalf owner f).1)).Reached before c := by
  rw [onBehalf]
  split
  · refine ShownBy.reached ⟨h.table, ?_⟩
    rw [h.past, see, List.filter_append]
    exact congrArg _ (List.append_nil _).symm
  · rename_i o _
    exact h.reached_turn (t o) ((ht o).trans (by rw [h.table]; rfl)) rfl (hx o) rfl

variable {depth : Nat} {header : Header} {m : Message}

/-- A dispatch goes through those it is to call. -/
theorem ShownBy.calls (hcall :
    ∀ {s : HandlerState} {c : Scene Kind Message HandlerAction} (a : HandlerAction),
      (s.see (.call a.name header m)).ShownBy before c → (call depth header m s a).Reached before c)
    (called : List HandlerAction) (h : s.ShownBy before c) {n count : Nat} (hn : n < c.begun)
    (hcalls : c.underWay n = some ⟨header, m, called, count⟩) :
    ∃ turns : List (Turn Kind Message HandlerAction), let c' := turns.foldl (Scene.turn Message.kind) c
      (called.foldl (call depth header m) s).ShownBy before c' ∧ c.begun ≤ c'.begun ∧
        c'.underWay n = some ⟨header, m, [], count⟩ ∧ ∀ i < c.begun, i ≠ n →
          c'.underWay i = c.underWay i := by
  induction called generalizing s c with
  | nil => exact ⟨[], h, Nat.le_refl _, hcalls, fun _ _ _ => rfl⟩
  | cons a left ih =>
      have hturn : c.turn Message.kind (.goOn n) =
          ⟨c.table, c.begun, Function.update c.underWay n (some ⟨header, m, left, count⟩),
            c.past ++ [.called n a header m]⟩ := by
        rw [Scene.turn_goOn Message.kind hcalls]
        rfl
      have hshown : (s.see (.call a.name header m)).ShownBy before (c.turn Message.kind (.goOn n)) := by
        rw [hturn]
        exact h.grow h.table rfl rfl rfl rfl
      obtain ⟨turns, hafter, hbegun, hsame⟩ := hcall a hshown
      have hbegun₁ : (c.turn Message.kind (.goOn n)).begun = c.begun := by rw [hturn]
      have hcalls₁ : (c.turn Message.kind (.goOn n)).underWay =
          Function.update c.underWay n (some ⟨header, m, left, count⟩) := by
        rw [hturn]
      rw [hbegun₁] at hbegun hsame
      rw [hcalls₁] at hsame
      obtain ⟨turns', hafter', hbegun', hdone, hsame'⟩ := ih hafter (Nat.lt_of_lt_of_le hn hbegun)
        (by rw [hsame n hn, Function.update_self])
      refine ⟨.goOn n :: (turns ++ turns'), ?_⟩
      rw [List.foldl_cons, List.foldl_append]
      refine ⟨hafter', Nat.le_trans hbegun hbegun', hdone, fun i hi hne => ?_⟩
      rw [hsame' i (Nat.lt_of_lt_of_le hi hbegun) hne, hsame i hi, Function.update_of_ne hne]

theorem ShownBy.reached_dispatch (h : s.ShownBy before c)
    (hcall : ∀ {s : HandlerState} {c : Scene Kind Message HandlerAction} (a : HandlerAction),
      (s.see (.call a.name header m)).ShownBy before c → (call depth header m s a).Reached before c) :
    (s.make depth (.dispatch header m)).Reached before c := by
  let called := s.table.matching m.kind
  have hturn : c.turn Message.kind (.dispatch header m) =
      ⟨c.table, c.begun + 1, Function.update c.underWay c.begun
      (some ⟨header, m, called, called.length⟩), c.past ++ [.began c.begun header m]⟩ := by
    rw [Scene.turn, Scene.begin, h.table]
    rfl
  have hbegan : s.ShownBy before (c.turn Message.kind (.dispatch header m)) := by
    refine ⟨by rw [hturn]; exact h.table, ?_⟩
    rw [hturn, List.filterMap_append, h.past]
    exact List.append_nil _
  have hbegun₁ : (c.turn Message.kind (.dispatch header m)).begun = c.begun + 1 := by rw [hturn]
  have hcalls₁ : (c.turn Message.kind (.dispatch header m)).underWay =
      Function.update c.underWay c.begun (some ⟨header, m, called, called.length⟩) := by rw [hturn]
  obtain ⟨turns, hafter, hbegun, hdone, hsame⟩ := hbegan.calls hcall called
    (n := c.begun) (by rw [hbegun₁]; exact Nat.lt_succ_self _) (by rw [hcalls₁, Function.update_self])
  rw [hbegun₁] at hbegun hsame
  rw [hcalls₁] at hsame
  refine ⟨.dispatch header m :: (turns ++ [.goOn c.begun]), ?_⟩
  rw [List.foldl_cons, List.foldl_append, List.foldl_cons, List.foldl_nil, Scene.turn_goOn Message.kind hdone]
  refine ⟨?_, Nat.le_of_succ_le hbegun, fun i hi => ?_⟩
  · rw [make, step_dispatch]
    exact hafter.grow hafter.table rfl rfl rfl rfl
  · have hne : i ≠ c.begun := Nat.ne_of_lt hi
    exact (Function.update_of_ne hne _ _).trans
      ((hsame i (Nat.lt_succ_of_lt hi) hne).trans (Function.update_of_ne hne _ _))

theorem ShownBy.reached_step (h : s.ShownBy before c)
    (hcall : ∀ {header : Header} {m : Message} {s : HandlerState} {c : Scene Kind Message HandlerAction}
      (a : HandlerAction), (s.see (.call a.name header m)).ShownBy before c →
        (call depth header m s a).Reached before c)
    (step : HandlerStep) : (s.make depth step).Reached before c := by
  cases step with
  | owner name =>
      rw [make, HandlerState.step]
      exact h.reached_turn .allocate
        (congrArg (Scene.mk · _ _ _) (congrArg Handlers.allocate h.table)) rfl rfl rfl
  | register name owner kind reaction =>
      rw [make, HandlerState.step]
      exact h.reached_onBehalf owner (f := fun t o => t.register kind o ⟨name, reaction⟩)
        (t := fun o => .register kind o ⟨name, reaction⟩)
        (x := fun o => .registered ⟨kind, o, ⟨name, reaction⟩⟩) (fun _ => rfl) fun _ => rfl
  | unregister owner kind =>
      rw [make, HandlerState.step]
      exact h.reached_onBehalf owner (f := fun t o => t.unregister kind o) (t := fun o => .unregister kind o)
        (x := fun o => .unregistered kind o) (fun _ => rfl) fun _ => rfl
  | unregisterAll owner =>
      rw [make, HandlerState.step]
      exact h.reached_onBehalf owner (f := fun t o => t.unregisterAll o) (t := fun o => .unregisterAll o)
        (x := fun o => .unregisteredAll o) (fun _ => rfl) fun _ => rfl
  | dispatch header m => exact h.reached_dispatch hcall

theorem ShownBy.reached_make (h : s.ShownBy before c) (depth : Nat) (step : HandlerStep) :
    (s.make depth step).Reached before c := by
  induction depth generalizing s c step with
  | zero =>
      refine h.reached_step ?_ step
      exact fun _ hcalled => hcalled.reached
  | succ depth ih =>
      have hreact : ∀ (reaction : List HandlerStep) {s : HandlerState} {c : Scene Kind Message HandlerAction},
          s.ShownBy before c → (reaction.foldl (make depth) s).Reached before c := by
        intro reaction
        induction reaction with
        | nil => exact fun h => h.reached
        | cons first reaction ihr => exact fun h => (ih h first).trans fun _ hnext => ihr hnext
      refine h.reached_step ?_ step
      exact fun a hcalled => hreact a.reaction hcalled

end HandlerState

/-- Scripts are scenes: what they see, but for steps that are not made, is the past of one. -/
theorem exists_scene (steps : List HandlerStep) : ∃ turns : List (Turn Kind Message HandlerAction),
    (Scene.run Message.kind turns).past.filterMap event? =
      ((runHandlers steps).flatMap (·.events)).filter HandlerEvent.made := by
  have hfrom : ∀ (s : HandlerState) (before : List HandlerEvent) (c : Scene Kind Message HandlerAction),
      s.ShownBy before c →
      s.seen = [] → ∃ turns : List (Turn Kind Message HandlerAction),
      (turns.foldl (Scene.turn Message.kind) c).past.filterMap event? =
        before ++ ((runHandlersFrom s steps).flatMap (·.events)).filter HandlerEvent.made := by
    induction steps with
    | nil => exact fun s before c h hseen => ⟨[], by rw [List.foldl_nil, h.past, hseen]; rfl⟩
    | cons step rest ih =>
        intro s before c h hseen
        obtain ⟨turns, hshown, -⟩ := h.reached_make handlerDepth step
        obtain ⟨⟨answer, s'⟩, hs⟩ : ∃ p, s.step handlerDepth step = p := ⟨_, rfl⟩
        rw [HandlerState.make, hs] at hshown
        obtain ⟨turns', hturns'⟩ := ih { s' with seen := [] } _ (turns.foldl (Scene.turn Message.kind) c)
          ⟨hshown.table, hshown.past.trans (List.append_nil _).symm⟩ rfl
        refine ⟨turns ++ turns', ?_⟩
        rw [List.foldl_append, hturns', runHandlersFrom, hs, List.flatMap_cons, List.filter_append,
          List.append_assoc]
        rfl
  exact hfrom ⟨.empty, [], []⟩ [] Scene.opened ⟨rfl, rfl⟩ rfl

end GroundLink.Script

namespace GroundLink.Handlers.Scene

variable {κ μ η : Type} [DecidableEq κ]

/-- Whatever is done at a table and by its handlers, each dispatch calls those that stood in the
table at its beginning. -/
theorem faithful_run (kindOf : μ → κ) (turns : List (Turn κ μ η)) :
    (run kindOf turns).Faithful kindOf ∧
      (∀ n header m before rest more, (run kindOf turns).past = before ++ .began n header m :: rest →
        (due kindOf before m).length < more.countP (Turn.goesOn n) →
          .returned n (due kindOf before m).length ∈ (run kindOf (turns ++ more)).past) ∧
      (∀ owner, let after := (run kindOf (turns ++ [.unregisterAll owner])).table.entries
        (∀ h ∈ after, h.owner ≠ owner) ∧
          after.filter (·.owner ≠ owner) = (run kindOf turns).table.entries.filter (·.owner ≠ owner)) ∧
      ∀ script : List Script.HandlerStep, ∃ turns : List (Turn Kind Message Script.HandlerAction),
        (run Message.kind turns).past.filterMap Script.event? =
          ((Script.runHandlers script).flatMap (·.events)).filter Script.HandlerEvent.made := by
  refine ⟨faithful_of_run turns,
    fun n header m before rest more hsplit hmore => returned_run turns more hsplit hmore,
    fun owner => ?_, Script.exists_scene⟩
  rw [run_append]
  refine ⟨fun h hh => of_decide_eq_true (List.mem_filter.mp hh).2, ?_⟩
  exact (List.filter_filter ..).trans (List.filter_congr fun h _ => Bool.and_self _)

/-- Handler 1 takes itself and its owner's other one out, has a third stand in, and dispatches again. -/
example (header : Header) (m : MissionSetCurrent) :
    let s := run Message.kind [.allocate, .allocate, .register .missionSetCurrent 0 1,
        .register .missionSetCurrent 0 2,
      .dispatch header (.missionSetCurrent m), .goOn 0, .unregisterAll 0, .register .missionSetCurrent 1 3,
      .dispatch header (.missionSetCurrent m), .goOn 1, .goOn 1, .goOn 0, .goOn 0]
    s.past.drop 4 = [.began 0 header (.missionSetCurrent m), .called 0 1 header (.missionSetCurrent m),
      .unregisteredAll 0, .registered ⟨.missionSetCurrent, 1, 3⟩, .began 1 header (.missionSetCurrent m),
      .called 1 3 header (.missionSetCurrent m), .returned 1 1, .called 0 2 header (.missionSetCurrent m),
      .returned 0 2] := by
  rfl

end GroundLink.Handlers.Scene
