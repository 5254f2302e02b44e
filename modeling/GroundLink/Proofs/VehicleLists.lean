import Mathlib.Data.List.Induction
import GroundLink.Vehicle.Mission

/-! How a simulated vehicle keeps its list. What has come to a vehicle says which items came in their
order since a list was last announced (`inOrder`). One act at a time, a vehicle that receives a list holds
exactly these, and fewer than were announced (`Keeps.perform`); so the last of them completes the announced
list, and the stored one is never a part of a list or a mixture of two.

The items that have come are a part of the phase here, so none are left over once a vehicle turns to
something else. `FlatMission` lays the same memory out as fields that do not depend on each other, with the
number of the item that is due beside the items; `matches_perform` shows that it behaves the same. -/

namespace GroundLink

namespace VehicleMission

/-- A message comes in from some peer, or whoever runs the vehicle puts a list there or chooses the form of
its requests. -/
inductive Act
  | message (peer : Address) (m : Message)
  | store (items : List MissionItemInt)
  | requestLegacy (on : Bool)
  deriving DecidableEq

namespace Act

def count? : Act → Option (Address × MissionCount)
  | .message peer (.missionCount m) => some (peer, m)
  | _ => none

/-- Emptying the stored list: an empty one is announced, or the list is cleared. -/
def Clears : Act → Prop
  | .message _ (.missionCount m) => m.count = 0
  | .message _ (.missionClearAll _) => True
  | _ => False

/-- An item whose number is the number of items before it comes in its order; an
announcement starts anew. -/
def gather (taken : List MissionItemInt) : Act → List MissionItemInt
  | .message _ (.missionCount _) => []
  | .message _ (.missionItemInt m) => if m.seq.toNat = taken.length then taken ++ [m] else taken
  | _ => taken

end Act

def perform (v : VehicleMission) : Act → Replied VehicleMission
  | .message peer m => v.handle peer m
  | .store items => ⟨v.store items, []⟩
  | .requestLegacy on => ⟨{ v with legacyRequests := on }, []⟩

def run (v : VehicleMission) (acts : List Act) : VehicleMission :=
  acts.foldl (fun v act => (v.perform act).state) v

/-- The last announcement of a list, and who made it. -/
def announced (acts : List Act) : Option (Address × MissionCount) := (acts.filterMap Act.count?).getLast?

/-- The items that came in their order since a list was last announced. -/
def inOrder (acts : List Act) : List MissionItemInt := acts.foldl Act.gather []

def Numbered (items : List MissionItemInt) : Prop := items.map (·.seq.toNat) = List.range items.length

variable {acts : List Act} {act : Act} {v : VehicleMission}

theorem run_concat (v : VehicleMission) (acts : List Act) (act : Act) :
    v.run (acts ++ [act]) = ((v.run acts).perform act).state := by
  rw [run, List.foldl_append]
  rfl

theorem inOrder_concat (acts : List Act) (act : Act) :
    inOrder (acts ++ [act]) = act.gather (inOrder acts) := by
  rw [inOrder, List.foldl_append]
  rfl

theorem announced_concat_count (acts : List Act) (peer : Address) (m : MissionCount) :
    announced (acts ++ [.message peer (.missionCount m)]) = some (peer, m) := by
  rw [announced, List.filterMap_append]
  exact List.getLast?_concat

theorem announced_concat (acts : List Act) (h : act.count? = none) :
    announced (acts ++ [act]) = announced acts := by
  have hnone : [act].filterMap Act.count? = [] := by rw [List.filterMap_cons_none h, List.filterMap_nil]
  rw [announced, List.filterMap_append, hnone, List.append_nil, announced]

theorem Numbered.concat {items : List MissionItemInt} (h : Numbered items) {m : MissionItemInt}
    (hm : m.seq.toNat = items.length) : Numbered (items ++ [m]) := by
  unfold Numbered at h ⊢
  rw [List.map_append, h, List.length_append, List.length_singleton, List.range_succ, ← hm]
  rfl

theorem numbered_gather {taken : List MissionItemInt} (h : Numbered taken) (act : Act) :
    Numbered (act.gather taken) := by
  unfold Act.gather
  split
  · rfl
  · split
    · rename_i hm
      exact h.concat hm
    · exact h
  · exact h

theorem numbered_inOrder (acts : List Act) : Numbered (inOrder acts) := by
  induction acts using List.reverseRecOn with
  | nil => rfl
  | append_singleton acts act ih =>
      rw [inOrder_concat]
      exact numbered_gather ih act

/-- Receiving a list, a vehicle holds the items that came in their order since it was announced, and at
least one is still to come. -/
structure Keeps (acts : List Act) (v : VehicleMission) : Prop where
  receiving : ∀ count pending peer missionType, v.phase = .receiving count pending peer missionType →
    (∃ target, announced acts = some (peer, ⟨count, target, missionType⟩)) ∧ pending = inOrder acts ∧
      pending.length < count.toNat

/-- An announced list that has come as a whole. -/
structure Complete (acts : List Act) (items : List MissionItemInt) : Prop where
  announced : ∃ peer m, announced acts = some (peer, m) ∧ items.length = m.count.toNat
  inOrder : items = inOrder acts
  numbered : Numbered items
  ne_nil : items ≠ []

/-- What may become of the stored list when something happens to a vehicle. -/
inductive Changes (acts : List Act) (act : Act) (v v' : VehicleMission) : Prop
  | kept (h : v'.items = v.items)
  | stored (h : act = .store v'.items)
  | cleared (h : act.Clears) (hitems : v'.items = [])
  | replaced {count : UInt16} {pending : List MissionItemInt} {peer : Address} {missionType : MissionType}
      (h : v.phase = .receiving count pending peer missionType) (hidle : v'.phase = .idle)
      (hitems : Complete (acts ++ [act]) v'.items)

/-- A phase in which no list comes in needs nothing. -/
theorem keeps_of_phase (acts : List Act)
    (h : ∀ count pending peer missionType, v.phase ≠ .receiving count pending peer missionType) :
    Keeps acts v :=
  ⟨fun _ _ _ _ hphase => absurd hphase (h _ _ _ _)⟩

/-- What leaves the phase as it is and neither announces a list nor brings the item
that is due is not seen. -/
theorem Keeps.same (h : Keeps acts v) {v' : VehicleMission} (hphase : v'.phase = v.phase)
    (hcount : act.count? = none) (hgather : act.gather (inOrder acts) = inOrder acts) :
    Keeps (acts ++ [act]) v' := by
  constructor
  intro count pending peer missionType hr
  rw [announced_concat acts hcount, inOrder_concat, hgather]
  exact h.receiving count pending peer missionType (hphase ▸ hr)

section Messages

variable (h : Keeps acts v) (peer : Address)

theorem Keeps.count (acts : List Act) (m : MissionCount) :
    Keeps (acts ++ [.message peer (.missionCount m)]) (v.onCount peer m).state ∧
      Changes acts (.message peer (.missionCount m)) v (v.onCount peer m).state := by
  unfold onCount
  split
  · rename_i hzero
    exact ⟨keeps_of_phase _ fun _ _ _ _ hr => (by cases hr), .cleared hzero rfl⟩
  · rename_i hzero
    refine ⟨⟨fun count pending other missionType hr => ?_⟩, .kept rfl⟩
    cases hr
    refine ⟨⟨m.target, announced_concat_count acts peer m⟩, ?_, ?_⟩
    · rw [inOrder_concat]
      rfl
    · have hne : m.count.toNat ≠ 0 := fun hz => hzero (UInt16.toNat_inj.mp hz)
      exact Nat.pos_of_ne_zero hne

theorem Keeps.requestList (acts : List Act) (m : MissionList) :
    Keeps (acts ++ [.message peer (.missionRequestList m)]) (v.onRequestList peer m).state ∧
      Changes acts (.message peer (.missionRequestList m)) v (v.onRequestList peer m).state := by
  unfold onRequestList
  split <;> exact ⟨keeps_of_phase _ fun _ _ _ _ hr => (by cases hr), .kept rfl⟩

include h

theorem Keeps.item (m : MissionItemInt) :
    Keeps (acts ++ [.message peer (.missionItemInt m)]) (v.onItem m).state ∧
      Changes acts (.message peer (.missionItemInt m)) v (v.onItem m).state := by
  unfold onItem
  split
  · rename_i count pending other missionType hphase
    obtain ⟨⟨target, hannounced⟩, hpending, hlt⟩ := h.receiving _ _ _ _ hphase
    have hlast : announced (acts ++ [.message peer (.missionItemInt m)]) = announced acts :=
      announced_concat acts rfl
    split
    · rename_i hseq
      refine ⟨h.same rfl rfl ?_, .kept rfl⟩
      rw [hpending] at hseq
      exact if_neg hseq
    · rename_i hseq
      have hnumber : m.seq.toNat = pending.length := Decidable.not_not.mp hseq
      have hgather : inOrder (acts ++ [.message peer (.missionItemInt m)]) = pending ++ [m] := by
        rw [inOrder_concat, ← hpending]
        exact if_pos hnumber
      have hnumbered : Numbered (pending ++ [m]) := by
        rw [← hgather]
        exact numbered_inOrder _
      dsimp only
      split
      · rename_i hfull
        refine ⟨keeps_of_phase _ fun _ _ _ _ hr => (by cases hr), ?_⟩
        refine .replaced hphase rfl ⟨⟨other, _, hlast.trans hannounced, ?_⟩, hgather.symm, hnumbered, ?_⟩
        · -- one item was still to come, and it has
          apply Nat.le_antisymm
          · rw [store, List.length_append]
            exact hlt
          · exact hfull
        · exact List.append_ne_nil_of_right_ne_nil _ (List.cons_ne_nil m [])
      · rename_i hmore
        refine ⟨⟨fun count pending other missionType hr => ?_⟩, .kept rfl⟩
        cases hr
        exact ⟨⟨target, hlast.trans hannounced⟩, hgather.symm, Nat.lt_of_not_le hmore⟩
  · rename_i hphase
    exact ⟨keeps_of_phase _ fun _ _ _ _ hr => hphase _ _ _ _ hr, .kept rfl⟩

theorem Keeps.request (m : MissionRequest) :
    Keeps (acts ++ [.message peer (.missionRequestInt m)]) (v.onRequest peer m).state ∧
      Changes acts (.message peer (.missionRequestInt m)) v (v.onRequest peer m).state := by
  unfold onRequest
  split <;> exact ⟨h.same rfl rfl rfl, .kept rfl⟩

theorem Keeps.setCurrent (m : MissionSetCurrent) :
    Keeps (acts ++ [.message peer (.missionSetCurrent m)]) (v.onSetCurrent m).state ∧
      Changes acts (.message peer (.missionSetCurrent m)) v (v.onSetCurrent m).state := by
  have hsame : (v.onSetCurrent m).state.phase = v.phase ∧ (v.onSetCurrent m).state.items = v.items := by
    simp only [onSetCurrent]
    split <;> exact ⟨rfl, rfl⟩
  exact ⟨h.same hsame.1 rfl rfl, .kept hsame.2⟩

/-- One act, of any kind: what is held stays what came in order, and the stored list
changes only as a whole. -/
theorem Keeps.perform (act : Act) :
    Keeps (acts ++ [act]) (v.perform act).state ∧ Changes acts act v (v.perform act).state := by
  cases act with
  | store items => exact ⟨h.same rfl rfl rfl, .stored rfl⟩
  | requestLegacy on => exact ⟨h.same rfl rfl rfl, .kept rfl⟩
  | message peer m =>
      cases m with
      | missionCount m => exact Keeps.count peer acts m
      | missionItemInt m => exact h.item peer m
      | missionRequestList m => exact Keeps.requestList peer acts m
      | missionRequestInt m => exact h.request peer m
      | missionSetCurrent m => exact h.setCurrent peer m
      | missionAck m => exact ⟨keeps_of_phase _ fun _ _ _ _ hr => (by cases hr), .kept rfl⟩
      | missionClearAll m => exact ⟨keeps_of_phase _ fun _ _ _ _ hr => (by cases hr), .cleared trivial rfl⟩
      | _ => exact ⟨h.same rfl rfl rfl, .kept rfl⟩

end Messages

theorem keeps_run (acts : List Act) : Keeps acts (initial.run acts) := by
  induction acts using List.reverseRecOn with
  | nil => exact keeps_of_phase _ fun _ _ _ _ hr => (by cases hr)
  | append_singleton acts act ih =>
      rw [run_concat]
      exact (ih.perform act).1

/-- Where a stored list comes from: none was stored or it was emptied, it was put there, or at some time it
had come as a whole. -/
def Sourced (acts : List Act) (items : List MissionItemInt) : Prop :=
  items = [] ∨ .store items ∈ acts ∨ ∃ done later, acts = done ++ later ∧ Complete done items

theorem Sourced.concat {items : List MissionItemInt} (h : Sourced acts items) (act : Act) :
    Sourced (acts ++ [act]) items := by
  rcases h with hnil | hstored | ⟨done, later, rfl, hcomplete⟩
  · exact .inl hnil
  · exact .inr (.inl (List.mem_append_left _ hstored))
  · exact .inr (.inr ⟨done, later ++ [act], List.append_assoc .., hcomplete⟩)

theorem sourced_run (acts : List Act) : Sourced acts (initial.run acts).items := by
  induction acts using List.reverseRecOn with
  | nil => exact .inl rfl
  | append_singleton acts act ih =>
      rw [run_concat]
      cases ((keeps_run acts).perform act).2 with
      | kept h => exact h ▸ ih.concat act
      | stored h => exact .inr (.inl (List.mem_append_right _ (List.mem_singleton.mpr h.symm)))
      | cleared _ hitems => exact .inl hitems
      | replaced _ _ hitems => exact .inr (.inr ⟨_, [], (List.append_nil _).symm, hitems⟩)

end VehicleMission

inductive FlatPhase
  | idle
  /-- A list of so many items is coming in from a peer; the number of the item that is due. -/
  | receiving (count next : UInt16) (peer : Address) (missionType : MissionType)
  | sending (peer : Address)
  deriving DecidableEq

/-- The memory of a vehicle's mission side, each part on its own. The items that have come stay where they
are until the next announcement, or until a peer calls the transfer off. -/
structure FlatMission where
  items : List MissionItemInt
  pending : List MissionItemInt
  current : UInt16
  phase : FlatPhase
  legacyRequests : Bool
  deriving DecidableEq

namespace FlatMission

def initial : FlatMission := ⟨[], [], 0, .idle, false⟩

def store (f : FlatMission) (items : List MissionItemInt) : FlatMission := { f with items, current := 0 }

def request (f : FlatMission) (peer : Address) (seq : UInt16) (missionType : MissionType) : Message :=
  if f.legacyRequests then .missionRequest ⟨seq, peer, missionType⟩
    else .missionRequestInt ⟨seq, peer, missionType⟩

def onCount (f : FlatMission) (peer : Address) (m : MissionCount) : Replied FlatMission :=
  if m.count = 0 then
    ⟨{ f with items := [], pending := [], phase := .idle }, [VehicleMission.ack peer m.missionType .accepted]⟩
  else
    ⟨{ f with pending := [], phase := .receiving m.count 0 peer m.missionType },
      [f.request peer 0 m.missionType]⟩

def onItem (f : FlatMission) (m : MissionItemInt) : Replied FlatMission :=
  match f.phase with
  | .receiving count next peer missionType =>
    if m.seq ≠ next then ⟨f, [f.request peer next missionType]⟩
    else if count ≤ next + 1 then
      ⟨{ f with items := f.pending ++ [m], pending := [], current := 0, phase := .idle },
        [VehicleMission.ack peer missionType .accepted]⟩
    else
      ⟨{ f with pending := f.pending ++ [m], phase := .receiving count (next + 1) peer missionType },
        [f.request peer (next + 1) missionType]⟩
  | _ => ⟨f, []⟩

def onRequestList (f : FlatMission) (peer : Address) (m : MissionList) : Replied FlatMission :=
  if maxItems < f.items.length then
    ⟨{ f with phase := .idle }, [VehicleMission.ack peer m.missionType .noSpace]⟩
  else
    ⟨{ f with phase := .sending peer },
      [.missionCount ⟨UInt16.ofNat f.items.length, peer, m.missionType⟩]⟩

def onRequest (f : FlatMission) (peer : Address) (m : MissionRequest) : Replied FlatMission :=
  match f.items[m.seq.toNat]? with
  | some item => ⟨f, [.missionItemInt { item with target := peer }]⟩
  | none => ⟨f, [VehicleMission.ack peer m.missionType .invalidSequence]⟩

def onAck (f : FlatMission) : Replied FlatMission :=
  match f.phase with
  | .receiving .. => ⟨{ f with pending := [], phase := .idle }, []⟩
  | _ => ⟨{ f with phase := .idle }, []⟩

def onSetCurrent (f : FlatMission) (m : MissionSetCurrent) : Replied FlatMission :=
  let f := if m.seq.toNat < f.items.length then { f with current := m.seq } else f
  ⟨f, [.missionCurrent ⟨f.current, 0, 0, 0⟩]⟩

def handle (f : FlatMission) (peer : Address) : Message → Replied FlatMission
  | .missionCount m => f.onCount peer m
  | .missionItemInt m => f.onItem m
  | .missionRequestList m => f.onRequestList peer m
  | .missionRequestInt m => f.onRequest peer m
  | .missionAck _ => f.onAck
  | .missionClearAll m =>
    ⟨{ f.store [] with phase := .idle }, [VehicleMission.ack peer m.missionType .accepted]⟩
  | .missionSetCurrent m => f.onSetCurrent m
  | _ => ⟨f, []⟩

def perform (f : FlatMission) : VehicleMission.Act → Replied FlatMission
  | .message peer m => f.handle peer m
  | .store items => ⟨f.store items, []⟩
  | .requestLegacy on => ⟨{ f with legacyRequests := on }, []⟩

def run (f : FlatMission) (acts : List VehicleMission.Act) : FlatMission :=
  acts.foldl (fun f act => (f.perform act).state) f

/-- The same memory with the items that have come taken into the phase, or left out of it. -/
def folded (f : FlatMission) : VehicleMission where
  items := f.items
  current := f.current
  phase :=
    match f.phase with
    | .idle => .idle
    | .receiving count _ peer missionType => .receiving count f.pending peer missionType
    | .sending peer => .sending peer
  legacyRequests := f.legacyRequests

/-- Receiving a list, a vehicle waits for the item that follows those it holds, and it is one of the list. -/
def Aligned (f : FlatMission) : Prop :=
  ∀ count next peer missionType, f.phase = .receiving count next peer missionType →
    f.pending.length = next.toNat ∧ next.toNat < count.toNat

variable {f : FlatMission}

theorem request_folded (f : FlatMission) (peer : Address) (seq : UInt16) (missionType : MissionType) :
    f.folded.request peer seq.toNat missionType = f.request peer seq missionType := by
  rw [VehicleMission.request, UInt16.ofNat_toNat]
  rfl

/-- Behaving as one vehicle: the answers are the same, and so is the memory that is left. -/
structure Matches (r : Replied FlatMission) (r' : Replied VehicleMission) : Prop where
  state : r.state.folded = r'.state
  replies : r.replies = r'.replies
  aligned : r.state.Aligned

theorem aligned_of_phase (h :
    ∀ count next peer missionType, f.phase ≠ .receiving count next peer missionType) :
    f.Aligned :=
  fun _ _ _ _ hphase => absurd hphase (h _ _ _ _)

theorem matches_count (f : FlatMission) (peer : Address) (m : MissionCount) :
    Matches (f.onCount peer m) (f.folded.onCount peer m) := by
  unfold onCount VehicleMission.onCount
  split
  · exact ⟨rfl, rfl, aligned_of_phase fun _ _ _ _ hr => (by cases hr)⟩
  · rename_i hzero
    refine ⟨rfl, ?_, fun count next other missionType hr => ?_⟩
    · exact congrArg (fun answer => [answer]) (request_folded f peer 0 m.missionType).symm
    · cases hr
      have hne : m.count.toNat ≠ 0 := fun hz => hzero (UInt16.toNat_inj.mp hz)
      exact ⟨rfl, Nat.pos_of_ne_zero hne⟩

theorem matches_item (h : f.Aligned) (m : MissionItemInt) : Matches (f.onItem m) (f.folded.onItem m) := by
  cases hphase : f.phase with
  | idle =>
      simp only [onItem, VehicleMission.onItem, folded, hphase]
      exact ⟨by simp only [folded, hphase], rfl, h⟩
  | sending other =>
      simp only [onItem, VehicleMission.onItem, folded, hphase]
      exact ⟨by simp only [folded, hphase], rfl, h⟩
  | receiving count next peer missionType =>
      obtain ⟨hlength, hlt⟩ := h count next peer missionType hphase
      have hfolded : f.folded.phase = .receiving count f.pending peer missionType := by
        simp only [folded, hphase]
      have hcount : count.toNat < 65536 := count.toNat_lt
      have hnext : (next + 1).toNat = next.toNat + 1 := by
        rw [UInt16.toNat_add, UInt16.toNat_one]
        exact Nat.mod_eq_of_lt (by omega)
      have hdue : m.seq ≠ next ↔ m.seq.toNat ≠ f.pending.length := by
        rw [hlength, ne_eq, ne_eq, UInt16.toNat_inj]
      have hfull : count ≤ next + 1 ↔ count.toNat ≤ (f.pending ++ [m]).length := by
        rw [UInt16.le_iff_toNat_le, hnext, List.length_append, hlength, List.length_singleton]
      simp only [onItem, VehicleMission.onItem, hphase, hfolded]
      by_cases hseq : m.seq ≠ next
      · rw [if_pos hseq, if_pos (hdue.mp hseq), hlength, request_folded]
        exact ⟨rfl, rfl, h⟩
      · rw [if_neg hseq, if_neg (hdue.not.mp hseq)]
        by_cases hlast : count ≤ next + 1
        · rw [if_pos hlast, if_pos (hfull.mp hlast)]
          exact ⟨rfl, rfl, aligned_of_phase fun _ _ _ _ hr => (by cases hr)⟩
        · rw [if_neg hlast, if_neg (hfull.not.mp hlast), List.length_append, hlength,
            List.length_singleton, ← hnext, request_folded]
          refine ⟨rfl, rfl, fun _ _ _ _ hr => ?_⟩
          cases hr
          refine ⟨?_, ?_⟩
          · rw [List.length_append, hlength, List.length_singleton, hnext]
          · exact Nat.lt_of_not_le fun hle => hlast (UInt16.le_iff_toNat_le.mpr hle)

theorem matches_requestList (f : FlatMission) (peer : Address) (m : MissionList) :
    Matches (f.onRequestList peer m) (f.folded.onRequestList peer m) := by
  unfold onRequestList VehicleMission.onRequestList
  by_cases hsize : maxItems < f.items.length
  · rw [if_pos hsize, if_pos (show maxItems < f.folded.items.length from hsize)]
    exact ⟨rfl, rfl, aligned_of_phase fun _ _ _ _ hr => (by cases hr)⟩
  · rw [if_neg hsize, if_neg (show ¬ maxItems < f.folded.items.length from hsize)]
    exact ⟨rfl, rfl, aligned_of_phase fun _ _ _ _ hr => (by cases hr)⟩

theorem matches_request (h : f.Aligned) (peer : Address) (m : MissionRequest) :
    Matches (f.onRequest peer m) (f.folded.onRequest peer m) := by
  unfold onRequest VehicleMission.onRequest
  cases hitem : f.items[m.seq.toNat]? with
  | none =>
      rw [show f.folded.items[m.seq.toNat]? = none from hitem]
      exact ⟨rfl, rfl, h⟩
  | some item =>
      rw [show f.folded.items[m.seq.toNat]? = some item from hitem]
      exact ⟨rfl, rfl, h⟩

theorem matches_setCurrent (h : f.Aligned) (m : MissionSetCurrent) :
    Matches (f.onSetCurrent m) (f.folded.onSetCurrent m) := by
  simp only [onSetCurrent, VehicleMission.onSetCurrent]
  by_cases hseq : m.seq.toNat < f.items.length
  · rw [if_pos hseq, if_pos (show m.seq.toNat < f.folded.items.length from hseq)]
    exact ⟨rfl, rfl, h⟩
  · rw [if_neg hseq, if_neg (show ¬ m.seq.toNat < f.folded.items.length from hseq)]
    exact ⟨rfl, rfl, h⟩

theorem matches_ack (f : FlatMission) : Matches f.onAck ⟨{ f.folded with phase := .idle }, []⟩ := by
  unfold onAck
  split <;> exact ⟨rfl, rfl, aligned_of_phase fun _ _ _ _ hr => (by cases hr)⟩

/-- What is left over of a list makes no difference to a vehicle. -/
theorem matches_perform (h : f.Aligned) (act : VehicleMission.Act) :
    Matches (f.perform act) (f.folded.perform act) := by
  cases act with
  | store items => exact ⟨rfl, rfl, h⟩
  | requestLegacy on => exact ⟨rfl, rfl, h⟩
  | message peer m =>
      cases m with
      | missionCount m => exact matches_count f peer m
      | missionItemInt m => exact matches_item h m
      | missionRequestList m => exact matches_requestList f peer m
      | missionRequestInt m => exact matches_request h peer m
      | missionSetCurrent m => exact matches_setCurrent h m
      | missionAck m => exact matches_ack f
      | missionClearAll m => exact ⟨rfl, rfl, aligned_of_phase fun _ _ _ _ hr => (by cases hr)⟩
      | _ => exact ⟨rfl, rfl, h⟩

theorem folded_run (acts : List VehicleMission.Act) :
    (initial.run acts).folded = VehicleMission.initial.run acts ∧ (initial.run acts).Aligned := by
  induction acts using List.reverseRecOn with
  | nil => exact ⟨rfl, aligned_of_phase fun _ _ _ _ hr => (by cases hr)⟩
  | append_singleton acts act ih =>
      have hrun : initial.run (acts ++ [act]) = ((initial.run acts).perform act).state := by
        rw [run, List.foldl_append]
        rfl
      have hmatches := matches_perform ih.2 act
      rw [hrun, VehicleMission.run_concat, ← ih.1]
      exact ⟨hmatches.state, hmatches.aligned⟩

/-- Receiving a list, a vehicle holds the items that came in their order since it was announced, as many as
the number of the item that is due, and that is one of the list. -/
structure Keeps (acts : List VehicleMission.Act) (f : FlatMission) : Prop where
  receiving : ∀ count next peer missionType, f.phase = .receiving count next peer missionType →
    (∃ target, VehicleMission.announced acts = some (peer, ⟨count, target, missionType⟩)) ∧
      f.pending = VehicleMission.inOrder acts ∧ f.pending.length = next.toNat ∧
        VehicleMission.Numbered f.pending ∧
      next < count

theorem Aligned.keeps {acts : List VehicleMission.Act} (h : f.Aligned)
    (hfolded : VehicleMission.Keeps acts f.folded) :
    f.Keeps acts := by
  constructor
  intro count next peer missionType hphase
  obtain ⟨hlength, hlt⟩ := h count next peer missionType hphase
  have hreceiving : f.folded.phase = .receiving count f.pending peer missionType := by
    simp only [folded, hphase]
  obtain ⟨hannounced, hpending, -⟩ := hfolded.receiving _ _ _ _ hreceiving
  refine ⟨hannounced, hpending, hlength, ?_, UInt16.lt_iff_toNat_lt.mpr hlt⟩
  rw [hpending]
  exact VehicleMission.numbered_inOrder acts

end FlatMission

namespace VehicleMission

/-- A vehicle stores lists as wholes, whatever comes to it from whichever peers. One more act leaves the
stored list as it is, empties it, puts one there from outside, or completes an announced list, which
then replaces it: the items that came in their order since the announcement, all of them. Receiving, the
vehicle holds the items that came in their order so far, and more are to come; so what is stored is
never a part of a list. With the memory laid out flat it holds as many items as the number that is due,
and the answers are the same. -/
theorem stores_lists_whole (acts : List Act) (act : Act) :
    let v := initial.run acts
    let f := FlatMission.initial.run acts
    Changes acts act v (v.perform act).state ∧ Sourced acts v.items ∧ Keeps acts v ∧
      f.folded = v ∧ (f.perform act).replies = (v.perform act).replies ∧ f.Keeps acts := by
  intro v f
  have hkeeps : Keeps acts v := keeps_run acts
  obtain ⟨hfolded, haligned⟩ := FlatMission.folded_run acts
  have hreplies : (f.perform act).replies = (f.folded.perform act).replies :=
    (FlatMission.matches_perform haligned act).replies
  refine ⟨(hkeeps.perform act).2, sourced_run acts, hkeeps, hfolded, ?_, haligned.keeps ?_⟩
  · rw [hreplies]
    exact congrArg (fun v => (perform v act).replies) hfolded
  · rw [hfolded]
    exact hkeeps

-- a peer that asks for the list ends the transfer that was under way, and its items are not stored
example :
    let item (seq : UInt16) : MissionItemInt := MissionItem.encode ⟨1, 1⟩ { MissionItem.blank with seq }
    let upTo (seqs : List UInt16) : List Act :=
      seqs.map fun seq => .message ⟨255, 190⟩ (.missionItemInt (item seq))
    let announce : Act := .message ⟨255, 190⟩ (.missionCount ⟨2, ⟨1, 1⟩, .mission⟩)
    let ask : Act := .message ⟨9, 1⟩ (.missionRequestList ⟨⟨1, 1⟩, .mission⟩)
    (initial.run (announce :: upTo [1, 0, 0, 1])).items = [item 0, item 1] ∧
      (initial.run (announce :: upTo [0] ++ ask :: upTo [1])).items = [] := by
  decide +kernel

end VehicleMission

end GroundLink
