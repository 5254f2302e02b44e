import GroundLink.Proofs.Conduct
import GroundLink.Proofs.ListTraffic

/-! What transfers make of a list they fetch. What they have of it is up to the messages they act on alone
(`Deed.held`): it begins with the count, and takes each item the first time it is brought after the one before
it (`Deed.Collects`). Every move keeps to this (`Activity.Fetching`). So in every run a transfer asks for the
item that comes next, and acknowledges the list once, when it is whole (`Engine.collects_announced_list`). -/

namespace GroundLink

open Function Deed

/-- Whether a message tells a peer that its list was taken. -/
def Message.takesList : Message → Bool
  | missionAck a => a.result = .accepted
  | _ => false

/-- Whether a job fetches a list. -/
def Task.Fetches : Task → Prop
  | transfer (.download _) => True
  | transfer (.receive _) => True
  | _ => False

namespace Deed

variable {n : Nat} {log deeds : List Deed} {items : List MissionItem} {x : Deed}

/-- What there is of a list when its length was told or an item brought. A list that was not told of takes no
items; one that was takes the item that comes next. -/
def gather (told : Option Nat) (item : Option MissionItem) :
    Option (List MissionItem) → Option (List MissionItem)
  | none => told.map fun _ => []
  | some items => some (items ++ (item.filter (·.seq.toNat = items.length)).toList)

/-- The items that a transfer has of the list it fetches, once it was told of it. -/
def held (n : Nat) (log : List Deed) : Option (List MissionItem) :=
  log.foldl (fun items x => gather (x.announces? n) (x.item? n) items) none

theorem gather_none (items : Option (List MissionItem)) : gather none none items = items := by
  cases items <;> simp [gather]

theorem held_concat (n : Nat) (log : List Deed) (x : Deed) :
    held n (log ++ [x]) = gather (x.announces? n) (x.item? n) (held n log) := by
  rw [held, List.foldl_append]
  rfl

theorem held_append (huntouched : ∀ x ∈ deeds, x.announces? n = none ∧ x.item? n = none) :
    held n (log ++ deeds) = held n log := by
  induction deeds using List.reverseRecOn with
  | nil => rw [List.append_nil]
  | append_singleton deeds x ih =>
      obtain ⟨htold, hitem⟩ := huntouched x (List.mem_append_right _ (List.mem_singleton_self x))
      rw [← List.append_assoc, held_concat, htold, hitem, gather_none]
      exact ih fun y hy => huntouched y (List.mem_append_left _ hy)

theorem held_eq_none_iff : held n log = none ↔ announced? n log = none := by
  induction log using List.reverseRecOn with
  | nil => exact ⟨fun _ => rfl, fun _ => rfl⟩
  | append_singleton log x ih =>
      rw [held_concat, announced?_append, announced?_singleton, Option.or_eq_none_iff, ← ih]
      cases held n log <;> simp [gather]

/-- What tells a transfer of its list or brings it an item is a move of its own. -/
theorem makes_of_brought (s : Service) (hx : ¬(x.announces? n = none ∧ x.item? n = none)) :
    ∃ a move, x.Makes s n a move := by
  cases x with
  | heeded y =>
      obtain ⟨r, h, e⟩ := y
      by_cases hn : r.number = n
      · subst hn
        cases e with
        | message job header m => exact ⟨_, _, .heard⟩
        | expiry job c => exact absurd ⟨if_pos rfl, if_pos rfl⟩ hx
      · exact absurd ⟨if_neg hn, if_neg hn⟩ hx
  | started w h =>
      by_cases hn : w.number = n
      · subst hn
        exact ⟨_, _, .started⟩
      · exact absurd ⟨if_neg hn, rfl⟩ hx
  | _ => exact absurd ⟨rfl, rfl⟩ hx

/-- How a list is collected: it begins when the transfer is told of it, and each item is the first of its
number that is brought after the one before it was taken. -/
inductive Collects (n : Nat) : List Deed → List MissionItem → Prop
  | told {past : List Deed} {x : Deed} {length : Nat} (first : announced? n past = none)
      (told : x.announces? n = some length) : Collects n (past ++ [x]) []
  | item {past between : List Deed} {x : Deed} {items : List MissionItem} {i : MissionItem}
      (before : Collects n past items)
      (others : ∀ y ∈ between, ∀ j, y.item? n = some j → j.seq.toNat ≠ items.length)
      (brought : x.item? n = some i) (number : i.seq.toNat = items.length) :
      Collects n (past ++ between ++ [x]) (items ++ [i])

theorem collects_of_held (hheld : held n log = some items) :
    ∃ past between, log = past ++ between ∧ Collects n past items ∧
      ∀ y ∈ between, ∀ j, y.item? n = some j → j.seq.toNat ≠ items.length := by
  induction log using List.reverseRecOn generalizing items with
  | nil => cases hheld
  | append_singleton log x ih =>
      rw [held_concat] at hheld
      cases hlog : held n log with
      | none =>
          rw [hlog, gather, Option.map_eq_some_iff] at hheld
          obtain ⟨length, htold, rfl⟩ := hheld
          exact ⟨_, [], (List.append_nil _).symm, .told (held_eq_none_iff.mp hlog) htold, by simp⟩
      | some before =>
          obtain ⟨past, between, rfl, hcollects, hothers⟩ := ih hlog
          rw [hlog, gather, Option.some.injEq] at hheld
          subst hheld
          cases hnext : (x.item? n).filter (·.seq.toNat = before.length) with
          | none =>
              rw [Option.toList_none, List.append_nil]
              refine ⟨past, between ++ [x], List.append_assoc _ _ _, hcollects, fun y hy j hj => ?_⟩
              rcases List.mem_append.mp hy with hold | hnew
              · exact hothers y hold j hj
              · rw [List.mem_singleton.mp hnew] at hj
                rw [hj] at hnext
                simpa using hnext
          | some i =>
              obtain ⟨hbrought, hnumber⟩ := Option.filter_eq_some_iff.mp hnext
              exact ⟨_, [], (List.append_nil _).symm,
                hcollects.item hothers hbrought (of_decide_eq_true hnumber), by simp⟩

theorem numberedFrom_concat {first : Nat} {i : MissionItem} (h : numberedFrom first items = true)
    (hi : i.seq.toNat = first + items.length) : numberedFrom first (items ++ [i]) = true := by
  induction items generalizing first with
  | nil => simpa [numberedFrom] using hi
  | cons j rest ih =>
      rw [numberedFrom, Bool.and_eq_true] at h
      rw [List.cons_append, numberedFrom, Bool.and_eq_true]
      refine ⟨h.1, ih h.2 ?_⟩
      rw [hi, List.length_cons]
      omega

theorem Collects.numbered (h : Collects n log items) : numberedFrom 0 items = true := by
  induction h with
  | told first told => rfl
  | item before others brought number ih => exact numberedFrom_concat ih (by rw [number, Nat.zero_add])

end Deed

namespace Collection

theorem seq_of_request {l : ListRef} {c : Collection} (hfits : c.items.length ≤ maxItems) {r : MissionRequest}
    (hr : some (c.request l) = some (.missionRequestInt r)) : r.seq.toNat = c.items.length := by
  obtain ⟨seq, hseq, hplace⟩ := c.query?_request l hfits
  rw [Option.some.inj hr] at hseq
  cases hseq
  exact hplace

end Collection

namespace Activity

variable {a : Activity} {setting : Setting}

/-- The items that a transfer has of the list it fetches, once it knows how long that is. -/
def gathered? (a : Activity) : Option (List MissionItem) := a.collection?.map (·.items)

theorem fits_of_lacking (hl : a.Lacking) {items : List MissionItem} (h : a.gathered? = some items) :
    ∃ length, a.length? = some length ∧ items.length < length ∧ length ≤ maxItems := by
  obtain ⟨c, hc, rfl⟩ := Option.map_eq_some_iff.mp h
  obtain ⟨hlacks, hfits⟩ := hl c hc
  exact ⟨c.expected, by rw [length?, hc, Option.map_some], hlacks, hfits⟩

/-- What a transfer does by a move if there are these items of the list it fetches, and
the list is that long. -/
inductive Fetching (a : Activity) (items : Option (List MissionItem)) (length : Option Nat) :
    Move Activity → Prop
  | ignored (holds : a.gathered? = items) (told : a.length? = length) (lacking : a.Lacking) :
      Fetching a items length .ignore
  | asking {wait : Wait} {report : Option Fraction} {message : Option Message} {b : Activity}
      (holds : b.gathered? = items) (told : b.length? = length) (lacking : b.Lacking)
      (query : ∀ r, message = some (.missionRequestInt r) →
        ∃ held, items = some held ∧ r.seq.toNat = held.length)
      (quiet : ∀ m, message = some m → m.takesList = false) :
      Fetching a items length (.proceed wait report message b)
  | whole {l : ListRef} {held : List MissionItem} (holds : items = some held)
      (told : length = some held.length) :
      Fetching a items length (Collection.accept l held)
  | failed {message : Option Message} {report : Option Fraction} {cause : Failure}
      (fits : ∀ held, items = some held → ∃ bound, length = some bound ∧ held.length ≤ bound)
      (query : ∀ r, message ≠ some (.missionRequestInt r))
      (quiet : ∀ m, message = some m → m.takesList = false) :
      Fetching a items length (.finish message report (.failure cause))

theorem fetching_stop (hl : a.Lacking) {message : Option Message} {report : Option Fraction} {cause : Failure}
    (query : ∀ r, message ≠ some (.missionRequestInt r))
    (quiet : ∀ m, message = some m → m.takesList = false) :
    a.Fetching a.gathered? a.length? (.finish message report (.failure cause)) := by
  refine .failed (fun held hheld => ?_) query quiet
  obtain ⟨length, hlength, hlt, _⟩ := fits_of_lacking hl hheld
  exact ⟨length, hlength, hlt.le⟩

/-- An item for a collection, whichever kind of job that is of. -/
theorem fetching_onItem {f : Collection → Activity}
    (hcollection : ∀ c, (f c).collection? = some c) {c : Collection} (hl : (f c).Lacking) (l : ListRef)
    (m : MissionItemInt) :
    (f c).Fetching (gather none (some (.decode m)) (some c.items)) (some c.expected)
      ((c.onItem l m).map f) := by
  have hgathered : ∀ c, (f c).gathered? = some c.items := fun c => congrArg (Option.map _) (hcollection c)
  have hlength : ∀ c, (f c).length? = some c.expected := fun c => congrArg (Option.map _) (hcollection c)
  obtain ⟨hlacks, hfits⟩ := hl c (hcollection c)
  rw [Collection.onItem]
  split
  · rename_i hother
    have hsame : gather none (some (MissionItem.decode m)) (some c.items) = some c.items := by
      simp [gather, Option.filter, MissionItem.decode, hother]
    rw [hsame]
    exact .asking (hgathered c) (hlength c) hl (fun r hr => by cases hr) fun m hm => by cases hm
  · rename_i hnext
    have hmore : gather none (some (MissionItem.decode m)) (some c.items) =
        some (c.items ++ [.decode m]) := by
      simp [gather, Option.filter, MissionItem.decode, not_not.mp hnext]
    have hcount : (c.items ++ [MissionItem.decode m]).length = c.items.length + 1 := List.length_append
    rw [hmore]
    simp only
    split
    · rename_i hwhole
      exact .whole rfl (congrArg some hwhole.symm)
    · rename_i hlacking
      refine .asking (hgathered _) (hlength _) (fun c' hc' => ?_) (fun r hr => ⟨_, rfl, ?_⟩) fun m' hm' => ?_
      · obtain rfl := Option.some.inj ((hcollection _).symm.trans hc')
        simp only at hlacking ⊢
        omega
      · apply Collection.seq_of_request ?_ hr
        simp only
        omega
      · cases hm'
        rfl

theorem fetching_onMessage (hl : a.Lacking) (hf : a.task.Fetches) (sender : Address) (m : Message) :
    a.Fetching (gather (a.announces? m) m.item? a.gathered?) (a.length?.or (a.announces? m))
      (a.onMessage setting sender m) := by
  cases a with
  | download d state =>
      cases state with
      | listing retries =>
          cases m with
          | missionCount count =>
              rw [onMessage, Download.onMessage, Download.onCount]
              split
              · rename_i hnone
                exact .whole rfl (congrArg some hnone)
              · rename_i hsome
                refine .asking rfl rfl ?_ (fun r hr => ⟨[], rfl, ?_⟩) fun m hm => by cases hm; rfl
                · rintro _ ⟨⟩
                  exact ⟨Nat.pos_of_ne_zero hsome, Nat.le_of_lt_succ count.count.toNat_lt⟩
                · exact Collection.seq_of_request (Nat.zero_le _) hr
          | _ => exact .ignored rfl rfl hl
      | collecting c =>
          cases m with
          | missionItemInt item =>
              rw [onMessage, Download.onMessage, Download.onItem, Move.map_map]
              exact fetching_onItem (f := fun c => download d (.collecting c)) (fun _ => rfl) hl d.list item
          | _ => exact .ignored (gather_none _).symm rfl hl
  | receive r c =>
      cases m with
      | missionItemInt item => exact fetching_onItem (fun _ => rfl) hl r.list item
      | _ => exact .ignored (gather_none _).symm rfl hl
  | _ => exact hf.elim

theorem gathered?_again : a.again.gathered? = a.gathered? := by
  cases a with
  | download d state => cases state <;> rfl
  | _ => rfl

theorem fetching_onTimeout (hl : a.Lacking) (hf : a.task.Fetches) :
    a.Fetching a.gathered? a.length? (a.onTimeout setting) := by
  obtain ⟨t, ht⟩ : ∃ t, a.task = .transfer t := by
    cases htask : a.task with
    | command attempt =>
        rw [htask] at hf
        exact hf.elim
    | transfer t => exact ⟨t, rfl⟩
  rw [onTimeout_transfer ht]
  split
  · exact fetching_stop hl (fun r hr => by cases hr) fun m hm => by cases hm
  · apply Fetching.asking gathered?_again a.length?_again (lacking_again hl)
    · intro r hr
      cases a with
      | download d state =>
          cases state with
          | listing retries => cases hr
          | collecting c =>
              exact ⟨c.items, rfl, Collection.seq_of_request ((hl c rfl).1.le.trans (hl c rfl).2) hr⟩
      | receive r' c =>
          exact ⟨c.items, rfl, Collection.seq_of_request ((hl c rfl).1.le.trans (hl c rfl).2) hr⟩
      | _ => exact hf.elim
    · intro m hm
      cases a with
      | download d state => cases state <;> cases hm <;> rfl
      | receive r' c =>
          cases hm
          rfl
      | _ => exact hf.elim

theorem fetching_farewell (hl : a.Lacking) :
    a.Fetching a.gathered? a.length? (.finish a.farewell? none (.failed .cancelled)) := by
  apply fetching_stop hl
  · intro r hr
    cases a <;> cases hr
  · intro m hm
    cases a <;> cases hm <;> rfl

end Activity

theorem Task.fetching_start {t : Task} (hf : t.Fetches) (setting : Setting) :
    (t.initial setting).Fetching (gather t.announces? none none) t.announces? (t.start setting) := by
  match t with
  | .transfer (.download d) =>
      exact .asking rfl rfl (Activity.lacking_of_collection? rfl)
        (fun r hr => by cases hr) fun m hm => by cases hm; rfl
  | .transfer (.receive r) =>
      rw [start, Receive.start]
      split
      · refine .failed (fun held hheld => ?_) (fun r hr => by cases hr) fun m hm => by cases hm
        cases hheld
        exact ⟨r.count, rfl, Nat.zero_le _⟩
      · rename_i hfits
        split
        · rename_i hnone
          exact .whole rfl (congrArg some hnone)
        · rename_i hsome
          refine .asking rfl rfl ?_ (fun r hr => ⟨[], rfl, ?_⟩) fun m hm => by cases hm; rfl
          · rintro _ ⟨⟩
            exact ⟨Nat.pos_of_ne_zero hsome, Nat.le_of_not_lt hfits⟩
          · exact Collection.seq_of_request (Nat.zero_le _) hr

namespace Activity

variable {service : Service} {n : Nat} {t : Ticket} {past log : List Deed} {x : Deed} {a : Activity}
  {move : Move Activity} {p : Progress}

/-- What is known of a transfer under way that fetches a list. -/
structure Tracks (t : Ticket) (log : List Deed) (a : Activity) : Prop where
  lacking : a.Lacking
  holds : held t.number log = a.gathered?
  told : announced? t.number log = a.length?
  /-- It has not tried to acknowledge the list. -/
  untried : ∀ y ∈ log, ∀ m ∈ y.offers t, m.takesList = false

/-- Whatever move such a transfer makes, it keeps to the list. -/
theorem fetching_of_makes (hm : x.Makes t.service t.number a move) (hf : a.task.Fetches)
    (hgoes : x.begins? = none → a.Tracks t past)
    (hbegins : x.begins? ≠ none → held t.number past = none ∧ announced? t.number past = none) :
    a.Fetching (held t.number (past ++ [x])) (announced? t.number (past ++ [x])) move := by
  obtain ⟨service, n⟩ := t
  rw [held_concat, announced?_append, announced?_singleton]
  have hsilent : x.announces? n = none → x.item? n = none → held n past = a.gathered? →
      announced? n past = a.length? → a.Fetching a.gathered? a.length? move →
        a.Fetching (gather (x.announces? n) (x.item? n) (held n past))
          ((announced? n past).or (x.announces? n)) move := by
    intro htold hitem hholds hlength hd
    rwa [htold, hitem, hholds, hlength, gather_none, Option.or_none]
  cases hm with
  | @heard r h job header m =>
      obtain ⟨hl, hholds, htold, _⟩ := hgoes rfl
      rw [hholds, htold, Deed.announces?, Deed.item?, if_pos rfl, if_pos rfl]
      exact fetching_onMessage hl hf _ m
  | expired =>
      obtain ⟨hl, hholds, htold, _⟩ := hgoes rfl
      exact hsilent (if_pos rfl) (if_pos rfl) hholds htold (fetching_onTimeout hl hf)
  | @started w h =>
      obtain ⟨hholds, htold⟩ := hbegins (Option.some_ne_none _)
      rw [hholds, htold, Deed.announces?, if_pos rfl, Option.none_or]
      rw [Task.task_initial] at hf
      exact Task.fetching_start hf _
  | cancelled =>
      obtain ⟨hl, hholds, htold, _⟩ := hgoes rfl
      exact hsilent rfl rfl hholds htold (fetching_farewell hl)

/-- What comes of a step of a transfer that fetches a list, in view of what was done before. -/
structure Gathers (t : Ticket) (past : List Deed) (x : Deed) (a : Activity) (p : Progress) : Prop where
  found : x.begins? = none → a.Tracks t past
  fits : ∀ items, held t.number (past ++ [x]) = some items →
    ∃ length, announced? t.number (past ++ [x]) = some length ∧ items.length ≤ length
  query : ∀ r, .missionRequestInt r ∈ x.offers t → ∃ items length, held t.number (past ++ [x]) = some items ∧
    announced? t.number (past ++ [x]) = some length ∧ r.seq.toNat = items.length ∧ items.length < length
  whole : ∀ m ∈ x.offers t, m.takesList = true → x.offers t = [m] ∧
    ∃ items, held t.number (past ++ [x]) = some items ∧ announced? t.number (past ++ [x]) = some items.length
  untried : ∀ y ∈ past, ∀ m ∈ y.offers t, m.takesList = false
  /-- The transfer succeeds just when the link takes its acknowledgement, and hands over what there is. -/
  succeeds : ∀ v, p.standing = .ended ⟨t.number, .success v⟩ → (∃ m ∈ x.sends t, m.takesList = true) ∧
    ∃ items, v = .items items ∧ held t.number (past ++ [x]) = some items
  sent : ∀ m ∈ x.sends t, m.takesList = true → ∃ v, p.standing = .ended ⟨t.number, .success v⟩

section Steps

variable {items : Option (List MissionItem)} {length : Option Nat}

theorem Fetching.fits (hd : a.Fetching items length move) {held : List MissionItem}
    (hheld : items = some held) :
    ∃ bound, length = some bound ∧ held.length ≤ bound := by
  cases hd with
  | ignored holds told lacking =>
      obtain ⟨bound, hbound, hlt, _⟩ := fits_of_lacking lacking (holds.trans hheld)
      exact ⟨bound, told.symm.trans hbound, hlt.le⟩
  | asking holds told lacking query quiet =>
      obtain ⟨bound, hbound, hlt, _⟩ := fits_of_lacking lacking (holds.trans hheld)
      exact ⟨bound, told.symm.trans hbound, hlt.le⟩
  | whole holds told =>
      cases holds.symm.trans hheld
      exact ⟨_, told, Nat.le_refl _⟩
  | failed fits query quiet => exact fits held hheld

theorem Fetching.query (hd : a.Fetching items length move) {r : MissionRequest}
    (hr : move.message? = some (.missionRequestInt r)) :
    ∃ held bound, items = some held ∧ length = some bound ∧ r.seq.toNat = held.length ∧
      held.length < bound := by
  cases hd with
  | ignored holds told lacking => cases hr
  | asking holds told lacking query quiet =>
      obtain ⟨held, hheld, hseq⟩ := query r hr
      obtain ⟨bound, hbound, hlt, _⟩ := fits_of_lacking lacking (holds.trans hheld)
      exact ⟨held, bound, hheld, told.symm.trans hbound, hseq, hlt⟩
  | whole holds told => cases hr
  | failed fits query quiet => exact absurd hr (query r)

/-- A transfer acknowledges a list only when it is whole, and that is how it succeeds. -/
theorem Fetching.whole_of_message (hd : a.Fetching items length move) {m : Message}
    (hm : move.message? = some m) (htakes : m.takesList = true) :
    ∃ held, items = some held ∧ length = some held.length ∧
      move = .finish (some m) (some .one) (.success (.items held)) := by
  cases hd with
  | ignored holds told lacking => cases hm
  | asking holds told lacking query quiet =>
      exact absurd htakes (by rw [quiet m hm]; exact Bool.false_ne_true)
  | whole holds told =>
      cases hm
      exact ⟨_, holds, told, rfl⟩
  | failed fits query quiet => exact absurd htakes (by rw [quiet m hm]; exact Bool.false_ne_true)

theorem Fetching.whole_of_success (hd : a.Fetching items length move) {message : Option Message}
    {report : Option Fraction} {v : Value} (hm : move = .finish message report (.success v)) :
    ∃ held m, items = some held ∧ v = .items held ∧ message = some m ∧ m.takesList = true := by
  subst hm
  generalize ho : Outcome.success v = o at hd
  cases hd with
  | whole holds told =>
      cases ho
      exact ⟨_, _, holds, rfl, rfl, rfl⟩
  | failed fits query quiet => cases ho

end Steps

theorem gathers_of_makes (hc : p.Carries t a move) (hp : x.progress? t.service = some p)
    (hd : a.Fetching (held t.number (past ++ [x])) (announced? t.number (past ++ [x])) move)
    (hfound : x.begins? = none → a.Tracks t past)
    (huntried : ∀ y ∈ past, ∀ m ∈ y.offers t, m.takesList = false) :
    a.Gathers t past x p := by
  have hoffers : x.offers t = move.message?.toList := by rw [offers, shown_of_progress? hp, hc.offered_eq]
  refine ⟨hfound, fun items hitems => hd.fits hitems,
    fun r hr => ?_, fun m hm htakes => ?_, huntried, fun v hv => ?_, fun m hm htakes => ?_⟩
  · rw [hoffers, Option.mem_toList] at hr
    exact hd.query hr
  · rw [hoffers, Option.mem_toList] at hm
    obtain ⟨held, hheld, hlength, _⟩ := hd.whole_of_message hm htakes
    exact ⟨by rw [hoffers, hm, Option.toList_some], held, hheld, hlength⟩
  · obtain ⟨message, report, hmove, hsent⟩ := hc.of_success hv
    obtain ⟨held, m, hheld, hv, rfl, htakes⟩ := hd.whole_of_success hmove
    refine ⟨⟨m, ?_, htakes⟩, held, hv, hheld⟩
    rw [sends, shown_of_progress? hp, hsent]
    exact List.mem_singleton_self m
  · have hmessage : move.message? = some m := by
      rw [← Option.mem_toList, ← hoffers]
      exact sends_subset_offers t x hm
    obtain ⟨held, _, _, hmove⟩ := hd.whole_of_message hmessage htakes
    rw [sends, shown_of_progress? hp] at hm
    rw [hmove] at hc
    cases hc with
    | wentOn standing state sent offered =>
        rcases state with hnext | ⟨hignore, _⟩
        · cases hnext
        · cases hignore
    | finished standing move sent offered =>
        cases move
        exact ⟨_, standing⟩
    | refused standing message sent offered =>
        rw [sent] at hm
        cases hm

/-- A transfer that goes on knows of the list what there is to know. -/
theorem tracks_of_makes (hc : p.Carries t a move) (hp : x.progress? t.service = some p)
    (hd : a.Fetching (held t.number (past ++ [x])) (announced? t.number (past ++ [x])) move)
    (huntried : ∀ y ∈ past, ∀ m ∈ y.offers t, m.takesList = false) {r : Running}
    (hr : p.standing = .running r) :
    r.activity.Tracks t (past ++ [x]) := by
  have hoffers : x.offers t = move.message?.toList := by rw [offers, shown_of_progress? hp, hc.offered_eq]
  have hlater : (∀ m, move.message? = some m → m.takesList = false) →
      ∀ y ∈ past ++ [x], ∀ m ∈ y.offers t, m.takesList = false := by
    intro hquiet y hy m hm
    rcases List.mem_append.mp hy with hold | hnew
    · exact huntried y hold m hm
    · rw [List.mem_singleton.mp hnew, hoffers, Option.mem_toList] at hm
      exact hquiet m hm
  cases hc with
  | finished standing => cases hr.symm.trans standing
  | refused standing => cases hr.symm.trans standing
  | wentOn standing state sent offered =>
      obtain rfl := Standing.running.inj (hr.symm.trans standing)
      cases hd with
      | ignored holds told lacking =>
          rcases state with hnext | ⟨_, hsame⟩
          · cases hnext
          · rw [hsame]
            exact ⟨lacking, holds.symm, told.symm, hlater fun m hm => by cases hm⟩
      | asking holds told lacking query quiet =>
          rcases state with hnext | ⟨hignore, _⟩
          · rw [← Option.some.inj hnext]
            exact ⟨lacking, holds.symm, told.symm, hlater quiet⟩
          · cases hignore
      | whole holds told =>
          rcases state with hnext | ⟨hignore, _⟩
          · cases hnext
          · cases hignore
      | failed fits query quiet =>
          rcases state with hnext | ⟨hignore, _⟩
          · cases hnext
          · cases hignore

/-- Every move of a transfer that fetches a list keeps to the list. -/
theorem keeps_fetching (service : Service) :
    Deed.Keeps service (fun n log a => a.task.Fetches → a.Tracks ⟨service, n⟩ log) fun past x n a p =>
      a.task.Fetches → a.Gathers ⟨service, n⟩ past x p where
  quiet n a log deeds hquiet htracks hf := by
    have huntouched : ∀ x ∈ deeds, x.announces? n = none ∧ x.item? n = none := by
      intro x hx
      by_contra hbrought
      obtain ⟨a, move, hm⟩ := makes_of_brought service hbrought
      obtain ⟨h, ha⟩ := hm.actor?
      rw [hquiet x hx] at ha
      cases ha
    obtain ⟨hl, hholds, htold, huntried⟩ := htracks hf
    refine ⟨hl, ?_, ?_, fun y hy m hm => ?_⟩
    · rw [held_append huntouched, hholds]
    · rw [announced?_append, announced?_quiet hquiet, Option.or_none, htold]
    · rcases List.mem_append.mp hy with hold | hnew
      · exact huntried y hold m hm
      · rw [offers_of_actor?_none (hquiet y hnew)] at hm
        cases hm
  begins log w h p hfresh hp hc := by
    have hm : (started w h).Makes service w.number _ _ := .started
    have huntried : ∀ y ∈ log, ∀ m ∈ y.offers ⟨service, w.number⟩, m.takesList = false := by
      intro y hy m hm
      obtain ⟨a, move, p, hmakes, _⟩ := makes_of_offers hm
      obtain ⟨h', ha⟩ := hmakes.actor?
      exact absurd ha (hfresh y hy h')
    have huntold : announced? w.number log = none := by
      apply List.findSome?_eq_none_iff.mpr
      intro y hy
      by_contra hsome
      obtain ⟨h', ha⟩ := number_of_announces? hsome
      exact hfresh y hy h' ha
    have hd : (w.task.initial (h.setting service)).task.Fetches →
        (w.task.initial (h.setting service)).Fetching (held w.number (log ++ [started w h]))
          (announced? w.number (log ++ [started w h])) (w.task.start (h.setting service)) := by
      intro hf
      apply fetching_of_makes (t := ⟨service, w.number⟩) hm hf nofun
      intro _
      exact ⟨held_eq_none_iff.mpr huntold, huntold⟩
    refine ⟨fun hf => gathers_of_makes hc hp (hd hf) nofun huntried, fun r hr hf => ?_⟩
    rw [hm.task_of_running hc hr] at hf
    exact tracks_of_makes hc hp (hd hf) huntried hr
  goesOn log x n a move p hm hbegins hp hc htracks := by
    have hd : a.task.Fetches → a.Fetching (held n (log ++ [x])) (announced? n (log ++ [x])) move := by
      intro hf
      apply fetching_of_makes (t := ⟨service, n⟩) hm hf
      · exact fun _ => htracks hf
      · exact fun hne => absurd hbegins hne
    refine ⟨fun hf => gathers_of_makes hc hp (hd hf) (fun _ => htracks hf) (htracks hf).untried,
      fun r hr hf => ?_⟩
    rw [hm.task_of_running hc hr] at hf
    exact tracks_of_makes hc hp (hd hf) (htracks hf).untried hr

end Activity

/-- What there is to say of a list of the given length that a transfer fetches while an
engine takes in the inputs. -/
structure Fetched (t : Ticket) (length : Nat) (e : Engine) (inputs : List Input) : Prop where
  /-- What the link took for the transfer, and what was offered to it, comes of what was done in the queue,
  where nothing that came in is acted on twice. -/
  sent : (e.run inputs).effects.filterMap (Effect.sentBy? t) = (e.log t.service inputs).flatMap (Deed.sends t)
  offered : (e.run inputs).effects.filterMap (Effect.offeredBy? t) =
    (e.log t.service inputs).flatMap (Deed.offers t)
  heard : (heard (e.log t.service inputs)).Sublist (received inputs)
  /-- At all times the items are numbered from zero, each the first of its number since
  the one before was taken. -/
  order : ∀ past items, past <+: e.log t.service inputs → held t.number past = some items →
    items.length ≤ length ∧ numberedFrom 0 items = true ∧ ∃ before between, past = before ++ between ∧
      Collects t.number before items ∧
        ∀ y ∈ between, ∀ j, y.item? t.number = some j → j.seq.toNat ≠ items.length
  /-- Those are the items that the transfer keeps, which is under way only as long as one is missing. -/
  found : ∀ past x rest, e.log t.service inputs = past ++ x :: rest →
    ∀ a move, x.Makes t.service t.number a move →
    x.begins? = none → ∀ c, a.collection? = some c →
      held t.number past = some c.items ∧ c.expected = length ∧ c.items.length < length
  known : ∀ r, ((e.run inputs).engine.queue t.service).running = some r → r.number = t.number →
    ∀ c, r.activity.collection? = some c →
      held t.number (e.log t.service inputs) = some c.items ∧ c.expected = length ∧ c.items.length < length
  query : ∀ past x rest, e.log t.service inputs = past ++ x :: rest → ∀ r, .missionRequestInt r ∈ x.offers t →
    ∃ items, held t.number (past ++ [x]) = some items ∧ r.seq.toNat = items.length ∧ items.length < length
  whole : ∀ past x rest, e.log t.service inputs = past ++ x :: rest → ∀ m ∈ x.offers t, m.takesList = true →
    ∃ items, held t.number (past ++ [x]) = some items ∧ items.length = length
  once : ((e.run inputs).effects.filterMap (Effect.offeredBy? t)).countP Message.takesList ≤ 1
  succeeds : (∃ v, .result t (.success v) ∈ (e.run inputs).effects) ↔
    ∃ m ∈ (e.run inputs).effects.filterMap (Effect.sentBy? t), m.takesList = true
  result : ∀ v, .result t (.success v) ∈ (e.run inputs).effects →
    ∃ items, v = .items items ∧ held t.number (e.log t.service inputs) = some items ∧ items.length = length

theorem Deed.fetches_of_told {x : Deed} {s : Service} {n k : Nat} {a : Activity} {move : Move Activity}
    (hm : x.Makes s n a move) (htold : x.announces? n = some k) : a.task.Fetches := by
  cases hm with
  | @heard r h job header m =>
      rw [announces?, if_pos rfl, Event.announces?] at htold
      cases ha : r.activity with
      | download d state => trivial
      | _ => rw [ha] at htold; cases htold
  | expired =>
      rw [announces?, if_pos rfl] at htold
      cases htold
  | @started w h =>
      rw [announces?, if_pos rfl] at htold
      rw [Task.task_initial]
      cases ht : w.task with
      | command attempt => rw [ht] at htold; cases htold
      | transfer t =>
          rw [ht] at htold
          cases t with
          | receive r => trivial
          | _ => cases htold
  | cancelled => cases htold

namespace Engine

section Lists

variable (config : Config) (link : Link) (clock : Instant) {inputs : List Input} {t : Ticket} {length : Nat}
  (hannounced : announced? t.number ((idle config link clock).log t.service inputs) = some length)

include hannounced

/-- What was told of a list was submitted to fetch it. -/
theorem fetches_of_asked {task : Task} (hasked : (submitted inputs t.service)[t.number]? = some task) :
    task.Fetches := by
  obtain ⟨x, hx, htold⟩ := List.exists_of_findSome?_eq_some hannounced
  obtain ⟨a, move, hm⟩ := makes_of_brought t.service fun hnone => by
    rw [hnone.1] at htold
    cases htold
  rw [← task_of_makes config link clock inputs hasked hx hm]
  exact fetches_of_told hm htold

theorem gathers_run {past rest : List Deed} {x : Deed}
    (hlog : (idle config link clock).log t.service inputs = past ++ x :: rest) {a : Activity}
    {move : Move Activity} {p : Progress} (hm : x.Makes t.service t.number a move)
    (hp : x.progress? t.service = some p) :
    a.Gathers t past x p := by
  have hc := chronicled_run config link clock inputs (Activity.keeps_fetching t.service)
  have hx : x ∈ (idle config link clock).log t.service inputs :=
    hlog ▸ List.mem_append_right _ List.mem_cons_self
  exact hc.each past x rest hlog _ _ _ _ hm hp
    (fetches_of_asked config link clock hannounced (hc.asked x hx _ _ _ hm))

/-- A transfer is told of one length only. -/
theorem eq_of_announced {past rest : List Deed}
    (hlog : (idle config link clock).log t.service inputs = past ++ rest) {k : Nat}
    (hk : announced? t.number past = some k) : k = length := by
  rw [hlog, announced?_append, hk, Option.some_or] at hannounced
  exact Option.some.inj hannounced

/-- Once a transfer has acknowledged its list it takes no more of it. -/
theorem held_of_taken {past rest : List Deed} {x : Deed}
    (hlog : (idle config link clock).log t.service inputs = past ++ x :: rest) {m : Message}
    (hm : m ∈ x.offers t) (htakes : m.takesList = true) :
    held t.number ((idle config link clock).log t.service inputs) = held t.number (past ++ [x]) := by
  rw [hlog, List.append_cons]
  apply held_append
  intro y hy
  by_contra hbrought
  obtain ⟨a, move, hmakes⟩ := makes_of_brought t.service hbrought
  obtain ⟨p, hp⟩ := hmakes.progress?
  obtain ⟨between, later, rfl⟩ := List.append_of_mem hy
  have hsplit : (idle config link clock).log t.service inputs = (past ++ x :: between) ++ y :: later := by
    rw [hlog, List.append_assoc, List.cons_append]
  have hgathers := gathers_run config link clock hannounced hsplit hmakes hp
  have hx : x ∈ past ++ x :: between := List.mem_append_right _ List.mem_cons_self
  rw [hgathers.untried x hx m hm] at htakes
  cases htakes

/-- No more items are taken than were told of. -/
theorem length_held_le {past : List Deed} (hpast : past <+: (idle config link clock).log t.service inputs)
    {items : List MissionItem} (hheld : held t.number past = some items) : items.length ≤ length := by
  induction past using List.reverseRecOn generalizing items with
  | nil => cases hheld
  | append_singleton past x ih =>
      obtain ⟨rest, hlog⟩ := hpast
      by_cases hx : x.announces? t.number = none ∧ x.item? t.number = none
      · rw [held_concat, hx.1, hx.2, gather_none] at hheld
        exact ih ⟨_, (List.append_assoc past [x] rest).symm.trans hlog⟩ hheld
      · obtain ⟨a, move, hm⟩ := makes_of_brought t.service hx
        obtain ⟨p, hp⟩ := hm.progress?
        have hsplit := hlog.symm.trans (List.append_assoc past [x] rest)
        obtain ⟨bound, htold, hle⟩ := (gathers_run config link clock hannounced hsplit hm hp).fits items hheld
        exact eq_of_announced config link clock hannounced hlog.symm htold ▸ hle

theorem tried_once {past : List Deed} (hpast : past <+: (idle config link clock).log t.service inputs) :
    (past.flatMap (Deed.offers t)).countP Message.takesList ≤ 1 := by
  induction past using List.reverseRecOn with
  | nil => exact Nat.zero_le _
  | append_singleton past x ih =>
      obtain ⟨rest, hlog⟩ := hpast
      rw [List.append_assoc, List.singleton_append] at hlog
      rw [List.flatMap_append, List.flatMap_singleton, List.countP_append]
      by_cases hx : ∃ m ∈ x.offers t, m.takesList = true
      · obtain ⟨m, hm, htakes⟩ := hx
        obtain ⟨a, move, p, hmakes, hp, _⟩ := makes_of_offers hm
        have hgathers := gathers_run config link clock hannounced hlog.symm hmakes hp
        have hnone : (past.flatMap (Deed.offers t)).countP Message.takesList = 0 := by
          apply List.countP_eq_zero.mpr
          intro m' hm'
          obtain ⟨y, hy, hm'⟩ := List.mem_flatMap.mp hm'
          rw [hgathers.untried y hy m' hm']
          exact Bool.false_ne_true
        rw [hnone, (hgathers.whole m hm htakes).1, List.countP_singleton, if_pos htakes]
      · have hnone : (x.offers t).countP Message.takesList = 0 :=
          List.countP_eq_zero.mpr fun m hm htakes => hx ⟨m, hm, htakes⟩
        rw [hnone, Nat.add_zero]
        exact ih ⟨_, hlog⟩

/-- Transfers collect just the list of which they are told. -/
theorem collects_announced_list : Fetched t length (idle config link clock) inputs where
  sent := sends_run config link clock inputs t
  offered := offers_run config link clock inputs t
  heard := heard_sublist config link clock t.service inputs
  order past items hpast hheld := by
    obtain ⟨before, between, hsplit, hcollects, hothers⟩ := collects_of_held hheld
    have hle := length_held_le config link clock hannounced hpast hheld
    exact ⟨hle, hcollects.numbered, before, between, hsplit, hcollects, hothers⟩
  found past x rest hlog a move hm hgoes c hcollection := by
    obtain ⟨p, hp⟩ := hm.progress?
    obtain ⟨hl, hholds, htold, _⟩ := (gathers_run config link clock hannounced hlog hm hp).found hgoes
    rw [Activity.gathered?, hcollection] at hholds
    rw [Activity.length?, hcollection] at htold
    have hlength := eq_of_announced config link clock hannounced hlog htold
    exact ⟨hholds, hlength, hlength ▸ (hl c hcollection).1⟩
  known r hr hn c hcollection := by
    have hc := chronicled_run config link clock inputs (Activity.keeps_fetching t.service)
    have hasked : (submitted inputs t.service)[r.number]? = some r.activity.task :=
      (sound_run config link clock inputs).lined.asked (JobQueue.slot_mem_line hr)
    have hf := fetches_of_asked config link clock hannounced (hn ▸ hasked)
    obtain ⟨hl, hholds, htold, _⟩ := hc.known r hr hf
    rw [Activity.gathered?, hcollection] at hholds
    rw [Activity.length?, hcollection] at htold
    rw [← hn] at hannounced ⊢
    have hlength : c.expected = length := Option.some.inj (htold.symm.trans hannounced)
    exact ⟨hholds, hlength, hlength ▸ (hl c hcollection).1⟩
  query past x rest hlog r hr := by
    obtain ⟨a, move, p, hm, hp, _⟩ := makes_of_offers hr
    obtain ⟨items, bound, hheld, htold, hseq, hlt⟩ :=
      (gathers_run config link clock hannounced hlog hm hp).query r hr
    rw [List.append_cons] at hlog
    exact ⟨items, hheld, hseq, eq_of_announced config link clock hannounced hlog htold ▸ hlt⟩
  whole past x rest hlog m hm htakes := by
    obtain ⟨a, move, p, hmakes, hp, _⟩ := makes_of_offers hm
    obtain ⟨_, items, hheld, htold⟩ :=
      (gathers_run config link clock hannounced hlog hmakes hp).whole m hm htakes
    rw [List.append_cons] at hlog
    exact ⟨items, hheld, eq_of_announced config link clock hannounced hlog htold⟩
  once := by
    rw [offers_run]
    exact tried_once config link clock hannounced (List.prefix_refl _)
  succeeds := by
    constructor
    · rintro ⟨v, hv⟩
      obtain ⟨x, hx, hends⟩ := ends_of_result config link clock hv
      obtain ⟨a, move, p, hm, hp, _, hstanding⟩ := makes_of_success hends
      obtain ⟨past, rest, hlog⟩ := List.append_of_mem hx
      obtain ⟨⟨m, hsent, htakes⟩, _⟩ :=
        (gathers_run config link clock hannounced hlog hm hp).succeeds v hstanding
      rw [sends_run]
      exact ⟨m, List.mem_flatMap.mpr ⟨x, hx, hsent⟩, htakes⟩
    · rintro ⟨m, hm, htakes⟩
      rw [sends_run] at hm
      obtain ⟨x, hx, hsent⟩ := List.mem_flatMap.mp hm
      obtain ⟨a, move, p, hmakes, hp, _⟩ := makes_of_offers (sends_subset_offers t x hsent)
      obtain ⟨past, rest, hlog⟩ := List.append_of_mem hx
      obtain ⟨v, hstanding⟩ := (gathers_run config link clock hannounced hlog hmakes hp).sent m hsent htakes
      refine ⟨v, result_of_ends config link clock hx ?_⟩
      rw [ends?_of_progress? hp, hstanding]
      rfl
  result v hv := by
    obtain ⟨x, hx, hends⟩ := ends_of_result config link clock hv
    obtain ⟨a, move, p, hm, hp, _, hstanding⟩ := makes_of_success hends
    obtain ⟨past, rest, hlog⟩ := List.append_of_mem hx
    have hgathers := gathers_run config link clock hannounced hlog hm hp
    obtain ⟨⟨m, hsent, htakes⟩, items, hitems, hheld⟩ := hgathers.succeeds v hstanding
    have hoffered := sends_subset_offers t x hsent
    obtain ⟨_, items', hheld', htold⟩ := hgathers.whole m hoffered htakes
    obtain rfl : items' = items := Option.some.inj (hheld'.symm.trans hheld)
    refine ⟨items', hitems, (held_of_taken config link clock hannounced hlog hoffered htakes).trans hheld, ?_⟩
    rw [List.append_cons] at hlog
    exact eq_of_announced config link clock hannounced hlog htold

end Lists

/-- A vehicle announces two items, twice, and sends them out of turn and more than once. -/
theorem collects_announced_list_jumbled :
    let t : Ticket := ⟨.mission .client, 0⟩
    let e := idle .default default 0
    let item (seq : UInt16) : MissionItem := { MissionItem.blank with seq }
    let say (m : Message) : List Input := [.receive ⟨.pilotOf 1, 0⟩ m, .tick]
    let bring (seq : UInt16) : List Input := say (.missionItemInt ((item seq).encode Config.default.own))
    let announce : List Input := say (.missionCount ⟨2, Config.default.own, .mission⟩)
    let inputs := [.transfer .client (.download ⟨⟨.pilotOf 1, .mission⟩, false⟩) .queue, .tick] ++
        bring 0 ++ announce ++
      bring 1 ++ announce ++ bring 0 ++ bring 0 ++ bring 1
    announced? 0 (e.log (.mission .client) inputs) = some 2 ∧ Fetched t 2 e inputs ∧
      .result t (.success (.items [item 0, item 1])) ∈ (e.run inputs).effects ∧
        held 0 (e.log (.mission .client) inputs) = some [item 0, item 1] := by
  intro t e item say bring announce inputs
  have hannounced : announced? 0 (e.log (.mission .client) inputs) = some 2 := by decide +kernel
  have hfetched : Fetched t 2 e inputs := collects_announced_list .default default 0 hannounced
  have hresult : .result t (.success (.items [item 0, item 1])) ∈ (e.run inputs).effects := by decide +kernel
  obtain ⟨items, hitems, hheld, _⟩ := hfetched.result _ hresult
  cases hitems
  exact ⟨hannounced, hfetched, hresult, hheld⟩

end Engine

end GroundLink
