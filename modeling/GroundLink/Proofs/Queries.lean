import GroundLink.Proofs.Course

/-! What transfers ask their peers for. A transfer has at most one query open, repeats it in silence as long
as its tries allow, and goes on to another only when that is the next item of the list it fetches
(`Activity.Asks`). Of the queries it has sent, none is there more often than it may try, and only the items up
to the one it waits for are asked for (`Activity.Rationed`). -/

namespace GroundLink

theorem Move.map_map {σ ρ τ : Type} (f : σ → ρ) (g : ρ → τ) (m : Move σ) :
    (m.map f).map g = m.map (g ∘ f) := by
  cases m <;> rfl

/-- What a peer is to answer. An announced count is answered by asking for the items. -/
inductive Query
  | count
  | list
  | clear
  | current
  | item (seq : UInt16)
  deriving DecidableEq

def Message.query? : Message → Option Query
  | missionCount _ => some .count
  | missionRequestList _ => some .list
  | missionClearAll _ => some .clear
  | missionSetCurrent _ => some .current
  | missionRequestInt m => some (.item m.seq)
  | _ => none

/-- The query that is sent for a job. -/
def Effect.query? (t : Ticket) : Effect → Option Query
  | sent job m => if job = t then m.query? else none
  | _ => none

/-- The queries sent for a job, in order. -/
def queries (t : Ticket) (effects : List Effect) : List Query := effects.filterMap (Effect.query? t)

/-- The number of items of a list that the peer has told of before the transfer starts. -/
def Task.announces? : Task → Option Nat
  | transfer (.receive r) => some r.count
  | _ => none

namespace Activity

/-- What a transfer says again in silence. In the midst of an upload it is for the peer to ask. -/
def pending? : Activity → Option Message
  | upload u ⟨.counting, _⟩ => some u.count
  | download d (.listing _) => some d.request
  | download d (.collecting c) => some (c.request d.list)
  | receive r c => some (c.request r.list)
  | clear c _ => some c.request
  | setCurrent c _ => some c.request
  | _ => none

/-- The query a transfer has open. -/
def query? (a : Activity) : Option Query := a.pending?.bind Message.query?

/-- How often a transfer has tried since the last sign of progress. -/
def tries : Activity → Nat
  | command _ _ => 0
  | upload _ s => s.retries
  | download _ (.listing retries) => retries
  | download _ (.collecting c) => c.retries
  | receive _ c => c.retries
  | clear _ retries => retries
  | setCurrent _ retries => retries

/-- A transfer that has tried once more. -/
def again : Activity → Activity
  | command a retries => command a retries
  | upload u s => upload u { s with retries := s.retries + 1 }
  | download d (.listing retries) => download d (.listing (retries + 1))
  | download d (.collecting c) => download d (.collecting { c with retries := c.retries + 1 })
  | receive r c => receive r { c with retries := c.retries + 1 }
  | clear c retries => clear c (retries + 1)
  | setCurrent c retries => setCurrent c (retries + 1)

/-- What has come of the list a transfer fetches, once it knows how long that is. -/
def collection? : Activity → Option Collection
  | download _ (.collecting c) => some c
  | receive _ c => some c
  | _ => none

/-- The number of items of the list a transfer fetches, once it is known. -/
def length? (a : Activity) : Option Nat := a.collection?.map (·.expected)

/-- The number of items a message tells a transfer of. -/
def announces? (m : Message) : Activity → Option Nat
  | download _ (.listing _) =>
    match m with
    | .missionCount count => some count.count.toNat
    | _ => none
  | _ => none

/-- How many items a transfer has asked for so far. -/
def reach (a : Activity) : Nat := a.collection?.elim 0 (·.items.length + 1)

/-- Whether a list that is fetched is one that can be asked for item by item and lacks an item. -/
def Lacking (a : Activity) : Prop :=
  ∀ c, a.collection? = some c → c.items.length < c.expected ∧ c.expected ≤ maxItems

theorem lacking_of_collection? {a : Activity} (h : a.collection? = none) : a.Lacking := by
  intro c hc
  rw [h] at hc
  cases hc

theorem query?_of_pending? {a : Activity} {m : Message} (h : a.pending? = some m) :
    ∃ q, m.query? = some q ∧ a.query? = some q := by
  have hquery : a.query? = m.query? := by rw [query?, h, Option.bind_some]
  obtain ⟨q, hq⟩ : ∃ q, m.query? = some q := by
    cases a with
    | command attempt retries => cases h
    | upload u s =>
        obtain ⟨stage, retries⟩ := s
        cases stage <;> cases h
        exact ⟨_, rfl⟩
    | download d s =>
        cases s <;> cases h
        · exact ⟨_, rfl⟩
        · exact ⟨_, rfl⟩
    | _ =>
        cases h
        exact ⟨_, rfl⟩
  exact ⟨q, hq, hquery.trans hq⟩

theorem transfer_of_query? {a : Activity} {q : Query} (h : a.query? = some q) :
    ∃ t, a.task = .transfer t := by
  cases a <;> first | exact ⟨_, rfl⟩ | cases h

/-- Nothing is asked for behind the end of a list. -/
theorem Lacking.reach_le {a : Activity} (h : a.Lacking) : a.reach ≤ a.length?.getD 0 := by
  cases hc : a.collection? with
  | none =>
      rw [reach, hc]
      exact Nat.zero_le _
  | some c =>
      rw [reach, length?, hc]
      exact (h c hc).1

section Again

variable (a : Activity)

theorem pending?_again : a.again.pending? = a.pending? := by
  cases a with
  | upload u s => obtain ⟨stage, retries⟩ := s; cases stage <;> rfl
  | download d s => cases s <;> rfl
  | _ => rfl

theorem query?_again : a.again.query? = a.query? := congrArg (Option.bind · _) a.pending?_again

theorem length?_again : a.again.length? = a.length? := by
  cases a with
  | download d s => cases s <;> rfl
  | _ => rfl

theorem lacking_again {a : Activity} (h : a.Lacking) : a.again.Lacking := by
  cases a with
  | download d s =>
      cases s with
      | listing retries => exact lacking_of_collection? rfl
      | collecting c =>
          rintro _ ⟨⟩
          exact h c rfl
  | receive r c =>
      rintro _ ⟨⟩
      exact h c rfl
  | _ => exact lacking_of_collection? rfl

theorem reach_again : a.again.reach = a.reach := by
  cases a with
  | download d s => cases s <;> rfl
  | _ => rfl

theorem task_again : a.again.task = a.task := by
  cases a with
  | download d s => cases s <;> rfl
  | _ => rfl

variable {a} in
theorem tries_again {t : Transfer} (h : a.task = .transfer t) : a.again.tries = a.tries + 1 := by
  cases a with
  | command attempt retries => cases h
  | download d s => cases s <;> rfl
  | _ => rfl

theorem task_iterate_again (k : Nat) : (again^[k] a).task = a.task := by
  induction k with
  | zero => rfl
  | succ k ih => rw [Function.iterate_succ_apply', task_again, ih]

theorem pending?_iterate_again (k : Nat) : (again^[k] a).pending? = a.pending? := by
  induction k with
  | zero => rfl
  | succ k ih => rw [Function.iterate_succ_apply', pending?_again, ih]

variable {a} in
theorem tries_iterate_again {t : Transfer} (h : a.task = .transfer t) (k : Nat) :
    (again^[k] a).tries = a.tries + k := by
  induction k with
  | zero => rfl
  | succ k ih =>
      rw [Function.iterate_succ_apply', tries_again ((a.task_iterate_again k).trans h), ih, Nat.add_assoc]

end Again

/-- Silence. A transfer that may not try again gives up; any other says the same again and
waits as long as before. -/
theorem onTimeout_transfer {a : Activity} {t : Transfer} (h : a.task = .transfer t) (s : Setting) :
    a.onTimeout s =
      if s.policy.retries ≤ a.tries then .stop (.failed .timeout)
      else .proceed (.restart s.policy.timeout) none a.pending? a.again := by
  cases a with
  | command attempt retries => cases h
  | upload u state =>
      obtain ⟨stage, retries⟩ := state
      rw [onTimeout, Upload.onTimeout, apply_ite (Move.map _)]
      cases stage <;> rfl
  | download d state =>
      cases state with
      | listing retries =>
          rw [onTimeout, Download.onTimeout, apply_ite (Move.map _)]
          rfl
      | collecting c =>
          rw [onTimeout, Download.onTimeout, Collection.onTimeout, apply_ite (Move.map _),
            apply_ite (Move.map _)]
          rfl
  | receive r c =>
      rw [onTimeout, Collection.onTimeout, apply_ite (Move.map _)]
      rfl
  | clear c retries =>
      rw [onTimeout, Clear.onTimeout, apply_ite (Move.map _)]
      rfl
  | setCurrent c retries =>
      rw [onTimeout, SetCurrent.onTimeout, apply_ite (Move.map _)]
      rfl

/-- The ways a job that waits on goes on asking, with what it sends. -/
inductive Asks (p : Policy) (a : Activity) : Option Message → Activity → Prop
  | repeated {m : Message} (pending : a.pending? = some m)
      (left : a.tries < p.retries) : Asks p a (some m) a.again
  /-- The next item is asked for, for the first time. -/
  | advanced {b : Activity} {m : Message} {seq : UInt16} (pending : b.pending? = some m)
      (query : m.query? = some (.item seq)) (next : seq.toNat = a.reach) (reach : b.reach = a.reach + 1)
      (tries : b.tries = 1) : Asks p a (some m) b
  /-- Nothing is asked. -/
  | silent {b : Activity} {message : Option Message} (silent : message.bind Message.query? = none)
      (reach : b.reach = a.reach) (still : b = a ∨ b.query? = none) : Asks p a message b

/-- The ways a step of a job can go as far as asking is concerned, if it was told the
length of a list meanwhile. -/
inductive Abides (p : Policy) (told : Option Nat) (a : Activity) : Move Activity → Prop
  | ignored (untold : told = none) : Abides p told a .ignore
  | waited {wait : Wait} {report : Option Fraction} {message : Option Message} {b : Activity}
      (asks : a.Asks p message b) (length : b.length? = a.length?.or told) (lacking : b.Lacking) :
      Abides p told a (.proceed wait report message b)
  /-- A list is handed over when it has the length that was told; nothing is left to be answered. -/
  | finished {message : Option Message} {report : Option Fraction} {o : Outcome}
      (silent : message.bind Message.query? = none)
      (whole : ∀ l, o = .success (.items l) → a.length?.or told = some l.length) :
      Abides p told a (.finish message report o)

variable {p : Policy} {a : Activity}

theorem Abides.stopped {told : Option Nat} {o : Outcome} (h : ∀ l, o ≠ .success (.items l)) :
    Abides p told a (.stop o) :=
  .finished rfl fun l ho => absurd ho (h l)

end Activity

/-- The ways a job can open. -/
inductive Task.Begins (t : Task) : Move Activity → Prop
  | waited {wait : Wait} {report : Option Fraction} {message : Option Message} {b : Activity}
      (asks : b.query? = message.bind Message.query?) (tries : b.query? ≠ none → b.tries = 1)
      (reach : ∀ seq, b.query? = some (.item seq) → seq.toNat < b.reach) (length : b.length? = t.announces?)
      (lacking : b.Lacking) : Begins t (.proceed wait report message b)
  | finished {message : Option Message} {report : Option Fraction} {o : Outcome}
      (silent : message.bind Message.query? = none)
      (whole : ∀ l, o = .success (.items l) → t.announces? = some l.length) :
      Begins t (.finish message report o)

theorem Collection.query?_request (l : ListRef) {c : Collection} (h : c.items.length ≤ maxItems) :
    ∃ seq, (c.request l).query? = some (.item seq) ∧ seq.toNat = c.items.length := by
  refine ⟨_, rfl, ?_⟩
  rw [Nat.min_eq_left h]
  exact UInt16.toNat_ofNat_of_lt (Nat.lt_succ_of_le h)

theorem Request.query?_message (r : Request) (stack : Autopilot) : (r.message stack).query? = none := by
  unfold message
  split <;> rfl

namespace Activity

variable {p : Policy} {a : Activity}

/-- An item for a collection, whichever kind of job that is of. -/
theorem abides_onItem {f : Collection → Activity} {l : ListRef}
    (hcollection : ∀ c, (f c).collection? = some c) (hpending : ∀ c, (f c).pending? = some (c.request l))
    (htries : ∀ c, (f c).tries = c.retries) {c : Collection} (hl : (f c).Lacking) (m : MissionItemInt) :
    (f c).Abides p none ((c.onItem l m).map f) := by
  have hlength : ∀ c, (f c).length? = some c.expected := fun c => congrArg (Option.map _) (hcollection c)
  have hreach : ∀ c, (f c).reach = c.items.length + 1 := fun c => congrArg (Option.elim · 0 _) (hcollection c)
  obtain ⟨hlacks, hfits⟩ := hl c (hcollection c)
  rw [Collection.onItem]
  split
  · exact .waited (.silent rfl rfl (.inl rfl)) (by rw [Option.or_none]) hl
  · generalize hnext : { c with items := c.items ++ [MissionItem.decode m], retries := 1 } = next
    obtain ⟨hexpected, hitems, hfirst⟩ :
        next.expected = c.expected ∧ next.items.length = c.items.length + 1 ∧ next.retries = 1 := by
      subst hnext
      exact ⟨rfl, List.length_append, rfl⟩
    simp only
    split
    · rename_i hwhole
      refine .finished rfl fun items ho => ?_
      cases ho
      rw [Option.or_none, hlength, hwhole]
    · rename_i hmore
      obtain ⟨seq, hseq, hplace⟩ := next.query?_request l (by omega)
      refine .waited (.advanced (hpending next) hseq ?_ ?_ ((htries next).trans hfirst)) ?_ ?_
      · rw [hplace, hreach, hitems]
      · rw [hreach, hreach, hitems]
      · rw [hlength, hlength, hexpected, Option.or_none]
      · intro c' hc'
        obtain rfl := Option.some.inj ((hcollection next).symm.trans hc')
        omega

theorem abides_command (p : Policy) (own : Address) (attempt : Attempt) (retries : Nat) (m : Message) :
    (command attempt retries).Abides p none ((attempt.onMessage p own retries m).map (command attempt)) := by
  cases m with
  | commandAck ack =>
      rw [Attempt.onMessage, Attempt.onAck]
      split
      · exact .ignored rfl
      · cases ack.result with
        | inProgress => exact .waited (.silent rfl rfl (.inr rfl)) rfl (lacking_of_collection? rfl)
        | cancelled => exact .ignored rfl
        | other code => exact .ignored rfl
        | _ => exact .stopped fun l ho => by cases ho
  | _ => exact .ignored rfl

theorem abides_upload (p : Policy) (u : Upload) (state : Upload.State) (sender : Address) (m : Message) :
    (upload u state).Abides p none ((u.onMessage p state sender m).map (upload u)) := by
  have hrequest : ∀ seq, (upload u state).Abides p none ((u.onRequest p state seq).map (upload u)) := by
    intro seq
    unfold Upload.onRequest
    split
    · exact .ignored rfl
    · split
      · exact .ignored rfl
      · split
        · exact .stopped fun l ho => by cases ho
        · exact .waited (.silent rfl rfl (.inr rfl)) rfl (lacking_of_collection? rfl)
  cases m with
  | missionRequest r =>
      rw [Upload.onMessage]
      split
      · exact hrequest _
      · exact .waited (.silent rfl rfl (.inl rfl)) rfl (lacking_of_collection? rfl)
  | missionRequestInt r => exact hrequest _
  | missionAck ack =>
      rw [Upload.onMessage, Upload.onAck]
      split
      · exact .stopped fun l ho => by cases ho
      · split
        · exact .finished rfl fun l ho => by cases ho
        · exact .stopped fun l ho => by cases ho
  | _ => exact .ignored rfl

theorem abides_listing (p : Policy) (d : Download) (retries : Nat) (m : Message) :
    (download d (.listing retries)).Abides p ((download d (.listing retries)).announces? m)
      ((d.onMessage (.listing retries) m).map (download d)) := by
  cases m with
  | missionCount count =>
      rw [Download.onMessage, Download.onCount]
      split
      · rename_i hnone
        refine .finished rfl fun l ho => ?_
        cases ho
        exact congrArg some hnone
      · rename_i hsome
        refine .waited (.advanced rfl (show _ = some (Query.item 0) from rfl) rfl rfl rfl) rfl ?_
        rintro _ ⟨⟩
        exact ⟨Nat.pos_of_ne_zero hsome, Nat.le_of_lt_succ count.count.toNat_lt⟩
  | _ => exact .ignored rfl

theorem abides_onMessage (hl : a.Lacking) (s : Setting) (sender : Address) (m : Message) :
    a.Abides s.policy (a.announces? m) (a.onMessage s sender m) := by
  cases a with
  | command attempt retries => exact abides_command _ _ _ _ _
  | upload u state => exact abides_upload _ _ _ _ _
  | download d state =>
      cases state with
      | listing retries => exact abides_listing _ _ _ _
      | collecting c =>
          cases m with
          | missionItemInt item =>
              have hitem := abides_onItem (p := s.policy) (f := fun c => download d (.collecting c))
                (fun _ => rfl) (fun _ => rfl) (fun _ => rfl) hl item
              rw [onMessage, Download.onMessage, Download.onItem, Move.map_map]
              exact hitem
          | _ => exact .ignored rfl
  | receive r c =>
      cases m with
      | missionItemInt item => exact abides_onItem (fun _ => rfl) (fun _ => rfl) (fun _ => rfl) hl item
      | _ => exact .ignored rfl
  | clear c retries =>
      cases m with
      | missionAck ack =>
          refine .finished rfl fun l ho => ?_
          split at ho <;> cases ho
      | _ => exact .ignored rfl
  | setCurrent c retries =>
      cases m with
      | missionCurrent current =>
          rw [onMessage, SetCurrent.onMessage]
          split
          · exact .stopped fun l ho => by cases ho
          · split
            · exact .stopped fun l ho => by cases ho
            · rename_i hleft
              exact .waited (.repeated (a := setCurrent c retries) rfl (Nat.lt_of_not_le hleft)) rfl
                (lacking_of_collection? rfl)
      | _ => exact .ignored rfl

theorem abides_onTimeout (hl : a.Lacking) (s : Setting) : a.Abides s.policy none (a.onTimeout s) := by
  cases htask : a.task with
  | command attempt =>
      cases a with
      | command attempt' retries =>
          cases retries with
          | zero => exact .stopped fun l ho => by cases ho
          | succ left =>
              exact .waited (.silent (Request.query?_message _ _) rfl (.inr rfl)) rfl
                (lacking_of_collection? rfl)
      | _ => cases htask
  | transfer t =>
      rw [onTimeout_transfer htask]
      split
      · exact .stopped fun l ho => by cases ho
      · rename_i hleft
        refine .waited ?_ (by rw [length?_again, Option.or_none]) (lacking_again hl)
        cases hpending : a.pending? with
        | some m => exact .repeated hpending (Nat.lt_of_not_le hleft)
        | none => exact .silent rfl a.reach_again (.inr (by rw [query?_again, query?, hpending]; rfl))

theorem abides_farewell (p : Policy) (a : Activity) (told : Option Nat) :
    a.Abides p told (.finish a.farewell? none (.failed .cancelled)) :=
  .finished (by cases a <;> rfl) fun l ho => by cases ho

end Activity

theorem Task.begins_start (s : Setting) (t : Task) : t.Begins (t.start s) := by
  cases t with
  | command attempt =>
      refine .waited (Request.query?_message _ _).symm (fun hne => absurd rfl hne) (fun seq hseq => ?_) rfl
        (Activity.lacking_of_collection? rfl)
      cases hseq
  | transfer t =>
      cases t with
      | upload u =>
          rw [start, Upload.start]
          split
          · exact .finished rfl fun l ho => by cases ho
          · exact .waited rfl (fun _ => rfl)
              (fun seq hseq => by cases hseq) rfl (Activity.lacking_of_collection? rfl)
      | download d =>
          exact .waited rfl (fun _ => rfl)
            (fun seq hseq => by cases hseq) rfl (Activity.lacking_of_collection? rfl)
      | receive r =>
          rw [start, Receive.start]
          split
          · exact .finished rfl fun l ho => by cases ho
          · rename_i hfits
            split
            · rename_i hnone
              refine .finished rfl fun l ho => ?_
              cases ho
              exact congrArg some hnone
            · rename_i hsome
              refine .waited rfl (fun _ => rfl) (fun seq hseq => ?_) rfl ?_
              · cases hseq
                exact Nat.one_pos
              · rintro _ ⟨⟩
                exact ⟨Nat.pos_of_ne_zero hsome, Nat.le_of_not_lt hfits⟩
      | clear c =>
          exact .waited rfl (fun _ => rfl)
            (fun seq hseq => by cases hseq) rfl (Activity.lacking_of_collection? rfl)
      | setCurrent c =>
          rw [start, SetCurrent.start]
          split
          · exact .finished rfl fun l ho => by cases ho
          · exact .waited rfl (fun _ => rfl)
              (fun seq hseq => by cases hseq) rfl (Activity.lacking_of_collection? rfl)

section Queries

variable (t : Ticket)

theorem queries_append (a b : List Effect) : queries t (a ++ b) = queries t a ++ queries t b :=
  List.filterMap_append

theorem queries_eq_nil {effects : List Effect} (h : ∀ x ∈ effects, x.query? t = none) :
    queries t effects = [] :=
  List.filterMap_eq_nil_iff.mpr h

theorem queries_of_job_ne {t : Ticket} {effects : List Effect} (h : ∀ x ∈ effects, x.job ≠ t) :
    queries t effects = [] := by
  refine queries_eq_nil t fun x hx => ?_
  cases x with
  | sent job m => exact if_neg (h _ hx)
  | _ => rfl

/-- A progress that is reported asks nothing. -/
theorem queries_seen (task : Task) (report : Option Fraction) (message : Option Message) :
    queries t (task.seen t report message) = (message.bind Message.query?).toList := by
  have hreport : queries t (if task.wantsProgress then report.toList.map (.progress t) else []) = [] := by
    refine queries_eq_nil t fun x hx => ?_
    split at hx
    · obtain ⟨f, _, rfl⟩ := List.mem_map.mp hx
      rfl
    · cases hx
  rw [Task.seen, queries_append, hreport, List.nil_append]
  cases message with
  | none => rfl
  | some m => cases hm : m.query? <;> simp [queries, Effect.query?, hm]

end Queries

/-- Whether a job kept within its bounds with the queries it has sent and the one it has open. -/
structure Activity.Rationed (bound : Nat) (a : Activity) (asked : List Query) : Prop where
  each : ∀ q, asked.count q ≤ bound
  tried : ∀ q, a.query? = some q → asked.count q = a.tries ∧ asked.length ≤ bound * a.reach + a.tries
  total : asked.length ≤ bound * (a.reach + 1)
  within : ∀ seq, a.query? = some (.item seq) → seq.toNat < a.reach
  /-- No item was asked for behind the one the job waits for. -/
  ahead : ∀ seq, a.reach ≤ seq.toNat → .item seq ∉ asked

namespace Activity.Rationed

variable {p : Policy} {bound : Nat} {a b : Activity} {asked : List Query} {message : Option Message}

theorem asks (h : a.Rationed (max 1 p.retries) asked) (ha : a.Asks p message b) :
    b.Rationed (max 1 p.retries) (asked ++ (message.bind Message.query?).toList) := by
  have hone : 1 ≤ max 1 p.retries := Nat.le_max_left _ _
  have hretries : p.retries ≤ max 1 p.retries := Nat.le_max_right _ _
  generalize hbound : max 1 p.retries = bound at h hone hretries ⊢
  cases ha with
  | @repeated m pending left =>
      obtain ⟨q, hm, hq⟩ := query?_of_pending? pending
      obtain ⟨hcount, hlength⟩ := h.tried q hq
      obtain ⟨t, ht⟩ := transfer_of_query? hq
      have htries : a.again.tries = a.tries + 1 := tries_again ht
      rw [Option.bind_some, hm, Option.toList_some]
      refine ⟨fun q' => ?_, fun q' hq' => ?_, ?_, fun seq hseq => ?_, fun seq hseq => ?_⟩
      · rw [List.count_append, List.count_singleton]
        have heach := h.each q'
        split
        · rename_i hsame
          rw [← beq_iff_eq.mp hsame, hcount]
          omega
        · exact heach
      · rw [query?_again, hq] at hq'
        cases hq'
        rw [List.count_append, List.count_singleton_self, List.length_append,
          List.length_singleton, reach_again, htries]
        omega
      · rw [List.length_append, List.length_singleton, reach_again, Nat.mul_succ]
        omega
      · rw [query?_again] at hseq
        rw [reach_again]
        exact h.within seq hseq
      · rw [reach_again] at hseq
        intro hmem
        rcases List.mem_append.mp hmem with hold | hnew
        · exact h.ahead seq hseq hold
        · rw [List.mem_singleton] at hnew
          exact Nat.not_lt_of_le hseq (h.within seq (hnew ▸ hq))
  | @advanced _ m seq pending query next reach tries =>
      have hq : b.query? = some (.item seq) := by rw [query?, pending, Option.bind_some, query]
      have hnone : asked.count (.item seq) = 0 := List.count_eq_zero.mpr (h.ahead seq next.ge)
      have htotal := h.total
      rw [Option.bind_some, query, Option.toList_some]
      refine ⟨fun q' => ?_, fun q' hq' => ?_, ?_, fun seq' hseq' => ?_, fun seq' hseq' => ?_⟩
      · rw [List.count_append, List.count_singleton]
        have heach := h.each q'
        split
        · rename_i hsame
          rw [← beq_iff_eq.mp hsame, hnone]
          exact hone
        · exact heach
      · rw [hq] at hq'
        cases hq'
        rw [List.count_append, List.count_singleton_self, List.length_append,
          List.length_singleton, hnone, reach, tries]
        omega
      · rw [List.length_append, List.length_singleton, reach, Nat.mul_succ]
        omega
      · rw [hq] at hseq'
        cases hseq'
        omega
      · intro hmem
        rcases List.mem_append.mp hmem with hold | hnew
        · exact h.ahead seq' (by omega) hold
        · cases List.mem_singleton.mp hnew
          omega
  | silent silent reach still =>
      rw [silent, Option.toList_none, List.append_nil]
      rcases still with rfl | hnone
      · exact h
      · refine ⟨h.each, fun q hq => ?_, reach ▸ h.total, fun seq hseq => ?_, reach ▸ h.ahead⟩
        · rw [hnone] at hq
          cases hq
        · rw [hnone] at hseq
          cases hseq

theorem begins {task : Task} {wait : Wait} {report : Option Fraction} (hone : 1 ≤ bound)
    (h : task.Begins (.proceed wait report message b)) :
    b.Rationed bound (message.bind Message.query?).toList := by
  cases h with
  | waited asks tries reach length lacking =>
      rw [← asks]
      cases hq : b.query? with
      | none =>
          exact ⟨fun q => Nat.zero_le _, fun q hq' => (by rw [hq] at hq'; cases hq'), Nat.zero_le _,
            fun seq hseq => (by rw [hq] at hseq; cases hseq), fun seq _ => List.not_mem_nil⟩
      | some q =>
          have htries := tries (by rw [hq]; exact Option.some_ne_none q)
          refine ⟨fun q' => ?_, fun q' hq' => ?_, ?_, reach, fun seq hseq hmem => ?_⟩
          · exact List.count_le_length.trans hone
          · rw [hq] at hq'
            cases hq'
            rw [Option.toList_some, List.count_singleton_self, List.length_singleton, htries]
            omega
          · exact hone.trans (Nat.le_mul_of_pos_right _ (Nat.succ_pos _))
          · rw [Option.toList_some, List.mem_singleton] at hmem
            exact Nat.not_lt_of_le hseq (reach seq (hmem ▸ hq))

end Activity.Rationed

/-- On its whole course a job keeps within its bounds. -/
theorem Course.rationed {p : Policy} {own : Address} {t : Ticket} {task : Task} {seen : List Effect}
    {a : Activity} (h : Course p own t task seen a) :
    a.Lacking ∧ a.Rationed (max 1 p.retries) (queries t seen) := by
  induction h with
  | @start autopilot wait report message a move =>
      have hbegins := task.begins_start ⟨p, own, autopilot⟩
      rw [move] at hbegins
      rw [queries_seen]
      refine ⟨?_, .begins (Nat.le_max_left _ _) hbegins⟩
      cases hbegins with
      | waited asks tries reach length lacking => exact lacking
  | @message autopilot sender m wait report message a b seen past move ih =>
      have habides := Activity.abides_onMessage ih.1 ⟨p, own, autopilot⟩ sender m
      rw [move] at habides
      rw [queries_append, queries_seen]
      cases habides with
      | waited asks length lacking => exact ⟨lacking, ih.2.asks asks⟩
  | @timeout autopilot wait report message a b seen past move ih =>
      have habides := Activity.abides_onTimeout ih.1 ⟨p, own, autopilot⟩
      rw [move] at habides
      rw [queries_append, queries_seen]
      cases habides with
      | waited asks length lacking => exact ⟨lacking, ih.2.asks asks⟩

end GroundLink
