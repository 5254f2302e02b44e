/-! A first-in, first-out queue from whose middle an element may be taken. -/

namespace GroundLink

/-- A queue; its front is the head of the list. -/
structure Fifo (α : Type) where
  items : List α
  deriving DecidableEq, Inhabited

namespace Fifo

variable {α : Type}

def empty : Fifo α := ⟨[]⟩

def size (q : Fifo α) : Nat := q.items.length

def isEmpty (q : Fifo α) : Bool := q.items.isEmpty

def push (q : Fifo α) (a : α) : Fifo α := ⟨q.items ++ [a]⟩

def front? (q : Fifo α) : Option α := q.items.head?

def pop? (q : Fifo α) : Option (α × Fifo α) :=
  match q.items with
  | [] => none
  | a :: rest => some (a, ⟨rest⟩)

def modifyFront (q : Fifo α) (f : α → α) : Fifo α :=
  match q.items with
  | [] => q
  | a :: rest => ⟨f a :: rest⟩

/-- The first element of a list with a property, and the list without it. -/
def takeFirst? (p : α → Bool) : List α → Option (α × List α)
  | [] => none
  | a :: rest => if p a then some (a, rest) else (takeFirst? p rest).map fun (b, rest) => (b, a :: rest)

def removeFirst? (q : Fifo α) (p : α → Bool) : Option (α × Fifo α) :=
  (takeFirst? p q.items).map fun (a, rest) => (a, ⟨rest⟩)

theorem takeFirst?_eq_none_iff {p : α → Bool} {l : List α} :
    takeFirst? p l = none ↔ ∀ a ∈ l, p a = false := by
  induction l with
  | nil => simp [takeFirst?]
  | cons a rest ih => by_cases h : p a <;> simp [takeFirst?, h, ih]

theorem takeFirst?_eq_some {p : α → Bool} {l : List α} {a : α} {rest : List α}
    (h : takeFirst? p l = some (a, rest)) :
    p a = true ∧ ∃ before after, l = before ++ a :: after ∧ rest = before ++ after ∧
      ∀ b ∈ before, p b = false := by
  induction l generalizing rest with
  | nil => simp [takeFirst?] at h
  | cons c l ih =>
    by_cases hc : p c = true
    · simp only [takeFirst?, hc, if_true, Option.some.injEq, Prod.mk.injEq] at h
      obtain ⟨rfl, rfl⟩ := h
      exact ⟨hc, [], l, by simp⟩
    · simp only [takeFirst?, hc, if_false, Bool.false_eq_true, Option.map_eq_some_iff, Prod.mk.injEq,
        Prod.exists] at h
      obtain ⟨b, r, hb, rfl, rfl⟩ := h
      obtain ⟨hp, before, after, rfl, rfl, hn⟩ := ih hb
      exact ⟨hp, c :: before, after, by simp, by simp, by simpa [hc] using hn⟩

theorem mem_of_takeFirst? {p : α → Bool} {l : List α} {a : α} {rest : List α}
    (h : takeFirst? p l = some (a, rest)) :
    a ∈ l := by
  obtain ⟨_, before, after, rfl, _⟩ := takeFirst?_eq_some h
  exact List.mem_append_right _ List.mem_cons_self

theorem takeFirst?_map {β : Type} (f : α → β) (p : β → Bool) (l : List α) :
    takeFirst? p (l.map f) = (takeFirst? (fun a => p (f a)) l).map (Prod.map f (List.map f)) := by
  induction l with
  | nil => rfl
  | cons a rest ih =>
    by_cases h : p (f a) = true
    · simp [takeFirst?, h]
    · simp only [List.map_cons, takeFirst?, if_neg h, ih, Option.map_map]
      rfl

end Fifo

end GroundLink
