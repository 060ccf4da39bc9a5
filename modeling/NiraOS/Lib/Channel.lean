import Mathlib.Data.Nat.Notation
import Mathlib.Data.List.Basic
import Mathlib.Tactic.Common

/-!
# Bounded FIFO channels

A channel between one sender and one receiver with room for `capacity` items.
It keeps everything ever sent; the receiver has had the first `received` of it
and the rest is waiting.  Either end may be closed.
-/

structure Channel (α : Type*) where
  capacity : ℕ
  sent : List α
  received : ℕ
  senderOpen : Bool
  receiverOpen : Bool
  capacity_pos : 0 < capacity
  received_le : received ≤ sent.length
  sent_le : sent.length ≤ received + capacity

namespace Channel

variable {α : Type*}

def fresh (capacity : ℕ) (h : 0 < capacity) : Channel α :=
  ⟨capacity, [], 0, true, true, h, Nat.zero_le _, Nat.zero_le _⟩

/-- There is room for another item. -/
def Room (c : Channel α) : Prop := c.sent.length < c.received + c.capacity

instance (c : Channel α) : Decidable c.Room := inferInstanceAs (Decidable (_ < _))

/-- An item is waiting. -/
def Waiting (c : Channel α) : Prop := c.received < c.sent.length

instance (c : Channel α) : Decidable c.Waiting := inferInstanceAs (Decidable (_ < _))

/-- What the receiver has had. -/
def taken (c : Channel α) : List α := c.sent.take c.received

/-- How many items are waiting. -/
def unread (c : Channel α) : ℕ := c.sent.length - c.received

def push (c : Channel α) (item : α) (h : c.Room) : Channel α :=
  { c with
    sent := c.sent ++ [item]
    received_le := by
      rw [List.length_append]
      exact Nat.le_trans c.received_le (Nat.le_add_right ..)
    sent_le := by
      rw [List.length_append]
      exact h }

def front (c : Channel α) (h : c.Waiting) : α := c.sent[c.received]

def pop (c : Channel α) (h : c.Waiting) : Channel α :=
  { c with
    received := c.received + 1
    received_le := h
    sent_le := Nat.le_trans c.sent_le (by omega) }

def closeSender (c : Channel α) : Channel α := { c with senderOpen := false }

def closeReceiver (c : Channel α) : Channel α := { c with receiverOpen := false }

/-! ## What the operations change -/

section Operations

variable (c : Channel α)

@[simp] theorem push_sent (item : α) (h : c.Room) : (c.push item h).sent = c.sent ++ [item] := rfl
@[simp] theorem push_received (item : α) (h : c.Room) : (c.push item h).received = c.received := rfl
@[simp] theorem push_senderOpen (item : α) (h : c.Room) :
    (c.push item h).senderOpen = c.senderOpen := rfl
@[simp] theorem push_receiverOpen (item : α) (h : c.Room) :
    (c.push item h).receiverOpen = c.receiverOpen := rfl
@[simp] theorem pop_sent (h : c.Waiting) : (c.pop h).sent = c.sent := rfl
@[simp] theorem pop_received (h : c.Waiting) : (c.pop h).received = c.received + 1 := rfl
@[simp] theorem pop_senderOpen (h : c.Waiting) : (c.pop h).senderOpen = c.senderOpen := rfl
@[simp] theorem pop_receiverOpen (h : c.Waiting) : (c.pop h).receiverOpen = c.receiverOpen := rfl
@[simp] theorem closeSender_sent : c.closeSender.sent = c.sent := rfl
@[simp] theorem closeSender_received : c.closeSender.received = c.received := rfl
@[simp] theorem closeSender_senderOpen : c.closeSender.senderOpen = false := rfl
@[simp] theorem closeSender_receiverOpen : c.closeSender.receiverOpen = c.receiverOpen := rfl
@[simp] theorem closeReceiver_sent : c.closeReceiver.sent = c.sent := rfl
@[simp] theorem closeReceiver_received : c.closeReceiver.received = c.received := rfl
@[simp] theorem closeReceiver_senderOpen : c.closeReceiver.senderOpen = c.senderOpen := rfl
@[simp] theorem closeReceiver_receiverOpen : c.closeReceiver.receiverOpen = false := rfl
@[simp] theorem fresh_sent (capacity : ℕ) (h : 0 < capacity) :
    (fresh capacity h : Channel α).sent = [] := rfl
@[simp] theorem fresh_received (capacity : ℕ) (h : 0 < capacity) :
    (fresh capacity h : Channel α).received = 0 := rfl

@[simp] theorem taken_push (item : α) (h : c.Room) : (c.push item h).taken = c.taken := by
  simp [taken, List.take_append_of_le_length c.received_le]

theorem unread_push (item : α) (h : c.Room) : (c.push item h).unread = c.unread + 1 := by
  have hle := c.received_le
  simp only [unread, push_sent, push_received, List.length_append, List.length_singleton]
  omega

theorem unread_pop (h : c.Waiting) : (c.pop h).unread + 1 = c.unread := by
  have hlt : c.received < c.sent.length := h
  simp only [unread, pop_sent, pop_received]
  omega

@[simp] theorem unread_closeSender : c.closeSender.unread = c.unread := rfl
@[simp] theorem unread_closeReceiver : c.closeReceiver.unread = c.unread := rfl
@[simp] theorem unread_fresh (capacity : ℕ) (h : 0 < capacity) :
    (fresh capacity h : Channel α).unread = 0 := rfl

/-- An empty channel has room. -/
theorem room_of_not_waiting (h : ¬ c.Waiting) : c.Room := by
  have hle := c.received_le
  have hpos := c.capacity_pos
  unfold Waiting at h
  unfold Room
  omega

/-- A full channel has something waiting. -/
theorem waiting_of_not_room (h : ¬ c.Room) : c.Waiting := by
  by_contra hwaiting
  exact h (c.room_of_not_waiting hwaiting)

/-- A receiver that has caught up has had everything. -/
theorem taken_of_not_waiting (h : ¬ c.Waiting) : c.taken = c.sent :=
  List.take_of_length_le (by unfold Waiting at h; omega)

end Operations

end Channel
