import Packetsonde.Lib.Ring
import Packetsonde.Lib.Slots

/-!
# Bounded queues that drop the oldest element

An array of `N` slots with the place of the oldest element, the place behind the newest and their number. An
element that comes to a full queue takes the place of the oldest one.

What the queue is for is the list of its elements, oldest first (`Fifo.items`); `Fifo.items_push` is what a
push does to it.
-/

namespace Packetsonde.Lib

open List hiding Vector

/-- The place `i` slots further, around the end. -/
def ahead {N : Nat} (place : Fin N) (i : Nat) : Fin N :=
  ⟨(place + i) % N, Nat.mod_lt _ place.pos⟩

/-- A queue of at most `N` elements. -/
structure Fifo (α : Type) (N : Nat) where
  slots : Vector α N
  head : Fin N
  tail : Fin N
  count : Nat
  count_le : count ≤ N
  tail_eq : tail = ahead head count

namespace Fifo

variable {α : Type} {N : Nat}

theorem ahead_ahead (place : Fin N) (i j : Nat) : ahead (ahead place i) j = ahead place (i + j) := by
  apply Fin.ext
  show ((place + i) % N + j) % N = (place + (i + j)) % N
  rw [Nat.mod_add_mod, Nat.add_assoc]

theorem ahead_ne {place : Fin N} {i j : Nat} (hij : i < j) (hj : j < N) : ahead place i ≠ ahead place j := by
  intro h
  exact Ring.mod_ne_of_lt (show place.val + i < place + j by omega) (by omega) (congrArg Fin.val h)

def items (q : Fifo α N) : List α := (List.range q.count).map fun i => q.slots.get (ahead q.head i)

def room (q : Fifo α N) : Fifo α N :=
  if hfull : q.count = N then
    { slots := q.slots
      head := ahead q.head 1
      tail := q.tail
      count := q.count - 1
      count_le := (Nat.sub_le _ _).trans q.count_le
      tail_eq := by
        have hpos := q.head.pos
        rw [ahead_ahead, q.tail_eq]
        congr 1
        omega }
  else q

def push (q : Fifo α N) (x : α) : Fifo α N :=
  { slots := q.room.slots.set q.room.tail x
    head := q.room.head
    tail := ahead q.room.tail 1
    count := q.room.count + 1
    count_le := by
      have hle := q.count_le
      have hpos := q.head.pos
      unfold room
      split
      · show q.count - 1 + 1 ≤ N
        omega
      · omega
    tail_eq := by rw [q.room.tail_eq, ahead_ahead] }

theorem items_room (q : Fifo α N) : q.room.items = if q.count = N then q.items.tail else q.items := by
  have hpos := q.head.pos
  unfold room
  split
  · obtain ⟨n, hn⟩ : ∃ n, q.count = n + 1 := ⟨q.count - 1, by omega⟩
    simp only [items, hn, Nat.add_sub_cancel, ahead_ahead, range_succ_eq_map, map_cons, tail_cons,
      map_map]
    refine map_congr_left fun i _ => ?_
    rw [Function.comp_apply, Nat.add_comm, Nat.succ_eq_add_one]
  · rfl

theorem count_room_lt (q : Fifo α N) : q.room.count < N := by
  have hle := q.count_le
  have hpos := q.head.pos
  unfold room
  split
  · show q.count - 1 < N
    omega
  · omega

theorem items_push (q : Fifo α N) (x : α) :
    (q.push x).items = (if q.count = N then q.items.tail else q.items) ++ [x] := by
  rw [← items_room]
  have hlt := q.count_room_lt
  have htail := q.room.tail_eq
  show (List.range (q.room.count + 1)).map _ = _
  rw [range_succ, map_append, map_singleton]
  congr 1
  · -- the places of the older elements are not written
    refine map_congr_left fun i hi => ?_
    have hne : ahead q.room.head i ≠ q.room.tail := by
      rw [htail]
      exact ahead_ne (mem_range.mp hi) hlt
    rw [push, get_set_slot, if_neg hne.symm]
  · rw [push, get_set_slot, if_pos htail]

end Fifo

end Packetsonde.Lib
