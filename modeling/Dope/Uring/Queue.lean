import Dope.Base.Fields
import Dope.Base.Run
import Dope.Base.Window

/-! # The submission queue

Model of `reactor/sq/raw`. The ring has a power of two of entries. Head and
tail are counters that run on and wrap at 32 bits; the mask of a counter is the
entry that it stands for. The queue appends at its own tail, which the kernel
does not see until it is published, and counts its room from a cached head.
-/

namespace Dope.Uring.Queue

open Run Fields

/-! ## Geometry -/

/-- Entries and mask of a ring. -/
structure Axis where
  entries : BitVec 32
  mask : BitVec 32
  bits : Nat
  small : bits < 32
  power : entries.toNat = 2 ^ bits
  ones : mask.toNat = 2 ^ bits - 1

/-- The axis of a rounded size: `mask` is `entries - 1`. -/
def Axis.ofBits (bits : Nat) (small : bits < 32) : Axis where
  entries := BitVec.ofNat 32 (2 ^ bits)
  mask := BitVec.ofNat 32 (2 ^ bits) - 1
  bits := bits
  small := small
  power := by
    have le : 2 ^ bits < 2 ^ 32 := Nat.pow_lt_pow_right (by omega) small
    rw [BitVec.toNat_ofNat, Nat.mod_eq_of_lt le]
  ones := by
    have le : 2 ^ bits < 2 ^ 32 := Nat.pow_lt_pow_right (by omega) small
    have pos := Nat.two_pow_pos bits
    have one : (1 : BitVec 32).toNat = 1 := rfl
    rw [BitVec.toNat_sub, BitVec.toNat_ofNat, Nat.mod_eq_of_lt le, one]
    omega

/-- A count between one and `n`. -/
structure Limit (n : Nat) where
  count : Nat
  pos : 0 < count
  le : count ≤ n

/-! ## State -/

structure Cursor where
  head : BitVec 32
  tail : BitVec 32
  publishedTail : BitVec 32

/-- `head` and `tail` are the words that the kernel shares, `memory` is the
mapping of the entries. -/
structure State (E : Type) where
  head : BitVec 32
  tail : BitVec 32
  memory : Nat → E
  axis : Axis
  cursor : Cursor

/-- What an unchecked access or a subtraction fails with. -/
inductive Fault where
  | mapping
  | source
  | capacity
deriving DecidableEq

variable {n : Nat}

namespace State

variable {E : Type}

def new (head tail : BitVec 32) (memory : Nat → E) (axis : Axis) : State E :=
  { head := head, tail := tail, memory := memory, axis := axis, cursor := ⟨head, tail, tail⟩ }

def publish (state : State E) : State E :=
  let shared :=
    if state.cursor.tail ≠ state.cursor.publishedTail then
      { state with
        tail := state.cursor.tail
        cursor := { state.cursor with publishedTail := state.cursor.tail } }
    else state
  { shared with cursor := { shared.cursor with head := shared.head } }

def pending (state : State E) : BitVec 32 := state.cursor.tail - state.cursor.head

def hasCapacity (state : State E) (required : Nat) : Except Fault Bool :=
  if state.axis.entries < state.pending then .error .capacity
  else .ok (decide (required ≤ (state.axis.entries - state.pending).toNat))

/-- `count` cells from `start` on take what the source has from `skip` on. -/
def copied (source : List E) (skip start count : Nat) (memory : Nat → E) : Nat → E :=
  fun cell =>
    if start ≤ cell ∧ cell < start + count then
      (source[skip + (cell - start)]?).getD (memory cell)
    else memory cell

/-- `copy_nonoverlapping` from a source slice into the mapping. -/
def copy (state : State E) (source : List E) (skip start count : Nat) :
    Except Fault (State E) :=
  if source.length < skip + count then .error .source
  else if state.axis.entries.toNat < start + count then .error .mapping
  else .ok { state with memory := copied source skip start count state.memory }

def next (state : State E) : Except Fault (Nat × State E) :=
  let index := (state.cursor.tail &&& state.axis.mask).toNat
  if state.axis.entries.toNat ≤ index then .error .mapping
  else .ok (index, { state with cursor := { state.cursor with tail := state.cursor.tail + 1 } })

/-- An entry carries its token, which the source writes into the slot. -/
def pushOne (state : State E) (entry : E) : Except Fault (State E) := do
  let (index, state) ← state.next
  .ok { state with memory := Function.update state.memory index entry }

/-- The entries of the source are copied in two spans, the second of them from
the start of the mapping. -/
def push {n : Nat} (state : State E) (source : List E) (limit : Limit n) :
    Except Fault (State E) :=
  if n = 1 then
    match source with
    | [] => .error .source
    | entry :: _ => state.pushOne entry
  else do
    let start := (state.cursor.tail &&& state.axis.mask).toNat
    let first := min limit.count (state.axis.entries.toNat - start)
    let state ← state.copy source 0 start first
    let rest := limit.count - first
    let state ← if rest ≠ 0 then state.copy source first 0 rest else .ok state
    .ok { state with
      cursor := { state.cursor with
        tail := state.cursor.tail + BitVec.ofNat 32 limit.count } }

/-! ## One entry at a time -/

theorem mask_toNat (axis : Axis) (word : BitVec 32) :
    (word &&& axis.mask).toNat = word.toNat % axis.entries.toNat := by
  rw [toNat_and axis.ones, axis.power]

theorem pushOne_eq (state : State E) (entry : E) :
    state.pushOne entry = .ok { state with
      memory := Window.written state.axis.entries.toNat state.cursor.tail.toNat [entry] state.memory
      cursor := { state.cursor with tail := state.cursor.tail + 1 } } := by
  have pos : 0 < state.axis.entries.toNat := by
    rw [state.axis.power]
    exact Nat.two_pow_pos _
  have inside : ¬ state.axis.entries.toNat ≤ (state.cursor.tail &&& state.axis.mask).toNat := by
    rw [mask_toNat]
    have lt := Nat.mod_lt state.cursor.tail.toNat pos
    omega
  rw [pushOne, next]
  dsimp only
  rw [if_neg inside, ok_bind, mask_toNat]
  rfl

/-- The counter of a member is the counter of the first one and its position. -/
theorem counter_mod (axis : Axis) (word : BitVec 32) (i : Nat) :
    (word + BitVec.ofNat 32 i).toNat % axis.entries.toNat =
      (word.toNat + i) % axis.entries.toNat := by
  have divides : axis.entries.toNat ∣ 2 ^ 32 := by
    rw [axis.power]
    exact Nat.pow_dvd_pow 2 (Nat.le_of_lt axis.small)
  rw [BitVec.toNat_add, BitVec.toNat_ofNat, Nat.mod_mod_of_dvd _ divides, Nat.add_mod,
    Nat.mod_mod_of_dvd _ divides, ← Nat.add_mod]

/-- The queue after `entries` have been pushed behind its tail. -/
def extended (state : State E) (entries : List E) : State E :=
  { state with
    memory := Window.written state.axis.entries.toNat state.cursor.tail.toNat entries state.memory
    cursor := { state.cursor with
      tail := state.cursor.tail + BitVec.ofNat 32 entries.length } }

theorem pushOne_extended (state : State E) (entry : E) :
    state.pushOne entry = .ok (state.extended [entry]) := pushOne_eq state entry

theorem extended_cons (state : State E) (entry : E) (rest : List E) :
    (state.extended [entry]).extended rest = state.extended (entry :: rest) := by
  have counter : state.cursor.tail + 1 + BitVec.ofNat 32 rest.length =
      state.cursor.tail + BitVec.ofNat 32 (rest.length + 1) := by
    rw [BitVec.ofNat_add, BitVec.add_assoc, BitVec.add_comm (1 : BitVec 32)]
    rfl
  have same : (state.cursor.tail + 1).toNat % state.axis.entries.toNat =
      (state.cursor.tail.toNat + 1) % state.axis.entries.toNat := counter_mod state.axis _ 1
  unfold extended
  dsimp only [List.length_cons, List.length_nil]
  rw [← counter]
  congr 1
  exact Window.written_congr same

/-- Pushing one by one fills the cells behind the tail. -/
theorem pushEach_extended (state : State E) (entries : List E) :
    entries.foldlM pushOne state = .ok (state.extended entries) := by
  induction entries generalizing state with
  | nil =>
    have same : state.extended [] = state := by
      unfold extended
      rw [List.length_nil, BitVec.add_zero]
      rfl
    rw [same]
    rfl
  | cons entry rest ih =>
    rw [List.foldlM_cons, pushOne_extended, ok_bind, ih, extended_cons]

/-! ## The two spans -/

/-- The position of a member that is less than a round away. -/
theorem member_mod {start i : Nat} (inside : start < n) (near : i ≤ n) :
    (start + i) % n = if start + i < n then start + i else start + i - n := by
  split
  · rename_i below
    exact Nat.mod_eq_of_lt below
  · rename_i above
    rw [Nat.mod_eq_sub_mod (by omega), Nat.mod_eq_of_lt (by omega)]

/-- The first span fills the cells up to the end of the mapping, the second one
those from its start. -/
theorem written_spans {n tail count : Nat} {source : List E} {memory : Nat → E} (fits : count ≤ n)
    (held : count ≤ source.length) (pos : 0 < n) :
    Window.written n tail (source.take count) memory =
      copied source (min count (n - tail % n)) 0 (count - min count (n - tail % n))
        (copied source 0 (tail % n) (min count (n - tail % n)) memory) := by
  funext cell
  have inside : tail % n < n := Nat.mod_lt _ pos
  have length : (source.take count).length = count := by
    rw [List.length_take]
    omega
  have hit : ∀ i d, i < count → (tail % n + i) % n = cell →
      Window.written n tail (source.take count) memory cell = (source[i]?).getD d := by
    intro i d less place
    have found := @Window.written_apply E n tail i memory (source.take count) (by omega) (by omega)
    rw [List.getElem?_take, if_pos less, ← Nat.mod_add_mod, place] at found
    rw [found]
    rfl
  have miss : (∀ i, i < count → (tail % n + i) % n ≠ cell) →
      Window.written n tail (source.take count) memory cell = memory cell := by
    intro other
    apply Window.written_of_ne
    intro i less
    rw [length] at less
    rw [← Nat.mod_add_mod]
    exact other i less
  generalize tail % n = start at *
  unfold copied
  by_cases low : 0 ≤ cell ∧ cell < 0 + (count - min count (n - start))
  · rw [if_pos low]
    apply hit _ _ (by omega)
    rw [member_mod inside (by omega), if_neg (by omega)]
    omega
  · rw [if_neg low]
    by_cases high : start ≤ cell ∧ cell < start + min count (n - start)
    · have place : start + (0 + (cell - start)) = cell := by omega
      rw [if_pos high]
      apply hit _ _ (by omega)
      rw [place, Nat.mod_eq_of_lt (by omega)]
    · rw [if_neg high]
      apply miss
      intro i less
      rw [member_mod inside (by omega)]
      split <;> omega

theorem copied_none (source : List E) (skip : Nat) (memory : Nat → E) :
    copied source skip 0 0 memory = memory := by
  funext cell
  exact if_neg (by omega)

variable {source : List E}

theorem copy_eq {state : State E} {skip start count : Nat} (held : skip + count ≤ source.length)
    (inside : start + count ≤ state.axis.entries.toNat) :
    state.copy source skip start count =
      .ok { state with memory := copied source skip start count state.memory } := by
  rw [copy, if_neg (by omega), if_neg (by omega)]

theorem push_extended (state : State E) (limit : Limit n) (length : source.length = n)
    (fits : limit.count ≤ state.axis.entries.toNat) :
    state.push source limit = .ok (state.extended (source.take limit.count)) := by
  have pos := limit.pos
  have le := limit.le
  have taken : (source.take limit.count).length = limit.count := by
    rw [List.length_take]
    omega
  unfold push
  by_cases single : n = 1
  · rw [if_pos single]
    have one : limit.count = 1 := by omega
    cases source with
    | nil =>
      rw [List.length_nil] at length
      omega
    | cons entry rest =>
      dsimp only
      rw [one, pushOne_extended]
      rfl
  · have start := mask_toNat state.axis state.cursor.tail
    have inside := Nat.mod_lt state.cursor.tail.toNat (Nat.lt_of_lt_of_le pos fits)
    have spans := @written_spans E _ state.cursor.tail.toNat _ source state.memory fits
      (by omega) (by omega)
    rw [if_neg single]
    dsimp only
    rw [start, copy_eq (by omega) (by omega), ok_bind]
    unfold extended
    rw [taken, spans]
    by_cases more : limit.count - min limit.count
        (state.axis.entries.toNat - state.cursor.tail.toNat % state.axis.entries.toNat) ≠ 0
    · rw [if_pos more, copy_eq (by omega) (by dsimp only; omega), ok_bind]
    · rw [if_neg more, ok_bind, Decidable.not_not.mp more, copied_none]

/-- The two spans of a bulk push write what pushing one by one writes. -/
theorem push_eq_each (state : State E) (limit : Limit n) (length : source.length = n)
    (fits : limit.count ≤ state.axis.entries.toNat) :
    state.push source limit = (source.take limit.count).foldlM pushOne state := by
  rw [push_extended state limit length fits, pushEach_extended]

end State

end Dope.Uring.Queue
