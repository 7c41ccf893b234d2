import Mathlib.Algebra.Group.Nat.Defs
import Dope.Core.Ready.Set

/-! # Packed words

What the edits of a packed word do to its bits, and with that to the indices on
either side.
-/

namespace Dope.Core.Ready

variable {side side' : Side}

theorem Side.eq_other (h : side' ≠ side) : side' = side.other := by
  cases side <;> cases side' <;> simp_all [other]

/-! ## Bits -/

variable {bit : Nat}

theorem sideMask_bit (side : Side) (inside : bit < 64) :
    (sideMask side).getLsbD bit = decide (bit % 2 = side.index) := by
  have all : ∀ side : Side, ∀ bit : Fin 64,
      (sideMask side).getLsbD bit = decide (bit.val % 2 = side.index) := by
    intro side
    cases side <;> decide
  exact all side ⟨bit, inside⟩

variable {word : BitVec 64}

theorem eq_zero_iff : word = 0 ↔ ∀ bit, bit < 64 → word.getLsbD bit = false := by
  constructor
  · rintro rfl bit _
    simp
  · intro clear
    apply BitVec.eq_of_getLsbD_eq
    intro bit inside
    rw [clear bit inside]
    simp

theorem single_bit {position : Nat} (inside : position < 64) :
    (1#64 <<< position).getLsbD bit = decide (bit = position) := by
  rw [BitVec.getLsbD_shiftLeft, BitVec.getLsbD_one]
  by_cases same : bit = position
  · subst same
    simp [inside]
  · by_cases low : bit < position
    · simp [low, same]
    · have apart : bit - position ≠ 0 := by omega
      simp [same, apart]

theorem pair_bit {shift : Nat} (inside : shift + 1 < 64) :
    (3#64 <<< shift).getLsbD bit = decide (bit = shift ∨ bit = shift + 1) := by
  have three : (3#64 : BitVec 64) = 1#64 <<< 0 ||| 1#64 <<< 1 := by decide
  rw [three, BitVec.shiftLeft_or_distrib, BitVec.getLsbD_or, ← BitVec.shiftLeft_add,
    ← BitVec.shiftLeft_add, single_bit (by omega), single_bit (by omega)]
  simp [Nat.add_comm]

theorem ones_bit {shift : Nat} (inside : bit < 64) :
    (BitVec.allOnes 64 <<< shift).getLsbD bit = decide (shift ≤ bit) := by
  rw [BitVec.getLsbD_shiftLeft, BitVec.getLsbD_allOnes]
  by_cases low : bit < shift
  · have under : ¬ shift ≤ bit := by omega
    simp [low, under]
  · have above : shift ≤ bit := by omega
    have small : bit - shift < 64 := by omega
    simp [above, inside, small]

theorem trailingZeros_spec (some : word ≠ 0) :
    trailingZeros word < 64 ∧ word.getLsbD (trailingZeros word) = true := by
  unfold trailingZeros
  cases found : (List.range 64).find? word.getLsbD with
  | none =>
    exfalso
    apply some
    rw [eq_zero_iff]
    intro bit inside
    simpa using List.find?_eq_none.mp found bit (List.mem_range.mpr inside)
  | some bit =>
    exact ⟨List.mem_range.mp (List.mem_of_find?_eq_some found), List.find?_some found⟩

/-! ## Indices -/

variable {index index' : Nat}

namespace Store

variable {S : Type} {summary : Index.Summary S Side} {store : Store S}

/-- The bit of an index on a side. -/
def place (side : Side) (index : Nat) : Nat := index % entriesPerWord * 2 + side.index

def queued (store : Store S) (side : Side) (index : Nat) : Bool :=
  (store.words (index / entriesPerWord)).getLsbD (place side index)

theorem place_lt (side : Side) (index : Nat) : place side index < 64 := by
  unfold place entriesPerWord
  cases side <;> simp only [Side.index] <;> omega

theorem place_mod (side : Side) (index : Nat) : place side index % 2 = side.index := by
  unfold place
  cases side <;> simp only [Side.index] <;> omega

theorem index_of_place (row : Nat) (inside : bit < 64) (parity : bit % 2 = side.index) :
    (row * entriesPerWord + bit / 2) / entriesPerWord = row ∧
      place side (row * entriesPerWord + bit / 2) = bit := by
  unfold place entriesPerWord
  omega

theorem place_injective (row : index / entriesPerWord = index' / entriesPerWord)
    (same : place side index = place side' index') : side = side' ∧ index = index' := by
  unfold place at same
  unfold entriesPerWord at row same
  cases side <;> cases side' <;> simp only [Side.index] at same <;>
    first
      | exact ⟨rfl, by omega⟩
      | (exfalso; omega)

/-- A word has no bit of the side exactly when no index of the row is on it. -/
theorem side_clear_iff {word : BitVec 64} {side : Side} {row : Nat} :
    word &&& sideMask side = 0 ↔
      ∀ index, index / entriesPerWord = row → word.getLsbD (place side index) = false := by
  rw [eq_zero_iff]
  constructor
  · intro clear index here
    have bit := clear (place side index) (place_lt side index)
    rw [BitVec.getLsbD_and, sideMask_bit side (place_lt side index), place_mod] at bit
    simpa using bit
  · intro clear bit inside
    rw [BitVec.getLsbD_and, sideMask_bit side inside]
    by_cases parity : bit % 2 = side.index
    · rcases index_of_place row inside parity with ⟨here, same⟩
      have off := clear _ here
      rw [same] at off
      simp [off]
    · simp [parity]

theorem queued_of_row {row : Nat} (here : index / entriesPerWord = row) :
    store.queued side index = (store.words row).getLsbD (place side index) := by
  unfold queued
  rw [here]

theorem row_clear_iff {side : Side} {row : Nat} :
    ¬ (store.words row &&& sideMask side = 0) ↔
      ∃ index, index / entriesPerWord = row ∧ store.queued side index = true := by
  rw [@side_clear_iff _ side row]
  constructor
  · intro some
    by_contra none
    apply some
    intro index here
    rw [← queued_of_row here]
    cases on : store.queued side index with
    | false => rfl
    | true => exact absurd ⟨index, here, on⟩ none
  · rintro ⟨index, here, on⟩ clear
    have off := clear index here
    rw [← queued_of_row here, on] at off
    cases off

/-- The words, the summary and the cursors agree, and no index is on both
sides. -/
structure Valid (summary : Index.Summary S Side) (store : Store S) : Prop where
  rows : ∀ side row, row < store.capacity.words →
    (summary.get store.summary side row = true ↔
      ∃ index, index / entriesPerWord = row ∧ store.queued side index = true)
  inside : ∀ side index, store.queued side index = true → index < store.capacity.raw
  single : ∀ index, store.queued .a index = true → store.queued .b index = false
  cursor : ∀ side, store.cursors side < store.capacity.raw

theorem Valid.opposite (h : Valid summary store) (here : store.queued side index = true) :
    store.queued side.other index = false := by
  cases side with
  | a => exact h.single index here
  | b =>
    cases there : store.queued .a index with
    | false => exact there
    | true =>
      rw [h.single index there] at here
      cases here

theorem row_lt (capacity : Capacity) (inside : index < capacity.raw) :
    index / entriesPerWord < capacity.words := by
  have pos := capacity.pos
  unfold Capacity.words entriesPerWord
  omega

/-- One bit of the store changes. -/
structure Turns (before after : Store S) (side : Side) (index : Nat) (value : Bool) : Prop where
  queued : ∀ side' index', after.queued side' index' =
    if side' = side ∧ index' = index then value else before.queued side' index'
  capacity : after.capacity = before.capacity
  mode : after.mode = before.mode

section
variable (value : Bool) (row : Nat) (side : Side) (current after : BitVec 64)

/-- A publication writes one word and at most one row of the summary. -/
theorem publish_eq :
    store.publish summary value row side current after =
      { store with
        words := Function.update store.words row after
        summary :=
          if (if value then current else after) &&& sideMask side = 0 then
            summary.update value store.summary side row
          else store.summary } := by
  unfold publish
  generalize (if value then current else after) = stable
  dsimp only
  split <;> rfl

theorem publish_get {rows : Nat} (lawful : summary.Lawful rows) (side' : Side) (row' : Nat) :
    summary.get (store.publish summary value row side current after).summary side' row' =
      if (side' = side ∧ row' = row) ∧ (if value then current else after) &&& sideMask side = 0
      then value else summary.get store.summary side' row' := by
  rw [publish_eq]
  generalize (if value then current else after) = stable
  dsimp only
  split
  · rename_i clear
    rw [lawful.update]
    simp [clear]
  · rename_i clear
    rw [if_neg]
    exact fun both => clear both.2

end

/-- A published word that changes one bit keeps the store valid. -/
theorem publish_turns (lawful : summary.Lawful store.capacity.words) (valid : Valid summary store)
    {value : Bool} {after : BitVec 64} (inside : index < store.capacity.raw)
    (turned : store.queued side index = !value)
    (free : value = true → store.queued side.other index = false)
    (bits : ∀ side' index', index' / entriesPerWord = index / entriesPerWord → after.getLsbD
      (place side' index') = if side' = side ∧ index' = index then value else (store.words (index
      / entriesPerWord)).getLsbD (place side' index')) :
    Turns store (store.publish summary value (index / entriesPerWord) side
        (store.words (index / entriesPerWord)) after) side index value ∧
      Valid summary (store.publish summary value (index / entriesPerWord) side
        (store.words (index / entriesPerWord)) after) := by
  have queued : ∀ side' index', (store.publish summary value (index / entriesPerWord) side
      (store.words (index / entriesPerWord)) after).queued side' index' =
      if side' = side ∧ index' = index then value else store.queued side' index' := by
    intro side' index'
    unfold Store.queued
    rw [publish_eq]
    dsimp only
    by_cases here : index' / entriesPerWord = index / entriesPerWord
    · rw [here, Function.update_self, bits side' index' here]
    · rw [Function.update_of_ne here, if_neg]
      rintro ⟨-, rfl⟩
      exact here rfl
  have capacity : (store.publish summary value (index / entriesPerWord) side
      (store.words (index / entriesPerWord)) after).capacity = store.capacity := by
    rw [publish_eq]
  refine ⟨⟨queued, capacity, by rw [publish_eq]⟩, ?_, ?_, ?_, ?_⟩
  · intro side' row within
    rw [capacity] at within
    rw [publish_get value _ side _ after lawful]
    have old := valid.rows side' row within
    by_cases here : side' = side ∧ row = index / entriesPerWord
    · rcases here with ⟨rfl, rfl⟩
      have word : (store.publish summary value (index / entriesPerWord) side'
          (store.words (index / entriesPerWord)) after).words (index / entriesPerWord) = after := by
        rw [publish_eq]
        exact Function.update_self ..
      have new := @row_clear_iff _ (store.publish summary value (index / entriesPerWord) side'
        (store.words (index / entriesPerWord)) after) side' (index / entriesPerWord)
      rw [word] at new
      rw [← row_clear_iff] at old
      rw [← new]
      cases value with
      | true =>
        have some : ¬ (after &&& sideMask side' = 0) :=
          new.mpr ⟨index, rfl, by rw [queued, if_pos ⟨rfl, rfl⟩]⟩
        refine iff_of_true ?_ some
        by_cases clear : store.words (index / entriesPerWord) &&& sideMask side' = 0
        · rw [if_pos ⟨⟨rfl, rfl⟩, clear⟩]
        · rw [if_neg (fun both => clear both.2)]
          exact old.mpr clear
      | false =>
        have before : summary.get store.summary side' (index / entriesPerWord) = true :=
          old.mpr (row_clear_iff.mpr ⟨index, rfl, by rw [turned]; rfl⟩)
        by_cases clear : after &&& sideMask side' = 0
        · rw [if_pos ⟨⟨rfl, rfl⟩, clear⟩]
          simp [clear]
        · rw [if_neg (fun both => clear both.2)]
          exact iff_of_true before clear
    · rw [if_neg (fun both => here both.1), old]
      simp only [queued]
      have same : ∀ index', index' / entriesPerWord = row →
          ¬ (side' = side ∧ index' = index) := by
        rintro index' at_ ⟨rfl, rfl⟩
        exact here ⟨rfl, at_.symm⟩
      constructor
      · rintro ⟨index', at_, on⟩
        exact ⟨index', at_, by rw [if_neg (same index' at_)]; exact on⟩
      · rintro ⟨index', at_, on⟩
        rw [if_neg (same index' at_)] at on
        exact ⟨index', at_, on⟩
  · intro side' index' on
    rw [capacity]
    rw [queued] at on
    split at on
    · rename_i same
      rw [same.2]
      exact inside
    · exact valid.inside side' index' on
  · intro index' on
    rw [queued] at on ⊢
    by_cases here : index' = index
    · subst here
      cases side with
      | a =>
        rw [if_neg (by simp)]
        rw [if_pos ⟨rfl, rfl⟩] at on
        exact free on
      | b =>
        rw [if_neg (by simp)] at on
        rw [if_pos ⟨rfl, rfl⟩]
        cases value with
        | false => rfl
        | true =>
          have off : store.queued .a index' = false := free rfl
          rw [off] at on
          cases on
    · rw [if_neg (fun both => here both.2)] at on ⊢
      exact valid.single index' on
  · intro side'
    rw [capacity, publish_eq]
    exact valid.cursor side'

/-! ## Operations -/

theorem pair_clear_iff :
    store.words (index / entriesPerWord) &&& (3#64 <<< (index % entriesPerWord * 2)) = 0 ↔
      ∀ side, store.queued side index = false := by
  have small : index % entriesPerWord * 2 + 1 < 64 := by
    unfold entriesPerWord
    omega
  rw [eq_zero_iff]
  constructor
  · intro clear side
    have bit := clear (place side index) (place_lt side index)
    rw [BitVec.getLsbD_and, pair_bit small] at bit
    have at_ : place side index = index % entriesPerWord * 2 ∨
        place side index = index % entriesPerWord * 2 + 1 := by
      unfold place
      cases side with
      | a => exact .inl rfl
      | b => exact .inr rfl
    rw [decide_eq_true at_, Bool.and_true] at bit
    exact bit
  · intro clear bit inside
    rw [BitVec.getLsbD_and, pair_bit small]
    by_cases low : bit = index % entriesPerWord * 2
    · have off : (store.words (index / entriesPerWord)).getLsbD (place .a index) = false :=
        clear .a
      have same : bit = place .a index := low
      rw [same, off]
      rfl
    · by_cases high : bit = index % entriesPerWord * 2 + 1
      · have off : (store.words (index / entriesPerWord)).getLsbD (place .b index) = false :=
          clear .b
        have same : bit = place .b index := high
        rw [same, off]
        rfl
      · simp [low, high]

/-- An index that is on neither side goes to the given one. -/
theorem insert_spec (lawful : summary.Lawful store.capacity.words) (valid : Valid summary store)
    (side : Side) (inside : index < store.capacity.raw) :
    (store.insert summary side index = store ∧ ∃ side', store.queued side' index = true) ∨
      ((∀ side', store.queued side' index = false) ∧
        Turns store (store.insert summary side index) side index true ∧
        Valid summary (store.insert summary side index)) := by
  unfold insert
  dsimp only
  by_cases clear : store.words (index / entriesPerWord) &&&
      (3#64 <<< (index % entriesPerWord * 2)) = 0
  · right
    rw [if_neg (fun full => full clear)]
    have off := pair_clear_iff.mp clear
    refine ⟨off, publish_turns lawful valid inside (off side) (fun _ => off _) ?_⟩
    intro side' index' here
    rw [BitVec.getLsbD_or]
    have mine : (1#64 <<< (index % entriesPerWord * 2 + side.index)).getLsbD (place side' index') =
        decide (place side' index' = place side index) := single_bit (place_lt side index)
    rw [mine]
    by_cases same : side' = side ∧ index' = index
    · rw [if_pos same, same.1, same.2]
      simp
    · rw [if_neg same, decide_eq_false (fun equal => same (place_injective here equal)),
        Bool.or_false]
  · left
    rw [if_pos clear]
    refine ⟨rfl, ?_⟩
    by_contra none
    apply clear
    rw [pair_clear_iff]
    intro side'
    cases on : store.queued side' index with
    | false => rfl
    | true => exact absurd ⟨side', on⟩ none

/-- Where a bit of the row stands among the two bits of an index. -/
theorem place_pair (here : index' / entriesPerWord = index / entriesPerWord) :
    (place side index' = index % entriesPerWord * 2 ∨
      place side index' = index % entriesPerWord * 2 + 1) ↔ index' = index := by
  unfold place
  unfold entriesPerWord at here ⊢
  cases side <;> simp only [Side.index] <;> omega

theorem low_bits_iff :
    store.words (index / entriesPerWord) &&& (3#64 <<< (index % entriesPerWord * 2)) &&&
        lowMask ≠ 0 ↔ store.queued .a index = true := by
  have small : index % entriesPerWord * 2 + 1 < 64 := by
    unfold entriesPerWord
    omega
  have mask : lowMask = sideMask .a := by decide
  rw [mask, Ne, eq_zero_iff]
  constructor
  · intro some
    by_contra off
    apply some
    intro bit inside
    rw [BitVec.getLsbD_and, BitVec.getLsbD_and, pair_bit small, sideMask_bit .a inside]
    by_cases low : bit = index % entriesPerWord * 2
    · have same : bit = place .a index := low
      unfold queued at off
      rw [same]
      simp [off]
    · by_cases high : bit = index % entriesPerWord * 2 + 1
      · have odd : ¬ bit % 2 = Side.a.index := by
          show ¬ bit % 2 = 0
          omega
        simp [odd]
      · simp [low, high]
  · intro on clear
    have bit := clear (place .a index) (place_lt .a index)
    rw [BitVec.getLsbD_and, BitVec.getLsbD_and, pair_bit small,
      sideMask_bit .a (place_lt .a index), place_mod,
      decide_eq_true ((place_pair rfl).mpr rfl)] at bit
    unfold queued at on
    rw [on] at bit
    simp at bit

/-- Clearing both bits of an index clears the one that was set. -/
theorem cleared_pair (valid : Valid summary store) (on : store.queued side index = true)
    (here : index' / entriesPerWord = index / entriesPerWord) :
    (store.words (index / entriesPerWord) &&&
      ~~~(store.words (index / entriesPerWord) &&&
        (3#64 <<< (index % entriesPerWord * 2)))).getLsbD (place side' index') =
      if side' = side ∧ index' = index then false
      else (store.words (index / entriesPerWord)).getLsbD (place side' index') := by
  have small : index % entriesPerWord * 2 + 1 < 64 := by
    unfold entriesPerWord
    omega
  have pair : (3#64 <<< (index % entriesPerWord * 2)).getLsbD (place side' index') =
      decide (index' = index) := by
    rw [pair_bit small]
    exact decide_eq_decide.mpr (place_pair here)
  rw [BitVec.getLsbD_and, BitVec.getLsbD_not, BitVec.getLsbD_and, pair,
    decide_eq_true (place_lt side' index'), Bool.true_and]
  by_cases same : index' = index
  · rw [same]
    by_cases mine : side' = side
    · simp [mine]
    · have off : (store.words (index / entriesPerWord)).getLsbD (place side' index) = false := by
        rw [Side.eq_other mine]
        exact valid.opposite on
      rw [if_neg (fun both => mine both.1), off]
      rfl
  · simp [same]

theorem remove_spec (lawful : summary.Lawful store.capacity.words) (valid : Valid summary store)
    (inside : index < store.capacity.raw) :
    (store.remove summary index = (false, store) ∧ ∀ side, store.queued side index = false) ∨
      ∃ side next, store.remove summary index = (true, next) ∧ store.queued side index = true ∧
        Turns store next side index false ∧ Valid summary next := by
  unfold remove
  dsimp only
  by_cases clear : store.words (index / entriesPerWord) &&&
      (3#64 <<< (index % entriesPerWord * 2)) = 0
  · left
    rw [if_pos clear]
    exact ⟨rfl, pair_clear_iff.mp clear⟩
  · right
    rw [if_neg clear]
    by_cases low : store.queued .a index = true
    · rw [if_pos (low_bits_iff.mpr low)]
      rcases publish_turns lawful valid inside low (by simp)
        (fun _ _ here => cleared_pair valid low here) with ⟨turn, valid'⟩
      exact ⟨.a, _, rfl, low, turn, valid'⟩
    · rw [if_neg (fun some => low (low_bits_iff.mp some))]
      have high : store.queued .b index = true := by
        by_contra off
        apply clear
        rw [pair_clear_iff]
        intro side
        cases side with
        | a => simpa using low
        | b => simpa using off
      rcases publish_turns lawful valid inside high (by simp)
        (fun _ _ here => cleared_pair valid high here) with ⟨turn, valid'⟩
      exact ⟨.b, _, rfl, high, turn, valid'⟩

/-! ## Taking -/

theorem cleared_bit {word : BitVec 64} {side side' : Side} {index index' : Nat}
    (here : index' / entriesPerWord = index / entriesPerWord) :
    (word &&& ~~~(1#64 <<< place side index)).getLsbD (place side' index') =
      if side' = side ∧ index' = index then false else word.getLsbD (place side' index') := by
  rw [BitVec.getLsbD_and, BitVec.getLsbD_not, single_bit (place_lt side index),
    decide_eq_true (place_lt side' index'), Bool.true_and]
  by_cases same : side' = side ∧ index' = index
  · rw [if_pos same, same.1, same.2]
    simp
  · rw [if_neg same, decide_eq_false (fun equal => same (place_injective here equal)),
      Bool.not_false, Bool.and_true]

theorem cursor_lt (capacity : Capacity) (inside : index < capacity.raw) :
    (if index + 1 = capacity.raw then 0 else (index + 1) % 2 ^ 16) < capacity.raw := by
  have bound := capacity.bound
  split
  · exact capacity.pos
  · rename_i more
    have small : index + 1 < capacity.raw := by omega
    rw [Nat.mod_eq_of_lt (by omega)]
    exact small

/-- An index of the side is taken off it. -/
def Takes (summary : Index.Summary S Side) (store : Store S) (side : Side)
    (taken : Nat × Store S) : Prop :=
  store.queued side taken.1 = true ∧ Turns store taken.2 side taken.1 false ∧
    Valid summary taken.2

/-- A bit of the side in a row is taken, and the cursor moves past its index. -/
theorem pull_spec (lawful : summary.Lawful store.capacity.words) (valid : Valid summary store)
    {row : Nat} {bits : BitVec 64} (some : bits ≠ 0)
    (part : ∀ bit, bit < 64 → bits.getLsbD bit = true → (store.words row).getLsbD bit = true ∧ bit
      % 2 = side.index) : Takes summary store side (store.pull summary side row bits) := by
  rcases trailingZeros_spec some with ⟨inside, set⟩
  rcases part _ inside set with ⟨on, parity⟩
  rcases index_of_place row inside parity with ⟨here, same⟩
  have queued : store.queued side (row * entriesPerWord + trailingZeros bits / 2) = true := by
    rw [queued_of_row here, same]
    exact on
  have bound := valid.inside _ _ queued
  have bits' : ∀ side' index', index' / entriesPerWord =
      (row * entriesPerWord + trailingZeros bits / 2) / entriesPerWord →
      (store.words row &&& ~~~(1#64 <<< trailingZeros bits)).getLsbD (place side' index') =
        if side' = side ∧ index' = row * entriesPerWord + trailingZeros bits / 2 then false
        else (store.words ((row * entriesPerWord + trailingZeros bits / 2) /
          entriesPerWord)).getLsbD (place side' index') := by
    intro side' index' at_
    have cleared := @cleared_bit (store.words row) side side' _ _ at_
    rw [same] at cleared
    rw [here]
    exact cleared
  have turns := publish_turns lawful valid bound queued (fun no => Bool.noConfusion no) bits'
  rw [here] at turns
  rcases turns with ⟨turn, valid'⟩
  refine ⟨queued, ⟨turn.queued, turn.capacity, turn.mode⟩,
    valid'.rows, valid'.inside, valid'.single, ?_⟩
  intro side'
  show Function.update store.cursors side _ side' < (store.pull summary side row bits).2.capacity.raw
  have kept : (store.pull summary side row bits).2.capacity = store.capacity := turn.capacity
  rw [kept]
  by_cases mine : side' = side
  · rw [mine, Function.update_self]
    exact cursor_lt store.capacity bound
  · rw [Function.update_of_ne mine]
    exact valid.cursor side'

theorem part_of_mask (inside : bit < 64) (on : (word &&& sideMask side).getLsbD bit = true) :
    word.getLsbD bit = true ∧ bit % 2 = side.index := by
  rw [BitVec.getLsbD_and, sideMask_bit side inside, Bool.and_eq_true, decide_eq_true_eq] at on
  exact on

/-- Nothing of the first row is left out when no bit from the start on is selected. -/
theorem first_clear {begin : Nat}
    (clear : store.words (begin / entriesPerWord) &&& sideMask side &&& (BitVec.allOnes 64 <<<
      place side begin) = 0) (here : index / entriesPerWord = begin / entriesPerWord)
    (after : begin ≤ index) : store.queued side index = false := by
  have bit := eq_zero_iff.mp clear (place side index) (place_lt side index)
  have above : place side begin ≤ place side index := by
    unfold place
    unfold entriesPerWord at here ⊢
    omega
  rw [BitVec.getLsbD_and, BitVec.getLsbD_and, sideMask_bit side (place_lt side index), place_mod,
    ones_bit (place_lt side index), decide_eq_true above, decide_eq_true rfl, Bool.and_true,
    Bool.and_true] at bit
  rw [queued_of_row here]
  exact bit

section

variable (lawful : summary.Lawful store.capacity.words) (valid : Valid summary store)

include lawful valid

/-- A search from `begin` takes an index of the side, or there is none from there on. -/
theorem take_spec (side : Side) (begin : Nat) :
    match store.take summary side begin with
    | none => ∀ index, begin ≤ index → store.queued side index = false
    | some taken => Takes summary store side taken := by
  unfold take
  by_cases beyond : store.capacity.raw ≤ begin
  · rw [if_pos beyond]
    intro index after
    cases on : store.queued side index with
    | false => rfl
    | true =>
      have inside := valid.inside side index on
      omega
  · rw [if_neg beyond]
    show match (if store.words (begin / entriesPerWord) &&& sideMask side &&&
        (BitVec.allOnes 64 <<< place side begin) ≠ 0 then _ else _ : Option (Nat × Store S)) with
      | none => _
      | some taken => _
    by_cases clear : store.words (begin / entriesPerWord) &&& sideMask side &&&
        (BitVec.allOnes 64 <<< place side begin) = 0
    · rw [if_neg (fun some => some clear)]
      cases found : summary.find store.summary side (begin / entriesPerWord + 1) with
      | none =>
        intro index after
        by_cases here : index / entriesPerWord = begin / entriesPerWord
        · exact first_clear clear here after
        · have later : begin / entriesPerWord + 1 ≤ index / entriesPerWord := by
            have order := Nat.div_le_div_right (c := entriesPerWord) after
            omega
          cases on : store.queued side index with
          | false => rfl
          | true =>
            have row := row_lt store.capacity (valid.inside side index on)
            have seen := (valid.rows side _ row).mpr ⟨index, rfl, on⟩
            rw [lawful.find_none found _ later row] at seen
            cases seen
      | some row =>
        rcases lawful.find_some found with ⟨-, within, seen⟩
        have full := row_clear_iff.mpr ((valid.rows side row within).mp seen)
        exact pull_spec lawful valid full (fun bit inside on => part_of_mask inside on)
    · rw [if_pos clear]
      apply pull_spec lawful valid clear
      intro bit inside on
      rw [BitVec.getLsbD_and, Bool.and_eq_true] at on
      exact part_of_mask inside on.1

/-- The next index of a side is taken, unless the side is empty. -/
theorem next_spec (side : Side) :
    match store.next summary side with
    | none => ∀ index, store.queued side index = false
    | some taken => Takes summary store side taken := by
  unfold next
  have first := take_spec lawful valid side (store.cursors side)
  have again := take_spec lawful valid side 0
  dsimp only
  cases found : store.take summary side (store.cursors side) with
  | some taken =>
    rw [found] at first
    exact first
  | none =>
    rw [found] at first
    by_cases zero : store.cursors side = 0
    · rw [if_neg (fun more => more zero)]
      intro index
      exact first index (by omega)
    · rw [if_pos zero]
      cases found' : store.take summary side 0 with
      | some taken =>
        rw [found'] at again
        exact again
      | none =>
        rw [found'] at again
        intro index
        exact again index (Nat.zero_le index)

theorem isEmpty_iff (side : Side) :
    store.isEmpty summary side = true ↔ ∀ index, store.queued side index = false := by
  unfold isEmpty
  rw [lawful.isEmpty]
  constructor
  · intro clear index
    cases on : store.queued side index with
    | false => rfl
    | true =>
      have row := row_lt store.capacity (valid.inside side index on)
      have seen := (valid.rows side _ row).mpr ⟨index, rfl, on⟩
      rw [clear _ row] at seen
      cases seen
  · intro clear row within
    cases seen : summary.get store.summary side row with
    | false => rfl
    | true =>
      rcases (valid.rows side row within).mp seen with ⟨index, -, on⟩
      rw [clear index] at on
      cases on

end

theorem tryNew_valid (capacity : Capacity) (lawful : summary.Lawful capacity.words) :
    Valid summary (tryNew summary capacity) := by
  have none : ∀ side index, (tryNew summary capacity).queued side index = false := by
    intro side index
    show (0 : BitVec 64).getLsbD _ = false
    simp
  refine ⟨?_, ?_, ?_, fun _ => capacity.pos⟩
  · intro side row _
    show summary.get summary.new side row = true ↔ _
    rw [lawful.new]
    simp [none]
  · intro side index on
    rw [none] at on
    cases on
  · intro index _
    exact none .b index

theorem pause_mode (summary : Index.Summary S Side) (store : Store S) (side : Side) :
    ∃ mode, store.pause summary side = { store with mode } := by
  unfold pause sealSide
  split
  · split
    · exact ⟨_, rfl⟩
    · exact ⟨_, rfl⟩
  · exact ⟨_, rfl⟩

end Store

/-! ## Inputs -/

variable {input : Input}

namespace Set

variable {S : Type} {summary : Index.Summary S Side} {set : Set S}

/-- What an input can do to the indices that are queued. -/
structure Serves (summary : Index.Summary S Side) (set : Set S) (input : Input) (output : Output)
    (next : Set S) : Prop where
  capacity : next.store.capacity = set.store.capacity
  valid : next.store.Valid summary
  old : ∀ side i, next.store.queued side i = true →
    (∃ side', set.store.queued side' i = true) ∨ input = .insert i
  gone : ∀ i, input = .remove i ∨ input = .clear i → ∀ side, next.store.queued side i = false
  activated : ∀ i, output = .activated i → ∃ side, set.store.queued side i = true

theorem serves_same (valid : set.store.Valid summary) {output : Output}
    (quiet : ∀ i, output ≠ .activated i)
    (gone : ∀ i, input = .remove i ∨ input = .clear i → ∀ side, set.store.queued side i = false) :
    Serves summary set input output set :=
  ⟨rfl, valid, fun side _ on => .inl ⟨side, on⟩, gone, fun i out => absurd out (quiet i)⟩

section

variable (lawful : summary.Lawful set.store.capacity.words) (valid : set.store.Valid summary)

include lawful valid

/-- The drain takes an index, or its end only sets the mode. -/
theorem serves_drain (side : Side) (budget : Nat)
    (drains : ∀ i, ¬ (input = .remove i ∨ input = .clear i)) (mode : Mode)
    (frames frames' : List Frame) (drained : Nat) :
    match set.store.admitNext summary side budget with
    | none => Serves summary set input (.finished drained) ⟨set.store.pause summary side, frames⟩
    | some (index, store) =>
      Serves summary set input (.activated index) ⟨{ store with mode }, frames'⟩ := by
  have gone : ∀ (next : Store S) i, input = .remove i ∨ input = .clear i →
      ∀ side, next.queued side i = false := by
    intro next i either
    exact absurd either (drains i)
  cases taken : set.store.admitNext summary side budget with
  | none =>
    rcases Store.pause_mode summary set.store side with ⟨mode', same⟩
    dsimp only
    rw [same]
    exact ⟨rfl, ⟨valid.rows, valid.inside, valid.single, valid.cursor⟩,
      fun side' _ on => .inl ⟨side', on⟩, gone _, fun _ no => nomatch no⟩
  | some item =>
    rcases item with ⟨index, store⟩
    dsimp only
    have found : Store.Takes summary set.store side (index, store) := by
      have spec := Store.next_spec lawful valid side
      unfold Store.admitNext at taken
      split at taken
      · cases taken
      · rw [taken] at spec
        exact spec
    rcases found with ⟨on, turns, valid'⟩
    refine ⟨turns.capacity, ⟨valid'.rows, valid'.inside, valid'.single, valid'.cursor⟩, ?_,
      gone _, ?_⟩
    · intro side' i here
      have before : store.queued side' i = true := here
      rw [turns.queued] at before
      split at before
      · cases before
      · exact .inl ⟨side', before⟩
    · intro i out
      cases out
      exact ⟨side, on⟩

theorem serves_remove (inside : index < set.store.capacity.raw) {output : Output}
    (is : input = .remove index ∨ input = .clear index) (quiet : ∀ i, output ≠ .activated i) :
    Serves summary set input output
      { set with store := (set.store.remove summary index).2 } := by
  have own : ∀ i, input = .remove i ∨ input = .clear i → i = index := by
    intro i either
    rcases is with rfl | rfl
    · rcases either with same | same
      · cases same
        rfl
      · cases same
    · rcases either with same | same
      · cases same
      · cases same
        rfl
  rcases Store.remove_spec lawful valid inside with
    ⟨same, off⟩ | ⟨side, next, taken, on, turns, valid'⟩
  · rw [same]
    refine serves_same valid quiet ?_
    intro i either
    rw [own i either]
    exact off
  · rw [taken]
    refine ⟨turns.capacity, valid', ?_, ?_, fun i out => absurd out (quiet i)⟩
    · intro side' i here
      have before : next.queued side' i = true := here
      rw [turns.queued] at before
      split at before
      · cases before
      · exact .inl ⟨side', before⟩
    · intro i either side'
      rw [own i either]
      show next.queued side' index = false
      rw [turns.queued]
      by_cases mine : side' = side
      · rw [if_pos ⟨mine, rfl⟩]
      · rw [if_neg (fun both => mine both.1), Side.eq_other mine]
        exact valid.opposite on

theorem step_serves (input : Input) (ok : set.allowed input) :
    Serves summary set input (set.step summary input).1 (set.step summary input).2 := by
  cases input with
  | insert index =>
    show Serves summary set (.insert index) .done
      { set with store := (set.store.insert summary set.store.mode.active index) }
    rcases Store.insert_spec lawful valid set.store.mode.active ok with
      ⟨same, -⟩ | ⟨-, turns, valid'⟩
    · rw [same]
      exact serves_same valid (fun _ => (nomatch ·)) (fun _ either => nomatch either)
    · refine ⟨turns.capacity, valid', ?_, (fun _ either => nomatch either), fun _ no => nomatch no⟩
      intro side i here
      have before : (set.store.insert summary set.store.mode.active index).queued side i = true :=
        here
      rw [turns.queued] at before
      split at before
      · rename_i both
        exact .inr (congrArg Input.insert both.2.symm)
      · exact .inl ⟨side, before⟩
  | remove index => exact serves_remove lawful valid ok (.inl rfl) (fun _ => (nomatch ·))
  | clear index => exact serves_remove lawful valid ok (.inr rfl) (fun _ => (nomatch ·))
  | drain budget =>
    have drains : ∀ i, ¬ (Input.drain budget = .remove i ∨ Input.drain budget = .clear i) :=
      fun _ either => nomatch either
    show Serves summary set _ (set.drain summary budget).1 (set.drain summary budget).2
    unfold Set.drain
    cases begun : set.store.start summary with
    | none => exact serves_same valid (fun _ => (nomatch ·)) (fun _ either => nomatch either)
    | some side =>
      have served := serves_drain lawful valid side budget
        drains
        (.draining side) set.frames (⟨side, budget - 1, 1⟩ :: set.frames) 0
      dsimp only
      cases taken : set.store.admitNext summary side budget with
      | none =>
        rw [taken] at served
        exact served
      | some item =>
        rw [taken] at served
        exact served
  | resume =>
    have drains : ∀ i, ¬ (Input.resume = .remove i ∨ Input.resume = .clear i) :=
      fun _ either => nomatch either
    show Serves summary set _ (set.resume summary).1 (set.resume summary).2
    unfold Set.resume
    cases stack : set.frames with
    | nil => exact absurd stack ok
    | cons frame frames =>
      dsimp only
      cases taken : set.store.admitNext summary frame.side frame.left with
      | none =>
        have served := serves_drain lawful valid frame.side frame.left
          drains
          .idleA frames frames frame.drained
        rw [taken] at served
        exact served
      | some item =>
        have served := serves_drain lawful valid frame.side frame.left
          drains
          item.2.mode frames (⟨frame.side, frame.left - 1, frame.drained + 1⟩ :: frames)
          frame.drained
        rw [taken] at served
        exact served

end

end Set

end Dope.Core.Ready
