import Mathlib.Algebra.Group.Nat.Defs
import Dope.Core.Ready.Packed

/-! # Payload words

A slot of the arena has three words, and what they mean depends on the kind of
the slot: the next free slot, the token of a dispatch, the record and the link of
a task, or the two lanes and the state of a topology.
-/

namespace Dope.Core.Ready.Arena

inductive Lane where
  | first
  | second
deriving DecidableEq, Repr

namespace Lane

def raw : Lane → BitVec 8
  | .first => 0
  | .second => 1

def flip : Lane → Lane
  | .first => .second
  | .second => .first

def fromBit (second : Bool) : Lane := if second then .second else .first

@[simp] theorem flip_flip (lane : Lane) : lane.flip.flip = lane := by cases lane <;> rfl

theorem flip_ne (lane : Lane) : lane.flip ≠ lane := by cases lane <;> decide

theorem eq_flip {lane lane' : Lane} (h : lane' ≠ lane) : lane' = lane.flip := by
  cases lane <;> cases lane' <;> simp_all [flip]

end Lane

/-! ## Indices -/

/-- The position after an index, with zero for none. -/
def code : Option Nat → BitVec 16
  | none => 0
  | some index => BitVec.ofNat 16 (index + 1)

def fromCode (code : BitVec 16) : Option Nat :=
  if code = 0 then none else some (code.toNat - 1)

theorem fromCode_code {index : Option Nat} (fits : ∀ i, index = some i → i + 1 < 2 ^ 16) :
    fromCode (code index) = index := by
  cases index with
  | none => rfl
  | some i =>
    have bound := fits i rfl
    have value : (BitVec.ofNat 16 (i + 1)).toNat = i + 1 := by
      rw [BitVec.toNat_ofNat, Nat.mod_eq_of_lt bound]
    have pos : BitVec.ofNat 16 (i + 1) ≠ 0 := by
      intro zero
      rw [zero] at value
      cases value
    show (if BitVec.ofNat 16 (i + 1) = 0 then none
      else some ((BitVec.ofNat 16 (i + 1)).toNat - 1)) = some i
    rw [if_neg pos, value]
    rfl

structure Link where
  next : Option Nat
  prev : Option Nat
deriving DecidableEq, Repr

namespace Link

def empty : Link := ⟨none, none⟩

def fromWord (word : BitVec 64) : Link where
  next := fromCode (word.setWidth 16)
  prev := fromCode ((word >>> 16).setWidth 16)

def word (link : Link) : BitVec 64 :=
  (code link.next).setWidth 64 ||| ((code link.prev).setWidth 64 <<< 16)

/-- Both ends are indices of the arena. -/
def Fits (link : Link) : Prop :=
  (∀ i, link.next = some i → i + 1 < 2 ^ 16) ∧ ∀ i, link.prev = some i → i + 1 < 2 ^ 16

theorem fromWord_word {link : Link} (fits : link.Fits) : fromWord link.word = link := by
  have low : link.word.setWidth 16 = code link.next := by
    apply BitVec.eq_of_getLsbD_eq
    intro i inside
    simp [word, inside]
  have high : (link.word >>> 16).setWidth 16 = code link.prev := by
    apply BitVec.eq_of_getLsbD_eq
    intro i inside
    have within : 16 + i < 64 := by omega
    simp [word, inside, within]
  unfold fromWord
  rw [low, high, fromCode_code fits.1, fromCode_code fits.2]

end Link

/-! ## Free slots -/

def freeWord (next : Nat) : BitVec 64 := BitVec.ofNat 64 next

/-- The index of the next free slot. -/
def reserveWord (word : BitVec 64) : Nat := min (word.setWidth 16).toNat (2 ^ 16 - 2)

theorem reserve_free {next : Nat} (fits : next + 1 < 2 ^ 16) :
    reserveWord (freeWord next) = next := by
  unfold reserveWord freeWord
  rw [BitVec.setWidth_ofNat_of_le (by omega), BitVec.toNat_ofNat, Nat.mod_eq_of_lt (by omega)]
  omega

/-! ## Tokens -/

def auxShift : Nat := 24

def auxMask : BitVec 64 := 0xFFFFFF#64 <<< auxShift

/-- A route token: its epoch is not zero and its auxiliary bits are clear. -/
structure Token where
  epoch : BitVec 64
  metadata : BitVec 64
  live : epoch ≠ 0
  clear : metadata &&& auxMask = 0
deriving DecidableEq

namespace Token

/-- The two words of a packed token, with auxiliary bits. -/
def words (token : Token) (aux : BitVec 32) : BitVec 64 × BitVec 64 :=
  (token.epoch, token.metadata &&& ~~~auxMask ||| (aux.setWidth 64 <<< auxShift))

theorem masked_clear (word : BitVec 64) : word &&& ~~~auxMask &&& auxMask = 0 := by
  apply BitVec.eq_of_getLsbD_eq
  intro i inside
  simp [inside]

/-- The token that two words restore, when the first one is not zero. -/
def restore (words : BitVec 64 × BitVec 64) : Option Token :=
  if live : words.1 = 0 then none
  else some ⟨words.1, words.2 &&& ~~~auxMask, live, masked_clear words.2⟩

theorem restore_words (token : Token) : restore (token.words 0) = some token := by
  have same : token.metadata &&& ~~~auxMask ||| ((0 : BitVec 32).setWidth 64 <<< auxShift) =
      token.metadata := by
    apply BitVec.eq_of_getLsbD_eq
    intro i inside
    have off : (token.metadata &&& auxMask).getLsbD i = false := by
      rw [token.clear]
      simp
    rw [BitVec.getLsbD_and] at off
    simp only [BitVec.getLsbD_or, BitVec.getLsbD_and, BitVec.getLsbD_not, inside]
    cases on : token.metadata.getLsbD i with
    | false => simp
    | true =>
      rw [on] at off
      simpa using off
  have again : token.metadata &&& ~~~auxMask = token.metadata := by
    have zero : (0 : BitVec 32).setWidth 64 <<< auxShift = 0 := by decide
    rw [zero] at same
    simpa using same
  unfold restore words
  rw [dif_neg token.live]
  dsimp only
  rw [same]
  simp only [again]

end Token

/-! ## Tasks -/

section
variable (low : BitVec 16) (high : BitVec 32)

theorem packed_low : (low.setWidth 64 ||| (high.setWidth 64 <<< 32)).setWidth 16 = low := by
  apply BitVec.eq_of_getLsbD_eq
  intro i inside
  simp [inside]

theorem packed_high : ((low.setWidth 64 ||| (high.setWidth 64 <<< 32)) >>> 32).setWidth 32 = high := by
  apply BitVec.eq_of_getLsbD_eq
  intro i inside
  have within : 32 + i < 64 := by omega
  have above : low.getLsbD (32 + i) = false := BitVec.getLsbD_of_ge _ _ (by omega)
  have shifted : ¬ 32 + i < 32 := by omega
  simp [inside, within, above, shifted]

end

/-- The word of a parent key, from its index and its raw generation. -/
def identityWord (index : Nat) (epoch : BitVec 32) : BitVec 64 :=
  (epoch.setWidth 64 <<< 32) ||| (BitVec.ofNat 16 (index + 1)).setWidth 64

def identityIndex (word : BitVec 64) : Nat := (word.setWidth 16).toNat - 1

def identityEpoch (word : BitVec 64) : BitVec 32 := (word >>> 32).setWidth 32

theorem identityIndex_word {index : Nat} (fits : index + 1 < 2 ^ 16) (epoch : BitVec 32) :
    identityIndex (identityWord index epoch) = index := by
  unfold identityIndex identityWord
  rw [BitVec.or_comm, packed_low, BitVec.toNat_ofNat, Nat.mod_eq_of_lt fits]
  rfl

theorem identityEpoch_word (index : Nat) (epoch : BitVec 32) :
    identityEpoch (identityWord index epoch) = epoch := by
  unfold identityEpoch identityWord
  rw [BitVec.or_comm, packed_high]

/-- The word of a binding: the root of the topology and the local identity. -/
def bindingWord (root : Nat) (local_ : BitVec 32) : BitVec 64 :=
  (BitVec.ofNat 16 (root + 1)).setWidth 64 ||| (local_.setWidth 64 <<< 32)

def bindingRoot (word : BitVec 64) : Nat := (word.setWidth 16).toNat - 1

def bindingLocal (word : BitVec 64) : BitVec 32 := (word >>> 32).setWidth 32

theorem bindingRoot_word {root : Nat} (fits : root + 1 < 2 ^ 16) (local_ : BitVec 32) :
    bindingRoot (bindingWord root local_) = root := by
  unfold bindingRoot bindingWord
  rw [packed_low, BitVec.toNat_ofNat, Nat.mod_eq_of_lt fits]
  rfl

/-! ## Topologies -/

def activeShift : Nat := 32

def pausedShift : Nat := 33

def pausedMask : BitVec 64 := 0b11#64 <<< pausedShift

def closedMask : BitVec 64 := 1#64 <<< 35

def drainingMask : BitVec 64 := 1#64 <<< 36

def countMask : BitVec 64 := 0xFFFFFFFF#64

/-- The state word of a topology. -/
abbrev State := BitVec 64

namespace State

def count (state : State) : BitVec 32 := state.setWidth 32

def setCount (state : State) (next : BitVec 32) : State :=
  state &&& ~~~countMask ||| next.setWidth 64

def active (state : State) : Lane :=
  .fromBit (decide ((state >>> activeShift) &&& 1#64 ≠ 0))

def setActive (state : State) (side : Lane) : State :=
  state &&& ~~~(1#64 <<< activeShift) ||| (side.raw.setWidth 64 <<< activeShift)

def paused (state : State) : Option Lane :=
  let raw := ((state &&& pausedMask) >>> pausedShift).setWidth 8
  if raw &&& 1#8 ≠ 0 then some (.fromBit (decide (raw &&& 2#8 ≠ 0))) else none

def setPaused (state : State) (side : Option Lane) : State :=
  let raw : BitVec 8 := match side with
    | none => 0
    | some side => 1#8 ||| (side.raw <<< 1)
  state &&& ~~~pausedMask ||| (raw.setWidth 64 <<< pausedShift)

def closed (state : State) : Bool := decide (state &&& closedMask ≠ 0)

def close (state : State) : State := state ||| closedMask

def draining (state : State) : Bool := decide (state &&& drainingMask ≠ 0)

def claim (state : State) : State := state ||| drainingMask

def finish (state : State) : State := state &&& ~~~drainingMask

/-! The fields are bits of the word, and each operation sets its own. -/

theorem masked_ne_zero {word : BitVec 64} {position : Nat} (inside : position < 64) :
    (word &&& (1#64 <<< position) ≠ 0) ↔ word.getLsbD position = true := by
  rw [Ne, eq_zero_iff]
  constructor
  · intro some
    by_contra off
    apply some
    intro bit _
    rw [BitVec.getLsbD_and, single_bit inside]
    by_cases same : bit = position
    · rw [same]
      simpa using off
    · simp [same]
  · intro on clear
    have off := clear position inside
    rw [BitVec.getLsbD_and, single_bit inside, on] at off
    simp at off

theorem active_bit (state : State) : state.active = .fromBit (state.getLsbD 32) := by
  have bit := @masked_ne_zero (state >>> activeShift) 0 (by decide)
  unfold active
  congr 1
  rw [Bool.eq_iff_iff, decide_eq_true_eq]
  simpa [activeShift] using bit

theorem closed_bit (state : State) : state.closed = state.getLsbD 35 := by
  unfold closed
  rw [Bool.eq_iff_iff, decide_eq_true_eq]
  exact masked_ne_zero (by decide)

theorem draining_bit (state : State) : state.draining = state.getLsbD 36 := by
  unfold draining
  rw [Bool.eq_iff_iff, decide_eq_true_eq]
  exact masked_ne_zero (by decide)

theorem paused_bits (state : State) :
    state.paused = if state.getLsbD 33 then some (.fromBit (state.getLsbD 34)) else none := by
  have low : ∀ raw : BitVec 8, (raw &&& 1#8 ≠ 0) = (raw.getLsbD 0 = true) := by decide
  have high : ∀ raw : BitVec 8, decide (raw &&& 2#8 ≠ 0) = raw.getLsbD 1 := by decide
  unfold paused
  dsimp only
  rw [high]
  simp only [low]
  have first : (((state &&& pausedMask) >>> pausedShift).setWidth 8).getLsbD 0 =
      state.getLsbD 33 := by
    have mask : pausedMask.getLsbD 33 = true := by decide
    simp [pausedShift, mask]
  have second : (((state &&& pausedMask) >>> pausedShift).setWidth 8).getLsbD 1 =
      state.getLsbD 34 := by
    have mask : pausedMask.getLsbD 34 = true := by decide
    simp [pausedShift, mask]
  rw [first, second]

/-- What a state word says. -/
structure View where
  count : Nat
  active : Lane
  paused : Option Lane
  closed : Bool
  draining : Bool
deriving DecidableEq, Repr

def view (state : State) : View where
  count := state.count.toNat
  active := state.active
  paused := state.paused
  closed := state.closed
  draining := state.draining

theorem view_bits (state : State) :
    state.view =
      { count := state.count.toNat
        active := .fromBit (state.getLsbD 32)
        paused := if state.getLsbD 33 then some (.fromBit (state.getLsbD 34)) else none
        closed := state.getLsbD 35
        draining := state.getLsbD 36 } := by
  unfold view
  rw [active_bit, paused_bits, closed_bit, draining_bit]

section
variable (state : State) {mask value : BitVec 64}

theorem put_bit (within : ∀ i : Fin 64, value.getLsbD i = true → mask.getLsbD i = true)
    {bit : Nat} (inside : bit < 64) :
    (state &&& ~~~mask ||| value).getLsbD bit =
      if mask.getLsbD bit then value.getLsbD bit else state.getLsbD bit := by
  simp only [BitVec.getLsbD_or, BitVec.getLsbD_and, BitVec.getLsbD_not, inside]
  cases under : mask.getLsbD bit with
  | true => simp
  | false =>
    have off : value.getLsbD bit = false := by
      by_contra on
      have set := within ⟨bit, inside⟩ (by simpa using on)
      rw [under] at set
      cases set
    simp [off]

theorem put_count (within : ∀ i : Fin 64, value.getLsbD i = true → mask.getLsbD i = true)
    (above : ∀ i : Fin 32, mask.getLsbD i = false) :
    (state &&& ~~~mask ||| value : State).count = state.count := by
  apply BitVec.eq_of_getLsbD_eq
  intro bit inside
  have bound : bit < 64 := by omega
  unfold count
  rw [BitVec.getLsbD_setWidth, BitVec.getLsbD_setWidth, put_bit state within bound,
    above ⟨bit, inside⟩]
  rfl

theorem countMask_bit : ∀ i : Fin 64, countMask.getLsbD i = decide (i.val < 32) := by decide

theorem setCount_view (next : BitVec 32) :
    (state.setCount next).view = { state.view with count := next.toNat } := by
  have within : ∀ i : Fin 64, (next.setWidth 64).getLsbD i = true → countMask.getLsbD i = true := by
    intro i on
    rw [countMask_bit, decide_eq_true_eq]
    rw [BitVec.getLsbD_setWidth, Bool.and_eq_true] at on
    exact BitVec.lt_of_getLsbD on.2
  have low : (state.setCount next).count = next := by
    apply BitVec.eq_of_getLsbD_eq
    intro bit inside
    have bound : bit < 64 := by omega
    unfold count setCount
    rw [BitVec.getLsbD_setWidth, put_bit state within bound, countMask_bit ⟨bit, bound⟩]
    simp [inside, bound]
  have high : ∀ bit, 32 ≤ bit → bit < 64 → (state.setCount next).getLsbD bit = state.getLsbD bit := by
    intro bit above bound
    have out : ¬ bit < 32 := by omega
    unfold setCount
    rw [put_bit state within bound, countMask_bit ⟨bit, bound⟩]
    simp [out]
  rw [view_bits, view_bits, low, high 32 (by decide) (by decide), high 33 (by decide) (by decide),
    high 34 (by decide) (by decide), high 35 (by decide) (by decide),
    high 36 (by decide) (by decide)]

/-- What a word says after bits of its upper half have been put. -/
theorem put_view (within : ∀ i : Fin 64, value.getLsbD i = true → mask.getLsbD i = true)
    (above : ∀ i : Fin 32, mask.getLsbD i = false) :
    (state &&& ~~~mask ||| value : State).view =
      { count := state.view.count
        active := .fromBit (if mask.getLsbD 32 then value.getLsbD 32 else state.getLsbD 32)
        paused :=
          if (if mask.getLsbD 33 then value.getLsbD 33 else state.getLsbD 33) then
            some (.fromBit (if mask.getLsbD 34 then value.getLsbD 34 else state.getLsbD 34))
          else none
        closed := if mask.getLsbD 35 then value.getLsbD 35 else state.getLsbD 35
        draining := if mask.getLsbD 36 then value.getLsbD 36 else state.getLsbD 36 } := by
  rw [view_bits, put_count state within above, put_bit state within (by decide),
    put_bit state within (by decide), put_bit state within (by decide),
    put_bit state within (by decide), put_bit state within (by decide)]
  rfl

theorem setActive_view (side : Lane) :
    (state.setActive side).view = { state.view with active := side } := by
  have within : ∀ i : Fin 64, (side.raw.setWidth 64 <<< activeShift).getLsbD i = true →
      (1#64 <<< activeShift).getLsbD i = true := by
    cases side <;> decide
  unfold setActive
  rw [put_view state within (by decide), view_bits]
  cases side <;> rfl

theorem setPaused_view (side : Option Lane) :
    (state.setPaused side).view = { state.view with paused := side } := by
  have within : ∀ i : Fin 64, ((match side with
      | none => 0
      | some side => 1#8 ||| (side.raw <<< 1) : BitVec 8).setWidth 64 <<< pausedShift).getLsbD i =
        true → pausedMask.getLsbD i = true := by
    cases side with
    | none => decide
    | some side => cases side <;> decide
  unfold setPaused
  rw [put_view state within (by decide), view_bits]
  cases side with
  | none => rfl
  | some side => cases side <;> rfl

theorem finish_view : state.finish.view = { state.view with draining := false } := by
  have same : state.finish = state &&& ~~~drainingMask ||| 0#64 := by
    unfold finish
    exact BitVec.or_zero.symm
  rw [same, put_view state (by decide) (by decide), view_bits]
  rfl

theorem or_put (word mask : BitVec 64) : word ||| mask = word &&& ~~~mask ||| mask := by
  apply BitVec.eq_of_getLsbD_eq
  intro bit inside
  simp only [BitVec.getLsbD_or, BitVec.getLsbD_and, BitVec.getLsbD_not, inside]
  cases mask.getLsbD bit <;> simp

theorem close_view : state.close.view = { state.view with closed := true } := by
  unfold close
  rw [or_put, put_view state (fun _ on => on) (by decide), view_bits]
  rfl

theorem claim_view : state.claim.view = { state.view with draining := true } := by
  unfold claim
  rw [or_put, put_view state (fun _ on => on) (by decide), view_bits]
  rfl

end

end State

end Dope.Core.Ready.Arena
