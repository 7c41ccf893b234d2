import Dope.Base.Fields

/-! # Identities at the kernel's boundary

The identities that the host hands to a ring as user data: flight echoes,
descriptor retirements, framework controls and probes, each packed into one
word.
-/

namespace Dope.Uring

open Fields

abbrev Word := BitVec 64

/-! ## Flight echoes -/

def isLayoutValid (indexBits generationBits : Nat) : Bool :=
  indexBits != 0 && indexBits ≤ 32 && generationBits != 0 && generationBits ≤ 32 &&
    indexBits + generationBits ≤ 64

/-- An index and a generation in one word; the generation is not zero. -/
structure Echo (i g : Nat) where
  raw : Word
  width : raw.toNat < 2 ^ (i + g)
  live : raw >>> i ≠ 0

namespace Echo

variable {i g : Nat}

theorem width_of_guard {raw : Word} (valid : isLayoutValid i g = true)
    (h : ¬ (i + g < 64 ∧ 2 ^ (i + g) ≤ raw.toNat)) : raw.toNat < 2 ^ (i + g) := by
  have bound := raw.isLt
  simp [isLayoutValid] at valid
  by_cases whole : i + g = 64
  · rw [whole]
    exact bound
  · omega

/-- A word whose generation is not zero is not zero either. -/
def fromExposed (i g : Nat) (raw : Word) : Option (Echo i g) :=
  if valid : isLayoutValid i g = true then
    if h : (i + g < 64 ∧ 2 ^ (i + g) ≤ raw.toNat) ∨ raw >>> i = 0 then none
    else some ⟨raw, width_of_guard valid fun guard => h (.inl guard), fun dead => h (.inr dead)⟩
  else none

/-- The union of both fields in `from_parts`. -/
def join (index : BitVec i) (epoch : BitVec g) : Word :=
  epoch.setWidth 64 <<< i ||| index.setWidth 64

def index (echo : Echo i g) : BitVec i := (echo.raw &&& BitVec.ofNat 64 (2 ^ i - 1)).setWidth i

def generation (echo : Echo i g) : BitVec g := (echo.raw >>> i).setWidth g

theorem join_toNat (valid : isLayoutValid i g = true) (index : BitVec i) (epoch : BitVec g) :
    (join index epoch).toNat = epoch.toNat * 2 ^ i + index.toNat := by
  simp [isLayoutValid] at valid
  have below := index.isLt
  have above := epoch.isLt
  have product : epoch.toNat * 2 ^ i < 2 ^ g * 2 ^ i := by
    exact Nat.mul_lt_mul_of_pos_right above (Nat.two_pow_pos i)
  have whole : 2 ^ g * 2 ^ i ≤ 2 ^ 64 := by
    rw [← Nat.pow_add]
    exact Nat.pow_le_pow_right (by omega) (by omega)
  have small : 2 ^ i ≤ 2 ^ 64 := Nat.pow_le_pow_right (by omega) (by omega)
  have large : 2 ^ g ≤ 2 ^ 64 := Nat.pow_le_pow_right (by omega) (by omega)
  have first : (index.setWidth 64).toNat = index.toNat := by
    rw [BitVec.toNat_setWidth, Nat.mod_eq_of_lt (by omega)]
  have second : (epoch.setWidth 64).toNat = epoch.toNat := by
    rw [BitVec.toNat_setWidth, Nat.mod_eq_of_lt (by omega)]
  have shifted : (epoch.setWidth 64 <<< i).toNat = epoch.toNat * 2 ^ i := by
    rw [toNat_shiftLeft (by rw [second]; omega), second]
  have aligned : (epoch.setWidth 64 <<< i).toNat % 2 ^ i = 0 := by
    rw [shifted, Nat.mul_mod_left]
  rw [join, toNat_or aligned (by rw [first]; exact below), shifted, first]

theorem join_width (valid : isLayoutValid i g = true) (index : BitVec i) (epoch : BitVec g) :
    (join index epoch).toNat < 2 ^ (i + g) := by
  have below := index.isLt
  have above := epoch.isLt
  rw [join_toNat valid, Nat.pow_add, Nat.mul_comm (2 ^ i)]
  calc epoch.toNat * 2 ^ i + index.toNat
      < epoch.toNat * 2 ^ i + 2 ^ i := by omega
    _ = (epoch.toNat + 1) * 2 ^ i := by rw [Nat.add_mul, Nat.one_mul]
    _ ≤ 2 ^ g * 2 ^ i := Nat.mul_le_mul_right _ above

theorem join_shiftRight (valid : isLayoutValid i g = true) (index : BitVec i) (epoch : BitVec g) :
    (join index epoch >>> i).toNat = epoch.toNat := by
  rw [toNat_shiftRight, join_toNat valid, Nat.mul_comm, Nat.mul_add_div (Nat.two_pow_pos i),
    Nat.div_eq_of_lt index.isLt, Nat.add_zero]

def fromParts (valid : isLayoutValid i g = true) (index : BitVec i) (epoch : BitVec g)
    (live : epoch ≠ 0) : Echo i g :=
  { raw := join index epoch
    width := join_width valid index epoch
    live := by
      intro dead
      have zero := join_shiftRight valid index epoch
      rw [dead] at zero
      exact live (BitVec.eq_of_toNat_eq zero.symm) }

/-- An echo returns the index and the generation that it was made of. -/
theorem fromParts_parts (valid : isLayoutValid i g = true) (index : BitVec i) (epoch : BitVec g)
    (live : epoch ≠ 0) :
    (fromParts valid index epoch live).index = index ∧
      (fromParts valid index epoch live).generation = epoch := by
  have bounds := valid
  simp [isLayoutValid] at bounds
  have small : 2 ^ i ≤ 2 ^ 64 := Nat.pow_le_pow_right (by omega) (by omega)
  have some := Nat.two_pow_pos i
  have ones : (BitVec.ofNat 64 (2 ^ i - 1)).toNat = 2 ^ i - 1 := by
    rw [BitVec.toNat_ofNat, Nat.mod_eq_of_lt (by omega)]
  constructor
  · apply BitVec.eq_of_toNat_eq
    have low := index.isLt
    rw [Echo.index, BitVec.toNat_setWidth, toNat_and ones]
    change (join index epoch).toNat % 2 ^ i % 2 ^ i = index.toNat
    rw [join_toNat valid, Nat.mod_mod, Nat.add_comm, Nat.add_mul_mod_self_right,
      Nat.mod_eq_of_lt low]
  · apply BitVec.eq_of_toNat_eq
    have high := join_shiftRight valid index epoch
    rw [generation, BitVec.toNat_setWidth]
    change (join index epoch >>> i).toNat % 2 ^ g = epoch.toNat
    rw [high, Nat.mod_eq_of_lt epoch.isLt]

theorem fromExposed_raw (valid : isLayoutValid i g = true) (echo : Echo i g) :
    fromExposed i g echo.raw = some echo := by
  have inside : ¬ ((i + g < 64 ∧ 2 ^ (i + g) ≤ echo.raw.toNat) ∨ echo.raw >>> i = 0) := by
    rintro (⟨-, wide⟩ | dead)
    · have width := echo.width
      omega
    · exact echo.live dead
  rw [fromExposed, dif_pos valid, dif_neg inside]

theorem raw_of_fromExposed {raw : Word} {echo : Echo i g} (h : fromExposed i g raw = some echo) :
    echo.raw = raw := by
  unfold fromExposed at h
  split at h
  · split at h
    · cases h
    · cases h
      rfl
  · cases h

end Echo

abbrev Key := Echo 24 32

/-! ## Slots -/

/-- The raw position of a slot; the source stores it one-based. -/
abbrev SlotIndex := BitVec 24

def slotMask : Word := 0xffffff

namespace SlotIndex

def zero : SlotIndex := 0

def stored (slot : SlotIndex) : BitVec 32 := slot.setWidth 32 + 1

def fromField (bits : Word) : SlotIndex := (bits &&& slotMask).setWidth 24

/-- `bounded::U32::clamp` at the bound of a slot. -/
def clamp (value : Word) : SlotIndex :=
  if slotMask < value then slotMask.setWidth 24 else value.setWidth 24

theorem fromField_toNat (bits : Word) : (fromField bits).toNat = bits.toNat % 2 ^ 24 := by
  have kept : (bits &&& slotMask).toNat = bits.toNat % 2 ^ 24 := toNat_and rfl
  rw [fromField, BitVec.toNat_setWidth, kept, Nat.mod_mod]

theorem clamp_toNat {value : Word} (small : value.toNat < 2 ^ 24) :
    (clamp value).toNat = value.toNat := by
  have below : ¬ slotMask < value := by
    rw [BitVec.lt_def]
    have bound : slotMask.toNat = 2 ^ 24 - 1 := rfl
    omega
  rw [clamp, if_neg below, BitVec.toNat_setWidth, Nat.mod_eq_of_lt small]

theorem stored_pred (slot : SlotIndex) : ((slot.stored - 1).setWidth 64).toNat = slot.toNat := by
  have bound := slot.isLt
  have back : slot.stored - 1 = slot.setWidth 32 := by
    rw [stored, BitVec.add_sub_cancel]
  rw [back, BitVec.toNat_setWidth, BitVec.toNat_setWidth]
  omega

end SlotIndex

/-! ## Descriptor retirements -/

inductive Side where
  | zero
  | one
deriving DecidableEq

/-- The value of a side's bit. -/
def Side.bit : Side → Nat
  | .zero => 0
  | .one => 1

theorem Side.bit_le (side : Side) : side.bit ≤ 1 := by
  cases side <;> simp [Side.bit]

@[simp] theorem Side.bit_inj {side side' : Side} : side.bit = side'.bit ↔ side = side' := by
  cases side <;> cases side' <;> simp [Side.bit]

/-- What a retirement ends: a close of a socket, or a standalone file. -/
inductive Class where
  | close
  | standalone
deriving DecidableEq

structure Retirement where
  index : SlotIndex
  generation : BitVec 32
  side : Side
deriving DecidableEq

namespace Retirement

def retireBit : Word := 1 <<< 56

def sideBit : Word := retireBit <<< 1

def itemMask : Word := (retireBit - 1) ||| sideBit

def pack (inner : Retirement) : Word :=
  inner.generation.setWidth 64 <<< 24 ||| inner.index.setWidth 64 |||
    match inner.side with
    | .zero => 0
    | .one => sideBit

def unpack (raw : Word) : Retirement :=
  { index := SlotIndex.fromField raw
    generation := (raw >>> 24).setWidth 32
    side := if raw &&& sideBit = 0 then .zero else .one }

theorem pack_toNat (inner : Retirement) :
    inner.pack.toNat =
      inner.side.bit * 2 ^ 57 + inner.generation.toNat * 2 ^ 24 + inner.index.toNat := by
  have below := inner.index.isLt
  have above := inner.generation.isLt
  have first : (inner.index.setWidth 64).toNat = inner.index.toNat := by
    rw [BitVec.toNat_setWidth]
    omega
  have second : (inner.generation.setWidth 64).toNat = inner.generation.toNat := by
    rw [BitVec.toNat_setWidth]
    omega
  have shifted : (inner.generation.setWidth 64 <<< 24).toNat =
      inner.generation.toNat * 2 ^ 24 := by
    rw [toNat_shiftLeft (by rw [second]; omega), second]
  have joined : (inner.generation.setWidth 64 <<< 24 ||| inner.index.setWidth 64).toNat =
      inner.generation.toNat * 2 ^ 24 + inner.index.toNat := by
    rw [toNat_or (by rw [shifted, Nat.mul_mod_left]) (by omega), shifted, first]
  unfold pack
  cases inner.side with
  | zero =>
    have none : (0 : Word) = 0#64 := rfl
    dsimp only
    rw [BitVec.or_comm, none, BitVec.zero_or, joined]
    simp [Side.bit]
  | one =>
    have value : sideBit.toNat = 2 ^ 57 := rfl
    have fits : (inner.generation.setWidth 64 <<< 24 ||| inner.index.setWidth 64).toNat <
        2 ^ 57 := by omega
    have aligned : sideBit.toNat % 2 ^ 57 = 0 := by rw [value, Nat.mod_self]
    rw [BitVec.or_comm, toNat_or aligned fits, joined, value]
    simp only [Side.bit]
    omega

/-- The bits of an item are the side and everything below the class. -/
theorem itemMask_toNat (raw : Word) :
    (raw &&& itemMask).toNat = raw.toNat % 2 ^ 56 + raw.toNat / 2 ^ 57 % 2 * 2 ^ 57 := by
  have low : (raw &&& (retireBit - 1)).toNat = raw.toNat % 2 ^ 56 := toNat_and rfl
  have high : (raw &&& sideBit).toNat = raw.toNat / 2 ^ 57 % 2 ^ 1 * 2 ^ 57 :=
    toNat_and_field rfl
  have aligned : (raw &&& sideBit).toNat % 2 ^ 57 = 0 := by rw [high, Nat.mul_mod_left]
  have fits : (raw &&& (retireBit - 1)).toNat < 2 ^ 57 := by omega
  rw [itemMask, and_or, BitVec.or_comm, toNat_or aligned fits, low, high]
  omega

theorem sideBit_eq_zero (raw : Word) : raw &&& sideBit = 0 ↔ raw.toNat / 2 ^ 57 % 2 = 0 := by
  have kept : (raw &&& sideBit).toNat = raw.toNat / 2 ^ 57 % 2 ^ 1 * 2 ^ 57 :=
    toNat_and_field rfl
  rw [← BitVec.toNat_inj, kept]
  have zero : (0 : Word).toNat = 0 := rfl
  rw [zero]
  omega

theorem retireBit_eq_zero (raw : Word) : raw &&& retireBit = 0 ↔ raw.toNat / 2 ^ 56 % 2 = 0 := by
  have kept : (raw &&& retireBit).toNat = raw.toNat / 2 ^ 56 % 2 ^ 1 * 2 ^ 56 :=
    toNat_and_field rfl
  rw [← BitVec.toNat_inj, kept]
  have zero : (0 : Word).toNat = 0 := rfl
  rw [zero]
  omega

theorem unpack_generation (raw : Word) :
    (unpack raw).generation.toNat = raw.toNat / 2 ^ 24 % 2 ^ 32 := by
  change ((raw >>> 24).setWidth 32).toNat = _
  rw [BitVec.toNat_setWidth, toNat_shiftRight]

theorem unpack_side (raw : Word) : (unpack raw).side.bit = raw.toNat / 2 ^ 57 % 2 := by
  have zero := sideBit_eq_zero raw
  unfold unpack
  dsimp only
  split
  · rename_i clear
    rw [zero.mp clear]
    rfl
  · rename_i set
    have one : raw.toNat / 2 ^ 57 % 2 ≠ 0 := fun clear => set (zero.mpr clear)
    have bit : Side.one.bit = 1 := rfl
    omega

theorem unpack_pack (inner : Retirement) : unpack inner.pack = inner := by
  have packed := pack_toNat inner
  have below := inner.index.isLt
  have above := inner.generation.isLt
  have index : (unpack inner.pack).index = inner.index := by
    apply BitVec.eq_of_toNat_eq
    change (SlotIndex.fromField inner.pack).toNat = _
    rw [SlotIndex.fromField_toNat, packed]
    omega
  have generation : (unpack inner.pack).generation = inner.generation := by
    apply BitVec.eq_of_toNat_eq
    rw [unpack_generation, packed]
    omega
  have side : (unpack inner.pack).side = inner.side := by
    have le := inner.side.bit_le
    rw [← Side.bit_inj, unpack_side, packed]
    omega
  have parts : unpack inner.pack =
      ⟨(unpack inner.pack).index, (unpack inner.pack).generation, (unpack inner.pack).side⟩ := rfl
  rw [parts, index, generation, side]

/-- Unpacking forgets the class bit and what is above the side. -/
theorem pack_unpack (raw : Word) :
    (unpack raw).pack.toNat = raw.toNat % 2 ^ 56 + raw.toNat / 2 ^ 57 % 2 * 2 ^ 57 := by
  have index : (unpack raw).index.toNat = raw.toNat % 2 ^ 24 := SlotIndex.fromField_toNat raw
  rw [pack_toNat, unpack_generation, unpack_side, index]
  omega

end Retirement

/-! ## Framework controls -/

def framework : BitVec 8 := 255

/-- A word with the framework's route in its high byte. -/
structure Control where
  raw : Word
  tagged : (raw >>> 56).setWidth 8 = framework

namespace Control

@[ext] theorem ext {control control' : Control} (h : control.raw = control'.raw) :
    control = control' := by
  cases control
  cases control'
  cases h
  rfl

instance : DecidableEq Control := fun control control' =>
  decidable_of_iff (control.raw = control'.raw) ⟨ext, fun h => by rw [h]⟩

def word (kind : BitVec 8) (slot : SlotIndex) : Word :=
  framework.setWidth 64 <<< 56 ||| kind.setWidth 64 <<< 48 ||| slot.setWidth 64

theorem word_toNat (kind : BitVec 8) (slot : SlotIndex) :
    (word kind slot).toNat = 255 * 2 ^ 56 + kind.toNat * 2 ^ 48 + slot.toNat := by
  have below := slot.isLt
  have middle := kind.isLt
  have first : (slot.setWidth 64).toNat = slot.toNat := by
    rw [BitVec.toNat_setWidth]
    omega
  have second : (kind.setWidth 64).toNat = kind.toNat := by
    rw [BitVec.toNat_setWidth]
    omega
  have shifted : (kind.setWidth 64 <<< 48).toNat = kind.toNat * 2 ^ 48 := by
    rw [toNat_shiftLeft (by rw [second]; omega), second]
  have route : (framework.setWidth 64 <<< 56).toNat = 255 * 2 ^ 56 := rfl
  have upper : (framework.setWidth 64 <<< 56 ||| kind.setWidth 64 <<< 48).toNat =
      255 * 2 ^ 56 + kind.toNat * 2 ^ 48 := by
    have aligned : (framework.setWidth 64 <<< 56).toNat % 2 ^ 56 = 0 := rfl
    rw [toNat_or aligned (by omega), route, shifted]
  have aligned : (framework.setWidth 64 <<< 56 ||| kind.setWidth 64 <<< 48).toNat % 2 ^ 48 = 0 := by
    rw [upper]
    omega
  rw [word, toNat_or aligned (by omega), upper, first]

theorem tagged_iff (raw : Word) :
    (raw >>> 56).setWidth 8 = framework ↔ raw.toNat / 2 ^ 56 = 255 := by
  have bound := raw.isLt
  have value : framework.toNat = 255 := rfl
  rw [← BitVec.toNat_inj, BitVec.toNat_setWidth, toNat_shiftRight, value]
  omega

def new (kind : BitVec 8) (slot : SlotIndex) : Control where
  raw := word kind slot
  tagged := by
    have below := slot.isLt
    have middle := kind.isLt
    rw [tagged_iff, word_toNat]
    omega

def tryFrom (raw : Word) : Except Word Control :=
  if h : (raw >>> 56).setWidth 8 = framework then .ok ⟨raw, h⟩ else .error raw

end Control

/-- The class of the shutdown control. -/
def shutdown : Control := .new 7 SlotIndex.zero

/-! ## Probes -/

inductive Probe where
  | ring
  | directSocket
  | socketOption
  | closeDirectSocket
  | receive
  | receiveMessage
  | directAccept
  | closeDirectAccept
  | directAcceptMultishot
  | closeDirectAcceptMultishot
  | registerAcceptListener
  | releaseAcceptListener
deriving DecidableEq

def Probe.raw : Probe → Word
  | .ring => 0
  | .directSocket => 1
  | .socketOption => 2
  | .closeDirectSocket => 3
  | .receive => 4
  | .receiveMessage => 5
  | .directAccept => 6
  | .closeDirectAccept => 7
  | .directAcceptMultishot => 8
  | .closeDirectAcceptMultishot => 9
  | .registerAcceptListener => 10
  | .releaseAcceptListener => 11

theorem Probe.raw_lt (probe : Probe) : probe.raw.toNat < 12 := by
  cases probe <;> decide

end Dope.Uring
