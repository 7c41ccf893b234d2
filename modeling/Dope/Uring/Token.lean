import Dope.Uring.Host

/-! # The user data of a submission

One word carries every kind of identity to the kernel and back. Flights stand
for themselves, all other kinds have a tag in the high byte; a retirement puts
the complement of its two highest bits there.
-/

namespace Dope.Uring

open Fields

namespace Token

def shift : Nat := 56
def slot : Word := (1 <<< 24) - 1
def tuningCode : BitVec 8 := 13
def prep : BitVec 8 := 16
def min : BitVec 8 := 251
def max : BitVec 8 := 254
def proof : Word := 3 <<< 56
def payload : Word := (1 <<< 56) - 1

/-! ## Closes -/

/-- The complement of the two proof bits becomes the tag. -/
def pack (raw : Word) : Word :=
  let proof := ((raw &&& proof) >>> shift).setWidth 8
  (max - proof).setWidth 64 <<< shift ||| raw &&& payload

def unpack (raw : Word) : Option Word :=
  let tag : BitVec 8 := (raw >>> shift).setWidth 8
  if tag < min ∨ max < tag then none
  else
    let payload := raw &&& payload
    let proof := (max - tag).setWidth 64 <<< shift
    some (payload ||| proof)

theorem payload_toNat (raw : Word) : (raw &&& payload).toNat = raw.toNat % 2 ^ 56 :=
  toNat_and rfl

theorem proof_toNat (raw : Word) : ((raw &&& proof) >>> shift).toNat = raw.toNat / 2 ^ 56 % 4 := by
  have kept : (raw &&& proof).toNat = raw.toNat / 2 ^ 56 % 2 ^ 2 * 2 ^ 56 := toNat_and_field rfl
  rw [shift, toNat_shiftRight, kept, Nat.mul_div_cancel _ (by omega)]
  omega

theorem tagged_toNat (tag : BitVec 8) {low : Word} (fits : low.toNat < 2 ^ 56) :
    (tag.setWidth 64 <<< shift ||| low).toNat = tag.toNat * 2 ^ 56 + low.toNat := by
  have bound := tag.isLt
  have wide : (tag.setWidth 64).toNat = tag.toNat := by
    rw [BitVec.toNat_setWidth]
    omega
  have shifted : (tag.setWidth 64 <<< 56).toNat = tag.toNat * 2 ^ 56 := by
    rw [toNat_shiftLeft (by rw [wide]; omega), wide]
  have aligned : (tag.setWidth 64 <<< 56).toNat % 2 ^ 56 = 0 := by
    rw [shifted, Nat.mul_mod_left]
  rw [shift, toNat_or aligned fits, shifted]

theorem tag_toNat (raw : Word) :
    ((raw >>> shift).setWidth 8 : BitVec 8).toNat = raw.toNat / 2 ^ 56 := by
  have bound := raw.isLt
  rw [BitVec.toNat_setWidth, shift, toNat_shiftRight]
  omega

theorem pack_toNat (raw : Word) :
    (pack raw).toNat = (254 - raw.toNat / 2 ^ 56 % 4) * 2 ^ 56 + raw.toNat % 2 ^ 56 := by
  have low := payload_toNat raw
  have high := proof_toNat raw
  have fits : (raw &&& payload).toNat < 2 ^ 56 := by omega
  have narrow : (((raw &&& proof) >>> shift).setWidth 8 : BitVec 8).toNat =
      raw.toNat / 2 ^ 56 % 4 := by
    rw [BitVec.toNat_setWidth, high]
    omega
  have value : max.toNat = 254 := rfl
  have tag : (max - ((raw &&& proof) >>> shift).setWidth 8).toNat =
      254 - raw.toNat / 2 ^ 56 % 4 := by
    rw [BitVec.toNat_sub, narrow, value]
    omega
  rw [pack, tagged_toNat _ fits, tag, low]

/-- Exactly the words with one of the four tags unpack. -/
theorem unpack_eq (raw : Word) :
    (raw.toNat / 2 ^ 56 < 251 ∨ 254 < raw.toNat / 2 ^ 56) ∧ unpack raw = none ∨
      (251 ≤ raw.toNat / 2 ^ 56 ∧ raw.toNat / 2 ^ 56 ≤ 254) ∧
        ∃ returned, unpack raw = some returned ∧
          returned.toNat = (254 - raw.toNat / 2 ^ 56) * 2 ^ 56 + raw.toNat % 2 ^ 56 := by
  have tag := tag_toNat raw
  have least : min.toNat = 251 := rfl
  have most : max.toNat = 254 := rfl
  unfold unpack
  dsimp only
  split
  · rename_i out
    rw [BitVec.lt_def, BitVec.lt_def, tag, least, most] at out
    exact .inl ⟨out, rfl⟩
  · rename_i out
    rw [BitVec.lt_def, BitVec.lt_def, tag, least, most] at out
    have low := payload_toNat raw
    have fits : (raw &&& payload).toNat < 2 ^ 56 := by omega
    have proof : (max - (raw >>> shift).setWidth 8).toNat = 254 - raw.toNat / 2 ^ 56 := by
      rw [BitVec.toNat_sub, tag, most]
      omega
    refine .inr ⟨by omega, _, rfl, ?_⟩
    rw [BitVec.or_comm, tagged_toNat _ fits, proof, low]

/-- The identity of a descriptor retirement on its way to the kernel: what is
pending has the class in one bit, and the two kinds of submissions keep it. -/
def pendingWord (inner : Retirement) : Class → Word
  | .close => inner.pack ||| 0
  | .standalone => inner.pack ||| Retirement.retireBit

inductive Kind where
  | close (raw : Word)
  | retire (raw : Word)

def classify (pending : Word) : Kind :=
  if pending &&& Retirement.retireBit = 0 then .close pending
  else .retire (pending &&& Retirement.itemMask)

/-- `Close::new` and `Close::retire`. -/
def Kind.echo : Kind → Word
  | .close raw => raw
  | .retire raw => raw ||| Retirement.retireBit

/-- A decoded return, still to be bound by its domain. -/
structure Returned where
  raw : Word
deriving DecidableEq

/-- What `View::bind` reads in a return: `none` is a word with foreign bits. -/
def Returned.parts (returned : Returned) : Option (Retirement × Class) :=
  if returned.raw &&& ~~~(Retirement.itemMask ||| Retirement.retireBit) ≠ 0 then none
  else some (.unpack (returned.raw &&& Retirement.itemMask),
    if returned.raw &&& Retirement.retireBit = 0 then .close else .standalone)

/-! ## Words of retirements -/

def classBit : Class → Nat
  | .close => 0
  | .standalone => 1

theorem pendingWord_toNat (inner : Retirement) (cls : Class) :
    (pendingWord inner cls).toNat = inner.pack.toNat + classBit cls * 2 ^ 56 := by
  have packed := inner.pack_toNat
  have below := inner.index.isLt
  have above := inner.generation.isLt
  have side := inner.side.bit_le
  cases cls with
  | close =>
    have none : (0 : Word) = 0#64 := rfl
    rw [pendingWord, none, BitVec.or_zero, classBit]
    omega
  | standalone =>
    have clear : inner.pack &&& Retirement.retireBit = 0 := by
      rw [Retirement.retireBit_eq_zero, packed]
      omega
    have bit : Retirement.retireBit.toNat = 2 ^ 56 := rfl
    rw [pendingWord, toNat_or_of_and clear (by omega), bit, classBit]
    omega

/-- What is submitted is what was pending, by either kind. -/
theorem echo_classify (pending : Word) (narrow : pending.toNat < 2 ^ 58) :
    (classify pending).echo = pending := by
  unfold classify
  split
  · rfl
  · rename_i set
    have item := Retirement.itemMask_toNat pending
    have one : pending.toNat / 2 ^ 56 % 2 ≠ 0 :=
      fun clear => set ((Retirement.retireBit_eq_zero pending).mpr clear)
    have clear : (pending &&& Retirement.itemMask) &&& Retirement.retireBit = 0 := by
      rw [Retirement.retireBit_eq_zero, item]
      omega
    have bit : Retirement.retireBit.toNat = 2 ^ 56 := rfl
    apply BitVec.eq_of_toNat_eq
    rw [Kind.echo, toNat_or_of_and clear (by omega), item, bit]
    omega

theorem foreign_eq_zero (raw : Word) :
    raw &&& ~~~(Retirement.itemMask ||| Retirement.retireBit) = 0 ↔ raw.toNat < 2 ^ 58 := by
  have ones : (~~~(Retirement.itemMask ||| Retirement.retireBit)).toNat =
      (2 ^ 6 - 1) * 2 ^ 58 := rfl
  have kept : (raw &&& ~~~(Retirement.itemMask ||| Retirement.retireBit)).toNat =
      raw.toNat / 2 ^ 58 % 2 ^ 6 * 2 ^ 58 := toNat_and_field ones
  have bound := raw.isLt
  rw [← BitVec.toNat_inj, kept]
  have zero : (0 : Word).toNat = 0 := rfl
  rw [zero]
  omega

/-- A word without foreign bits has parts, and they are written as that word. -/
theorem parts_of_narrow {raw : Word} (narrow : raw.toNat < 2 ^ 58) :
    ∃ inner cls, (Returned.mk raw).parts = some (inner, cls) ∧
      (pendingWord inner cls).toNat = raw.toNat := by
  have inside : ¬ raw &&& ~~~(Retirement.itemMask ||| Retirement.retireBit) ≠ 0 :=
    not_not_intro ((foreign_eq_zero raw).mpr narrow)
  refine ⟨_, _, by rw [Returned.parts, if_neg inside], ?_⟩
  have item := Retirement.itemMask_toNat raw
  have packed := Retirement.pack_unpack (raw &&& Retirement.itemMask)
  have bit := Retirement.retireBit_eq_zero raw
  rw [pendingWord_toNat, packed, item]
  split
  · rename_i clear
    have zero := bit.mp clear
    rw [classBit]
    omega
  · rename_i set
    have one : raw.toNat / 2 ^ 56 % 2 ≠ 0 := fun clear => set (bit.mpr clear)
    rw [classBit]
    omega

theorem pendingWord_inj {inner inner' : Retirement} {cls cls' : Class}
    (same : (pendingWord inner cls).toNat = (pendingWord inner' cls').toNat) :
    inner = inner' ∧ cls = cls' := by
  rw [pendingWord_toNat, pendingWord_toNat] at same
  have packed := inner.pack_toNat
  have packed' := inner'.pack_toNat
  have below := inner.index.isLt
  have below' := inner'.index.isLt
  have above := inner.generation.isLt
  have above' := inner'.generation.isLt
  have bits : classBit cls = classBit cls' ∧ inner.pack.toNat = inner'.pack.toNat := by
    have side := inner.side.bit_le
    have side' := inner'.side.bit_le
    have le : classBit cls ≤ 1 := by cases cls <;> simp [classBit]
    have le' : classBit cls' ≤ 1 := by cases cls' <;> simp [classBit]
    omega
  constructor
  · rw [← Retirement.unpack_pack inner, ← Retirement.unpack_pack inner',
      BitVec.eq_of_toNat_eq bits.2]
  · cases cls <;> cases cls' <;> simp [classBit] at bits ⊢

/-! ## Frames -/

inductive FrameControl where
  | shutdown
  | tuning (slot : SlotIndex)
  | closePrep
  | unknown
deriving DecidableEq

def tuningControl (slot : SlotIndex) : Control := .new tuningCode slot

def prepareControl : Control := .new prep SlotIndex.zero

/-- `Frame::decode`. -/
def frameDecode (control : Control) : FrameControl :=
  if control = shutdown then .shutdown
  else
    let slot := SlotIndex.clamp (control.raw &&& slot)
    if control = tuningControl slot then .tuning slot
    else if control = prepareControl then .closePrep
    else .unknown

end Token

/-! ## The codec -/

namespace Encoded

open Token

def close (kind : Kind) : Word := Token.pack kind.echo

def flight (key : Key) : Word := key.raw

def prepare : Word := prepareControl.raw

def probe (probe : Probe) : Word := probe.raw

def cancelProbe (probe : Probe) : Word := 248 <<< shift ||| probe.raw

def shutdown : Word := Uring.shutdown.raw

def tuning (slot : SlotIndex) : Word := (tuningControl slot).raw

def cancelKey (key : Key) : Word := 250 <<< shift ||| key.raw

def cancelTune (slot : SlotIndex) : Word := 249 <<< shift ||| (slot.stored - 1).setWidth 64

def closed (word : Word) : Option Returned := (Token.unpack word).map Returned.mk

inductive Decoded where
  | close (returned : Returned)
  | framework (control : Control)
  | flight (key : Key)
  | cancelFlight (key : Key)
  | cancelTuning (slot : SlotIndex)
  | invalid

def decode (word : Word) : Decoded :=
  match closed word with
  | some returned => .close returned
  | none =>
      match Control.tryFrom word with
      | .ok control => .framework control
      | .error raw =>
          match Echo.fromExposed 24 32 raw with
          | some key => .flight key
          | none =>
              let payload := raw &&& Token.payload
              if raw >>> shift = 250 then
                match Echo.fromExposed 24 32 payload with
                | some key => .cancelFlight key
                | none => .invalid
              else if raw >>> shift = 249 then
                if slot < payload then .invalid
                else .cancelTuning (SlotIndex.clamp payload)
              else .invalid

/-- What a word can stand for. -/
inductive Value where
  | retirement (inner : Retirement) (cls : Class)
  | framework (control : Control)
  | flight (key : Key)
  | cancelFlight (key : Key)
  | cancelTuning (slot : SlotIndex)

def Value.encode : Value → Word
  | .retirement inner cls => close (classify (pendingWord inner cls))
  | .framework control => control.raw
  | .flight key => Encoded.flight key
  | .cancelFlight key => cancelKey key
  | .cancelTuning slot => cancelTune slot

/-- The value behind a decoded word. -/
def Decoded.value : Decoded → Option Value
  | .close returned => returned.parts.map fun parts => .retirement parts.1 parts.2
  | .framework control => some (.framework control)
  | .flight key => some (.flight key)
  | .cancelFlight key => some (.cancelFlight key)
  | .cancelTuning slot => some (.cancelTuning slot)
  | .invalid => none

/-! ## Where the words lie -/

theorem shift_eq (raw : Word) (tag : Nat) (small : tag < 2 ^ 64) :
    raw >>> shift = BitVec.ofNat 64 tag ↔ raw.toNat / 2 ^ 56 = tag := by
  rw [← BitVec.toNat_inj, BitVec.toNat_ofNat, Nat.mod_eq_of_lt small, shift, toNat_shiftRight]

theorem shift_ne {raw : Word} {tag : Nat} (small : tag < 2 ^ 64) (other : raw.toNat / 2 ^ 56 ≠ tag) :
    raw >>> shift ≠ BitVec.ofNat 64 tag :=
  fun same => other ((shift_eq raw tag small).mp same)

theorem key_bounds (key : Key) : key.raw.toNat < 2 ^ 56 ∧ key.raw.toNat / 2 ^ 24 ≠ 0 := by
  have width := key.width
  refine ⟨width, fun dead => key.live ?_⟩
  apply BitVec.eq_of_toNat_eq
  rw [toNat_shiftRight, dead]
  rfl

theorem cancelKey_toNat (key : Key) : (cancelKey key).toNat = 250 * 2 ^ 56 + key.raw.toNat :=
  tagged_toNat 250 (key_bounds key).1

theorem cancelTune_toNat (slot : SlotIndex) :
    (cancelTune slot).toNat = 249 * 2 ^ 56 + slot.toNat := by
  have bound := slot.isLt
  have low := slot.stored_pred
  have fits : ((slot.stored - 1).setWidth 64).toNat < 2 ^ 56 := by omega
  have tagged := tagged_toNat 249 fits
  rw [low] at tagged
  exact tagged

theorem cancelProbe_toNat (probe : Probe) :
    (cancelProbe probe).toNat = 248 * 2 ^ 56 + probe.raw.toNat := by
  have small := probe.raw_lt
  exact tagged_toNat 248 (by omega)

theorem close_toNat (inner : Retirement) (cls : Class) :
    (close (classify (pendingWord inner cls))).toNat =
      (254 - (pendingWord inner cls).toNat / 2 ^ 56 % 4) * 2 ^ 56 +
        (pendingWord inner cls).toNat % 2 ^ 56 ∧
      (pendingWord inner cls).toNat < 2 ^ 58 := by
  have narrow : (pendingWord inner cls).toNat < 2 ^ 58 := by
    have packed := inner.pack_toNat
    have below := inner.index.isLt
    have above := inner.generation.isLt
    have side := inner.side.bit_le
    have word := pendingWord_toNat inner cls
    have le : classBit cls ≤ 1 := by cases cls <;> simp [classBit]
    omega
  rw [close, echo_classify _ narrow, pack_toNat]
  exact ⟨rfl, narrow⟩

/-! ## What the decoder finds -/

section
variable {word : Word}

theorem decode_closed (least : 251 ≤ word.toNat / 2 ^ 56) (most : word.toNat / 2 ^ 56 ≤ 254) :
    ∃ returned, decode word = .close returned ∧
      returned.raw.toNat = (254 - word.toNat / 2 ^ 56) * 2 ^ 56 + word.toNat % 2 ^ 56 := by
  rcases unpack_eq word with ⟨out, -⟩ | ⟨-, raw, unpacked, value⟩
  · omega
  · refine ⟨⟨raw⟩, ?_, value⟩
    rw [decode, closed, unpacked]
    rfl

theorem decode_framework (tag : word.toNat / 2 ^ 56 = 255) :
    ∃ control, decode word = .framework control ∧ control.raw = word := by
  rcases unpack_eq word with ⟨-, unpacked⟩ | ⟨out, -⟩
  · have tagged := (Control.tagged_iff word).mpr tag
    refine ⟨⟨word, tagged⟩, ?_, rfl⟩
    rw [decode, closed, unpacked, Control.tryFrom, dif_pos tagged]
    rfl
  · omega

theorem decode_below (below : word.toNat / 2 ^ 56 < 251) :
    decode word =
      match Echo.fromExposed 24 32 word with
      | some key => .flight key
      | none =>
        if word >>> shift = 250 then
          match Echo.fromExposed 24 32 (word &&& payload) with
          | some key => .cancelFlight key
          | none => .invalid
        else if word >>> shift = 249 then
          if slot < word &&& payload then .invalid
          else .cancelTuning (SlotIndex.clamp (word &&& payload))
        else .invalid := by
  rcases unpack_eq word with ⟨-, unpacked⟩ | ⟨out, -⟩
  · have untagged : ¬ (word >>> 56).setWidth 8 = framework := by
      rw [Control.tagged_iff]
      omega
    rw [decode, closed, unpacked, Control.tryFrom, dif_neg untagged]
    rfl
  · omega

theorem exposed_none (h : 2 ^ 56 ≤ word.toNat ∨ word.toNat / 2 ^ 24 = 0) :
    Echo.fromExposed 24 32 word = none := by
  cases found : Echo.fromExposed 24 32 word with
  | none => rfl
  | some key =>
    have same := Echo.raw_of_fromExposed found
    have bounds := key_bounds key
    rw [same] at bounds
    omega

theorem decode_untagged (below : word.toNat < 2 ^ 56) :
    decode word =
      match Echo.fromExposed 24 32 word with
      | some key => .flight key
      | none => .invalid := by
  have not250 : ¬ word >>> shift = 250 := @shift_ne word 250 (by omega) (by omega)
  have not249 : ¬ word >>> shift = 249 := @shift_ne word 249 (by omega) (by omega)
  rw [decode_below (by omega), if_neg not250, if_neg not249]

theorem decode_cancelKey (tag : word.toNat / 2 ^ 56 = 250) :
    decode word =
      match Echo.fromExposed 24 32 (word &&& payload) with
      | some key => .cancelFlight key
      | none => .invalid := by
  have tagged : word >>> shift = 250 := (shift_eq word 250 (by omega)).mpr tag
  rw [decode_below (by omega), exposed_none (.inl (by omega))]
  dsimp only
  rw [if_pos tagged]

theorem decode_cancelTune (tag : word.toNat / 2 ^ 56 = 249) :
    decode word =
      if slot < word &&& payload then .invalid
      else .cancelTuning (SlotIndex.clamp (word &&& payload)) := by
  have not250 : ¬ word >>> shift = 250 := @shift_ne word 250 (by omega) (by omega)
  have tagged : word >>> shift = 249 := (shift_eq word 249 (by omega)).mpr tag
  rw [decode_below (by omega), exposed_none (.inl (by omega))]
  dsimp only
  rw [if_neg not250, if_pos tagged]

theorem decode_unknown (least : 0 < word.toNat / 2 ^ 56) (most : word.toNat / 2 ^ 56 < 249) :
    decode word = .invalid := by
  have not250 : ¬ word >>> shift = 250 := @shift_ne word 250 (by omega) (by omega)
  have not249 : ¬ word >>> shift = 249 := @shift_ne word 249 (by omega) (by omega)
  rw [decode_below (by omega), exposed_none (.inl (by omega))]
  dsimp only
  rw [if_neg not250, if_neg not249]

end

/-! ## Both directions -/

theorem decode_encode (value : Value) : (decode value.encode).value = some value := by
  cases value with
  | retirement inner cls =>
    rcases close_toNat inner cls with ⟨word, narrow⟩
    have least : 251 ≤ (close (classify (pendingWord inner cls))).toNat / 2 ^ 56 := by omega
    have most : (close (classify (pendingWord inner cls))).toNat / 2 ^ 56 ≤ 254 := by omega
    rcases decode_closed least most with ⟨returned, decoded, raw⟩
    have same : returned.raw.toNat = (pendingWord inner cls).toNat := by omega
    rcases @parts_of_narrow returned.raw (by omega) with
      ⟨inner', cls', parts, written⟩
    rcases pendingWord_inj (written.trans same) with ⟨rfl, rfl⟩
    rw [Value.encode, decoded, Decoded.value, parts]
    rfl
  | framework control =>
    have tag := (Control.tagged_iff control.raw).mp control.tagged
    rcases decode_framework tag with ⟨control', decoded, raw⟩
    rw [Value.encode, decoded, Control.ext raw]
    rfl
  | flight key =>
    have bounds := key_bounds key
    rw [Value.encode, Encoded.flight, decode_untagged bounds.1, Echo.fromExposed_raw rfl key]
    rfl
  | cancelFlight key =>
    have bounds := key_bounds key
    have word := cancelKey_toNat key
    have low : cancelKey key &&& payload = key.raw := by
      apply BitVec.eq_of_toNat_eq
      rw [payload_toNat, word]
      omega
    rw [Value.encode, decode_cancelKey (by omega), low, Echo.fromExposed_raw rfl key]
    rfl
  | cancelTuning index =>
    have bound := index.isLt
    have word := cancelTune_toNat index
    have low : (cancelTune index &&& payload).toNat = index.toNat := by
      rw [payload_toNat, word]
      omega
    have inside : ¬ slot < cancelTune index &&& payload := by
      have value : slot.toNat = 2 ^ 24 - 1 := rfl
      rw [BitVec.lt_def]
      omega
    have exactly : SlotIndex.clamp (cancelTune index &&& payload) = index := by
      apply BitVec.eq_of_toNat_eq
      rw [SlotIndex.clamp_toNat (by omega), low]
    rw [Value.encode, decode_cancelTune (by omega), if_neg inside, exactly]
    rfl

theorem encode_close {word : Word} {returned : Returned} {inner : Retirement} {cls : Class}
    (least : 251 ≤ word.toNat / 2 ^ 56) (most : word.toNat / 2 ^ 56 ≤ 254)
    (raw : returned.raw.toNat = (254 - word.toNat / 2 ^ 56) * 2 ^ 56 + word.toNat % 2 ^ 56)
    (written : (pendingWord inner cls).toNat = returned.raw.toNat) :
    close (classify (pendingWord inner cls)) = word := by
  apply BitVec.eq_of_toNat_eq
  rw [(close_toNat inner cls).1]
  omega

/-- Every word is an image of what it decodes to, or of nothing. -/
theorem decode_cases (word : Word) :
    (decode word = .invalid ∧ (decode word).value = none) ∨
      ∃ value, (decode word).value = some value ∧ value.encode = word := by
  have bound := word.isLt
  have tags : word.toNat / 2 ^ 56 = 0 ∨
      (0 < word.toNat / 2 ^ 56 ∧ word.toNat / 2 ^ 56 < 249) ∨ word.toNat / 2 ^ 56 = 249 ∨
      word.toNat / 2 ^ 56 = 250 ∨ (251 ≤ word.toNat / 2 ^ 56 ∧ word.toNat / 2 ^ 56 ≤ 254) ∨
      word.toNat / 2 ^ 56 = 255 := by omega
  rcases tags with tag | tag | tag | tag | tag | tag
  · rw [decode_untagged (by omega)]
    cases found : Echo.fromExposed 24 32 word with
    | none => exact .inl ⟨rfl, rfl⟩
    | some key => exact .inr ⟨.flight key, rfl, Echo.raw_of_fromExposed found⟩
  · rw [decode_unknown tag.1 tag.2]
    exact .inl ⟨rfl, rfl⟩
  · rw [decode_cancelTune tag]
    have low := payload_toNat word
    split
    · exact .inl ⟨rfl, rfl⟩
    · rename_i inside
      have value : slot.toNat = 2 ^ 24 - 1 := rfl
      rw [BitVec.lt_def] at inside
      have clamped := @SlotIndex.clamp_toNat (word &&& payload) (by omega)
      refine .inr ⟨.cancelTuning _, rfl, ?_⟩
      apply BitVec.eq_of_toNat_eq
      rw [Value.encode, cancelTune_toNat, clamped, low]
      omega
  · rw [decode_cancelKey tag]
    have low := payload_toNat word
    cases found : Echo.fromExposed 24 32 (word &&& payload) with
    | none => exact .inl ⟨rfl, rfl⟩
    | some key =>
      refine .inr ⟨.cancelFlight key, rfl, ?_⟩
      apply BitVec.eq_of_toNat_eq
      rw [Value.encode, cancelKey_toNat, Echo.raw_of_fromExposed found, low]
      omega
  · rcases decode_closed tag.1 tag.2 with ⟨returned, decoded, raw⟩
    rcases @parts_of_narrow returned.raw (by omega) with ⟨inner, cls, parts, written⟩
    refine .inr ⟨.retirement inner cls, ?_, encode_close tag.1 tag.2 raw written⟩
    rw [decoded, Decoded.value, parts]
    rfl
  · rcases decode_framework tag with ⟨control, decoded, raw⟩
    rw [decoded]
    exact .inr ⟨.framework control, rfl, raw⟩

theorem frameDecode_tuning (slot : SlotIndex) :
    frameDecode (tuningControl slot) = .tuning slot := by
  have bound := slot.isLt
  have word := Control.word_toNat tuningCode slot
  have down : ¬ tuningControl slot = Uring.shutdown := by
    intro same
    have raw : (tuningControl slot).raw.toNat = Uring.shutdown.raw.toNat := by rw [same]
    have code : Uring.shutdown.raw.toNat = 255 * 2 ^ 56 + 7 * 2 ^ 48 := rfl
    have tuning : tuningCode.toNat = 13 := rfl
    rw [code] at raw
    change (Control.word tuningCode slot).toNat = _ at raw
    omega
  have field : SlotIndex.clamp ((tuningControl slot).raw &&& Token.slot) = slot := by
    have low : ((tuningControl slot).raw &&& Token.slot).toNat = slot.toNat := by
      have kept : ((tuningControl slot).raw &&& Token.slot).toNat =
          (tuningControl slot).raw.toNat % 2 ^ 24 := toNat_and rfl
      change _ = (Control.word tuningCode slot).toNat % 2 ^ 24 at kept
      omega
    apply BitVec.eq_of_toNat_eq
    rw [SlotIndex.clamp_toNat (by omega), low]
  unfold frameDecode
  dsimp only
  rw [if_neg down, field, if_pos rfl]

/-- The word that a frame is written as, for the three that are ever written. -/
def FrameControl.word : FrameControl → Option Word
  | .shutdown => some shutdown
  | .tuning slot => some (tuning slot)
  | .closePrep => some prepare
  | .unknown => none

theorem frameDecode_word {control : Control} {word : Word}
    (h : FrameControl.word (frameDecode control) = some word) : word = control.raw := by
  unfold frameDecode at h
  dsimp only at h
  split at h
  · rename_i same
    cases h
    rw [same]
    rfl
  · split at h
    · rename_i same
      cases h
      exact congrArg Control.raw same.symm
    · split at h
      · rename_i same
        cases h
        exact congrArg Control.raw same.symm
      · cases h

theorem decode_probe (probe : Probe) :
    decode (Encoded.probe probe) = .invalid ∧ decode (cancelProbe probe) = .invalid := by
  have small := probe.raw_lt
  have word := cancelProbe_toNat probe
  constructor
  · rw [Encoded.probe, decode_untagged (by omega), exposed_none (.inr (by omega))]
  · exact decode_unknown (by omega) (by omega)

/-- Every identity decodes to itself, every word that decodes is written again
as it was, and no two identities share a word; probes decode to nothing. -/
theorem decode_exact :
    (∀ value : Value, (decode value.encode).value = some value) ∧
    (∀ word value, (decode word).value = some value → value.encode = word) ∧
    (∀ word, decode word = .invalid ↔ ∀ value : Value, value.encode ≠ word) ∧
    (∀ value value' : Value, value.encode = value'.encode → value = value') ∧
    (∀ slot, ∃ control, decode (tuning slot) = .framework control ∧
      frameDecode control = .tuning slot) ∧
    (∀ control word, FrameControl.word (frameDecode control) = some word → word = control.raw) ∧
    (∀ probe, decode (Encoded.probe probe) = .invalid ∧ decode (cancelProbe probe) = .invalid) ∧
    ∀ (index : BitVec 24) (epoch : BitVec 32), epoch ≠ 0 →
      ∃ key : Key, key.index = index ∧ key.generation = epoch := by
  have back : ∀ word value, (decode word).value = some value → value.encode = word := by
    intro word value found
    rcases decode_cases word with ⟨-, none⟩ | ⟨value', found', written⟩
    · rw [none] at found
      cases found
    · rw [found] at found'
      cases found'
      exact written
  refine ⟨decode_encode, back, ?_, ?_, ?_, ?_, decode_probe, ?_⟩
  · intro word
    constructor
    · intro invalid value written
      have found := decode_encode value
      rw [written, invalid] at found
      cases found
    · intro other
      rcases decode_cases word with ⟨invalid, -⟩ | ⟨value, -, written⟩
      · exact invalid
      · exact absurd written (other value)
  · intro value value' same
    have found := decode_encode value
    rw [same, decode_encode value'] at found
    exact (Option.some.inj found).symm
  · intro slot
    have tag := (Control.tagged_iff (tuningControl slot).raw).mp (tuningControl slot).tagged
    rcases decode_framework tag with ⟨control, decoded, raw⟩
    rw [Control.ext raw] at decoded
    exact ⟨tuningControl slot, decoded, frameDecode_tuning slot⟩
  · intro control word found
    exact frameDecode_word found
  · intro index epoch live
    exact ⟨.fromParts rfl index epoch live, Echo.fromParts_parts rfl index epoch live⟩

/-- The second side of a standalone file and a flight come back from their words. -/
theorem decode_exact_example :
    let inner : Retirement := ⟨5, 9, .one⟩
    (Value.retirement inner .standalone).encode = 0xfb00000009000005 ∧
      (decode 0xfb00000009000005).value = some (.retirement inner .standalone) ∧
      ∃ key : Key, key.index = 3 ∧ key.generation = 7 := by
  intro inner
  have word : (Value.retirement inner .standalone).encode = 0xfb00000009000005 := by decide
  have found := decode_exact.1 (.retirement inner .standalone)
  rw [word] at found
  exact ⟨word, found, decode_exact.2.2.2.2.2.2.2 3 7 (by decide)⟩

end Encoded

end Dope.Uring
