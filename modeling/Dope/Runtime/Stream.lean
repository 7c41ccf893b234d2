import Dope.Runtime.Random
import Mathlib.Data.Nat.Digits.Defs

/-! # The hash of a stream

However a byte string is cut into writes, the hash is that of the whole string.
The published definition pads the string with zeros and one byte of its length
and mixes in its words one by one.
-/

namespace Dope.Runtime.Random

/-! ## The published definition -/

namespace Reference

/-- One round, as two half rounds over both pairs of words. -/
def sipRound (v : State) : State :=
  let v := { v with v0 := v.v0 + v.v1, v2 := v.v2 + v.v3 }
  let v := { v with v1 := v.v1.rotateLeft 13, v3 := v.v3.rotateLeft 16 }
  let v := { v with v1 := v.v1 ^^^ v.v0, v3 := v.v3 ^^^ v.v2 }
  let v := { v with v0 := v.v0.rotateLeft 32 }
  let v := { v with v2 := v.v2 + v.v1, v0 := v.v0 + v.v3 }
  let v := { v with v1 := v.v1.rotateLeft 17, v3 := v.v3.rotateLeft 21 }
  let v := { v with v1 := v.v1 ^^^ v.v2, v3 := v.v3 ^^^ v.v0 }
  { v with v2 := v.v2.rotateLeft 32 }

/-- The string up to the next whole word, the last byte of which counts the string. -/
def padded (message : List Byte) : List Byte :=
  message ++ List.replicate (7 - message.length % 8) 0 ++ [BitVec.ofNat 8 message.length]

def word (message : List Byte) (i : Nat) : Word :=
  BitVec.ofNat 64
    (Nat.ofDigits 256 ((((padded message).drop (8 * i)).take 8).map BitVec.toNat))

/-- There is one word for every eight bytes and one more for what is left. -/
def words (message : List Byte) : List Word :=
  (List.range (message.length / 8 + 1)).map (word message)

def mixed (c : Nat) (v : State) (m : Word) : State :=
  let v := sipRound^[c] { v with v3 := v.v3 ^^^ m }
  { v with v0 := v.v0 ^^^ m }

def sipHash (c d : Nat) (k0 k1 : Word) (message : List Byte) : Word :=
  let v : State :=
    { v0 := k0 ^^^ 0x736f6d6570736575
      v1 := k1 ^^^ 0x646f72616e646f6d
      v2 := k0 ^^^ 0x6c7967656e657261
      v3 := k1 ^^^ 0x7465646279746573 }
  let v := (words message).foldl (mixed c) v
  let v := sipRound^[d] { v with v2 := v.v2 ^^^ 0xff }
  v.v0 ^^^ v.v1 ^^^ v.v2 ^^^ v.v3

example : sipHash 2 4 0x0706050403020100 0x0f0e0d0c0b0a0908
    ((List.range 15).map (BitVec.ofNat 8)) = 0xa129ca6149be45e5 := by decide +kernel

theorem sipRound_eq (v : State) : sipRound v = v.round := rfl

theorem sipRound_iterate (count : Nat) (v : State) : sipRound^[count] v = State.rounds count v := by
  induction count generalizing v with
  | zero => rfl
  | succ count ih => rw [Function.iterate_succ_apply, State.rounds, ih, sipRound_eq]

theorem mixed_eq (c : Nat) (v : State) (m : Word) : mixed c v m = Sip.compress c v m := by
  unfold mixed Sip.compress
  rw [sipRound_iterate]

end Reference

/-! ## Bytes and words -/

variable {bytes : List Byte} {sip : Sip c d} {start : State}

namespace Sip

theorem fromLe_append (bytes more : List Byte) :
    fromLe (bytes ++ more) = fromLe bytes ||| fromLe more <<< (8 * bytes.length) := by
  induction bytes with
  | nil => simp [fromLe]
  | cons byte bytes ih =>
    rw [List.cons_append, fromLe, fromLe, ih, BitVec.shiftLeft_or_distrib,
      ← BitVec.shiftLeft_add, BitVec.or_assoc, List.length_cons, Nat.mul_succ]

theorem fromLe_zeros (count : Nat) : fromLe (List.replicate count 0) = 0 := by
  induction count with
  | zero => rfl
  | succ count ih =>
    rw [List.replicate_succ, fromLe, ih]
    rfl

theorem fromLe_take (bytes : List Byte) : fromLe (bytes.take 8) = fromLe bytes := by
  by_cases short : bytes.length ≤ 8
  · rw [List.take_of_length_le short]
  · have split := fromLe_append (bytes.take 8) (bytes.drop 8)
    have full : (bytes.take 8).length = 8 := by
      rw [List.length_take]
      omega
    rw [List.take_append_drop, full, BitVec.shiftLeft_eq_zero (by omega), BitVec.or_zero] at split
    exact split.symm

theorem fromLe_lt (bytes : List Byte) (i : Nat) (past : 8 * bytes.length ≤ i) :
    (fromLe bytes).getLsbD i = false := by
  induction bytes generalizing i with
  | nil => simp [fromLe]
  | cons byte bytes ih =>
    rw [List.length_cons] at past
    rw [fromLe, BitVec.getLsbD_or, BitVec.getLsbD_shiftLeft, ih (i - 8) (by omega),
      BitVec.getLsbD_setWidth, BitVec.getLsbD_of_ge byte i (by omega)]
    simp

theorem fromLe_tail {byte : Byte} (short : bytes.length < 8) :
    fromLe (byte :: bytes) >>> 8 = fromLe bytes := by
  apply BitVec.eq_of_getLsbD_eq
  intro i inside
  rw [BitVec.getLsbD_ushiftRight, fromLe, BitVec.getLsbD_or, BitVec.getLsbD_shiftLeft]
  by_cases room : 8 + i < 64
  · simp [room, inside]
  · rw [fromLe_lt bytes i (by omega)]
    simp [room]

theorem fromLe_drop (short : bytes.length ≤ 8) (count : Nat) :
    fromLe (bytes.drop count) = fromLe bytes >>> (8 * count) := by
  induction count generalizing bytes with
  | zero => simp
  | succ count ih =>
    cases bytes with
    | nil => simp [fromLe]
    | cons byte bytes =>
      rw [List.length_cons] at short
      rw [List.drop_succ_cons, ih (by omega), ← fromLe_tail (by omega),
        ← BitVec.shiftRight_add, Nat.mul_succ, Nat.add_comm]

theorem fromLe_split {count : Nat} (inside : count ≤ bytes.length) :
    fromLe bytes = fromLe (bytes.take count) ||| fromLe (bytes.drop count) <<< (8 * count) := by
  have split := fromLe_append (bytes.take count) (bytes.drop count)
  rw [List.take_append_drop, List.length_take, Nat.min_eq_left inside] at split
  exact split

theorem pack_last (word : Word) (shift : Nat) (short : bytes.length < 2) :
    packLast word shift bytes = word ||| fromLe bytes <<< shift := by
  cases bytes with
  | nil => simp [packLast, fromLe]
  | cons byte bytes =>
    have alone : bytes = [] := List.eq_nil_of_length_eq_zero (by
      rw [List.length_cons] at short
      omega)
    rw [alone]
    simp [packLast, fromLe]

/-- Four bytes, two bytes and one byte are read where there are so many. -/
theorem pack_eq (short : bytes.length < 8) : pack bytes = fromLe bytes := by
  have rest : (bytes.drop 4).length = bytes.length - 4 := List.length_drop
  have last : (bytes.drop 2).length = bytes.length - 2 := List.length_drop
  have final : ((bytes.drop 4).drop 2).length = bytes.length - 4 - 2 := by
    rw [List.length_drop, rest]
  unfold pack
  by_cases four : 4 ≤ bytes.length
  · rw [if_pos four, fromLe_split four]
    by_cases two : 2 ≤ (bytes.drop 4).length
    · dsimp only
      rw [if_pos two]
      dsimp only
      rw [pack_last _ _ (by omega), fromLe_split two, BitVec.shiftLeft_or_distrib,
        ← BitVec.shiftLeft_add, BitVec.or_assoc]
    · dsimp only
      rw [if_neg two]
      dsimp only
      rw [pack_last _ _ (by omega)]
  · rw [if_neg four]
    by_cases two : 2 ≤ bytes.length
    · dsimp only
      rw [if_pos two]
      dsimp only
      rw [pack_last _ _ (by omega), fromLe_split two, BitVec.shiftLeft_zero]
      simp only [BitVec.ofNat_eq_ofNat, BitVec.zero_or]
    · dsimp only
      rw [if_neg two]
      dsimp only
      rw [pack_last _ _ (by omega), BitVec.shiftLeft_zero]
      simp only [BitVec.ofNat_eq_ofNat, BitVec.zero_or]

theorem fromLe_eq_ofDigits (bytes : List Byte) :
    fromLe bytes = BitVec.ofNat 64 (Nat.ofDigits 256 (bytes.map BitVec.toNat)) := by
  induction bytes with
  | nil => rfl
  | cons byte bytes ih =>
    have apart : byte.setWidth 64 &&& (fromLe bytes <<< 8) = 0 := by
      apply BitVec.eq_of_getLsbD_eq
      intro i _
      rw [BitVec.getLsbD_and, BitVec.getLsbD_shiftLeft, BitVec.getLsbD_setWidth]
      by_cases low : i < 8
      · simp [low]
      · simp [BitVec.getLsbD_of_ge byte i (by omega)]
    rw [fromLe, ← BitVec.add_eq_or_of_and_eq_zero _ _ apart, ih, List.map_cons,
      Nat.ofDigits_cons]
    apply BitVec.eq_of_toNat_eq
    simp [Nat.shiftLeft_eq, Nat.mul_comm]

/-- The low bytes of a word, the lowest first. -/
def toLe : Nat → Word → List Byte
  | 0, _ => []
  | count + 1, value => value.setWidth 8 :: toLe count (value >>> 8)

@[simp] theorem toLe_length (count : Nat) (value : Word) : (toLe count value).length = count := by
  induction count generalizing value with
  | zero => rfl
  | succ count ih => rw [toLe, List.length_cons, ih]

theorem low_or_high (value : Word) :
    (value.setWidth 8).setWidth 64 ||| (value >>> 8) <<< 8 = value := by
  apply BitVec.eq_of_getLsbD_eq
  intro i inside
  rw [BitVec.getLsbD_or, BitVec.getLsbD_shiftLeft, BitVec.getLsbD_setWidth,
    BitVec.getLsbD_setWidth, BitVec.getLsbD_ushiftRight]
  by_cases low : i < 8
  · simp [low, inside]
  · simp [low, inside, show 8 + (i - 8) = i by omega]

theorem fromLe_toLe {count : Nat} {value : Word} (small : value.toNat < 2 ^ (8 * count)) :
    fromLe (toLe count value) = value := by
  induction count generalizing value with
  | zero =>
    apply BitVec.eq_of_toNat_eq
    rw [Nat.mul_zero, Nat.pow_zero] at small
    have nothing : value.toNat = 0 := by omega
    rw [nothing]
    rfl
  | succ count ih =>
    have high : (value >>> 8).toNat < 2 ^ (8 * count) := by
      rw [BitVec.toNat_ushiftRight, Nat.shiftRight_eq_div_pow]
      rw [Nat.mul_succ, Nat.pow_add] at small
      exact Nat.div_lt_of_lt_mul (by rwa [Nat.mul_comm] at small)
    rw [toLe, fromLe, ih high, low_or_high]

/-! ## What a state has taken in -/

/-- The state after a byte string: its blocks are mixed in and the rest waits. -/
structure Absorbed (start : State) (bytes : List Byte) (sip : Sip c d) : Prop where
  length : sip.length % 2 ^ 64 = bytes.length % 2 ^ 64
  state : sip.state = (blocks c start bytes).1
  tail : sip.tail = fromLe (blocks c start bytes).2

theorem new_absorbed (k0 k1 : Word) :
    Absorbed (new k0 k1 : Sip c d).state [] (new k0 k1 : Sip c d) where
  length := rfl
  state := by
    unfold blocks
    rw [Blocks.feed_short (by decide)]
  tail := by
    unfold blocks
    rw [Blocks.feed_short (by decide)]
    rfl

theorem blocks_rest (c : Nat) (start : State) (bytes : List Byte) :
    (blocks c start bytes).2.length = bytes.length % 8 :=
  Blocks.feed_rest_length (by decide) start bytes

theorem blocks_append (c : Nat) (start : State) (bytes more : List Byte) :
    blocks c start (bytes ++ more) =
      blocks c (blocks c start bytes).1 ((blocks c start bytes).2 ++ more) :=
  Blocks.feed_append start bytes more

theorem blocks_short (c : Nat) (start : State) (short : bytes.length < 8) :
    blocks c start bytes = (start, bytes) :=
  Blocks.feed_short short

theorem blocks_full (c : Nat) (start : State) (full : 8 ≤ bytes.length) :
    blocks c start bytes = blocks c (compress c start (fromLe bytes)) (bytes.drop 8) := by
  rw [← fromLe_take]
  exact Blocks.feed_block (by decide) full

namespace Absorbed

variable {start : State} {bytes : List Byte} {sip : Sip c d}

section

variable (absorbed : Absorbed start bytes sip)

include absorbed

theorem waiting : sip.length % 8 = (blocks c start bytes).2.length := by
  have length := absorbed.length
  have rest := blocks_rest c start bytes
  omega

theorem grown (more : List Byte) :
    (sip.length + more.length) % 2 ^ 64 % 2 ^ 64 = (bytes ++ more).length % 2 ^ 64 := by
  have length := absorbed.length
  rw [List.length_append]
  omega

/-- What a run over whole blocks leaves is packed again. -/
theorem settled {more rest : List Byte} {state : State}
    (joined : blocks c start (bytes ++ more) = blocks c state rest) :
    Absorbed start (bytes ++ more)
      { length := (sip.length + more.length) % 2 ^ 64
        state := (blocks c state rest).1
        tail := pack (blocks c state rest).2 : Sip c d } where
  length := absorbed.grown more
  state := by rw [joined]
  tail := by
    have short := blocks_rest c state rest
    rw [joined, pack_eq (by omega)]

theorem shortWrite {more : List Byte} (short : more.length ≤ 8) :
    Absorbed start (bytes ++ more) (sip.shortWrite more.length (fromLe more)) := by
  have waiting := absorbed.waiting
  have rest := blocks_rest c start bytes
  have joined := blocks_append c start bytes more
  have tail : sip.tail ||| fromLe more <<< (8 * (sip.length % 8)) =
      fromLe ((blocks c start bytes).2 ++ more) := by
    rw [absorbed.tail, waiting, fromLe_append]
  rw [← absorbed.state] at joined
  unfold Sip.shortWrite
  dsimp only
  rw [tail]
  by_cases full : 8 - sip.length % 8 ≤ more.length
  · have enough : 8 ≤ ((blocks c start bytes).2 ++ more).length := by
      rw [List.length_append]
      omega
    have left : (((blocks c start bytes).2 ++ more).drop 8).length < 8 := by
      rw [List.length_drop, List.length_append]
      omega
    rw [blocks_full c _ enough, blocks_short c _ left] at joined
    rw [if_pos full]
    exact
      { length := absorbed.grown more
        state := by rw [joined]
        tail := by
          rw [joined]
          dsimp only
          rw [List.drop_append, List.drop_eq_nil_of_le (by omega), List.nil_append, waiting]
          by_cases part : 8 - (blocks c start bytes).2.length < 8
          · rw [if_pos part, fromLe_drop short]
          · rw [if_neg part, List.drop_eq_nil_of_le (by omega)]
            rfl }
  · have under : ((blocks c start bytes).2 ++ more).length < 8 := by
      rw [List.length_append]
      omega
    rw [blocks_short c _ under] at joined
    rw [if_neg full]
    exact
      { length := absorbed.grown more
        state := by rw [joined]
        tail := by rw [joined] }

theorem write (more : List Byte) : Absorbed start (bytes ++ more) (sip.write more) := by
  have waiting := absorbed.waiting
  have rest := blocks_rest c start bytes
  have joined := blocks_append c start bytes more
  rw [← absorbed.state] at joined
  unfold Sip.write
  dsimp only
  by_cases begun : sip.length % 8 ≠ 0
  · have taken : (more.take (min more.length (8 - sip.length % 8))).length =
        min more.length (8 - sip.length % 8) := by
      rw [List.length_take]
      omega
    have tail : sip.tail |||
          pack (more.take (min more.length (8 - sip.length % 8))) <<< (8 * (sip.length % 8)) =
        fromLe ((blocks c start bytes).2 ++
          more.take (min more.length (8 - sip.length % 8))) := by
      rw [pack_eq (by omega), absorbed.tail, waiting, fromLe_append]
    rw [if_pos begun, tail]
    by_cases under : sip.length % 8 + min more.length (8 - sip.length % 8) < 8
    · have all : more.take (min more.length (8 - sip.length % 8)) = more :=
        List.take_of_length_le (by omega)
      have short : ((blocks c start bytes).2 ++ more).length < 8 := by
        rw [List.length_append]
        omega
      rw [blocks_short c _ short] at joined
      rw [if_pos under, all]
      exact
        { length := absorbed.grown more
          state := by rw [joined]
          tail := by rw [joined] }
    · have needed : min more.length (8 - sip.length % 8) =
          8 - (blocks c start bytes).2.length := by omega
      have full : 8 ≤ ((blocks c start bytes).2 ++ more).length := by
        rw [List.length_append]
        omega
      have filled : ((blocks c start bytes).2 ++ more).take 8 =
          (blocks c start bytes).2 ++ more.take (8 - (blocks c start bytes).2.length) := by
        rw [List.take_append, List.take_of_length_le (by omega)]
      have dropped : ((blocks c start bytes).2 ++ more).drop 8 =
          more.drop (8 - (blocks c start bytes).2.length) := by
        rw [List.drop_append, List.drop_eq_nil_of_le (by omega), List.nil_append]
      rw [blocks_full c _ full, ← fromLe_take, filled, dropped] at joined
      rw [if_neg under, needed]
      exact absorbed.settled joined
  · have aligned : (blocks c start bytes).2 = [] :=
      List.eq_nil_of_length_eq_zero (by omega)
    rw [aligned, List.nil_append] at joined
    rw [if_neg begun]
    exact absorbed.settled joined

end

end Absorbed

/-! ## The end -/

/-- What is left, the zeros and the length make up one more word. -/
theorem last_word (sip : Sip c d) {rest : List Byte}
    (length : sip.length % 2 ^ 64 = bytes.length % 2 ^ 64) (left : rest.length = bytes.length % 8) :
    (BitVec.ofNat 64 sip.length &&& 0xff) <<< 56 ||| fromLe rest =
      fromLe (rest ++ List.replicate (7 - bytes.length % 8) 0 ++
        [BitVec.ofNat 8 bytes.length]) := by
  have counted : BitVec.ofNat 64 sip.length &&& 0xff =
      (BitVec.ofNat 8 bytes.length).setWidth 64 := by
    apply BitVec.eq_of_toNat_eq
    have mask : (255 : Word).toNat = 2 ^ 8 - 1 := by decide
    rw [BitVec.toNat_and, BitVec.toNat_ofNat, BitVec.toNat_setWidth, BitVec.toNat_ofNat, mask,
      Nat.and_two_pow_sub_one_eq_mod]
    omega
  have above : 8 * (rest ++ List.replicate (7 - bytes.length % 8) (0 : Byte)).length = 56 := by
    rw [List.length_append, List.length_replicate]
    omega
  rw [fromLe_append, above, fromLe_append, fromLe_zeros, counted, fromLe, fromLe]
  simp only [BitVec.ofNat_eq_ofNat, BitVec.zero_shiftLeft, BitVec.or_zero]
  exact BitVec.or_comm _ _

theorem padded_length (bytes : List Byte) :
    (Reference.padded bytes).length = 8 * (bytes.length / 8 + 1) := by
  unfold Reference.padded
  rw [List.length_append, List.length_append, List.length_replicate, List.length_singleton]
  omega

/-- The words of the definition are the blocks of the padded string. -/
theorem words_fold (start : State) (bytes : List Byte) :
    (Reference.words bytes).foldl (Reference.mixed c) start =
      (blocks c start (Reference.padded bytes)).1 := by
  unfold blocks Reference.words
  rw [Blocks.feed_eq_foldl (by decide), padded_length, Nat.mul_div_cancel_left _ (by decide),
    List.foldl_map]
  simp only [Reference.mixed_eq, Reference.word, fromLe_eq_ofDigits]

theorem blocks_padded (c : Nat) (start : State) (bytes : List Byte) :
    (blocks c start (Reference.padded bytes)).1 =
      compress c (blocks c start bytes).1
        (fromLe ((blocks c start bytes).2 ++ List.replicate (7 - bytes.length % 8) 0 ++
          [BitVec.ofNat 8 bytes.length])) := by
  have rest := blocks_rest c start bytes
  have full : ((blocks c start bytes).2 ++ (List.replicate (7 - bytes.length % 8) 0 ++
      [BitVec.ofNat 8 bytes.length])).length = 8 := by
    rw [List.length_append, List.length_append, List.length_replicate, List.length_singleton]
    omega
  unfold Reference.padded
  rw [List.append_assoc, blocks_append, blocks_full c _ (by omega),
    List.drop_eq_nil_of_le (by omega), blocks_short c _ (by decide), List.append_assoc]

theorem Absorbed.finish {k0 k1 : Word} (absorbed : Absorbed (new k0 k1 : Sip c d).state bytes sip) :
    sip.finish = Reference.sipHash c d k0 k1 bytes := by
  have rest := blocks_rest c (new k0 k1 : Sip c d).state bytes
  have word := last_word sip absorbed.length rest
  have ended : (Reference.words bytes).foldl (Reference.mixed c) (new k0 k1 : Sip c d).state =
      compress c sip.state ((BitVec.ofNat 64 sip.length &&& 0xff) <<< 56 ||| sip.tail) := by
    rw [words_fold, blocks_padded, absorbed.state, absorbed.tail, word]
  unfold Sip.finish Reference.sipHash
  dsimp only
  rw [← ended, Reference.sipRound_iterate]
  rfl

/-- The hash of one byte string is the published one. -/
theorem hash_eq (k0 k1 : Word) (bytes : List Byte) :
    (new k0 k1 : Sip c d).hash bytes = Reference.sipHash c d k0 k1 bytes := by
  have short := blocks_rest c (new k0 k1 : Sip c d).state bytes
  have absorbed : Absorbed (new k0 k1 : Sip c d).state bytes
      { length := bytes.length
        state := (blocks c (new k0 k1 : Sip c d).state bytes).1
        tail := pack (blocks c (new k0 k1 : Sip c d).state bytes).2 : Sip c d } :=
    { length := rfl
      state := rfl
      tail := pack_eq (by omega) }
  exact absorbed.finish

/-! ## Any sequence of writes -/

/-- One call of the hasher. -/
inductive Write where
  | bytes (text : List Byte)
  | u8 (value : BitVec 8)
  | u16 (value : BitVec 16)
  | u32 (value : BitVec 32)
  | u64 (value : Word)

/-- The bytes a call stands for, an integer's lowest byte first. -/
def Write.text : Write → List Byte
  | .bytes text => text
  | .u8 value => toLe 1 (value.setWidth 64)
  | .u16 value => toLe 2 (value.setWidth 64)
  | .u32 value => toLe 4 (value.setWidth 64)
  | .u64 value => toLe 8 value

def perform (sip : Sip c d) : Write → Sip c d
  | .bytes text => sip.write text
  | .u8 value => sip.writeU8 value
  | .u16 value => sip.writeU16 value
  | .u32 value => sip.writeU32 value
  | .u64 value => sip.writeU64 value

theorem Absorbed.integer (absorbed : Absorbed start bytes sip) (size : Nat) (value : Word)
    (short : size ≤ 8) (small : value.toNat < 2 ^ (8 * size)) :
    Absorbed start (bytes ++ toLe size value) (sip.shortWrite size value) := by
  have length := toLe_length size value
  have written : Absorbed start (bytes ++ toLe size value)
      (sip.shortWrite (toLe size value).length (fromLe (toLe size value))) :=
    absorbed.shortWrite (by omega)
  rw [length, fromLe_toLe small] at written
  exact written

theorem Absorbed.perform (absorbed : Absorbed start bytes sip) (call : Write) :
    Absorbed start (bytes ++ call.text) (sip.perform call) := by
  cases call with
  | bytes more => exact absorbed.write more
  | u8 value =>
    have small : (value.setWidth 64).toNat < 2 ^ (8 * 1) := by
      have bound := value.isLt
      rw [BitVec.toNat_setWidth]
      omega
    exact absorbed.integer 1 (value.setWidth 64) (by decide) small
  | u16 value =>
    have small : (value.setWidth 64).toNat < 2 ^ (8 * 2) := by
      have bound := value.isLt
      rw [BitVec.toNat_setWidth]
      omega
    exact absorbed.integer 2 (value.setWidth 64) (by decide) small
  | u32 value =>
    have small : (value.setWidth 64).toNat < 2 ^ (8 * 4) := by
      have bound := value.isLt
      rw [BitVec.toNat_setWidth]
      omega
    exact absorbed.integer 4 (value.setWidth 64) (by decide) small
  | u64 value => exact absorbed.integer 8 value (by decide) value.isLt

theorem Absorbed.run (absorbed : Absorbed start bytes sip) (calls : List Write) :
    Absorbed start (bytes ++ calls.flatMap Write.text) (calls.foldl Sip.perform sip) := by
  induction calls generalizing bytes sip with
  | nil =>
    rw [List.flatMap_nil, List.append_nil]
    exact absorbed
  | cons call calls ih =>
    rw [List.flatMap_cons, ← List.append_assoc]
    exact ih (absorbed.perform call)

/-- Whatever calls a byte string is written with, the hash that comes out is the hash of
the whole string, and the published one. -/
theorem finish_writes (c d : Nat) (k0 k1 : Word) (calls : List Write) :
    (calls.foldl perform (new k0 k1 : Sip c d)).finish =
        (new k0 k1 : Sip c d).hash (calls.flatMap Write.text) ∧
      (new k0 k1 : Sip c d).hash (calls.flatMap Write.text) =
        Reference.sipHash c d k0 k1 (calls.flatMap Write.text) := by
  have whole := hash_eq (c := c) (d := d) k0 k1 (calls.flatMap Write.text)
  have absorbed := (new_absorbed k0 k1 : Absorbed _ [] (new k0 k1 : Sip c d)).run calls
  rw [List.nil_append] at absorbed
  exact ⟨absorbed.finish.trans whole.symm, whole⟩

end Sip

end Dope.Runtime.Random
