import Dope.Base.Blocks
import Dope.Base.Feistel
import Mathlib.Data.BitVec
import Mathlib.Data.Fintype.EquivFin

/-! # Keyed random words

Model of `random`: the keyed hash of `random/sip.rs` and what a key derives from
it. A lane separates the uses of one key. The permutation is a network of four
rounds of the hash over the halves of a word.
-/

namespace Dope.Runtime.Random

abbrev Word := BitVec 64

abbrev Byte := BitVec 8

/-! ## The hash -/

structure State where
  v0 : Word
  v1 : Word
  v2 : Word
  v3 : Word
deriving DecidableEq, Repr

namespace State

def round (state : State) : State :=
  let v0 := state.v0 + state.v1
  let v1 := state.v1.rotateLeft 13 ^^^ v0
  let v0 := v0.rotateLeft 32
  let v2 := state.v2 + state.v3
  let v3 := state.v3.rotateLeft 16 ^^^ v2
  let v0 := v0 + v3
  let v3 := v3.rotateLeft 21 ^^^ v0
  let v2 := v2 + v1
  let v1 := v1.rotateLeft 17 ^^^ v2
  let v2 := v2.rotateLeft 32
  ⟨v0, v1, v2, v3⟩

def rounds : Nat → State → State
  | 0, state => state
  | count + 1, state => rounds count state.round

end State

/-- A hash of `c` rounds for each word and `d` rounds at the end. -/
structure Sip (c d : Nat) where
  length : Nat
  state : State
  tail : Word
deriving DecidableEq, Repr

namespace Sip

variable {c d : Nat}

def new (k0 k1 : Word) : Sip c d where
  length := 0
  state := ⟨k0 ^^^ 0x736f6d6570736575, k1 ^^^ 0x646f72616e646f6d, k0 ^^^ 0x6c7967656e657261,
    k1 ^^^ 0x7465646279746573⟩
  tail := 0

def compress (c : Nat) (state : State) (word : Word) : State :=
  let state := State.rounds c { state with v3 := state.v3 ^^^ word }
  { state with v0 := state.v0 ^^^ word }

/-- Write the `size` low bytes of a word. -/
def shortWrite (sip : Sip c d) (size : Nat) (value : Word) : Sip c d :=
  let ntail := sip.length % 8
  let length := (sip.length + size) % 2 ^ 64
  let needed := 8 - ntail
  let tail := sip.tail ||| value <<< (8 * ntail)
  if needed ≤ size then
    { length := length
      state := compress c sip.state tail
      tail := if needed < 8 then value >>> (8 * needed) else 0 }
  else { length := length, state := sip.state, tail := tail }

/-- The word of the bytes in little-endian order. -/
def fromLe : List Byte → Word
  | [] => 0
  | byte :: rest => byte.setWidth 64 ||| fromLe rest <<< 8

/-- The first byte that is left goes above the word. -/
def packLast (word : Word) (shift : Nat) : List Byte → Word
  | byte :: _ => word ||| byte.setWidth 64 <<< shift
  | [] => word

/-- The word of fewer than eight bytes. -/
def pack (bytes : List Byte) : Word :=
  let (word, shift, bytes) :=
    if 4 ≤ bytes.length then (fromLe (bytes.take 4), 32, bytes.drop 4) else (0, 0, bytes)
  let (word, shift, bytes) :=
    if 2 ≤ bytes.length then
      (word ||| fromLe (bytes.take 2) <<< shift, shift + 16, bytes.drop 2)
    else (word, shift, bytes)
  packLast word shift bytes

def blocks (c : Nat) (state : State) (bytes : List Byte) : State × List Byte :=
  Blocks.feed 8 (fun state chunk => compress c state (fromLe chunk)) state bytes

def write (sip : Sip c d) (bytes : List Byte) : Sip c d :=
  let ntail := sip.length % 8
  let length := (sip.length + bytes.length) % 2 ^ 64
  if ntail ≠ 0 then
    let take := min bytes.length (8 - ntail)
    let tail := sip.tail ||| pack (bytes.take take) <<< (8 * ntail)
    if ntail + take < 8 then { length := length, state := sip.state, tail := tail }
    else
      let (state, rest) := blocks c (compress c sip.state tail) (bytes.drop take)
      { length := length, state := state, tail := pack rest }
  else
    let (state, rest) := blocks c sip.state bytes
    { length := length, state := state, tail := pack rest }

def writeU8 (sip : Sip c d) (value : BitVec 8) : Sip c d := sip.shortWrite 1 (value.setWidth 64)

def writeU16 (sip : Sip c d) (value : BitVec 16) : Sip c d := sip.shortWrite 2 (value.setWidth 64)

def writeU32 (sip : Sip c d) (value : BitVec 32) : Sip c d := sip.shortWrite 4 (value.setWidth 64)

def writeU64 (sip : Sip c d) (value : Word) : Sip c d := sip.shortWrite 8 value

def finish (sip : Sip c d) : Word :=
  let last := (BitVec.ofNat 64 sip.length &&& 0xff) <<< 56 ||| sip.tail
  let state := compress c sip.state last
  let state := State.rounds d { state with v2 := state.v2 ^^^ 0xff }
  state.v0 ^^^ state.v1 ^^^ state.v2 ^^^ state.v3

/-- The hash of one byte string. -/
def hash (sip : Sip c d) (bytes : List Byte) : Word :=
  let (state, rest) := blocks c sip.state bytes
  let sip : Sip c d := { length := bytes.length, state := state, tail := pack rest }
  sip.finish

end Sip

/-! ## Keys -/

structure Key where
  k0 : Word
  k1 : Word
deriving DecidableEq, Repr

namespace Key

def lane (key : Key) (lane : Word) (kind : BitVec 8) : Sip 2 4 :=
  ((Sip.new key.k0 key.k1).writeU64 lane).writeU8 kind

/-- The hash of one word. -/
def word (key : Key) (lane input : Word) : Word := ((key.lane lane 0).writeU64 input).finish

/-- What a round mixes into the other half. -/
def scramble (key : Key) (lane : Word) (round : BitVec 32) (right : BitVec 32) : BitVec 32 :=
  (((key.lane lane 1).writeU64 (round ++ right)).finish).setWidth 32

def permute (key : Key) (lane value : Word) : Word :=
  let halves := Feistel.network BitVec.xor
    [key.scramble lane 0, key.scramble lane 1, key.scramble lane 2, key.scramble lane 3]
    (value.extractLsb' 32 32, value.extractLsb' 0 32)
  halves.1 ++ halves.2

theorem halves_injective :
    Function.Injective fun value : Word => (value.extractLsb' 32 32, value.extractLsb' 0 32) := by
  intro value other same
  obtain ⟨high, low⟩ := Prod.mk.inj same
  have upper := congrArg BitVec.toNat high
  have lower := congrArg BitVec.toNat low
  apply BitVec.eq_of_toNat_eq
  simp only [BitVec.extractLsb'_toNat, Nat.shiftRight_eq_div_pow] at upper lower
  omega

theorem append_injective :
    Function.Injective fun halves : BitVec 32 × BitVec 32 => halves.1 ++ halves.2 := by
  rintro ⟨left, right⟩ ⟨left', right'⟩ same
  have high : left = left' := BitVec.extractLsb'_append_eq_left.symm.trans
    ((congrArg (BitVec.extractLsb' 32 32) same).trans BitVec.extractLsb'_append_eq_left)
  have low : right = right' := BitVec.extractLsb'_append_eq_right.symm.trans
    ((congrArg (BitVec.extractLsb' 0 32) same).trans BitVec.extractLsb'_append_eq_right)
  rw [high, low]

theorem permute_injective (key : Key) (lane : Word) : Function.Injective (key.permute lane) := by
  have cancels : ∀ b : BitVec 32, Function.Injective fun a => BitVec.xor a b :=
    fun b _ _ same => (BitVec.xor_left_inj b).mp same
  exact append_injective.comp ((Feistel.network_injective cancels _).comp halves_injective)

/-- Whatever the key, the words of a lane are only put in another order. -/
theorem permute_bijective (key : Key) (lane : Word) : Function.Bijective (key.permute lane) := by
  have : Finite Word := Finite.of_equiv _ BitVec.equivFin.toEquiv.symm
  exact Finite.injective_iff_bijective.mp (key.permute_injective lane)

/-! ### The inverse -/

/-- The four rounds over the halves of a word, whatever a round mixes in. -/
def shuffle (scramble : BitVec 32 → BitVec 32 → BitVec 32) (value : Word) : Word :=
  let halves := Feistel.network BitVec.xor ([0, 1, 2, 3].map scramble)
    (value.extractLsb' 32 32, value.extractLsb' 0 32)
  halves.1 ++ halves.2

def unshuffle (scramble : BitVec 32 → BitVec 32 → BitVec 32) (value : Word) : Word :=
  let halves := Feistel.unnetwork BitVec.xor ([0, 1, 2, 3].map scramble)
    (value.extractLsb' 32 32, value.extractLsb' 0 32)
  halves.1 ++ halves.2

/-- The word a permuted word came from. -/
def unpermute (key : Key) (lane value : Word) : Word := unshuffle (key.scramble lane) value

theorem xor_undoes (a b : BitVec 32) : BitVec.xor (BitVec.xor a b) b = a := by
  change a ^^^ b ^^^ b = a
  rw [BitVec.xor_assoc, BitVec.xor_self, BitVec.xor_zero]

theorem join_halves (value : Word) : value.extractLsb' 32 32 ++ value.extractLsb' 0 32 = value :=
  halves_injective (Prod.ext BitVec.extractLsb'_append_eq_left
    BitVec.extractLsb'_append_eq_right)

theorem unshuffle_shuffle (scramble : BitVec 32 → BitVec 32 → BitVec 32) (value : Word) :
    unshuffle scramble (shuffle scramble value) = value := by
  unfold unshuffle shuffle
  dsimp only
  rw [BitVec.extractLsb'_append_eq_left, BitVec.extractLsb'_append_eq_right,
    Feistel.unnetwork_network xor_undoes]
  exact join_halves value

theorem shuffle_unshuffle (scramble : BitVec 32 → BitVec 32 → BitVec 32) (value : Word) :
    shuffle scramble (unshuffle scramble value) = value := by
  unfold unshuffle shuffle
  dsimp only
  rw [BitVec.extractLsb'_append_eq_left, BitVec.extractLsb'_append_eq_right,
    Feistel.network_unnetwork xor_undoes]
  exact join_halves value

/-- Permuting a word can be undone and undoing can be permuted away, for every key and
lane, and the rounds could mix in anything else and this would still hold. -/
theorem permute_unpermute (scramble : BitVec 32 → BitVec 32 → BitVec 32) (key : Key)
    (lane value : Word) :
    (key.unpermute lane (key.permute lane value) = value ∧
      key.permute lane (key.unpermute lane value) = value) ∧
    unshuffle scramble (shuffle scramble value) = value ∧
      shuffle scramble (unshuffle scramble value) = value ∧
      key.permute lane value = shuffle (key.scramble lane) value := by
  have shuffled : ∀ word, key.permute lane word = shuffle (key.scramble lane) word := by
    intro word
    rfl
  constructor
  · constructor
    · rw [shuffled]
      exact unshuffle_shuffle (key.scramble lane) value
    · rw [shuffled]
      exact shuffle_unshuffle (key.scramble lane) value
  exact ⟨unshuffle_shuffle scramble value, shuffle_unshuffle scramble value, shuffled value⟩

end Key

end Dope.Runtime.Random
