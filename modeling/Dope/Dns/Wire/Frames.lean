import Mathlib.Algebra.Group.Nat.Defs
import Dope.Dns.Wire.Replay
import Dope.Dns.Wire.Response

/-! # Query frames

Model of `wire/frames.rs`. A query is written from fixed header and tail arrays
around the text of the name, whose dots become the lengths of the labels after
them. A datagram carries the cookies of the request in its extension record; a
stream frame carries none and comes after its own length.
-/

namespace Dope.Dns.Wire

open Run

/-! ## Byte order -/

/-- The `width` bytes of a number in network byte order. -/
def toBeBytes : Nat → Nat → Bytes
  | 0, _ => []
  | width + 1, value => toBeBytes width (value / 256) ++ [UInt8.ofNat value]

@[simp] theorem length_toBeBytes (width value : Nat) : (toBeBytes width value).length = width := by
  induction width generalizing value with
  | zero => rfl
  | succ width ih => simp [toBeBytes, ih]

theorem beBytes_toBeBytes {width value : Nat} (small : value < 256 ^ width) :
    beBytes (toBeBytes width value) = value := by
  induction width generalizing value with
  | zero =>
    have zero : value = 0 := by simpa using small
    rw [zero]
    rfl
  | succ width ih =>
    have high : value / 256 < 256 ^ width := by
      rw [Nat.div_lt_iff_lt_mul (by decide)]
      rwa [Nat.pow_succ] at small
    unfold toBeBytes beBytes
    rw [List.foldl_append]
    change beBytes (toBeBytes width (value / 256)) * 256 + (UInt8.ofNat value).toNat = value
    rw [ih high, UInt8.toNat_ofNat']
    omega

/-! ## The builder -/

structure Builder where
  id : Nat
  name : Host.Name
  family : Family.Version

namespace Builder

def headerBytes : Nat := 12

def questionTrailerBytes : Nat := 4

def optRecordBytes : Nat := 11

def optionHeaderBytes : Nat := 4

def maxCookieOptionBytes : Nat := optionHeaderBytes + Cookies.clientBytes + Cookies.maxServerBytes

def queryOverheadBytes : Nat :=
  headerBytes + questionTrailerBytes + optRecordBytes + maxCookieOptionBytes

def maxQueryBytes : Nat := queryOverheadBytes + Host.Name.maxWireLen

def streamPrefixBytes : Nat := 2

def ednsPayload : Nat := 1232

def maxStreamFrameBytes : Nat := streamPrefixBytes + maxQueryBytes - maxCookieOptionBytes

/-- `copy_from_slice` at an offset. -/
def copy (array : Bytes) (offset : Nat) (source : Bytes) : Bytes :=
  array.take offset ++ source ++ array.drop (offset + source.length)

/-- From the last byte to the first, a dot becomes the length of the label after
it; the length of the first label is returned. -/
def spell (text : Bytes) : UInt8 × Bytes :=
  text.foldr (fun byte state =>
    if byte = dot then (0, state.1 :: state.2) else (state.1 + 1, byte :: state.2)) (0, [])

/-- The question after its name, and the extension record. -/
def trailer (family : Family.Version) (array : Bytes) : Bytes :=
  let tail := copy array 1 (toBeBytes 2 family.kind)
  let tail := copy tail 3 (toBeBytes 2 classIn)
  let tail := copy tail 6 (toBeBytes 2 kindOpt)
  copy tail 8 (toBeBytes 2 ednsPayload)

def udp (builder : Builder) (client : Cookies.Client) (server : Option Cookies.Server) : Bytes :=
  let start := headerBytes + 1
  let size := maxQueryBytes - start - (Host.Name.maxWireLen - 2) - Cookies.maxServerBytes
  let server := (server.map Cookies.Server.bytes).getD []
  let length := Cookies.clientBytes + server.length
  let header := copy (List.replicate start 0) 0 (toBeBytes 2 builder.id)
  let header := ((header.set 2 1).set 5 1).set 11 1
  let tail := trailer builder.family (List.replicate size 0)
  let tail := copy tail 14 (toBeBytes 2 (optionHeaderBytes + length))
  let tail := copy tail 16 (toBeBytes 2 Cookies.optionCode)
  let tail := copy tail 18 (toBeBytes 2 length)
  let tail := copy tail 20 (toBeBytes 8 client.value)
  let (first, name) := spell builder.name.bytes
  header.set headerBytes first ++ name ++ tail ++ server

def tcp (builder : Builder) : Bytes :=
  let start := streamPrefixBytes + headerBytes + 1
  let size := maxStreamFrameBytes - start - (Host.Name.maxWireLen - 2)
  let length := queryOverheadBytes - maxCookieOptionBytes + builder.name.wireLen
  let header := copy (List.replicate start 0) 0 (toBeBytes 2 length)
  let header := copy header 2 (toBeBytes 2 builder.id)
  let header := ((header.set 4 1).set 7 1).set 13 1
  let tail := trailer builder.family (List.replicate size 0)
  let (first, name) := spell builder.name.bytes
  header.set (streamPrefixBytes + headerBytes) first ++ name ++ tail

/-! ## What is written -/

/-- Labels in wire form, without the root. -/
def encode (labels : List Bytes) : Bytes :=
  labels.flatMap fun label => UInt8.ofNat label.length :: label

/-- The dots of a text become the lengths of its labels. -/
theorem spell_splitOn (text : Bytes) :
    (spell text).1 :: (spell text).2 = encode (text.splitOn dot) := by
  induction text with
  | nil => rfl
  | cons byte text ih =>
    rw [List.splitOn_cons_eq_if_modifyHead]
    by_cases same : byte = dot
    · subst same
      change 0 :: (spell text).1 :: (spell text).2 = _
      rw [ih, if_pos (beq_self_eq_true dot)]
      rfl
    · have spelled : spell (byte :: text) = ((spell text).1 + 1, byte :: (spell text).2) := by
        change (if byte = dot then _ else _) = _
        rw [if_neg same]
        rfl
      obtain ⟨label, rest, split⟩ := List.exists_cons_of_ne_nil (List.splitOn_ne_nil dot text)
      rw [split] at ih ⊢
      rw [spelled, if_neg (by simpa using same), List.modifyHead_cons]
      unfold encode at ih ⊢
      rw [List.flatMap_cons, List.cons_append] at ih ⊢
      obtain ⟨first, others⟩ := List.cons.inj ih
      dsimp only
      rw [first, others, List.length_cons, UInt8.ofNat_add]
      rfl

/-- The twelve bytes of the header: the id, the recursion flag, one question and
one additional record. -/
def header (id : Nat) : Bytes := toBeBytes 2 id ++ [1, 0, 0, 1, 0, 0, 0, 0, 0, 1]

/-- The bytes from the root label of the question to the payload size of the
extension record. -/
def middle (family : Family.Version) : Bytes :=
  [0] ++ toBeBytes 2 family.kind ++ toBeBytes 2 classIn ++ [0] ++ toBeBytes 2 kindOpt ++
    toBeBytes 2 ednsPayload

/-- The extension record of a datagram from its time to live on. -/
def options (client : Cookies.Client) (server : Bytes) : Bytes :=
  [0, 0, 0, 0] ++ toBeBytes 2 (optionHeaderBytes + (Cookies.clientBytes + server.length)) ++
    (toBeBytes 2 Cookies.optionCode ++ toBeBytes 2 (Cookies.clientBytes + server.length) ++
      (toBeBytes 8 client.value ++ server))

theorem tail_eq (family : Family.Version) (length client : Nat) :
    copy (copy (copy (copy (trailer family (List.replicate 28 0)) 14
      (toBeBytes 2 (optionHeaderBytes + length))) 16 (toBeBytes 2 Cookies.optionCode)) 18
      (toBeBytes 2 length)) 20 (toBeBytes 8 client) =
    middle family ++ ([0, 0, 0, 0] ++ toBeBytes 2 (optionHeaderBytes + length) ++
      (toBeBytes 2 Cookies.optionCode ++ toBeBytes 2 length ++ toBeBytes 8 client)) := by
  simp [trailer, copy, middle, toBeBytes, List.replicate_succ]

theorem header_eq (id : Nat) (first : UInt8) :
    ((((copy (List.replicate 13 0) 0 (toBeBytes 2 id)).set 2 1).set 5 1).set 11 1).set 12 first =
      header id ++ [first] := by
  simp [copy, header, toBeBytes, List.replicate_succ]

theorem udp_eq (builder : Builder) (client : Cookies.Client) (server : Option Cookies.Server) :
    builder.udp client server =
      header builder.id ++ encode builder.name.labels ++ middle builder.family ++
        options client ((server.map Cookies.Server.bytes).getD []) := by
  have start : headerBytes + 1 = 13 := rfl
  have size : maxQueryBytes - (headerBytes + 1) - (Host.Name.maxWireLen - 2) -
      Cookies.maxServerBytes = 28 := rfl
  have spelled := spell_splitOn builder.name.bytes
  unfold udp options Host.Name.labels
  dsimp only
  rw [size, start, tail_eq, show headerBytes = 12 from rfl, header_eq, ← spelled]
  simp only [List.append_assoc, List.cons_append, List.nil_append]

theorem tcp_eq (builder : Builder) :
    builder.tcp = toBeBytes 2 (27 + builder.name.wireLen) ++
      (header builder.id ++ encode builder.name.labels ++ middle builder.family ++
        [0, 0, 0, 0, 0, 0]) := by
  have spelled := spell_splitOn builder.name.bytes
  have split : builder.tcp =
      (toBeBytes 2 (27 + builder.name.wireLen) ++ header builder.id ++
        [(spell builder.name.bytes).1]) ++ (spell builder.name.bytes).2 ++
        (middle builder.family ++ [0, 0, 0, 0, 0, 0]) := rfl
  unfold Host.Name.labels
  rw [split, ← spelled]
  simp only [List.append_assoc, List.cons_append, List.nil_append]

end Builder

end Dope.Dns.Wire
