import Mathlib.Algebra.Group.Nat.Defs
import Dope.Base.Run
import Dope.Dns.Host

/-! # Packet reading

Model of `wire/packet`. A cursor is an offset into the packet and every reader
returns the offset it stopped at. Reading is checked the first time; a range
that was traversed once is replayed without the checks. Names are compressed:
a label sequence may jump to an earlier offset.
-/

namespace Dope.Dns

inductive Error.Packet where
  | length (actual maximum : Nat)
  | truncated (offset required actual : Nat)
  | pointer (offset target length : Nat)
  | label (offset : Nat) (value : UInt8)
  | nameLength (actual maximum : Nat)
  | pointerHops (actual maximum : Nat)
  | recordName (actual expected : Nat)
deriving DecidableEq, Repr

namespace Wire

open Run
open Host (Mismatch)

/-- Offsets are 16-bit values, and so is the length of every packet. -/
structure Packet where
  bytes : Bytes
  bound : bytes.length ≤ 65535

def Packet.tryNew (bytes : Bytes) : Except Error.Packet Packet :=
  if h : bytes.length ≤ 65535 then .ok ⟨bytes, h⟩
  else .error (.length bytes.length 65535)

structure Read where
  bytes : Bytes
  stop : Nat
deriving DecidableEq, Repr

/-- Network byte order. -/
def beBytes (bytes : Bytes) : Nat := bytes.foldl (fun value byte => value * 256 + byte.toNat) 0

def slice (packet : Packet) (start length : Nat) : Bytes := (packet.bytes.drop start).take length

def bytes (packet : Packet) (offset required : Nat) : Except Error.Packet Read :=
  if offset + required ≤ packet.bytes.length then
    .ok ⟨slice packet offset required, offset + required⟩
  else .error (.truncated offset required (packet.bytes.length - offset))

/-! ## Reading modes -/

inductive Mode where
  | checked
  | validated
deriving DecidableEq, Repr

def Mode.check : Mode → Except Error.Packet Unit → Except Error.Packet Unit
  | .checked, test => test
  | .validated, _ => .ok ()

/-- `get_unchecked`: a range outside the packet has no value, and the error
stands for the undefined behaviour. -/
def readUnchecked (packet : Packet) (position length : Nat) : Except Error.Packet Read :=
  if packet.bytes.length < position + length then .error (.truncated position length 0)
  else .ok ⟨slice packet position length, position + length⟩

def Mode.read : Mode → Packet → Nat → Nat → Except Error.Packet Read
  | .checked, packet, position, length => bytes packet position length
  | .validated, packet, position, length => readUnchecked packet position length

/-! ## Labels -/

inductive Part where
  | label (read : Read)
  | pointer (target stop : Nat)
deriving DecidableEq, Repr

def checkPointer (packet : Packet) (position target : Nat) : Except Error.Packet Unit :=
  if packet.bytes.length ≤ target ∨ position ≤ target then
    .error (.pointer position target packet.bytes.length)
  else .ok ()

def checkTag (position : Nat) (length : UInt8) : Except Error.Packet Unit :=
  if length &&& 0xc0 ≠ 0 then .error (.label position length) else .ok ()

def Label.decode (mode : Mode) (packet : Packet) (position : Nat) : Except Error.Packet Part := do
  let header ← mode.read packet position 1
  let length := header.bytes.headD 0
  if length &&& 0xc0 = 0xc0 then
    let pair ← mode.read packet position 2
    let target := beBytes [length &&& 0x3f, pair.bytes.getD 1 0]
    mode.check (checkPointer packet position target)
    .ok (.pointer target pair.stop)
  else
    mode.check (checkTag position length)
    let read ← mode.read packet header.stop length.toNat
    .ok (.label read)

def checkName (length : Nat) : Except Error.Packet Unit :=
  if Host.Name.maxWireLen < length + 1 then
    .error (.nameLength (length + 1) Host.Name.maxWireLen)
  else .ok ()

/-! ## Cursors -/

/-- The offset of a name that was traversed once. -/
structure Name where
  offset : Nat
deriving DecidableEq, Repr

structure Span where
  start : Nat
  stop : Nat
deriving DecidableEq, Repr

structure Record where
  owner : Name
  kind : Nat
  cls : Nat
  ttl : Nat
  data : Span
deriving DecidableEq, Repr

def Span.slice (packet : Packet) (span : Span) : Bytes :=
  Wire.slice packet span.start (span.stop - span.start)

def kindOpt : Nat := 41

namespace Cursor

/-- Every label but the last takes a byte, so a traversal of the packet never
uses up a fuel above its length. -/
def nameFrom (mode : Mode) (packet : Packet) : Nat → Nat → Nat → Except Error.Packet Nat
  | 0, position, _ => .error (.truncated position 1 0)
  | fuel + 1, position, length => do
      match ← Label.decode mode packet position with
      | .pointer _ stop => .ok stop
      | .label read =>
          if read.bytes = [] then .ok read.stop
          else
            let length := length + (read.bytes.length + 1)
            mode.check (checkName length)
            nameFrom mode packet fuel read.stop length

def name (mode : Mode) (packet : Packet) (position : Nat) : Except Error.Packet (Name × Nat) := do
  let stop ← nameFrom mode packet (packet.bytes.length + 1) position 0
  .ok (⟨position⟩, stop)

def number (mode : Mode) (packet : Packet) (width position : Nat) :
    Except Error.Packet (Nat × Nat) := do
  let read ← mode.read packet position width
  .ok (beBytes read.bytes, read.stop)

def u16 (mode : Mode) (packet : Packet) (position : Nat) : Except Error.Packet (Nat × Nat) :=
  number mode packet 2 position

def u32 (mode : Mode) (packet : Packet) (position : Nat) : Except Error.Packet (Nat × Nat) :=
  number mode packet 4 position

/-- An ordinary time to live with its top bit set counts as zero. -/
def normalizeTtl (kind ttl : Nat) : Nat :=
  if kind ≠ kindOpt ∧ 2 ^ 31 ≤ ttl then 0 else ttl

def record (mode : Mode) (packet : Packet) (position : Nat) :
    Except Error.Packet (Record × Nat) := do
  let (owner, position) ← name mode packet position
  let (kind, position) ← u16 mode packet position
  let (cls, position) ← u16 mode packet position
  let (ttl, position) ← u32 mode packet position
  let (length, position) ← u16 mode packet position
  let read ← mode.read packet position length
  .ok (⟨owner, kind, cls, normalizeTtl kind ttl, ⟨position, read.stop⟩⟩, read.stop)

end Cursor

/-- The record sequence a checked cursor traversed. -/
structure Records where
  packet : Packet
  position : Nat
  left : Nat

/-- The replay of a traversed record sequence. -/
def Records.replay (packet : Packet) : Nat → Nat → Except Error.Packet (List Record)
  | 0, _ => .ok []
  | left + 1, position => do
      let (record, position) ← Cursor.record .validated packet position
      let rest ← replay packet left position
      .ok (record :: rest)

def Records.items (records : Records) : Except Error.Packet (List Record) :=
  replay records.packet records.left records.position

/-- Traverse `count` records with a reader that keeps a state. -/
def Cursor.recordsFrom {σ : Type} (packet : Packet)
    (read : σ → Record → Except Error.Packet σ) :
    Nat → σ → Nat → Except Error.Packet (σ × Nat)
  | 0, state, position => .ok (state, position)
  | count + 1, state, position => do
      let (record, position) ← Cursor.record .checked packet position
      let state ← read state record
      recordsFrom packet read count state position

def Cursor.records {σ : Type} (packet : Packet) (position count : Nat)
    (read : σ → Record → Except Error.Packet σ) (state : σ) :
    Except Error.Packet (σ × Records × Nat) := do
  let (state, stop) ← recordsFrom packet read count state position
  .ok (state, ⟨packet, position, count⟩, stop)

/-- A record whose data is exactly one name. -/
def Record.name (packet : Packet) (record : Record) : Except Error.Packet Name := do
  let (name, stop) ← Cursor.name .checked packet record.data.start
  if stop ≠ record.data.stop then .error (.recordName stop record.data.stop)
  else .ok name

/-! ## Expanded names -/

def maxPointerHops : Nat := 32

structure Labels where
  packet : Packet
  position : Nat
  pointerHops : Nat
  expandedLen : Nat

def labels (packet : Packet) (name : Name) : Labels := ⟨packet, name.offset, 0, 0⟩

namespace Labels

/-- Each turn of the loop follows one pointer, and the hop limit stops it. -/
def nextFrom : Nat → Labels → Except Error.Packet (Option (Bytes × Labels))
  | 0, labels => .error (.pointerHops labels.pointerHops maxPointerHops)
  | fuel + 1, labels => do
      match ← Label.decode .checked labels.packet labels.position with
      | .pointer target _ =>
          let hops := labels.pointerHops + 1
          if maxPointerHops < hops then .error (.pointerHops hops maxPointerHops)
          else nextFrom fuel { labels with pointerHops := hops, position := target }
      | .label read =>
          if read.bytes = [] then .ok none
          else
            let total := labels.expandedLen + read.bytes.length + 1
            if Host.Name.maxWireLen < total + 1 then
              .error (.nameLength (total + 1) Host.Name.maxWireLen)
            else
              .ok (some (read.bytes,
                { labels with position := read.stop, expandedLen := total }))

def next (labels : Labels) : Except Error.Packet (Option (Bytes × Labels)) :=
  nextFrom (maxPointerHops + 1) labels

/-- Run a traversal to its end. The expanded length grows with every label and
its limit stops the loop. -/
def scan : Nat → Labels → Except Error.Packet Nat
  | 0, labels => .error (.nameLength labels.expandedLen Host.Name.maxWireLen)
  | fuel + 1, labels => do
      match ← labels.next with
      | none => .ok labels.expandedLen
      | some (_, rest) => scan fuel rest

end Labels

/-! ## Comparison -/

def eqHostFrom : Labels → List Bytes → Except Error.Packet Bool
  | actual, [] => do
      match ← actual.next with
      | none => .ok true
      | some _ => .ok false
  | actual, expected :: rest => do
      match ← actual.next with
      | none => .ok false
      | some (label, actual) =>
          if eqIgnoreAsciiCase label expected then eqHostFrom actual rest else .ok false

def eqHost (packet : Packet) (name : Name) (expected : Host.Name) : Except Error.Packet Bool :=
  eqHostFrom (labels packet name) expected.labels

/-- The first byte where two labels of one length differ. -/
def compareBytes (index : Nat) (actual expected : Bytes) : Option Mismatch :=
  match (actual.zip expected).zipIdx.find?
      (fun entry => toAsciiLowercase entry.1.1 != toAsciiLowercase entry.1.2) with
  | some ((actual, expected), offset) => some (.labelByte index offset actual expected)
  | none => none

def compareLabel (index : Nat) (actual expected : Bytes) : Option Mismatch :=
  if actual.length ≠ expected.length then
    some (.labelLength index actual.length expected.length)
  else compareBytes index actual expected

def compareHostFrom : Nat → Labels → List Bytes → Except Error.Packet (Option Mismatch)
  | index, actual, [] => do
      match ← actual.next with
      | none => .ok none
      | some (label, _) => .ok (some (.extraLabel index label.length))
  | index, actual, expected :: rest => do
      match ← actual.next with
      | none => .ok (some (.missingLabel index expected.length))
      | some (label, actual) =>
          match compareLabel index label expected with
          | some mismatch => .ok (some mismatch)
          | none => compareHostFrom (index + 1) actual rest

def compareHost (packet : Packet) (name : Name) (expected : Host.Name) :
    Except Error.Packet (Option Mismatch) :=
  compareHostFrom 0 (labels packet name) expected.labels

def eqNameFrom : Nat → Labels → Labels → Except Error.Packet Bool
  | 0, actual, _ => .error (.nameLength actual.expandedLen Host.Name.maxWireLen)
  | fuel + 1, actual, expected => do
      match ← actual.next, ← expected.next with
      | some (left, actual), some (right, expected) =>
          if eqIgnoreAsciiCase left right then eqNameFrom fuel actual expected else .ok false
      | none, none => .ok true
      | _, _ => .ok false

def eqName (packet : Packet) (actual expected : Name) : Except Error.Packet Bool :=
  eqNameFrom Host.Name.maxWireLen (labels packet actual) (labels packet expected)

def compareRoot (packet : Packet) (name : Name) : Except Error.Packet (Option Mismatch) := do
  match ← (labels packet name).next with
  | none => .ok none
  | some (label, _) => .ok (some (.extraLabel 0 label.length))

/-! ## Replayed names -/

/-- A complete name traversal, checked once. -/
structure Expanded where
  packet : Packet
  position : Nat
  remaining : Nat
  scanned : Labels.scan Host.Name.maxWireLen ⟨packet, position, 0, 0⟩ = .ok remaining

def expand (packet : Packet) (name : Name) : Except Error.Packet Expanded :=
  match h : Labels.scan Host.Name.maxWireLen (labels packet name) with
  | .ok remaining => .ok ⟨packet, name.offset, remaining, h⟩
  | .error error => .error error

namespace Expanded

/-- Follow pointers to the next label. -/
def labelFrom (packet : Packet) : Nat → Nat → Except Error.Packet Read
  | 0, position => .error (.truncated position 1 0)
  | fuel + 1, position => do
      match ← Label.decode .validated packet position with
      | .pointer target _ => labelFrom packet fuel target
      | .label read => .ok read

def labelsFrom (packet : Packet) : Nat → Nat → Nat → Except Error.Packet (List Bytes)
  | _, _, 0 => .ok []
  | 0, position, _ => .error (.truncated position 1 0)
  | fuel + 1, position, remaining => do
      let read ← labelFrom packet (maxPointerHops + 1) position
      let rest ← labelsFrom packet fuel read.stop (remaining - (read.bytes.length + 1))
      .ok (read.bytes :: rest)

def labels (expanded : Expanded) : Except Error.Packet (List Bytes) :=
  labelsFrom expanded.packet Host.Name.maxWireLen expanded.position expanded.remaining

end Expanded

/-- `none` is an `unreachable!` of the replay or of the assembly. -/
def tryDecode (expanded : Expanded) : Option (Except Host.Error Host.Name) :=
  if expanded.remaining = 0 then some (.error .noLabels)
  else
    match expanded.labels with
    | .ok labels => Host.Name.assemble (expanded.remaining - 1) labels
    | .error _ => none

/-! ## Checked reads -/

theorem bytes_ok {packet : Packet} {offset required : Nat} {read : Read}
    (h : bytes packet offset required = .ok read) :
    offset + required ≤ packet.bytes.length ∧
      read = ⟨slice packet offset required, offset + required⟩ := by
  unfold bytes at h
  split at h
  · exact ⟨‹_›, (Except.ok.inj h).symm⟩
  · simp at h

theorem u16_ok {packet : Packet} {position : Nat} {result : Nat × Nat}
    (h : Cursor.u16 .checked packet position = .ok result) :
    position + 2 ≤ packet.bytes.length ∧
      result = (beBytes (slice packet position 2), position + 2) := by
  unfold Cursor.u16 Cursor.number at h
  obtain ⟨read, opened, h⟩ := bind_ok.mp h
  obtain ⟨inside, rfl⟩ := bytes_ok opened
  exact ⟨inside, (Except.ok.inj h).symm⟩

end Wire

end Dope.Dns
