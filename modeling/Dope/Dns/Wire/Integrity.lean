import Dope.Dns.Wire.Response

/-! # What an accepted response says

The reader accepts a packet only when it is a complete message: a header, the
question that was asked, and records that fill the packet to its end. A server
value comes out of the reader only when the extension record repeats the client
value of the request.
-/

namespace Dope.Dns.Wire

open Run

/-! ## Names -/

/-- The label sequence a compressed name at `offset` stands for. Pointers lead
backwards. -/
inductive Expands (packet : Packet) : Nat → List Bytes → Prop where
  | root {offset : Nat} : packet.bytes[offset]? = some 0 → Expands packet offset []
  | label {offset : Nat} {length : UInt8} {rest : List Bytes} :
      packet.bytes[offset]? = some length → length ≠ 0 → length &&& 0xc0 = 0 →
      offset + 1 + length.toNat ≤ packet.bytes.length →
      Expands packet (offset + 1 + length.toNat) rest →
      Expands packet offset (slice packet (offset + 1) length.toNat :: rest)
  | pointer {offset : Nat} {high low : UInt8} {labels : List Bytes} :
      packet.bytes[offset]? = some high → high &&& 0xc0 = 0xc0 →
      packet.bytes[offset + 1]? = some low →
      beBytes [high &&& 0x3f, low] < offset →
      Expands packet (beBytes [high &&& 0x3f, low]) labels → Expands packet offset labels

/-- Where the bytes of a name end in the packet: after its root label or after
its first pointer. -/
inductive Ends (packet : Packet) : Nat → Nat → Prop where
  | root {offset : Nat} : packet.bytes[offset]? = some 0 → Ends packet offset (offset + 1)
  | label {offset stop : Nat} {length : UInt8} :
      packet.bytes[offset]? = some length → length ≠ 0 → length &&& 0xc0 = 0 →
      offset + 1 + length.toNat ≤ packet.bytes.length →
      Ends packet (offset + 1 + length.toNat) stop → Ends packet offset stop
  | pointer {offset : Nat} {high low : UInt8} :
      packet.bytes[offset]? = some high → high &&& 0xc0 = 0xc0 →
      packet.bytes[offset + 1]? = some low → Ends packet offset (offset + 2)

theorem slice_get (packet : Packet) (start length index : Nat) (h : index < length) :
    (slice packet start length)[index]? = packet.bytes[start + index]? := by
  unfold slice
  rw [List.getElem?_take_of_lt h, List.getElem?_drop]

variable {packet : Packet} {position : Nat}

theorem read_head {read : Read} (h : Mode.read .checked packet position 1 = .ok read) :
    packet.bytes[position]? = some (read.bytes.headD 0) ∧ read.stop = position + 1 := by
  obtain ⟨inside, rfl⟩ := bytes_ok h
  have byte := slice_get packet position 1 0 (by decide)
  rw [Nat.add_zero] at byte
  have here : packet.bytes[position]? = some packet.bytes[position] :=
    List.getElem?_eq_getElem (by omega)
  refine ⟨?_, rfl⟩
  dsimp only
  cases same : slice packet position 1 with
  | nil =>
    rw [same, here] at byte
    simp at byte
  | cons head tail =>
    rw [same] at byte
    exact byte.symm

theorem decode_label {read : Read} (h : Label.decode .checked packet position = .ok (.label read)) :
    ∃ length, packet.bytes[position]? = some length ∧ length &&& 0xc0 = 0 ∧
      position + 1 + length.toNat ≤ packet.bytes.length ∧
      read = ⟨slice packet (position + 1) length.toNat, position + 1 + length.toNat⟩ := by
  unfold Label.decode at h
  obtain ⟨header, opened, h⟩ := bind_ok.mp h
  obtain ⟨byte, stopped⟩ := read_head opened
  dsimp only at h
  split at h
  · obtain ⟨_, -, h⟩ := bind_ok.mp h
    obtain ⟨_, -, h⟩ := bind_ok.mp h
    simp at h
  · obtain ⟨_, tagged, h⟩ := bind_ok.mp h
    obtain ⟨body, taken, h⟩ := bind_ok.mp h
    cases h
    rw [stopped] at taken
    obtain ⟨inside, rfl⟩ := bytes_ok taken
    refine ⟨_, byte, ?_, inside, rfl⟩
    unfold Mode.check checkTag at tagged
    dsimp only at tagged
    split at tagged
    · simp at tagged
    · rename_i plain
      exact Decidable.not_not.mp plain

variable {stop : Nat}

theorem decode_pointer {target : Nat}
    (h : Label.decode .checked packet position = .ok (.pointer target stop)) :
    ∃ high low, packet.bytes[position]? = some high ∧ high &&& 0xc0 = 0xc0 ∧
      packet.bytes[position + 1]? = some low ∧ target = beBytes [high &&& 0x3f, low] ∧
      target < position ∧ stop = position + 2 := by
  unfold Label.decode at h
  obtain ⟨header, opened, h⟩ := bind_ok.mp h
  obtain ⟨byte, -⟩ := read_head opened
  dsimp only at h
  split at h
  · rename_i tag
    obtain ⟨pair, paired, h⟩ := bind_ok.mp h
    obtain ⟨_, checked, h⟩ := bind_ok.mp h
    simp only [Except.ok.injEq, Part.pointer.injEq] at h
    obtain ⟨rfl, rfl⟩ := h
    obtain ⟨inside, rfl⟩ := bytes_ok paired
    refine ⟨_, _, byte, tag, ?_, rfl, ?_, rfl⟩
    · dsimp only
      rw [List.getD_eq_getElem?_getD, slice_get packet position 2 1 (by decide),
        List.getElem?_eq_getElem (by omega)]
      rfl
    · unfold Mode.check checkPointer at checked
      dsimp only at checked ⊢
      split at checked
      · simp at checked
      · rename_i backwards
        omega
  · obtain ⟨_, -, h⟩ := bind_ok.mp h
    obtain ⟨_, -, h⟩ := bind_ok.mp h
    simp at h

theorem slice_nil {start length : Nat} (inside : start + length ≤ packet.bytes.length) :
    slice packet start length = [] ↔ length = 0 := by
  rw [← List.length_eq_zero_iff]
  simp only [slice, List.length_take, List.length_drop]
  omega

variable {fuel : Nat}

theorem ends_of_nameFrom {length : Nat}
    (h : Cursor.nameFrom .checked packet fuel position length = .ok stop) :
    Ends packet position stop := by
  induction fuel generalizing position length with
  | zero => simp [Cursor.nameFrom] at h
  | succ fuel ih =>
    unfold Cursor.nameFrom at h
    obtain ⟨part, decoded, h⟩ := bind_ok.mp h
    cases part with
    | pointer target stop =>
      cases h
      obtain ⟨high, low, first, tag, second, -, -, rfl⟩ := decode_pointer decoded
      exact .pointer first tag second
    | label read =>
      obtain ⟨size, byte, plain, inside, rfl⟩ := decode_label decoded
      dsimp only at h
      split at h
      · rename_i empty
        cases h
        have zero : size = 0 := by
          have none := (slice_nil inside).mp empty
          exact UInt8.toNat_inj.mp none
        rw [zero] at byte ⊢
        exact .root byte
      · rename_i some
        obtain ⟨_, -, h⟩ := bind_ok.mp h
        refine .label byte ?_ plain inside (ih h)
        rintro rfl
        exact some ((slice_nil inside).mpr rfl)

namespace Labels

theorem nextFrom_none {labels : Labels} (h : nextFrom fuel labels = .ok none) :
    Expands labels.packet labels.position [] := by
  induction fuel generalizing labels with
  | zero => simp [nextFrom] at h
  | succ fuel ih =>
    unfold nextFrom at h
    obtain ⟨part, decoded, h⟩ := bind_ok.mp h
    cases part with
    | pointer target stop =>
      obtain ⟨high, low, first, tag, second, rfl, below, -⟩ := decode_pointer decoded
      dsimp only at h
      split at h
      · simp at h
      · exact .pointer first tag second below (ih h)
    | label read =>
      obtain ⟨size, byte, plain, inside, rfl⟩ := decode_label decoded
      dsimp only at h
      split at h
      · rename_i empty
        have zero : size = 0 := UInt8.toNat_inj.mp ((slice_nil inside).mp empty)
        rw [zero] at byte
        exact .root byte
      · split at h
        · simp at h
        · simp at h

/-- One step of a traversal reads the first label of what is left. -/
theorem nextFrom_expands {labels rest : Labels} {label : Bytes} {others : List Bytes}
    (h : nextFrom fuel labels = .ok (some (label, rest)))
    (tail : Expands rest.packet rest.position others) :
    Expands labels.packet labels.position (label :: others) := by
  induction fuel generalizing labels with
  | zero => simp [nextFrom] at h
  | succ fuel ih =>
    unfold nextFrom at h
    obtain ⟨part, decoded, h⟩ := bind_ok.mp h
    cases part with
    | pointer target stop =>
      obtain ⟨high, low, first, tag, second, rfl, below, -⟩ := decode_pointer decoded
      dsimp only at h
      split at h
      · simp at h
      · exact .pointer first tag second below (ih h)
    | label read =>
      obtain ⟨size, byte, plain, inside, rfl⟩ := decode_label decoded
      dsimp only at h
      split at h
      · simp at h
      · rename_i some
        split at h
        · simp at h
        · simp only [Except.ok.injEq, Option.some.injEq, Prod.mk.injEq] at h
          obtain ⟨rfl, rfl⟩ := h
          refine .label byte ?_ plain inside tail
          rintro rfl
          exact some ((slice_nil inside).mpr rfl)

end Labels

/-! ## The question -/

variable {index : Nat}

theorem compareBytes_none {actual expected : Bytes} (h : compareBytes index actual expected = none)
    (same : actual.length = expected.length) :
    actual.map toAsciiLowercase = expected.map toAsciiLowercase := by
  unfold compareBytes at h
  split at h
  · simp at h
  · rename_i missing
    rw [List.find?_eq_none] at missing
    apply List.ext_getElem (by simp [same])
    intro offset left right
    simp only [List.length_map] at left right
    have equal := missing ((actual[offset], expected[offset]), offset) (by
      rw [List.mem_zipIdx_iff_getElem?]
      exact List.getElem?_zip_eq_some.mpr
        ⟨List.getElem?_eq_getElem left, List.getElem?_eq_getElem right⟩)
    simpa using equal

theorem compareLabel_none {actual expected : Bytes} (h : compareLabel index actual expected = none) :
    actual.map toAsciiLowercase = expected.map toAsciiLowercase := by
  unfold compareLabel at h
  split at h
  · simp at h
  · rename_i same
    exact compareBytes_none h (Decidable.not_not.mp same)

/-- The name at `offset` is `expected`, up to the case of its letters. -/
def Names (packet : Packet) (offset : Nat) (expected : List Bytes) : Prop :=
  ∃ labels, Expands packet offset labels ∧
    labels.map (·.map toAsciiLowercase) = expected.map (·.map toAsciiLowercase)

theorem names_of_compareHostFrom {actual : Labels} {expected : List Bytes}
    (h : compareHostFrom index actual expected = .ok none) :
    Names actual.packet actual.position expected := by
  induction expected generalizing index actual with
  | nil =>
    unfold compareHostFrom at h
    obtain ⟨step, stepped, h⟩ := bind_ok.mp h
    cases step with
    | none => exact ⟨[], Labels.nextFrom_none stepped, rfl⟩
    | some entry => simp at h
  | cons label expected ih =>
    unfold compareHostFrom at h
    obtain ⟨step, stepped, h⟩ := bind_ok.mp h
    cases step with
    | none => simp at h
    | some entry =>
      obtain ⟨found, rest⟩ := entry
      dsimp only at h
      split at h
      · simp at h
      · rename_i equal
        obtain ⟨labels, expands, same⟩ := ih h
        refine ⟨found :: labels, Labels.nextFrom_expands stepped expands, ?_⟩
        rw [List.map_cons, List.map_cons, compareLabel_none equal, same]

/-! ## Messages -/

/-- The record that starts at `position` and ends before `stop`. -/
structure RecordAt (packet : Packet) (position : Nat) (record : Record) (stop : Nat) : Prop where
  owner : record.owner = ⟨position⟩
  fields : ∃ fixed, Ends packet position fixed ∧
    record.kind = beBytes (slice packet fixed 2) ∧
    record.cls = beBytes (slice packet (fixed + 2) 2) ∧
    record.ttl = Cursor.normalizeTtl record.kind (beBytes (slice packet (fixed + 4) 4)) ∧
    record.data = ⟨fixed + 10, stop⟩ ∧ stop = fixed + 10 + beBytes (slice packet (fixed + 8) 2)
  inside : stop ≤ packet.bytes.length

/-- Adjacent records from `position` to `stop`. -/
inductive Walk (packet : Packet) : Nat → List Record → Nat → Prop where
  | done {position : Nat} : Walk packet position [] position
  | step {position next stop : Nat} {record : Record} {rest : List Record} :
      RecordAt packet position record next → Walk packet next rest stop →
      Walk packet position (record :: rest) stop

structure Message where
  transaction : Nat
  flags : Nat
  question : Name
  kind : Nat
  cls : Nat
  answers : List Record
  authorities : List Record
  additionals : List Record

/-- The packet is exactly one response with one question. -/
structure Parses (packet : Packet) (message : Message) : Prop where
  header : Decoder.headerBytes ≤ packet.bytes.length
  transaction : message.transaction = beBytes (slice packet 0 2)
  flags : message.flags = beBytes (slice packet 2 2)
  response : message.flags &&& 0x8000 ≠ 0
  standard : message.flags &&& 0x7800 = 0
  questions : beBytes (slice packet 4 2) = 1
  answers : message.answers.length = beBytes (slice packet 6 2)
  authorities : message.authorities.length = beBytes (slice packet 8 2)
  additionals : message.additionals.length = beBytes (slice packet 10 2)
  question : message.question = ⟨Decoder.headerBytes⟩
  sections : ∃ fixed first second, Ends packet Decoder.headerBytes fixed ∧
    message.kind = beBytes (slice packet fixed 2) ∧
    message.cls = beBytes (slice packet (fixed + 2) 2) ∧
    Walk packet (fixed + 4) message.answers first ∧
    Walk packet first message.authorities second ∧
    Walk packet second message.additionals packet.bytes.length

/-- The question of a message is the one that was asked. -/
structure Asks (packet : Packet) (message : Message) (name : Host.Name)
    (family : Family.Version) : Prop where
  name : Names packet message.question.offset name.labels
  kind : message.kind = family.kind
  cls : message.cls = classIn

/-- An extension record of the message carries the client value. -/
def CarriesCookie (packet : Packet) (message : Message) (client : Cookies.Client) : Prop :=
  ∃ record ∈ message.additionals, record.kind = kindOpt ∧
    Cookies.Carries client (record.data.slice packet)

theorem lift_ok {α : Type} {value : Except Error.Packet α} {result : α} :
    lift value = .ok result ↔ value = .ok result := by
  cases value with
  | error | ok => simp [lift, Except.mapError]

theorem name_ok {result : Name × Nat} (h : Cursor.name .checked packet position = .ok result) :
    ∃ stop, result = (⟨position⟩, stop) ∧ Ends packet position stop := by
  unfold Cursor.name at h
  obtain ⟨stop, walked, h⟩ := bind_ok.mp h
  cases h
  exact ⟨stop, rfl, ends_of_nameFrom walked⟩

theorem record_ok {result : Record × Nat} (h : Cursor.record .checked packet position = .ok result) :
    RecordAt packet position result.1 result.2 := by
  unfold Cursor.record at h
  obtain ⟨owner, named, h⟩ := bind_ok.mp h
  obtain ⟨fixed, rfl, ends⟩ := name_ok named
  obtain ⟨kind, readKind, h⟩ := bind_ok.mp h
  obtain ⟨-, rfl⟩ := u16_ok readKind
  obtain ⟨cls, readCls, h⟩ := bind_ok.mp h
  obtain ⟨-, rfl⟩ := u16_ok readCls
  obtain ⟨ttl, readTtl, h⟩ := bind_ok.mp h
  obtain ⟨read, readBytes, readTtl⟩ := bind_ok.mp readTtl
  obtain ⟨-, rfl⟩ := bytes_ok readBytes
  cases readTtl
  obtain ⟨length, readLength, h⟩ := bind_ok.mp h
  obtain ⟨-, rfl⟩ := u16_ok readLength
  obtain ⟨data, readData, h⟩ := bind_ok.mp h
  obtain ⟨inside, rfl⟩ := bytes_ok readData
  cases h
  exact ⟨rfl, ⟨fixed, ends, rfl, rfl, rfl, rfl, rfl⟩, inside⟩

theorem walk_of_recordsFrom {σ : Type} {read : σ → Record → Except Error.Packet σ} {count : Nat}
    {state state' : σ}
    (h : Cursor.recordsFrom packet read count state position = .ok (state', stop)) :
    ∃ records, records.length = count ∧ Walk packet position records stop := by
  induction count generalizing state position with
  | zero =>
    cases h
    exact ⟨[], rfl, .done⟩
  | succ count ih =>
    unfold Cursor.recordsFrom at h
    obtain ⟨first, decoded, h⟩ := bind_ok.mp h
    obtain ⟨next, -, h⟩ := bind_ok.mp h
    obtain ⟨records, counted, walk⟩ := ih h
    exact ⟨first.1 :: records, by rw [List.length_cons, counted],
      .step (record_ok decoded) walk⟩

variable {client : Cookies.Client} {family : Family.Version} {name : Host.Name}

namespace Decoder

variable {packet : Packet} {seed : Option Cookies.Client}

/-- The server value of an extension is the one before the record, or it comes
with the client value. -/
theorem readOpt_cookie {offset : Nat} {record : Record} {before after : Extension}
    {server : Cookies.Server} (h : readOpt packet (some client) offset record before = .ok after)
    (found : after.cookie = some server) : Cookies.Carries client (record.data.slice packet) := by
  unfold readOpt at h
  split at h
  · simp at h
  · obtain ⟨mismatch, -, h⟩ := bind_ok.mp h
    cases mismatch with
    | some mismatch => simp at h
    | none =>
      obtain ⟨cookie, read, h⟩ := bind_ok.mp h
      cases h
      dsimp only at found
      subst found
      cases options : Cookies.Server.fromOptions (record.data.slice packet) client with
      | error error => simp [options, Except.mapError] at read
      | ok value =>
        simp only [options, Except.mapError, Except.ok.injEq] at read
        rw [read] at options
        exact Cookies.fromOptions_carries options

/-- A section is a walk, and a server value it yields was there before or comes
from an extension record of the section. -/
theorem readSection_ok {additional : Bool} {left : Nat} {before after : Extension}
    (h : readSection packet (some client) additional left position before = .ok (after, stop)) :
    ∃ records, records.length = left ∧ Walk packet position records stop ∧
      (after.cookie = before.cookie ∨ after.cookie = none ∨
        ∃ record ∈ records, record.kind = kindOpt ∧
          Cookies.Carries client (record.data.slice packet)) ∧
      (additional = false → after = before) := by
  induction left generalizing position before with
  | zero =>
    cases h
    exact ⟨[], rfl, .done, .inl rfl, fun _ => rfl⟩
  | succ left ih =>
    unfold readSection at h
    obtain ⟨first, decoded, h⟩ := bind_ok.mp h
    have here := record_ok (lift_ok.mp decoded)
    dsimp only at h
    split at h
    · rename_i opt
      obtain ⟨extension, read, h⟩ := bind_ok.mp h
      obtain ⟨records, counted, walk, origin, -⟩ := ih h
      refine ⟨first.1 :: records, by rw [List.length_cons, counted], .step here walk, ?_, ?_⟩
      · rcases origin with same | none | ⟨record, mem, kind, carried⟩
        · cases value : extension.cookie with
          | none => exact .inr (.inl (same.trans value))
          | some server =>
            exact .inr (.inr ⟨first.1, by simp, opt.2, readOpt_cookie read value⟩)
        · exact .inr (.inl none)
        · exact .inr (.inr ⟨record, List.mem_cons_of_mem _ mem, kind, carried⟩)
      · intro closed
        simp [closed] at opt
    · obtain ⟨records, counted, walk, origin, kept⟩ := ih h
      refine ⟨first.1 :: records, by rw [List.length_cons, counted], .step here walk, ?_, kept⟩
      rcases origin with same | none | ⟨record, mem, kind, carried⟩
      · exact .inl same
      · exact .inr (.inl none)
      · exact .inr (.inr ⟨record, List.mem_cons_of_mem _ mem, kind, carried⟩)

theorem readQuestion_ok (h : readQuestion packet name family = .ok stop) :
    ∃ fixed, Ends packet headerBytes fixed ∧ stop = fixed + 4 ∧
      Names packet headerBytes name.labels ∧
      beBytes (slice packet fixed 2) = family.kind ∧
      beBytes (slice packet (fixed + 2) 2) = classIn := by
  unfold readQuestion at h
  obtain ⟨question, named, h⟩ := bind_ok.mp h
  obtain ⟨fixed, rfl, ends⟩ := name_ok (lift_ok.mp named)
  obtain ⟨kind, readKind, h⟩ := bind_ok.mp h
  obtain ⟨-, rfl⟩ := u16_ok (lift_ok.mp readKind)
  obtain ⟨cls, readCls, h⟩ := bind_ok.mp h
  obtain ⟨-, rfl⟩ := u16_ok (lift_ok.mp readCls)
  obtain ⟨mismatch, compared, h⟩ := bind_ok.mp h
  cases mismatch with
  | some mismatch => simp at h
  | none =>
    have names : Names packet headerBytes name.labels :=
      names_of_compareHostFrom (lift_ok.mp compared)
    dsimp only at h
    split at h
    · simp at h
    · rename_i kind
      split at h
      · simp at h
      · rename_i cls
        cases h
        exact ⟨fixed, ends, rfl, names, Decidable.not_not.mp kind, Decidable.not_not.mp cls⟩

/-- A datagram is accepted only when it is one response to the question. -/
theorem read_ok {n : Nat} {envelope : Envelope n}
    (h : read packet name family (some client) = .ok envelope) :
    ∃ message, Parses packet message ∧ Asks packet message name family ∧
      (envelope.serverCookie ≠ none → CarriesCookie packet message client) := by
  unfold read at h
  obtain ⟨flags, readFlags, h⟩ := bind_ok.mp h
  obtain ⟨-, rfl⟩ := u16_ok (lift_ok.mp readFlags)
  dsimp only at h
  split at h
  · simp at h
  · rename_i plain
    obtain ⟨query, readQuery, h⟩ := bind_ok.mp h
    obtain ⟨-, rfl⟩ := u16_ok (lift_ok.mp readQuery)
    obtain ⟨answer, readAnswer, h⟩ := bind_ok.mp h
    obtain ⟨-, rfl⟩ := u16_ok (lift_ok.mp readAnswer)
    obtain ⟨auth, readAuth, h⟩ := bind_ok.mp h
    obtain ⟨-, rfl⟩ := u16_ok (lift_ok.mp readAuth)
    obtain ⟨extra, readExtra, h⟩ := bind_ok.mp h
    obtain ⟨header, rfl⟩ := u16_ok (lift_ok.mp readExtra)
    dsimp only at h
    split at h
    · simp at h
    · rename_i one
      obtain ⟨position, asked, h⟩ := bind_ok.mp h
      obtain ⟨fixed, ends, rfl, names, kind, cls⟩ := readQuestion_ok asked
      obtain ⟨⟨chain, items, first⟩, chained, h⟩ := bind_ok.mp h
      obtain ⟨⟨state, stop⟩, traversed, built⟩ := bind_ok.mp (lift_ok.mp chained)
      cases built
      obtain ⟨answers, answerCount, answerWalk⟩ := walk_of_recordsFrom traversed
      obtain ⟨⟨quiet, second⟩, authorized, h⟩ := bind_ok.mp h
      obtain ⟨authorities, authCount, authWalk, -, kept⟩ := readSection_ok authorized
      obtain ⟨⟨extension, last⟩, extended, h⟩ := bind_ok.mp h
      obtain ⟨additionals, extraCount, extraWalk, origin, -⟩ := readSection_ok extended
      dsimp only at h
      split at h
      · simp at h
      · rename_i full
        obtain ⟨reply, -, h⟩ := bind_ok.mp h
        cases h
        have filled : last = packet.bytes.length := Decidable.not_not.mp full
        subst filled
        refine ⟨⟨beBytes (slice packet 0 2), beBytes (slice packet 2 2), ⟨headerBytes⟩,
          beBytes (slice packet fixed 2), beBytes (slice packet (fixed + 2) 2),
          answers, authorities, additionals⟩, ?_, ⟨names, kind, cls⟩, ?_⟩
        · exact ⟨header, rfl, rfl, fun zero => plain (.inl zero),
            Decidable.not_not.mp fun set => plain (.inr set), Decidable.not_not.mp one,
            answerCount, authCount, extraCount, rfl,
            fixed, _, _, ends, rfl, rfl, answerWalk, authWalk, extraWalk⟩
        · intro some
          rcases origin with same | none | carried
          · rw [kept rfl] at same
            exact absurd same some
          · exact absurd none some
          · exact carried

/-- A datagram without the client value requires the stream transport. -/
theorem udp_ok {n : Nat} {decoder : Decoder} {data : Datagram n}
    (h : decoder.udp name family client = .ok data) :
    ∃ message, Parses decoder.packet message ∧ Asks decoder.packet message name family ∧
      (¬ CarriesCookie decoder.packet message client → data = .streamRequired) := by
  unfold udp at h
  obtain ⟨body, accepted, h⟩ := bind_ok.mp h
  obtain ⟨message, parses, asks, carried⟩ := read_ok accepted
  refine ⟨message, parses, asks, ?_⟩
  intro bare
  cases found : body.serverCookie with
  | none =>
    rw [found] at h
    exact (Except.ok.inj h).symm
  | some server => exact absurd (carried (by simp [found])) bare

theorem tryNew_ok {bytes : Bytes} {decoder : Decoder} (h : tryNew bytes = .ok decoder) :
    decoder.packet.bytes = bytes ∧ decoder.transaction = beBytes (slice decoder.packet 0 2) := by
  unfold tryNew at h
  obtain ⟨packet, opened, h⟩ := bind_ok.mp h
  unfold Packet.tryNew at opened
  split at opened
  · cases opened
    split at h
    · simp at h
    · cases h
      exact ⟨rfl, rfl⟩
  · simp at opened

end Decoder

end Dope.Dns.Wire
