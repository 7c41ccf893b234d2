import Mathlib.Algebra.Group.Nat.Defs
import Dope.Dns.Wire.Frames
import Dope.Dns.Wire.Integrity

/-! # Queries read back

The packet reader finds in a query frame what the builder was given. Both meet
at the fields of the packet: the builder lays them one after the other, and each
reader is told where its field is.
-/

namespace Dope.Dns.Wire

open Run Builder

/-! ## Fields -/

/-- The bytes at `offset` are `field`. -/
structure At (packet : Packet) (offset : Nat) (field : Bytes) : Prop where
  split : ∃ before after, packet.bytes = before ++ field ++ after ∧ before.length = offset

namespace At

variable {packet : Packet} {offset : Nat} {field first second : Bytes}

theorem left (h : At packet offset (first ++ second)) : At packet offset first := by
  obtain ⟨before, after, split, here⟩ := h.split
  exact ⟨before, second ++ after, by rw [split]; simp, here⟩

theorem right (h : At packet offset (first ++ second)) :
    At packet (offset + first.length) second := by
  obtain ⟨before, after, split, here⟩ := h.split
  exact ⟨before ++ first, after, by rw [split]; simp, by rw [List.length_append, here]⟩

theorem inside (h : At packet offset field) : offset + field.length ≤ packet.bytes.length := by
  obtain ⟨before, after, split, here⟩ := h.split
  rw [split, List.length_append, List.length_append, here]
  omega

theorem slice (h : At packet offset field) : Wire.slice packet offset field.length = field := by
  obtain ⟨before, after, split, rfl⟩ := h.split
  unfold Wire.slice
  rw [split, List.append_assoc, List.drop_left, List.take_left]

theorem read (h : At packet offset field) :
    Mode.read .checked packet offset field.length = .ok ⟨field, offset + field.length⟩ := by
  change bytes packet offset field.length = _
  unfold bytes
  rw [if_pos h.inside, h.slice]

theorem number {width value : Nat} (h : At packet offset (toBeBytes width value))
    (small : value < 256 ^ width) :
    Cursor.number .checked packet width offset = .ok (value, offset + width) := by
  have read := h.read
  rw [length_toBeBytes] at read
  unfold Cursor.number
  rw [read, ok_bind, beBytes_toBeBytes small]

end At

/-! ## Names -/

/-- The labels from `offset` on, without pointers. -/
inductive Spells (packet : Packet) : Nat → List Bytes → Prop where
  | root {offset : Nat} : At packet offset [0] → Spells packet offset []
  | label {offset : Nat} {label : Bytes} {rest : List Bytes} :
      At packet offset (UInt8.ofNat label.length :: label) →
      1 ≤ label.length → label.length ≤ 63 →
      Spells packet (offset + (label.length + 1)) rest → Spells packet offset (label :: rest)

variable {packet : Packet} {offset : Nat} {labels : List Bytes}

theorem spells_encode (sized : ∀ label ∈ labels, 1 ≤ label.length ∧ label.length ≤ 63)
    (h : At packet offset (encode labels ++ [0])) : Spells packet offset labels := by
  induction labels generalizing offset with
  | nil => exact .root h
  | cons label rest ih =>
    have bounds := sized label List.mem_cons_self
    unfold encode at h
    rw [List.flatMap_cons, List.append_assoc] at h
    refine .label h.left bounds.1 bounds.2 ?_
    have next := h.right
    rw [List.length_cons] at next
    exact ih (fun other member => sized other (List.mem_cons_of_mem _ member)) next

theorem tag_of_le {length : Nat} (small : length ≤ 63) :
    UInt8.ofNat length &&& 0xc0 = 0 ∧ (UInt8.ofNat length).toNat = length := by
  have all : ∀ index : Fin 64, UInt8.ofNat index.val &&& 0xc0 = 0 := by decide
  refine ⟨all ⟨length, by omega⟩, ?_⟩
  rw [UInt8.toNat_ofNat']
  omega

theorem decode_spelled {label : Bytes} (h : At packet offset (UInt8.ofNat label.length :: label))
    (small : label.length ≤ 63) :
    Label.decode .checked packet offset =
      .ok (.label ⟨label, offset + (label.length + 1)⟩) := by
  obtain ⟨plain, value⟩ := tag_of_le small
  have parts : At packet offset ([UInt8.ofNat label.length] ++ label) := h
  have head := parts.left
  have body := parts.right
  have opened : Mode.read .checked packet offset 1 =
      .ok ⟨[UInt8.ofNat label.length], offset + 1⟩ := head.read
  have taken : Mode.read .checked packet (offset + 1) label.length =
      .ok ⟨label, offset + 1 + label.length⟩ := body.read
  unfold Label.decode
  rw [opened, ok_bind]
  dsimp only [List.headD]
  rw [if_neg (by rw [plain]; decide)]
  simp only [Mode.check, checkTag, plain, value, taken, ok_bind, ne_eq, not_true_eq_false,
    if_false]
  rw [Nat.add_assoc, Nat.add_comm 1]

theorem decode_root (h : At packet offset [0]) :
    Label.decode .checked packet offset = .ok (.label ⟨[], offset + 1⟩) := by
  have spelled : At packet offset (UInt8.ofNat ([] : Bytes).length :: []) := h
  exact decode_spelled spelled (Nat.zero_le _)

theorem nameFrom_spelled {fuel length : Nat} (spells : Spells packet offset labels)
    (enough : labels.length < fuel)
    (fits : length + Host.Name.wireSum labels + 1 ≤ Host.Name.maxWireLen) :
    Cursor.nameFrom .checked packet fuel offset length =
      .ok (offset + Host.Name.wireSum labels + 1) := by
  induction spells generalizing fuel length with
  | root here =>
    obtain ⟨fuel, rfl⟩ := Nat.exists_eq_add_of_lt enough
    unfold Cursor.nameFrom
    rw [decode_root here, ok_bind]
    rfl
  | @label offset label rest here long small tail ih =>
    obtain ⟨left, rfl⟩ := Nat.exists_eq_add_of_lt enough
    rw [Host.Name.wireSum_cons] at fits ⊢
    have body : label ≠ [] := by
      rintro rfl
      simp at long
    unfold Cursor.nameFrom
    rw [decode_spelled here small, ok_bind]
    dsimp only
    rw [if_neg body]
    have checked : checkName (length + (label.length + 1)) = .ok () := by
      unfold checkName
      rw [if_neg (by omega)]
    rw [Mode.check, checked, ok_bind, ih (by rw [List.length_cons]; omega) (by omega)]
    congr 1
    omega

namespace Labels

theorem next_root {labels : Labels} (here : At labels.packet labels.position [0]) :
    labels.next = .ok none := by
  unfold next nextFrom
  rw [decode_root here, ok_bind]
  rfl

theorem next_spelled {labels : Labels} {label : Bytes}
    (here : At labels.packet labels.position (UInt8.ofNat label.length :: label))
    (long : 1 ≤ label.length) (small : label.length ≤ 63)
    (fits : labels.expandedLen + (label.length + 1) + 1 ≤ Host.Name.maxWireLen) :
    labels.next = .ok (some (label, { labels with
      position := labels.position + (label.length + 1)
      expandedLen := labels.expandedLen + label.length + 1 })) := by
  have body : label ≠ [] := by
    rintro rfl
    simp at long
  unfold next nextFrom
  rw [decode_spelled here small, ok_bind]
  dsimp only
  rw [if_neg body, if_neg (by omega)]

theorem scan_spelled {fuel hops expanded : Nat} (spells : Spells packet offset labels)
    (enough : labels.length < fuel)
    (fits : expanded + Host.Name.wireSum labels + 1 ≤ Host.Name.maxWireLen) :
    scan fuel ⟨packet, offset, hops, expanded⟩ = .ok (expanded + Host.Name.wireSum labels) := by
  induction spells generalizing fuel expanded with
  | root here =>
    obtain ⟨fuel, rfl⟩ := Nat.exists_eq_add_of_lt enough
    unfold scan
    rw [next_root here, ok_bind]
    rfl
  | @label offset label rest here long small tail ih =>
    obtain ⟨left, rfl⟩ := Nat.exists_eq_add_of_lt enough
    rw [Host.Name.wireSum_cons] at fits ⊢
    unfold scan
    rw [next_spelled here long small (by dsimp only; omega), ok_bind]
    dsimp only
    rw [ih (by rw [List.length_cons]; omega) (by omega)]
    congr 1
    omega

end Labels

theorem labelsFrom_spelled {fuel : Nat} (spells : Spells packet offset labels)
    (enough : labels.length ≤ fuel) :
    Expanded.labelsFrom packet fuel offset (Host.Name.wireSum labels) = .ok labels := by
  induction spells generalizing fuel with
  | root here => rw [Host.Name.wireSum_nil, Expanded.labelsFrom]
  | @label offset label rest here long small tail ih =>
    obtain ⟨left, rfl⟩ := Nat.exists_eq_add_of_lt
      (Nat.lt_of_lt_of_le (Nat.succ_pos rest.length) enough)
    have total : Host.Name.wireSum (label :: rest) =
        (label.length + Host.Name.wireSum rest) + 1 := by
      rw [Host.Name.wireSum_cons]
      omega
    have found : Expanded.labelFrom packet (maxPointerHops + 1) offset =
        .ok ⟨label, offset + (label.length + 1)⟩ := by
      unfold Expanded.labelFrom
      rw [decode_validated (decode_spelled here small)]
      rfl
    rw [total, Expanded.labelsFrom_step, found, ok_bind]
    dsimp only
    rw [show label.length + Host.Name.wireSum rest + 1 - (label.length + 1) =
      Host.Name.wireSum rest by omega, ih (by simp at enough ⊢; omega)]
    rfl

theorem compareLabel_self (index : Nat) (label : Bytes) :
    compareLabel index label label = none := by
  unfold compareLabel compareBytes
  rw [if_neg (by simp)]
  have equal : (label.zip label).zipIdx.find?
      (fun entry => toAsciiLowercase entry.1.1 != toAsciiLowercase entry.1.2) = none := by
    rw [List.find?_eq_none]
    rintro ⟨⟨actual, expected⟩, offset⟩ member
    rw [List.mem_zipIdx_iff_getElem?] at member
    obtain ⟨first, second⟩ := List.getElem?_zip_eq_some.mp member
    have same : actual = expected := Option.some.inj (first.symm.trans second)
    simp [same]
  rw [equal]

theorem compareHostFrom_spelled {index hops expanded : Nat} (spells : Spells packet offset labels)
    (fits : expanded + Host.Name.wireSum labels + 1 ≤ Host.Name.maxWireLen) :
    compareHostFrom index ⟨packet, offset, hops, expanded⟩ labels = .ok none ∧
      eqHostFrom ⟨packet, offset, hops, expanded⟩ labels = .ok true := by
  induction spells generalizing index expanded with
  | root here =>
    unfold compareHostFrom eqHostFrom
    rw [Labels.next_root here]
    exact ⟨rfl, rfl⟩
  | @label offset label rest here long small tail ih =>
    rw [Host.Name.wireSum_cons] at fits
    have inner : compareHostFrom (index + 1) ⟨packet, offset + (label.length + 1), hops,
        expanded + label.length + 1⟩ rest = .ok none ∧
        eqHostFrom ⟨packet, offset + (label.length + 1), hops,
          expanded + label.length + 1⟩ rest = .ok true := ih (by omega)
    unfold compareHostFrom eqHostFrom
    rw [Labels.next_spelled here long small (by dsimp only; omega)]
    simp only [ok_bind, compareLabel_self]
    rw [if_pos (eqIgnoreAsciiCase_iff.mpr rfl)]
    exact inner

/-! ## Frames -/

theorem length_encode (labels : List Bytes) :
    (encode labels).length = Host.Name.wireSum labels := by
  induction labels with
  | nil => rfl
  | cons label rest ih =>
    unfold encode at ih ⊢
    rw [Host.Name.wireSum_cons, List.flatMap_cons, List.length_append, List.length_cons, ih]

/-- The length bytes of the labels take the place of the dots, and one more. -/
theorem wireSum_labels (name : Host.Name) :
    Host.Name.wireSum name.labels = name.bytes.length + 1 := by
  have spelled := congrArg List.length (spell_splitOn name.bytes)
  have kept : ∀ text : Bytes, (spell text).2.length = text.length := by
    intro text
    induction text with
    | nil => rfl
    | cons byte text ih =>
      change (if byte = dot then _ else _ : UInt8 × Bytes).2.length = _
      split
      · change ((spell text).1 :: (spell text).2).length = _
        rw [List.length_cons, List.length_cons, ih]
      · change (byte :: (spell text).2).length = _
        rw [List.length_cons, List.length_cons, ih]
  rw [length_encode, List.length_cons, kept] at spelled
  exact spelled.symm

/-- What the packet reader makes of a query: the id, the name of the question,
its type and class, and an extension record at the root, which ends the
packet. -/
structure Reads (packet : Packet) (builder : Builder) (record : Record) : Prop where
  id : Cursor.u16 .checked packet 0 = .ok (builder.id, 2)
  questions : Cursor.u16 .checked packet 4 = .ok (1, 6)
  answers : Cursor.u16 .checked packet 6 = .ok (0, 8)
  authorities : Cursor.u16 .checked packet 8 = .ok (0, 10)
  additionals : Cursor.u16 .checked packet 10 = .ok (1, 12)
  equal : compareHost packet ⟨12⟩ builder.name = .ok none ∧
    eqHost packet ⟨12⟩ builder.name = .ok true
  labels : ∃ expanded, expand packet ⟨12⟩ = .ok expanded ∧
    expanded.labels = .ok builder.name.labels
  question : ∃ stop, Cursor.name .checked packet 12 = .ok (⟨12⟩, stop) ∧
    Cursor.u16 .checked packet stop = .ok (builder.family.kind, stop + 2) ∧
    Cursor.u16 .checked packet (stop + 2) = .ok (classIn, stop + 4) ∧
    Cursor.record .checked packet (stop + 4) = .ok (record, packet.bytes.length)
  opt : record.kind = kindOpt ∧ compareRoot packet record.owner = .ok none

theorem expand_spelled (spells : Spells packet offset labels)
    (enough : labels.length < Host.Name.maxWireLen)
    (fits : Host.Name.wireSum labels + 1 ≤ Host.Name.maxWireLen) :
    ∃ expanded, expand packet ⟨offset⟩ = .ok expanded ∧ expanded.labels = .ok labels := by
  have scanned : Labels.scan Host.Name.maxWireLen (Wire.labels packet ⟨offset⟩) =
      .ok (0 + Host.Name.wireSum labels) := Labels.scan_spelled spells enough (by omega)
  rw [Nat.zero_add] at scanned
  refine ⟨⟨packet, offset, _, scanned⟩, ?_, ?_⟩
  · unfold expand
    split
    · rename_i remaining measured
      have same : remaining = Host.Name.wireSum labels :=
        Except.ok.inj (measured.symm.trans scanned)
      subst same
      rfl
    · rename_i error measured
      rw [scanned] at measured
      simp at measured
  · exact labelsFrom_spelled spells (Nat.le_of_lt enough)

theorem record_spelled {data : Bytes} (small : data.length < 65536)
    (h : At packet offset ([0] ++ toBeBytes 2 kindOpt ++ toBeBytes 2 ednsPayload ++ toBeBytes 4 0
      ++ toBeBytes 2 data.length ++ data)) :
    Cursor.record .checked packet offset =
      .ok (⟨⟨offset⟩, kindOpt, ednsPayload, 0, ⟨offset + 11, offset + 11 + data.length⟩⟩,
        offset + 11 + data.length) := by
  have root : Cursor.name .checked packet offset = .ok (⟨offset⟩, offset + 1) := by
    have named : Cursor.nameFrom .checked packet (packet.bytes.length + 1) offset 0 =
        .ok (offset + Host.Name.wireSum [] + 1) :=
      nameFrom_spelled (.root h.left.left.left.left.left) (Nat.succ_pos _) (by decide)
    unfold Cursor.name
    rw [named]
    rfl
  have kind : Cursor.u16 .checked packet (offset + 1) = .ok (kindOpt, offset + 3) :=
    h.left.left.left.left.right.number (by decide)
  have cls : Cursor.u16 .checked packet (offset + 3) = .ok (ednsPayload, offset + 5) :=
    h.left.left.left.right.number (by decide)
  have ttl : Cursor.u32 .checked packet (offset + 5) = .ok (0, offset + 9) :=
    h.left.left.right.number (by decide)
  have length : Cursor.u16 .checked packet (offset + 9) = .ok (data.length, offset + 11) :=
    h.left.right.number (by simpa using small)
  have body : Mode.read .checked packet (offset + 11) data.length =
      .ok ⟨data, offset + 11 + data.length⟩ := h.right.read
  unfold Cursor.record
  simp only [root, kind, cls, ttl, length, body, ok_bind]
  rfl

/-- A frame of the builder's layout reads as its query, with `data` as the data
of the extension record. -/
theorem reads_frame (packet : Packet) {builder : Builder} {data : Bytes}
    (whole : packet.bytes = header builder.id ++ encode builder.name.labels ++
      middle builder.family ++ (toBeBytes 4 0 ++ toBeBytes 2 data.length ++ data))
    (id : builder.id < 65536) (formed : builder.name.WellFormed)
    (small : data.length < 65536) :
    ∃ record, Reads packet builder record ∧ record.data.slice packet = data := by
  have sum := wireSum_labels builder.name
  have short := formed.short
  have fits : Host.Name.wireSum builder.name.labels + 1 ≤ Host.Name.maxWireLen := by
    unfold Host.Name.maxWireLen
    omega
  have few : builder.name.labels.length ≤ Host.Name.wireSum builder.name.labels := by
    generalize builder.name.labels = labels
    induction labels with
    | nil => exact Nat.zero_le _
    | cons label rest ih =>
      rw [Host.Name.wireSum_cons, List.length_cons]
      omega
  have start : At packet 0 (header builder.id ++ (encode builder.name.labels ++ [0] ++
      (toBeBytes 2 builder.family.kind ++ (toBeBytes 2 classIn ++ ([0] ++ toBeBytes 2 kindOpt ++
        toBeBytes 2 ednsPayload ++ toBeBytes 4 0 ++ toBeBytes 2 data.length ++ data))))) :=
    ⟨[], [], by rw [whole]; simp [middle], rfl⟩
  have counts : At packet 2 (toBeBytes 2 256 ++ (toBeBytes 2 1 ++ (toBeBytes 2 0 ++
      (toBeBytes 2 0 ++ toBeBytes 2 1)))) := start.left.right
  have spells := spells_encode formed.labels start.right.left
  have rest := start.right.right
  rw [List.length_append, length_encode] at rest
  have named : Cursor.nameFrom .checked packet (packet.bytes.length + 1) 12 0 =
      .ok (12 + Host.Name.wireSum builder.name.labels + 1) := by
    refine nameFrom_spelled spells ?_ (by omega)
    have inside := start.right.left.inside
    rw [List.length_append, length_encode] at inside
    omega
  have stopped := rest.right.right.inside
  have ended : packet.bytes.length = 12 + Host.Name.wireSum builder.name.labels + 1 + 4 + 11 +
      data.length := by
    rw [whole]
    simp only [List.length_append, length_encode, length_toBeBytes, middle, header,
      List.length_cons, List.length_nil]
    omega
  have record := record_spelled small rest.right.right
  have read : Cursor.record .checked packet
      (12 + Host.Name.wireSum builder.name.labels + 1 + 4) =
      .ok (⟨⟨12 + Host.Name.wireSum builder.name.labels + 1 + 4⟩, kindOpt, ednsPayload, 0,
        ⟨12 + Host.Name.wireSum builder.name.labels + 1 + 4 + 11, packet.bytes.length⟩⟩,
        packet.bytes.length) := by
    rw [ended]
    exact record
  refine ⟨_, ⟨start.left.left.number (by simpa using id), counts.right.left.number (by decide),
    counts.right.right.left.number (by decide), counts.right.right.right.left.number (by decide),
    counts.right.right.right.right.number (by decide),
    compareHostFrom_spelled spells (by omega), expand_spelled spells (by omega) fits,
    ⟨_, ?_, rest.left.number ?_, rest.right.left.number (by decide), read⟩, rfl, ?_⟩, ?_⟩
  · unfold Cursor.name
    rw [named]
    rfl
  · cases builder.family <;> decide
  · unfold compareRoot
    rw [Labels.next_root rest.right.right.left.left.left.left.left]
    rfl
  · have body := rest.right.right.right.slice
    unfold Span.slice
    rw [← body]
    congr 1
    dsimp only
    rw [ended]
    omega

/-! ## Cookies -/

/-- The data of the cookie option. -/
def cookieOption (client : Cookies.Client) (server : Bytes) : Bytes :=
  toBeBytes 2 Cookies.optionCode ++ toBeBytes 2 (Cookies.clientBytes + server.length) ++
    (toBeBytes 8 client.value ++ server)

theorem length_cookieOption (client : Cookies.Client) (server : Bytes) :
    (cookieOption client server).length = 12 + server.length := by
  unfold cookieOption Cookies.clientBytes
  simp only [List.length_append, length_toBeBytes]
  omega

/-- The option reader comes to the cookie option, and ends after it. -/
theorem fromOptions_cookie {client : Cookies.Client} {server : Bytes}
    (short : server.length ≤ Cookies.maxServerBytes) :
    Cookies.Server.fromOptions (cookieOption client server) client =
      (Cookies.Server.fromOption (toBeBytes 8 client.value ++ server) client).map some := by
  have total := length_cookieOption client server
  have bound : (cookieOption client server).length ≤ 65535 := by
    unfold Cookies.maxServerBytes at short
    omega
  have whole : At ⟨cookieOption client server, bound⟩ 0 (cookieOption client server) :=
    ⟨[], [], by simp, rfl⟩
  have code : Cursor.u16 .checked ⟨cookieOption client server, bound⟩ 0 =
      .ok (Cookies.optionCode, 2) := whole.left.left.number (by decide)
  have length : Cursor.u16 .checked ⟨cookieOption client server, bound⟩ 2 =
      .ok (Cookies.clientBytes + server.length, 4) := by
    refine whole.left.right.number ?_
    unfold Cookies.maxServerBytes at short
    unfold Cookies.clientBytes
    omega
  have data : bytes ⟨cookieOption client server, bound⟩ 4 (Cookies.clientBytes + server.length) =
      .ok ⟨toBeBytes 8 client.value ++ server, 4 + (Cookies.clientBytes + server.length)⟩ := by
    have size : (toBeBytes 8 client.value ++ server).length =
        Cookies.clientBytes + server.length := by
      rw [List.length_append, length_toBeBytes]
      rfl
    have read := whole.right.read
    rw [size] at read
    exact read
  unfold Cookies.Server.fromOptions
  rw [total]
  unfold Packet.tryNew
  rw [dif_pos bound]
  change Cookies.Server.fromOptionsAt _ client (12 + server.length) 0 none = _
  rw [show 12 + server.length = (10 + server.length) + 1 + 1 by omega]
  unfold Cookies.Server.fromOptionsAt
  rw [if_pos (by dsimp only; omega)]
  simp only [code, length, data, Cookies.lift, Except.mapError, ok_bind]
  rw [if_neg (by simp)]
  cases Cookies.Server.fromOption (toBeBytes 8 client.value ++ server) client with
  | error error => rfl
  | ok value =>
    change Cookies.Server.fromOptionsAt _ client _ _ (some value) = _
    unfold Cookies.Server.fromOptionsAt
    rw [if_neg]
    · rfl
    · dsimp only
      unfold Cookies.clientBytes
      omega

theorem fromOption_cookie {client : Cookies.Client} (fits : client.value < 2 ^ 64)
    (server : Cookies.Server) :
    Cookies.Server.fromOption (toBeBytes 8 client.value ++ server.bytes) client = .ok server := by
  have taken : (toBeBytes 8 client.value ++ server.bytes).take Cookies.clientBytes =
      toBeBytes 8 client.value := List.take_left' (length_toBeBytes 8 _)
  have left : (toBeBytes 8 client.value ++ server.bytes).drop Cookies.clientBytes =
      server.bytes := List.drop_left' (length_toBeBytes 8 _)
  have same : beBytes (toBeBytes 8 client.value) = client.value := beBytes_toBeBytes fits
  have minimum := server.minimum
  have maximum := server.maximum
  unfold Cookies.Server.fromOption
  rw [if_neg, taken, same, if_neg (by simp), dif_neg, dif_neg]
  · simp only [left]
  · rw [left]
    omega
  · rw [left]
    omega
  · rw [List.length_append, length_toBeBytes]
    unfold Cookies.clientBytes
    omega

theorem fromOption_bare {client : Cookies.Client} (fits : client.value < 2 ^ 64) :
    Cookies.Server.fromOption (toBeBytes 8 client.value ++ []) client =
      .error (.serverLength 0 Cookies.minServerBytes Cookies.maxServerBytes) := by
  have taken : (toBeBytes 8 client.value ++ []).take Cookies.clientBytes =
      toBeBytes 8 client.value := List.take_left' (length_toBeBytes 8 _)
  have left : (toBeBytes 8 client.value ++ []).drop Cookies.clientBytes = [] :=
    List.drop_left' (length_toBeBytes 8 _)
  have same : beBytes (toBeBytes 8 client.value) = client.value := beBytes_toBeBytes fits
  unfold Cookies.Server.fromOption
  rw [if_neg, taken, same, if_neg (by simp), dif_pos, left]
  · rfl
  · rw [left]
    decide
  · rw [List.length_append, length_toBeBytes]
    decide

/-! ## Both transports -/

/-- A host name is parsed from text or decoded from a packet. -/
inductive Built (name : Host.Name) : Prop where
  | parsed {input : Bytes} : Host.Name.parse input = some (.ok name) → Built name
  | decoded {expanded : Expanded} : tryDecode expanded = some (.ok name) → Built name

theorem Built.wellFormed {name : Host.Name} (built : Built name) : name.WellFormed := by
  cases built with
  | parsed h => exact (Host.Name.assemble_ok (List.splitOn_ne_nil dot _) h).1
  | @decoded expanded h =>
    obtain ⟨items, -, replayed, sum⟩ := expanded.labels_ok
    unfold tryDecode at h
    split at h
    · simp at h
    · rename_i present
      rw [replayed] at h
      refine (Host.Name.assemble_ok ?_ h).1
      rintro rfl
      exact present sum.symm

/-- Every query reads back. On either transport the reader finds the id, the
question with the labels of the name, and an extension record that ends the
packet. The record of a datagram holds the client value and the server value:
the option reader, which expects both, returns the server value, and without one
it stops at the missing bytes. The record of a stream frame holds no option, and
its length comes before the frame. -/
theorem frames_read {builder : Builder} (built : Built builder.name)
    (id : builder.id < 65536) {client : Cookies.Client} (fits : client.value < 2 ^ 64)
    (server : Option Cookies.Server) :
    (∃ packet record, Packet.tryNew (builder.udp client server) = .ok packet ∧
      Reads packet builder record ∧
      record.data.slice packet =
        cookieOption client ((server.map Cookies.Server.bytes).getD []) ∧
      (∀ value, server = some value →
        Cookies.Server.fromOptions (record.data.slice packet) client = .ok (some value)) ∧
      (server = none → Cookies.Server.fromOptions (record.data.slice packet) client =
        .error (.serverLength 0 Cookies.minServerBytes Cookies.maxServerBytes))) ∧
    ∃ packet record, beBytes (builder.tcp.take 2) = (builder.tcp.drop 2).length ∧
      Packet.tryNew (builder.tcp.drop 2) = .ok packet ∧ Reads packet builder record ∧
      Cookies.Server.fromOptions (record.data.slice packet) client = .ok none := by
  have formed := built.wellFormed
  have short := formed.short
  have sum := wireSum_labels builder.name
  unfold Host.maxPresentationLen at short
  constructor
  · generalize valued : (server.map Cookies.Server.bytes).getD [] = value
    have room : value.length ≤ Cookies.maxServerBytes := by
      cases server with
      | none =>
          rw [← valued]
          exact Nat.zero_le _
      | some server =>
          rw [← valued]
          exact server.maximum
    have size := length_cookieOption client value
    have frame : builder.udp client server = header builder.id ++ encode builder.name.labels ++
        middle builder.family ++ (toBeBytes 4 0 ++ toBeBytes 2 (cookieOption client value).length ++
          cookieOption client value) := by
      have sizes : optionHeaderBytes + (Cookies.clientBytes + value.length) =
          (cookieOption client value).length := by
        rw [size]
        unfold optionHeaderBytes Cookies.clientBytes
        omega
      rw [udp_eq, valued, options, sizes]
      rfl
    have bound : (builder.udp client server).length ≤ 65535 := by
      rw [frame]
      unfold Cookies.maxServerBytes at room
      simp only [List.length_append, length_encode, length_toBeBytes, middle, header,
        List.length_cons, List.length_nil]
      omega
    obtain ⟨record, reads, data⟩ := reads_frame ⟨_, bound⟩ frame id formed (by
      unfold Cookies.maxServerBytes at room
      omega)
    refine ⟨⟨_, bound⟩, record, ?_, reads, data, ?_, ?_⟩
    · unfold Packet.tryNew
      rw [dif_pos bound]
    · rintro server rfl
      have same : value = server.bytes := valued.symm
      rw [data, fromOptions_cookie room, same, fromOption_cookie fits]
      rfl
    · rintro rfl
      have same : value = [] := valued.symm
      rw [data, fromOptions_cookie room, same, fromOption_bare fits]
      rfl
  · have split := tcp_eq builder
    have frame : builder.tcp.drop 2 = header builder.id ++ encode builder.name.labels ++
        middle builder.family ++ (toBeBytes 4 0 ++ toBeBytes 2 ([] : Bytes).length ++ []) := by
      rw [split, List.drop_left' (length_toBeBytes 2 _)]
      rfl
    have size : (builder.tcp.drop 2).length = 27 + builder.name.wireLen := by
      rw [frame]
      unfold Host.Name.wireLen
      simp only [List.length_append, length_encode, length_toBeBytes, middle, header,
        List.length_cons, List.length_nil]
      omega
    have bound : (builder.tcp.drop 2).length ≤ 65535 := by
      rw [size]
      unfold Host.Name.wireLen
      omega
    obtain ⟨record, reads, data⟩ := reads_frame ⟨_, bound⟩ frame id formed (by simp)
    refine ⟨⟨_, bound⟩, record, ?_, ?_, reads, ?_⟩
    · rw [split, List.take_left' (length_toBeBytes 2 _), ← split, size]
      refine beBytes_toBeBytes ?_
      unfold Host.Name.wireLen
      omega
    · unfold Packet.tryNew
      rw [dif_pos bound]
    · rw [data]
      rfl

namespace Sample

def query : Builder := ⟨7, ⟨[97]⟩, .four⟩

def client : Cookies.Client := ⟨5⟩

def server : Cookies.Server := ⟨[1, 2, 3, 4, 5, 6, 7, 8], by decide, by decide⟩

end Sample

/-- The option reader refuses the client value alone, which is what a request
without a server value carries. -/
theorem bare_cookie_refused :
    ∃ packet record, Packet.tryNew (Sample.query.udp Sample.client none) = .ok packet ∧
      Cursor.record .checked packet 19 = .ok (record, packet.bytes.length) ∧
      record.kind = kindOpt ∧
      Cookies.Server.fromOptions (record.data.slice packet) Sample.client =
        .error (.serverLength 0 8 32) :=
  ⟨_, _, rfl, rfl, rfl, rfl⟩

theorem frames_read_example :
    ∃ packet record,
      Packet.tryNew (Sample.query.udp Sample.client (some Sample.server)) = .ok packet ∧
      Reads packet Sample.query record ∧
      Cookies.Server.fromOptions (record.data.slice packet) Sample.client =
        .ok (some Sample.server) := by
  have parsed : Host.Name.parse [97] = some (.ok ⟨[97]⟩) := rfl
  have built : Built Sample.query.name := .parsed parsed
  obtain ⟨⟨packet, record, opened, reads, -, carried, -⟩, -⟩ :=
    frames_read built (by decide) (by decide : Sample.client.value < 2 ^ 64) (some Sample.server)
  exact ⟨packet, record, opened, reads, carried _ rfl⟩

end Dope.Dns.Wire
