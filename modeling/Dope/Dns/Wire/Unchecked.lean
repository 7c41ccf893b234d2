import Dope.Dns.Wire.Integrity
import Dope.Dns.Wire.Replay

/-! # Unchecked iteration

`Records` and `Expanded` walk a range again that was traversed once, without
the bounds, pointer and tag checks. Here they are iterators, one item a call. A
call that would read outside the packet, or take the remaining length below
zero, has no value.
-/

namespace Dope.Dns.Wire

open Run

/-! ## Records -/

namespace Records

def next (records : Records) : Except Error.Packet (Option (Record × Records)) :=
  match records.left with
  | 0 => .ok none
  | left + 1 => do
      let (record, position) ← Cursor.record .validated records.packet records.position
      .ok (some (record, { records with position := position, left := left }))

/-- The iterator returns `items` one by one, and then ends. -/
inductive Yields : Records → List Record → Prop where
  | done {records : Records} : records.next = .ok none → Yields records []
  | item {records rest : Records} {record : Record} {items : List Record} :
      records.next = .ok (some (record, rest)) → Yields rest items →
      Yields records (record :: items)

end Records

/-- The records that a checked cursor reads one after the other. -/
inductive Cursor.Reads (packet : Packet) : Nat → List Record → Nat → Prop where
  | done {position : Nat} : Reads packet position [] position
  | item {position next stop : Nat} {record : Record} {items : List Record} :
      Cursor.record .checked packet position = .ok (record, next) →
      Reads packet next items stop → Reads packet position (record :: items) stop

/-- The offsets that a record keeps are inside the packet. -/
structure Record.Inside (packet : Packet) (record : Record) : Prop where
  owner : record.owner.offset < packet.bytes.length
  ordered : record.data.start ≤ record.data.stop
  data : record.data.stop ≤ packet.bytes.length

variable {position stop : Nat}

theorem Ends.lt {packet : Packet} (h : Ends packet position stop) : position < stop := by
  induction h <;> omega

theorem RecordAt.bounds {packet : Packet} {record : Record}
    (h : RecordAt packet position record stop) : record.Inside packet := by
  obtain ⟨fixed, ends, -, -, -, data, stops⟩ := h.fields
  have lt := ends.lt
  have inside := h.inside
  constructor
  · rw [h.owner]
    change position < packet.bytes.length
    omega
  · rw [data]
    change fixed + 10 ≤ stop
    omega
  · rw [data]
    exact inside

theorem Cursor.Reads.inside {packet : Packet} {items : List Record}
    (h : Reads packet position items stop) : ∀ record ∈ items, record.Inside packet := by
  induction h with
  | done => simp
  | item read _ ih =>
    intro record mem
    rcases List.mem_cons.mp mem with rfl | mem
    · exact (record_ok read).bounds
    · exact ih record mem

/-- Each item of the checked sequence is an item of the replay. -/
theorem Cursor.Reads.yields {packet : Packet} {items : List Record}
    (h : Reads packet position items stop) :
    Records.Yields ⟨packet, position, items.length⟩ items := by
  induction h with
  | done => exact .done rfl
  | @item position next stop record items read _ ih =>
    apply Records.Yields.item _ ih
    rw [Records.next, List.length_cons]
    dsimp only
    rw [record_validated read]
    rfl

/-- A traversal hands the checked sequence to its reader. -/
theorem Cursor.reads_of_recordsFrom {σ : Type} {packet : Packet}
    {read : σ → Record → Except Error.Packet σ} {count : Nat} {state last : σ}
    (h : Cursor.recordsFrom packet read count state position = .ok (last, stop)) :
    ∃ items, Reads packet position items stop ∧ items.length = count ∧
      items.foldlM read state = .ok last := by
  induction count generalizing state position with
  | zero =>
    cases h
    exact ⟨[], .done, rfl, rfl⟩
  | succ count ih =>
    unfold Cursor.recordsFrom at h
    obtain ⟨⟨record, next⟩, found, h⟩ := bind_ok.mp h
    obtain ⟨middle, took, h⟩ := bind_ok.mp h
    obtain ⟨items, reads, counted, folded⟩ := ih h
    refine ⟨record :: items, .item found reads, by rw [List.length_cons, counted], ?_⟩
    rw [List.foldlM_cons, took]
    exact folded

/-! ## Labels -/

namespace Expanded

/-- What is left of a replay. -/
structure Rest where
  packet : Packet
  position : Nat
  remaining : Nat

def rest (expanded : Expanded) : Rest := ⟨expanded.packet, expanded.position, expanded.remaining⟩

namespace Rest

/-- The error of the subtraction stands for its underflow. -/
def next (rest : Rest) : Except Error.Packet (Option (Bytes × Rest)) :=
  if rest.remaining = 0 then .ok none
  else do
    let read ← labelFrom rest.packet (maxPointerHops + 1) rest.position
    if rest.remaining < read.bytes.length + 1 then
      .error (.nameLength (read.bytes.length + 1) rest.remaining)
    else
      .ok (some (read.bytes, { rest with
        position := read.stop
        remaining := rest.remaining - (read.bytes.length + 1) }))

/-- The iterator returns `items` one by one, each taken off a remaining length
that covers it, and ends when nothing remains. -/
inductive Yields : Rest → List Bytes → Prop where
  | done {rest : Rest} : rest.remaining = 0 → rest.next = .ok none → Yields rest []
  | item {rest after : Rest} {label : Bytes} {items : List Bytes} :
      rest.next = .ok (some (label, after)) →
      rest.remaining = after.remaining + (label.length + 1) → Yields after items →
      Yields rest (label :: items)

end Rest

/-- After a scan from `labels` the replay returns the same labels. -/
theorem yields_of_scan {fuel total : Nat} {labels : Labels}
    (h : Labels.scan fuel labels = .ok total) :
    labels.expandedLen ≤ total ∧ ∃ items, Traverses labels items ∧
      Rest.Yields ⟨labels.packet, labels.position, total - labels.expandedLen⟩ items := by
  induction fuel generalizing labels with
  | zero => simp [Labels.scan] at h
  | succ fuel ih =>
    unfold Labels.scan at h
    obtain ⟨step, stepped, h⟩ := bind_ok.mp h
    cases step with
    | none =>
      cases h
      refine ⟨Nat.le_refl _, [], .done stepped, .done ?_ ?_⟩
      · exact Nat.sub_self _
      · simp [Rest.next]
    | some entry =>
      obtain ⟨label, after⟩ := entry
      obtain ⟨same, grown, -, found⟩ := Labels.nextFrom_some stepped
      obtain ⟨below, items, traverses, yields⟩ := ih h
      rw [same] at yields
      have taken : total - labels.expandedLen - (label.length + 1) =
          total - after.expandedLen := by omega
      refine ⟨by omega, label :: items, .step stepped traverses, .item ?_ ?_ yields⟩
      · unfold Rest.next
        dsimp only
        rw [if_neg (by omega), found, ok_bind]
        dsimp only
        rw [if_neg (by omega), taken]
      · dsimp only
        omega

end Expanded

/-! ## Replay and parsing -/

/-- Whatever a checked traversal read, the unchecked iterators return again,
without a read outside the packet and without an underflow. -/
theorem replay_checked (packet : Packet) :
    (∀ {σ : Type} (position count stop : Nat) (read : σ → Record → Except Error.Packet σ)
        (state last : σ) (records : Records),
      Cursor.records packet position count read state = .ok (last, records, stop) →
      ∃ items, Cursor.Reads packet position items stop ∧ items.length = count ∧
        items.foldlM read state = .ok last ∧ records.Yields items ∧
        ∀ record ∈ items, record.Inside packet) ∧
    (∀ (name : Name) (expanded : Expanded), expand packet name = .ok expanded →
      ∃ items, Traverses (labels packet name) items ∧ expanded.rest.Yields items) := by
  constructor
  · intro σ position count stop read state last records h
    unfold Cursor.records at h
    obtain ⟨⟨last', stop'⟩, traversed, h⟩ := bind_ok.mp h
    obtain ⟨items, reads, counted, folded⟩ := Cursor.reads_of_recordsFrom traversed
    cases h
    refine ⟨items, reads, counted, folded, ?_, reads.inside⟩
    rw [← counted]
    exact reads.yields
  · intro name expanded h
    unfold expand at h
    split at h
    · rename_i remaining scanned
      cases h
      obtain ⟨-, items, traverses, yields⟩ := Expanded.yields_of_scan scanned
      exact ⟨items, traverses, yields⟩
    · simp at h

namespace Unchecked

/-- A name, a record that it owns, and a record whose owner points back to it. -/
def packet : Packet :=
  ⟨[1, 97, 0] ++ [1, 98, 0xc0, 0, 0, 1, 0, 1, 0, 0, 0, 5, 0, 1, 9] ++
    [0xc0, 3, 0, 5, 0, 1, 0x80, 0, 0, 0, 0, 0], by decide⟩

end Unchecked

theorem replay_checked_example :
    (∃ items records, Cursor.Reads Unchecked.packet 3 items 30 ∧ items.length = 2 ∧
      Records.Yields records items) ∧
    ∃ expanded items, expand Unchecked.packet ⟨18⟩ = .ok expanded ∧
      Traverses (labels Unchecked.packet ⟨18⟩) items ∧ expanded.rest.Yields items := by
  have collected : ∃ last records, Cursor.records Unchecked.packet 3 2
      (fun n _ => .ok (n + 1)) 0 = .ok (last, records, 30) := ⟨2, ⟨_, 3, 2⟩, by rfl⟩
  have measured : ∃ expanded, expand Unchecked.packet ⟨18⟩ = .ok expanded := by
    have scanned : Labels.scan Host.Name.maxWireLen (labels Unchecked.packet ⟨18⟩) = .ok 4 := by
      decide +kernel
    unfold expand
    split
    · exact ⟨_, rfl⟩
    · simp_all
  obtain ⟨last, records, run⟩ := collected
  obtain ⟨expanded, expands⟩ := measured
  obtain ⟨items, reads, counted, -, yields, -⟩ :=
    (replay_checked Unchecked.packet).1 3 2 30 _ 0 last records run
  obtain ⟨labels, traverses, replayed⟩ := (replay_checked Unchecked.packet).2 ⟨18⟩ expanded expands
  exact ⟨⟨items, records, reads, counted, yields⟩, expanded, labels, expands, traverses, replayed⟩

end Dope.Dns.Wire
