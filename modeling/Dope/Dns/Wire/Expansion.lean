import Mathlib.Algebra.GroupWithZero.Nat
import Dope.Dns.Wire.Integrity
import Dope.Dns.Wire.Replay

/-! # Expansion within sixteen bits

`Labels` once more, with offsets as wide as the source holds them and one turn
of its loop at a time. A pointer aims before its own position, but labels may
run forward over it again, so the offsets do not decrease. What grows is the
number of jumps and the expanded length, and both have a limit.
-/

namespace Dope.Dns.Wire.Narrow

open Run

structure Read where
  bytes : Bytes
  stop : UInt16

inductive Part where
  | label (read : Read)
  | pointer (target stop : UInt16)

/-- The sum is a `usize`; the offset behind the range keeps its low half. -/
def bytes (packet : Packet) (offset required : UInt16) : Except Error.Packet Read :=
  let stop := offset.toNat + required.toNat
  if stop ≤ packet.bytes.length then
    .ok ⟨slice packet offset.toNat required.toNat, UInt16.ofNat stop⟩
  else .error (.truncated offset.toNat required.toNat (packet.bytes.length - offset.toNat))

def fromBeBytes (high low : UInt8) : UInt16 := high.toUInt16 <<< 8 ||| low.toUInt16

def checkPointer (packet : Packet) (position target : UInt16) : Except Error.Packet Unit :=
  if packet.bytes.length ≤ target.toNat ∨ position ≤ target then
    .error (.pointer position.toNat target.toNat packet.bytes.length)
  else .ok ()

/-- `Label::try_read`. -/
def tryRead (packet : Packet) (position : UInt16) : Except Error.Packet Part := do
  let header ← bytes packet position 1
  let length := header.bytes.headD 0
  if length &&& 0xc0 = 0xc0 then
    let pair ← bytes packet position 2
    let target := fromBeBytes (length &&& 0x3f) (pair.bytes.getD 1 0)
    checkPointer packet position target
    .ok (.pointer target pair.stop)
  else
    checkTag position.toNat length
    let read ← bytes packet header.stop length.toUInt16
    .ok (.label read)

structure Labels where
  packet : Packet
  position : UInt16
  pointerHops : Nat
  expandedLen : Nat

def labels (packet : Packet) (start : UInt16) : Labels := ⟨packet, start, 0, 0⟩

/-- How a turn of the loop in `next` goes on. -/
inductive Turn where
  | followed (rest : Labels)
  | returned (label : Bytes) (rest : Labels)
  | ended
  | failed (error : Error.Packet)

def Labels.turn (labels : Labels) : Turn :=
  match tryRead labels.packet labels.position with
  | .error error => .failed error
  | .ok (.pointer target _) =>
      let hops := labels.pointerHops + 1
      if maxPointerHops < hops then .failed (.pointerHops hops maxPointerHops)
      else .followed { labels with pointerHops := hops, position := target }
  | .ok (.label read) =>
      if read.bytes = [] then .ended
      else
        let total := labels.expandedLen + read.bytes.length + 1
        if Host.Name.maxWireLen < total + 1 then
          .failed (.nameLength (total + 1) Host.Name.maxWireLen)
        else .returned read.bytes { labels with position := read.stop, expandedLen := total }

/-! ## Offsets without a width -/

def Read.widen (read : Read) : Wire.Read := ⟨read.bytes, read.stop.toNat⟩

def Part.widen : Part → Wire.Part
  | .label read => .label read.widen
  | .pointer target stop => .pointer target.toNat stop.toNat

def Labels.widen (labels : Labels) : Wire.Labels :=
  ⟨labels.packet, labels.position.toNat, labels.pointerHops, labels.expandedLen⟩

theorem fromBeBytes_toNat (high low : UInt8) :
    (fromBeBytes high low).toNat = beBytes [high, low] := by
  have top := high.toNat_lt
  have bottom := low.toNat_lt
  have shift : (8 : UInt16).toNat % 16 = 8 := by rfl
  have shifted : high.toNat <<< 8 % 2 ^ 16 = high.toNat <<< 8 := by
    rw [Nat.shiftLeft_eq]
    omega
  have joined : high.toNat <<< 8 ||| low.toNat = high.toNat <<< 8 + low.toNat :=
    (Nat.shiftLeft_add_eq_or_of_lt bottom high.toNat).symm
  simp only [fromBeBytes, beBytes, UInt16.toNat_or, UInt16.toNat_shiftLeft, UInt8.toNat_toUInt16,
    List.foldl_cons, List.foldl_nil]
  rw [shift, shifted, joined, Nat.shiftLeft_eq]
  omega

/-- An offset behind a range in the packet is not cut. -/
theorem bytes_stop {packet : Packet} {offset required : UInt16} {read : Read}
    (h : bytes packet offset required = .ok read) :
    read.stop.toNat = offset.toNat + required.toNat ∧
      read.stop.toNat ≤ packet.bytes.length := by
  have bound := packet.bound
  unfold bytes at h
  dsimp only at h
  split at h
  · cases h
    have whole : (UInt16.ofNat (offset.toNat + required.toNat)).toNat =
        offset.toNat + required.toNat := by
      rw [UInt16.toNat_ofNat']
      omega
    exact ⟨whole, by dsimp only; omega⟩
  · simp at h

theorem bytes_widen (packet : Packet) (offset required : UInt16) :
    (bytes packet offset required).map Read.widen =
      Wire.bytes packet offset.toNat required.toNat := by
  have stops := @bytes_stop packet offset required
  unfold bytes Wire.bytes at *
  dsimp only at *
  split
  · rename_i inside
    rw [if_pos inside] at stops
    simp only [Except.map, Read.widen, (stops rfl).1]
  · rfl

theorem checkPointer_widen (packet : Packet) (position target : UInt16) :
    checkPointer packet position target =
      Wire.checkPointer packet position.toNat target.toNat := by
  unfold checkPointer Wire.checkPointer
  simp only [UInt16.le_iff_toNat_le]

theorem tryRead_widen (packet : Packet) (position : UInt16) :
    (tryRead packet position).map Part.widen =
      Label.decode .checked packet position.toNat := by
  have first : (bytes packet position 1).map Read.widen =
      Wire.bytes packet position.toNat 1 := bytes_widen packet position 1
  have second : (bytes packet position 2).map Read.widen =
      Wire.bytes packet position.toNat 2 := bytes_widen packet position 2
  unfold tryRead Label.decode Mode.read Mode.check
  dsimp only
  rw [← first]
  cases bytes packet position 1 with
  | error error => rfl
  | ok header =>
    have opened : (Except.ok header : Except Error.Packet Read).map Read.widen =
        .ok header.widen := rfl
    rw [opened, ok_bind, ok_bind]
    by_cases tag : header.bytes.headD 0 &&& 0xc0 = 0xc0
    · have tag' : header.widen.bytes.headD 0 &&& 0xc0 = 0xc0 := tag
      rw [if_pos tag, if_pos tag', ← second]
      cases bytes packet position 2 with
      | error error => rfl
      | ok pair =>
        have opened : (Except.ok pair : Except Error.Packet Read).map Read.widen =
            .ok pair.widen := rfl
        rw [opened, ok_bind, ok_bind]
        dsimp only [Read.widen]
        rw [← fromBeBytes_toNat, ← checkPointer_widen]
        cases checkPointer packet position _ <;> rfl
    · have third := bytes_widen packet header.stop (header.bytes.headD 0).toUInt16
      rw [UInt8.toNat_toUInt16] at third
      have tag' : ¬ header.widen.bytes.headD 0 &&& 0xc0 = 0xc0 := tag
      rw [if_neg tag, if_neg tag']
      dsimp only [Read.widen]
      rw [← third]
      cases checkTag position.toNat (header.bytes.headD 0) with
      | error error => rfl
      | ok => cases bytes packet header.stop (header.bytes.headD 0).toUInt16 <;> rfl

/-! ## Runs -/

/-- What a turn that goes on has done. -/
inductive Event where
  | jumped
  | spelled (label : Bytes)

def Event.hops : Event → Nat
  | .jumped => 1
  | .spelled _ => 0

def Event.label : Event → Option Bytes
  | .jumped => none
  | .spelled label => some label

def hops (run : List Event) : Nat := (run.map Event.hops).sum

def name (run : List Event) : List Bytes := run.filterMap Event.label

@[simp] theorem hops_nil : hops [] = 0 := rfl

@[simp] theorem hops_jumped (run : List Event) : hops (run ++ [.jumped]) = hops run + 1 := by
  simp [hops, Event.hops]

@[simp] theorem hops_spelled (run : List Event) (label : Bytes) :
    hops (run ++ [.spelled label]) = hops run := by
  simp [hops, Event.hops]

@[simp] theorem name_nil : name [] = [] := rfl

@[simp] theorem name_jumped (run : List Event) : name (run ++ [.jumped]) = name run := by
  have none : [Event.jumped].filterMap Event.label = [] := rfl
  rw [name, List.filterMap_append, none, List.append_nil]
  rfl

@[simp] theorem name_spelled (run : List Event) (label : Bytes) :
    name (run ++ [.spelled label]) = name run ++ [label] := by
  have one : [Event.spelled label].filterMap Event.label = [label] := rfl
  rw [name, List.filterMap_append, one]
  rfl

/-- The turns of the loop, over the calls of `next`. -/
inductive Runs (origin : Labels) : List Event → Labels → Prop where
  | start : Runs origin [] origin
  | follow {run : List Event} {labels rest : Labels} :
      Runs origin run labels → labels.turn = .followed rest →
      Runs origin (run ++ [.jumped]) rest
  | take {run : List Event} {labels rest : Labels} {label : Bytes} :
      Runs origin run labels → labels.turn = .returned label rest →
      Runs origin (run ++ [.spelled label]) rest

theorem Runs.trans {origin labels last : Labels} {run run' : List Event}
    (h : Runs origin run labels) (h' : Runs labels run' last) : Runs origin (run ++ run') last := by
  induction h' with
  | start =>
    rw [List.append_nil]
    exact h
  | follow _ turn ih =>
    rw [← List.append_assoc]
    exact .follow ih turn
  | take _ turn ih =>
    rw [← List.append_assoc]
    exact .take ih turn

/-- A pointer is followed below the limit of the jumps. -/
theorem Labels.turn_followed {labels rest : Labels} (h : labels.turn = .followed rest) :
    rest.pointerHops = labels.pointerHops + 1 ∧ rest.pointerHops ≤ maxPointerHops ∧
      rest.expandedLen = labels.expandedLen := by
  unfold Labels.turn at h
  dsimp only at h
  split at h
  · cases h
  · split at h
    · cases h
    · cases h
      exact ⟨rfl, by dsimp only; omega, rfl⟩
  · split at h
    · cases h
    · split at h <;> cases h

/-- A label is returned below the limit of the length. -/
theorem Labels.turn_returned {labels rest : Labels} {label : Bytes}
    (h : labels.turn = .returned label rest) :
    rest.expandedLen = labels.expandedLen + (label.length + 1) ∧
      rest.expandedLen + 1 ≤ Host.Name.maxWireLen ∧ rest.pointerHops = labels.pointerHops ∧
      0 < label.length := by
  unfold Labels.turn at h
  dsimp only at h
  split at h
  · cases h
  · split at h <;> cases h
  · split at h
    · cases h
    · rename_i some
      split at h
      · cases h
      · cases h
        exact ⟨rfl, by dsimp only; omega, rfl, List.length_pos_iff.mpr some⟩

/-- The counters say what has happened, and both are below their limits. -/
structure Counted (run : List Event) (labels : Labels) : Prop where
  hops : labels.pointerHops = hops run
  len : labels.expandedLen = Host.Name.wireSum (name run)
  jumps : labels.pointerHops ≤ maxPointerHops
  fits : labels.expandedLen + 1 ≤ Host.Name.maxWireLen
  turns : run.length = Narrow.hops run + (name run).length
  labels : 2 * (name run).length ≤ labels.expandedLen

variable {packet : Packet}

theorem Runs.counted {start : UInt16} {run : List Event} {state : Labels}
    (h : Runs (labels packet start) run state) : Counted run state := by
  induction h with
  | start =>
    have fits : 0 + 1 ≤ Host.Name.maxWireLen := by decide
    exact ⟨rfl, rfl, Nat.zero_le _, fits, rfl, Nat.le_refl _⟩
  | @follow run labels rest _ turn ih =>
    rcases Labels.turn_followed turn with ⟨hops, below, len⟩
    have counted := ih.hops
    have turns := ih.turns
    constructor
    · rw [hops_jumped]
      omega
    · rw [name_jumped, len, ih.len]
    · exact below
    · rw [len]
      exact ih.fits
    · rw [hops_jumped, name_jumped, List.length_append, List.length_singleton]
      omega
    · rw [name_jumped, len]
      exact ih.labels
  | @take run labels rest label _ turn ih =>
    rcases Labels.turn_returned turn with ⟨len, fits, hops, some⟩
    have counted := ih.hops
    have turns := ih.turns
    have taken := ih.labels
    have same := ih.len
    constructor
    · rw [hops_spelled]
      omega
    · rw [name_spelled, len, same]
      simp [Host.Name.wireSum]
    · rw [hops]
      exact ih.jumps
    · exact fits
    · rw [hops_spelled, name_spelled, List.length_append, List.length_append,
        List.length_singleton, List.length_singleton]
      omega
    · rw [name_spelled, List.length_append, List.length_singleton]
      omega

/-! ## The end of a run -/

theorem Labels.widen_turn (labels : Labels) (fuel : Nat) :
    Wire.Labels.nextFrom (fuel + 1) labels.widen =
      match labels.turn with
      | .followed rest => Wire.Labels.nextFrom fuel rest.widen
      | .returned label rest => .ok (some (label, rest.widen))
      | .ended => .ok none
      | .failed error => .error error := by
  have decoded := tryRead_widen labels.packet labels.position
  rw [Wire.Labels.nextFrom]
  unfold Labels.turn Labels.widen
  dsimp only
  rw [← decoded]
  cases tryRead labels.packet labels.position with
  | error error => rfl
  | ok part =>
    have opened : (Except.ok part : Except Error.Packet Part).map Part.widen =
        .ok part.widen := rfl
    rw [opened, ok_bind]
    cases part with
    | pointer target stop =>
      dsimp only [Part.widen]
      split <;> rfl
    | label read =>
      dsimp only [Part.widen, Read.widen]
      split
      · rfl
      · split <;> rfl

/-- A call of `next` ends: the jumps that are left bound its turns. -/
theorem Labels.next_ends {fuel : Nat} {labels : Labels}
    (enough : maxPointerHops + 1 ≤ fuel + labels.pointerHops)
    (below : labels.pointerHops ≤ maxPointerHops) :
    ∃ run last, Runs labels run last ∧ name run = [] ∧ last.expandedLen = labels.expandedLen ∧
      last.pointerHops ≤ maxPointerHops ∧
      ((∃ label rest, last.turn = .returned label rest ∧
          Wire.Labels.nextFrom fuel labels.widen = .ok (some (label, rest.widen))) ∨
        (last.turn = .ended ∧ Wire.Labels.nextFrom fuel labels.widen = .ok none) ∨
        ∃ error, last.turn = .failed error ∧
          Wire.Labels.nextFrom fuel labels.widen = .error error) := by
  induction fuel generalizing labels with
  | zero => omega
  | succ fuel ih =>
    have turned := labels.widen_turn fuel
    cases turn : labels.turn with
    | followed rest =>
      rw [turn] at turned
      dsimp only at turned
      rcases turn_followed turn with ⟨hops, below', len⟩
      rcases @ih rest (by omega) below' with
        ⟨run, last, runs, silent, same, below, ends⟩
      have first : Runs labels ([] ++ [.jumped]) rest := .follow .start turn
      have unnamed : name ([.jumped] ++ run) = name run := rfl
      rw [← turned] at ends
      exact ⟨[.jumped] ++ run, last, first.trans runs, unnamed.trans silent,
        same.trans len, below, ends⟩
    | returned label rest =>
      rw [turn] at turned
      dsimp only at turned
      exact ⟨[], labels, .start, rfl, rfl, below, .inl ⟨label, rest, turn, turned⟩⟩
    | ended =>
      rw [turn] at turned
      dsimp only at turned
      exact ⟨[], labels, .start, rfl, rfl, below, .inr (.inl ⟨turn, turned⟩)⟩
    | failed error =>
      rw [turn] at turned
      dsimp only at turned
      exact ⟨[], labels, .start, rfl, rfl, below, .inr (.inr ⟨error, turn, turned⟩)⟩

/-- An iteration ends: the length that is left bound its calls. -/
theorem Labels.scan_ends {fuel : Nat} {labels : Labels}
    (enough : Host.Name.maxWireLen ≤ fuel + labels.expandedLen)
    (below : labels.pointerHops ≤ maxPointerHops)
    (fits : labels.expandedLen + 1 ≤ Host.Name.maxWireLen) :
    ∃ run last, Runs labels run last ∧
      ((last.turn = .ended ∧ Wire.Labels.scan fuel labels.widen = .ok last.expandedLen) ∨
        ∃ error, last.turn = .failed error ∧
          Wire.Labels.scan fuel labels.widen = .error error) := by
  induction fuel generalizing labels with
  | zero => omega
  | succ fuel ih =>
    unfold Wire.Labels.scan Wire.Labels.next
    rcases @Labels.next_ends (maxPointerHops + 1) labels (by omega) below with
      ⟨run, last, runs, -, len, below', ends⟩
    rcases ends with ⟨label, rest, turn, next⟩ | ⟨turn, next⟩ | ⟨error, turn, next⟩
    · rcases turn_returned turn with ⟨grown, fits', hops, -⟩
      rw [next]
      rcases @ih rest (by omega) (by omega) fits' with ⟨run', last', runs', ends'⟩
      have taken : Runs labels (run ++ [.spelled label]) rest := .take runs turn
      exact ⟨_, last', taken.trans runs', ends'⟩
    · rw [next]
      refine ⟨run, last, runs, .inl ⟨turn, ?_⟩⟩
      rw [len]
      rfl
    · rw [next]
      exact ⟨run, last, runs, .inr ⟨error, turn, rfl⟩⟩

theorem expand_ok {start total : Nat}
    (h : Wire.Labels.scan Host.Name.maxWireLen ⟨packet, start, 0, 0⟩ = .ok total) :
    ∃ expanded, expand packet ⟨start⟩ = .ok expanded ∧ expanded.remaining = total := by
  unfold expand
  split
  · rename_i remaining scanned
    have same : remaining = total := Except.ok.inj (scanned.symm.trans h)
    exact ⟨_, rfl, same⟩
  · rename_i error scanned
    exact absurd (scanned.symm.trans h) (by simp)

theorem expand_error {start : Nat} {error : Error.Packet}
    (h : Wire.Labels.scan Host.Name.maxWireLen ⟨packet, start, 0, 0⟩ = .error error) :
    expand packet ⟨start⟩ = .error error := by
  unfold expand
  split
  · rename_i remaining scanned
    exact absurd (scanned.symm.trans h) (by simp)
  · rename_i error' scanned
    rw [Except.error.inj (scanned.symm.trans h)]

/-- Whatever the packet and the start, the iteration ends within the limit of
the jumps and with a name of at most 255 bytes, and no offset on the way is cut
to its sixteen bits. -/
theorem expansion_bounded (packet : Packet) (start : UInt16) :
    (∀ run state, Runs (labels packet start) run state →
      hops run ≤ maxPointerHops ∧
      Host.Name.wireSum (name run) + 1 ≤ Host.Name.maxWireLen ∧
      run.length ≤ maxPointerHops + Host.Name.maxWireLen / 2) ∧
    (∃ run last, Runs (labels packet start) run last ∧
      ((last.turn = .ended ∧ ∃ expanded, expand packet ⟨start.toNat⟩ = .ok expanded ∧
          expanded.remaining = Host.Name.wireSum (name run)) ∨
        ∃ error, last.turn = .failed error ∧ expand packet ⟨start.toNat⟩ = .error error)) ∧
    (∀ position, (tryRead packet position).map Part.widen =
      Label.decode .checked packet position.toNat) ∧
    ∀ offset required read, bytes packet offset required = .ok read →
      read.stop.toNat = offset.toNat + required.toNat := by
  constructor
  · intro run state runs
    have counted := runs.counted
    have hops := counted.hops
    have len := counted.len
    have jumps := counted.jumps
    have fits := counted.fits
    have turns := counted.turns
    have named := counted.labels
    exact ⟨by omega, by omega, by omega⟩
  constructor
  · have fits : 0 + 1 ≤ Host.Name.maxWireLen := by decide
    rcases @Labels.scan_ends Host.Name.maxWireLen (labels packet start) (Nat.le_add_right _ _)
      (Nat.zero_le _) fits with ⟨run, last, runs, ends⟩
    refine ⟨run, last, runs, ?_⟩
    rcases ends with ⟨turn, scanned⟩ | ⟨error, turn, scanned⟩
    · rw [runs.counted.len] at scanned
      exact .inl ⟨turn, expand_ok scanned⟩
    · exact .inr ⟨error, turn, expand_error scanned⟩
  constructor
  · exact tryRead_widen packet
  · intro offset required read run
    exact (bytes_stop run).1

/-- A label, and behind it a pointer back to the label. -/
def circle : Packet := ⟨[1, 97, 0xc0, 0], by decide⟩

/-- The label behind the jump runs into the pointer again, until the jumps are used up. -/
theorem expansion_bounded_example :
    ∃ run last, Runs (labels circle 2) run last ∧
      last.turn = .failed (.pointerHops 33 32) ∧ hops run ≤ 32 := by
  have measured : Wire.Labels.scan Host.Name.maxWireLen ⟨circle, 2, 0, 0⟩ =
      .error (.pointerHops 33 32) := by decide +kernel
  have stops := expand_error measured
  rcases expansion_bounded circle 2 with ⟨bounded, ⟨run, last, runs, ends⟩, -, -⟩
  rcases ends with ⟨-, expanded, expands, -⟩ | ⟨error, turn, expands⟩
  · exact absurd (expands.symm.trans stops) (by simp)
  · have same : error = .pointerHops 33 32 := Except.error.inj (expands.symm.trans stops)
    rw [same] at turn
    exact ⟨run, last, runs, turn, (bounded run last runs).1⟩

end Dope.Dns.Wire.Narrow
