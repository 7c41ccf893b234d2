import Dope.Dns.Wire.Packet

/-! # Replayed traversals

A range that the checked reader accepted is read the same without the checks,
so the labels of an expanded name add up to the length its scan measured.
-/

namespace Dope.Dns.Wire

open Run

variable {packet : Packet} {position : Nat}

theorem read_validated {length : Nat} {read : Read}
    (h : Mode.read .checked packet position length = .ok read) :
    Mode.read .validated packet position length = .ok read := by
  obtain ⟨inside, rfl⟩ := bytes_ok h
  change readUnchecked packet position length = _
  rw [readUnchecked, if_neg (by omega)]

theorem decode_validated {part : Part} (h : Label.decode .checked packet position = .ok part) :
    Label.decode .validated packet position = .ok part := by
  unfold Label.decode at h ⊢
  obtain ⟨header, opened, h⟩ := bind_ok.mp h
  rw [read_validated opened, ok_bind]
  dsimp only at h ⊢
  split at h
  · rename_i tag
    obtain ⟨pair, paired, h⟩ := bind_ok.mp h
    obtain ⟨-, -, h⟩ := bind_ok.mp h
    rw [if_pos tag, read_validated paired]
    exact h
  · rename_i tag
    obtain ⟨-, -, h⟩ := bind_ok.mp h
    obtain ⟨read, body, h⟩ := bind_ok.mp h
    rw [if_neg tag]
    simp only [Mode.check, ok_bind, read_validated body]
    exact h

/-! ## Names -/

/-- A traversal that comes to its end, with the labels on the way. -/
inductive Traverses : Labels → List Bytes → Prop where
  | done {labels : Labels} : labels.next = .ok none → Traverses labels []
  | step {labels rest : Labels} {label : Bytes} {others : List Bytes} :
      labels.next = .ok (some (label, rest)) → Traverses rest others →
      Traverses labels (label :: others)

namespace Labels

/-- What one step of a traversal returns, and where the replay finds it. -/
theorem nextFrom_some {fuel : Nat} {labels rest : Labels} {label : Bytes}
    (h : nextFrom fuel labels = .ok (some (label, rest))) :
    rest.packet = labels.packet ∧
      rest.expandedLen = labels.expandedLen + (label.length + 1) ∧
      rest.expandedLen + 1 ≤ Host.Name.maxWireLen ∧
      Expanded.labelFrom labels.packet fuel labels.position = .ok ⟨label, rest.position⟩ := by
  induction fuel generalizing labels with
  | zero => simp [nextFrom] at h
  | succ fuel ih =>
    unfold nextFrom at h
    obtain ⟨part, decoded, h⟩ := bind_ok.mp h
    unfold Expanded.labelFrom
    rw [decode_validated decoded, ok_bind]
    cases part with
    | pointer target stop =>
      dsimp only at h ⊢
      split at h
      · simp at h
      · exact ih h
    | label read =>
      dsimp only at h ⊢
      split at h
      · simp at h
      · split at h
        · simp at h
        · simp only [Except.ok.injEq, Option.some.injEq, Prod.mk.injEq] at h
          obtain ⟨rfl, rfl⟩ := h
          exact ⟨rfl, by dsimp only; omega, by dsimp only; omega, rfl⟩

end Labels

namespace Expanded

theorem labelsFrom_step (packet : Packet) (fuel position left : Nat) :
    labelsFrom packet (fuel + 1) position (left + 1) =
      (labelFrom packet (maxPointerHops + 1) position >>= fun read =>
        labelsFrom packet fuel read.stop (left + 1 - (read.bytes.length + 1)) >>= fun rest =>
          .ok (read.bytes :: rest)) := rfl

/-- The replay of a scanned traversal returns its labels, of the scanned
length. -/
theorem labelsFrom_of_scan {fuel total : Nat} {labels : Labels}
    (h : Labels.scan fuel labels = .ok total) :
    labels.expandedLen ≤ total ∧
      ∃ items, Traverses labels items ∧
        labelsFrom labels.packet fuel labels.position (total - labels.expandedLen) = .ok items ∧
        Host.Name.wireSum items = total - labels.expandedLen := by
  induction fuel generalizing labels with
  | zero => simp [Labels.scan] at h
  | succ fuel ih =>
    unfold Labels.scan at h
    obtain ⟨step, stepped, h⟩ := bind_ok.mp h
    cases step with
    | none =>
      dsimp only at h
      cases h
      refine ⟨Nat.le_refl _, [], .done stepped, ?_, ?_⟩
      · rw [Nat.sub_self, labelsFrom]
      · simp
    | some entry =>
      obtain ⟨label, rest⟩ := entry
      dsimp only at h
      obtain ⟨same, grown, -, found⟩ := Labels.nextFrom_some stepped
      obtain ⟨below, items, traverses, replayed, sum⟩ := ih h
      rw [same] at replayed
      have left : total - labels.expandedLen =
          (total - rest.expandedLen + label.length) + 1 := by omega
      refine ⟨by omega, label :: items, .step stepped traverses, ?_, ?_⟩
      · rw [left, labelsFrom_step, found, ok_bind]
        dsimp only
        rw [Nat.add_sub_add_right, Nat.add_sub_cancel, replayed]
        rfl
      · rw [Host.Name.wireSum_cons, sum]
        omega

theorem labels_ok (expanded : Expanded) :
    ∃ items, Traverses ⟨expanded.packet, expanded.position, 0, 0⟩ items ∧
      expanded.labels = .ok items ∧ Host.Name.wireSum items = expanded.remaining := by
  obtain ⟨-, items, traverses, replayed, sum⟩ := labelsFrom_of_scan expanded.scanned
  exact ⟨items, traverses, replayed, sum⟩

end Expanded

/-- Neither the replay nor the assembly of an expanded name is cut short. -/
theorem tryDecode_ne_none (expanded : Expanded) : tryDecode expanded ≠ none := by
  unfold tryDecode
  split
  · simp
  · obtain ⟨items, -, replayed, sum⟩ := expanded.labels_ok
    rw [replayed]
    exact Host.Name.assemble_ne_none (by omega)

/-! ## Records -/

theorem nameFrom_validated {fuel length stop : Nat}
    (h : Cursor.nameFrom .checked packet fuel position length = .ok stop) :
    Cursor.nameFrom .validated packet fuel position length = .ok stop := by
  induction fuel generalizing position length with
  | zero => simp [Cursor.nameFrom] at h
  | succ fuel ih =>
    unfold Cursor.nameFrom at h ⊢
    obtain ⟨part, decoded, h⟩ := bind_ok.mp h
    rw [decode_validated decoded, ok_bind]
    cases part with
    | pointer target stop => exact h
    | label read =>
      dsimp only at h ⊢
      split at h
      · rename_i empty
        rw [if_pos empty]
        exact h
      · rename_i some
        rw [if_neg some]
        obtain ⟨_, -, h⟩ := bind_ok.mp h
        exact ih h

theorem name_validated {result : Name × Nat}
    (h : Cursor.name .checked packet position = .ok result) :
    Cursor.name .validated packet position = .ok result := by
  unfold Cursor.name at h ⊢
  obtain ⟨stop, traversed, h⟩ := bind_ok.mp h
  rw [nameFrom_validated traversed]
  exact h

theorem number_validated {width : Nat} {result : Nat × Nat}
    (h : Cursor.number .checked packet width position = .ok result) :
    Cursor.number .validated packet width position = .ok result := by
  unfold Cursor.number at h ⊢
  obtain ⟨read, taken, h⟩ := bind_ok.mp h
  rw [read_validated taken]
  exact h

theorem record_validated {result : Record × Nat}
    (h : Cursor.record .checked packet position = .ok result) :
    Cursor.record .validated packet position = .ok result := by
  unfold Cursor.record Cursor.u16 Cursor.u32 at h ⊢
  obtain ⟨⟨owner, afterOwner⟩, named, h⟩ := bind_ok.mp h
  obtain ⟨⟨kind, afterKind⟩, first, h⟩ := bind_ok.mp h
  obtain ⟨⟨cls, afterClass⟩, second, h⟩ := bind_ok.mp h
  obtain ⟨⟨ttl, afterTtl⟩, third, h⟩ := bind_ok.mp h
  obtain ⟨⟨length, afterLength⟩, fourth, h⟩ := bind_ok.mp h
  obtain ⟨read, taken, h⟩ := bind_ok.mp h
  simp only [name_validated named, number_validated first, number_validated second,
    number_validated third, number_validated fourth, read_validated taken, ok_bind]
  exact h

/-- The records that a checked traversal was given are those its replay
returns. -/
theorem recordsFrom_items {σ : Type} {read : σ → Record → Except Error.Packet σ} {count stop : Nat}
    {state last : σ} (h : Cursor.recordsFrom packet read count state position = .ok (last, stop)) :
    ∃ items, Records.replay packet count position = .ok items ∧
      items.foldlM read state = .ok last := by
  induction count generalizing state position with
  | zero =>
    cases h
    exact ⟨[], rfl, rfl⟩
  | succ count ih =>
    unfold Cursor.recordsFrom at h
    obtain ⟨⟨record, next⟩, found, h⟩ := bind_ok.mp h
    obtain ⟨middle, took, h⟩ := bind_ok.mp h
    obtain ⟨items, replayed, folded⟩ := ih h
    refine ⟨record :: items, ?_, ?_⟩
    · unfold Records.replay
      rw [record_validated found, ok_bind]
      dsimp only
      rw [replayed]
      rfl
    · rw [List.foldlM_cons, took]
      exact folded

end Dope.Dns.Wire
