import Mathlib.Algebra.GroupWithZero.Nat
import Mathlib.Data.List.Basic

/-! # Host names

Model of `host.rs`. A name is the lower-case text of its labels joined by dots.
The assembly writes into a buffer of the announced length, and `none` is its
`unreachable!`: a label that does not fit the buffer.
-/

namespace Dope.Dns

abbrev Bytes := List UInt8

/-! ## Text -/

def dot : UInt8 := 46

def hyphen : UInt8 := 45

def toAsciiLowercase (byte : UInt8) : UInt8 :=
  if 65 ≤ byte ∧ byte ≤ 90 then byte + 32 else byte

def eqIgnoreAsciiCase (left right : Bytes) : Bool :=
  left.map toAsciiLowercase == right.map toAsciiLowercase

def isAsciiAlphanumeric (byte : UInt8) : Bool :=
  (48 ≤ byte && byte ≤ 57) || (65 ≤ byte && byte ≤ 90) || (97 ≤ byte && byte ≤ 122)

/-- The bytes a label may hold: letters, digits, `-` and `_`. -/
def isLabelByte (byte : UInt8) : Bool :=
  isAsciiAlphanumeric byte || byte == hyphen || byte == 95

theorem eqIgnoreAsciiCase_iff {left right : Bytes} :
    eqIgnoreAsciiCase left right = true ↔
      left.map toAsciiLowercase = right.map toAsciiLowercase := by
  unfold eqIgnoreAsciiCase
  exact beq_iff_eq

variable {total index : Nat} {written : Bytes}

namespace Host

inductive Error where
  | noLabels
  | capacity
  | nameLength (actual minimum maximum : Nat)
  | labelLength (index actual minimum maximum : Nat)
  | labelHyphen (index offset : Nat)
  | labelCharacter (index offset : Nat) (value : UInt8)
deriving DecidableEq, Repr

inductive Mismatch where
  | labelLength (index actual expected : Nat)
  | labelByte (index offset : Nat) (actual expected : UInt8)
  | extraLabel (index actual : Nat)
  | missingLabel (index expected : Nat)
deriving DecidableEq, Repr

def maxPresentationLen : Nat := 253

def minPresentationLen : Nat := 1

def maxLabelLen : Nat := 63

def minLabelLen : Nat := 1

structure Name where
  bytes : Bytes
deriving DecidableEq, Repr

namespace Name

def maxWireLen : Nat := maxPresentationLen + 2

def wireLen (name : Name) : Nat := name.bytes.length + 2

def labels (name : Name) : List Bytes := name.bytes.splitOn dot

/-! ## Assembly -/

/-- Append to the written part of an output of `total` bytes. -/
def write (total : Nat) (written bytes : Bytes) : Option Bytes :=
  if written.length + bytes.length ≤ total then some (written ++ bytes) else none

/-- The first reason, in the order the source checks them, to refuse a label
that starts at `offset`. -/
def refuse (index offset : Nat) (label : Bytes) : Option Error :=
  if label.head? = some hyphen then some (.labelHyphen index offset)
  else if label.getLast? = some hyphen then
    some (.labelHyphen index (offset + label.length - 1))
  else
    match label.zipIdx.find? (fun entry => !isLabelByte entry.1) with
    | some (value, relative) => some (.labelCharacter index (offset + relative) value)
    | none => none

def assembleFrom (total : Nat) : Nat → Bytes → List Bytes → Option (Except Error Bytes)
  | _, written, [] => some (.ok written)
  | index, written, label :: rest =>
      if ¬ (minLabelLen ≤ label.length ∧ label.length ≤ maxLabelLen) then
        some (.error (.labelLength index label.length minLabelLen maxLabelLen))
      else
        match (if index ≠ 0 then write total written [dot] else some written) with
        | none => none
        | some written =>
            match refuse index written.length label with
            | some error => some (.error error)
            | none =>
                match write total written (label.map toAsciiLowercase) with
                | none => none
                | some written => assembleFrom total (index + 1) written rest

def assemble (total : Nat) (labels : List Bytes) : Option (Except Error Name) :=
  if total < minPresentationLen then
    some (.error (.nameLength total minPresentationLen maxPresentationLen))
  else if maxPresentationLen < total then some (.error .capacity)
  else
    match assembleFrom total 0 [] labels with
    | none => none
    | some (.error error) => some (.error error)
    | some (.ok bytes) => some (.ok ⟨bytes⟩)

/-- One trailing dot is dropped. -/
def stripDot (input : Bytes) : Bytes :=
  if input.getLast? = some dot then input.dropLast else input

def parse (input : Bytes) : Option (Except Error Name) :=
  let input := stripDot input
  assemble input.length (input.splitOn dot)

/-! ## The buffer is large enough -/

/-- The wire length of a label sequence, without the root. -/
def wireSum (labels : List Bytes) : Nat := (labels.map fun label => label.length + 1).sum

@[simp] theorem wireSum_nil : wireSum [] = 0 := rfl

@[simp] theorem wireSum_cons (label : Bytes) (rest : List Bytes) :
    wireSum (label :: rest) = label.length + 1 + wireSum rest := by
  simp [wireSum]

theorem write_fits {bytes : Bytes} (h : written.length + bytes.length ≤ total) :
    write total written bytes = some (written ++ bytes) := by
  simp [write, h]

/-- The dot before every label but the first takes the byte that the label's
length took on the wire. -/
theorem assembleFrom_ne_none {labels : List Bytes}
    (h : written.length + wireSum labels ≤ total + (if index = 0 then 1 else 0)) :
    assembleFrom total index written labels ≠ none := by
  induction labels generalizing index written with
  | nil => simp [assembleFrom]
  | cons label rest ih =>
    rw [wireSum_cons] at h
    unfold assembleFrom
    split
    · simp
    · have start : ∃ start, (if index ≠ 0 then write total written [dot] else some written) =
          some start ∧ start.length + label.length + wireSum rest ≤ total := by
        by_cases first : index = 0
        · refine ⟨written, by simp [first], ?_⟩
          simp only [first, if_true] at h
          omega
        · simp only [first, if_false] at h
          refine ⟨written ++ [dot], ?_, ?_⟩
          · simp only [first, ne_eq, not_false_eq_true, if_true]
            exact write_fits (by simp; omega)
          · simp only [List.length_append, List.length_singleton]
            omega
      obtain ⟨start, opened, room⟩ := start
      rw [opened]
      dsimp only
      split
      · simp
      · rw [write_fits (by simp; omega)]
        apply ih
        simp only [List.length_append, List.length_map, Nat.add_eq_zero_iff, Nat.one_ne_zero,
          and_false, if_false]
        omega

theorem assemble_ne_none {labels : List Bytes} (h : wireSum labels ≤ total + 1) :
    assemble total labels ≠ none := by
  unfold assemble
  split
  · simp
  · split
    · simp
    · have built : assembleFrom total 0 [] labels ≠ none := assembleFrom_ne_none (by simpa using h)
      cases result : assembleFrom total 0 [] labels with
      | none => exact absurd result built
      | some outcome => cases outcome <;> simp

/-! ## What a name holds -/

/-- Labels of one to 63 bytes, in a text that fits. -/
structure WellFormed (name : Name) : Prop where
  short : name.bytes.length ≤ maxPresentationLen
  labels : ∀ label ∈ name.labels, minLabelLen ≤ label.length ∧ label.length ≤ maxLabelLen

theorem toAsciiLowercase_ne_dot {byte : UInt8} (ok : isLabelByte byte = true) :
    toAsciiLowercase byte ≠ dot := by
  unfold toAsciiLowercase
  split
  · rename_i upper
    intro same
    have lower := UInt8.le_iff_toNat_le.mp upper.1
    have higher := UInt8.le_iff_toNat_le.mp upper.2
    have value := congrArg UInt8.toNat same
    rw [UInt8.toNat_add] at value
    change 65 ≤ byte.toNat at lower
    change byte.toNat ≤ 90 at higher
    change (byte.toNat + 32) % 256 = 46 at value
    omega
  · rintro rfl
    simp [isLabelByte, isAsciiAlphanumeric, dot, hyphen] at ok

theorem refuse_none {offset : Nat} {label : Bytes} (h : refuse index offset label = none) :
    ∀ byte ∈ label, isLabelByte byte = true := by
  unfold refuse at h
  split at h
  · simp at h
  · split at h
    · simp at h
    · split at h
      · simp at h
      · rename_i found
        rw [List.find?_eq_none] at found
        intro byte member
        obtain ⟨offset, inside, rfl⟩ := List.getElem_of_mem member
        have plain := found (label[offset], offset)
          (by simp [List.mem_zipIdx_iff_getElem?, inside])
        simpa using plain

theorem write_some {bytes out : Bytes} (h : write total written bytes = some out) :
    out = written ++ bytes ∧ out.length ≤ total := by
  unfold write at h
  split at h
  · rename_i fits
    cases h
    exact ⟨rfl, by simpa using fits⟩
  · simp at h

/-- The text of an assembly: every label but the first comes after a dot. -/
theorem assembleFrom_ok {out : Bytes} {labels : List Bytes}
    (h : assembleFrom total index written labels = some (.ok out)) :
    (∀ label ∈ labels, (minLabelLen ≤ label.length ∧ label.length ≤ maxLabelLen) ∧
      ∀ byte ∈ label, isLabelByte byte = true) ∧
    (written.length ≤ total → out.length ≤ total) ∧
    (index ≠ 0 → out = written ++ labels.flatMap fun label =>
      dot :: label.map toAsciiLowercase) ∧
    ∀ label rest, index = 0 → labels = label :: rest →
      out = written ++ (label.map toAsciiLowercase ++ rest.flatMap fun label =>
        dot :: label.map toAsciiLowercase) := by
  induction labels generalizing index written with
  | nil =>
    cases h
    simp
  | cons label rest ih =>
    unfold assembleFrom at h
    split at h
    · simp at h
    · rename_i sized
      split at h
      · simp at h
      · rename_i start opened
        split at h
        · simp at h
        · rename_i plain
          split at h
          · simp at h
          · rename_i grown fits
            obtain ⟨rfl, bound⟩ := write_some fits
            obtain ⟨checked, short, later, -⟩ := ih h
            refine ⟨?_, fun _ => short bound, ?_, ?_⟩
            · intro other member
              rcases List.mem_cons.mp member with rfl | member
              · exact ⟨Decidable.not_not.mp sized, refuse_none plain⟩
              · exact checked other member
            · intro notFirst
              rw [if_pos notFirst] at opened
              obtain ⟨rfl, -⟩ := write_some opened
              rw [later (Nat.succ_ne_zero index)]
              simp
            · intro other others first same
              cases same
              rw [if_neg (not_not_intro first)] at opened
              cases opened
              rw [later (Nat.succ_ne_zero index), List.append_assoc]

theorem intercalate_dot (label : Bytes) (rest : List Bytes) :
    [dot].intercalate (label :: rest) = label ++ rest.flatMap fun label => dot :: label := by
  induction rest generalizing label with
  | nil => simp
  | cons next rest ih =>
    rw [List.intercalate_cons_cons, ih]
    simp

/-- An assembled name holds the labels it was assembled from, in lower case. -/
theorem assemble_ok {labels : List Bytes} {name : Name} (present : labels ≠ [])
    (h : assemble total labels = some (.ok name)) :
    name.WellFormed ∧ name.labels = labels.map fun label => label.map toAsciiLowercase := by
  unfold assemble at h
  split at h
  · simp at h
  · split at h
    · simp at h
    · rename_i fits
      split at h
      · simp at h
      · simp at h
      · rename_i bytes built
        cases h
        obtain ⟨checked, short, -, first⟩ := assembleFrom_ok built
        obtain ⟨label, rest, rfl⟩ := List.exists_cons_of_ne_nil present
        have joined : bytes = [dot].intercalate
            ((label :: rest).map fun label => label.map toAsciiLowercase) := by
          rw [first label rest rfl rfl, List.map_cons, intercalate_dot, List.flatMap_map]
          rfl
        have undotted : ∀ text ∈ (label :: rest).map fun label => label.map toAsciiLowercase,
            dot ∉ text := by
          intro text member held
          obtain ⟨origin, known, rfl⟩ := List.mem_map.mp member
          obtain ⟨byte, inside, same⟩ := List.mem_map.mp held
          exact toAsciiLowercase_ne_dot ((checked origin known).2 byte inside) same
        have split : (⟨bytes⟩ : Name).labels =
            (label :: rest).map fun label => label.map toAsciiLowercase := by
          unfold Name.labels
          rw [joined, List.splitOn_intercalate dot undotted (by simp)]
        refine ⟨⟨?_, ?_⟩, split⟩
        · have bound := short (Nat.zero_le _)
          dsimp only
          omega
        · intro text member
          rw [split] at member
          obtain ⟨origin, known, rfl⟩ := List.mem_map.mp member
          rw [List.length_map]
          exact (checked origin known).1

end Name

end Host

end Dope.Dns
