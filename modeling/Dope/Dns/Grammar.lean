import Dope.Dns.Wire.Replay

/-! # The grammar of host names

Text and wire end in the same assembly. It accepts the names of one grammar,
whatever they came from, and keeps them in lower case.
-/

namespace Dope.Dns

variable {labels : List Bytes} {byte : UInt8} {index : Nat}

namespace Host

/-! ## Bytes -/

/-- Letters, digits, `_` and `-`. -/
def LabelByte (byte : UInt8) : Prop :=
  65 ≤ byte.toNat ∧ byte.toNat ≤ 90 ∨ 97 ≤ byte.toNat ∧ byte.toNat ≤ 122 ∨
    48 ≤ byte.toNat ∧ byte.toNat ≤ 57 ∨ byte.toNat = 95 ∨ byte.toNat = 45

theorem isLabelByte_iff : isLabelByte byte = true ↔ LabelByte byte := by
  unfold isLabelByte isAsciiAlphanumeric LabelByte hyphen
  simp only [Bool.or_eq_true, Bool.and_eq_true, decide_eq_true_eq, beq_iff_eq,
    UInt8.le_iff_toNat_le, ← UInt8.toNat_inj]
  change (((48 ≤ byte.toNat ∧ byte.toNat ≤ 57 ∨ 65 ≤ byte.toNat ∧ byte.toNat ≤ 90) ∨
    97 ≤ byte.toNat ∧ byte.toNat ≤ 122) ∨ byte.toNat = 45) ∨ byte.toNat = 95 ↔ _
  omega

theorem lowercase_cases (byte : UInt8) :
    65 ≤ byte.toNat ∧ byte.toNat ≤ 90 ∧ (toAsciiLowercase byte).toNat = byte.toNat + 32 ∨
      ¬ (65 ≤ byte.toNat ∧ byte.toNat ≤ 90) ∧ toAsciiLowercase byte = byte := by
  unfold toAsciiLowercase
  by_cases upper : 65 ≤ byte ∧ byte ≤ 90
  · have range : 65 ≤ byte.toNat ∧ byte.toNat ≤ 90 := upper
    rw [if_pos upper, UInt8.toNat_add]
    change _ ∧ _ ∧ (byte.toNat + 32) % 256 = _ ∨ _
    omega
  · rw [if_neg upper]
    exact .inr ⟨upper, rfl⟩

theorem lowercase_lowercase (byte : UInt8) :
    toAsciiLowercase (toAsciiLowercase byte) = toAsciiLowercase byte := by
  rcases lowercase_cases byte with ⟨low, high, same⟩ | ⟨-, same⟩
  · rcases lowercase_cases (toAsciiLowercase byte) with ⟨low', high', -⟩ | ⟨-, kept⟩
    · omega
    · exact kept
  · rw [same, same]

theorem LabelByte.lowercase (ok : LabelByte byte) : LabelByte (toAsciiLowercase byte) := by
  rcases lowercase_cases byte with ⟨low, high, same⟩ | ⟨-, same⟩
  · unfold LabelByte
    omega
  · rw [same]
    exact ok

theorem lowercase_hyphen (h : toAsciiLowercase byte = hyphen) : byte = hyphen := by
  rcases lowercase_cases byte with ⟨low, high, same⟩ | ⟨-, same⟩
  · rw [h] at same
    change 45 = byte.toNat + 32 at same
    omega
  · rw [← same, h]

/-! ## Names -/

/-- One to 63 bytes, with no hyphen at an end. -/
structure Label (text : Bytes) : Prop where
  sized : minLabelLen ≤ text.length ∧ text.length ≤ maxLabelLen
  plain : ∀ byte ∈ text, LabelByte byte
  first : text.head? ≠ some hyphen
  last : text.getLast? ≠ some hyphen

/-- One to 253 bytes, with a dot between any two labels. -/
structure Grammar (text : Bytes) : Prop where
  sized : minPresentationLen ≤ text.length ∧ text.length ≤ maxPresentationLen
  labels : ∀ label ∈ text.splitOn dot, Label label

namespace Label

variable {text : Bytes}

theorem no_dot (label : Label text) : dot ∉ text := by
  intro held
  have ok := label.plain dot held
  unfold LabelByte at ok
  change 65 ≤ 46 ∧ 46 ≤ 90 ∨ 97 ≤ 46 ∧ 46 ≤ 122 ∨ 48 ≤ 46 ∧ 46 ≤ 57 ∨ 46 = 95 ∨ 46 = 45 at ok
  omega

theorem lowercase (label : Label text) : Label (text.map toAsciiLowercase) where
  sized := by
    rw [List.length_map]
    exact label.sized
  plain := by
    intro byte member
    obtain ⟨origin, known, rfl⟩ := List.mem_map.mp member
    exact (label.plain origin known).lowercase
  first := by
    intro first
    rw [List.head?_map] at first
    obtain ⟨byte, here, same⟩ := Option.map_eq_some_iff.mp first
    rw [lowercase_hyphen same] at here
    exact label.first here
  last := by
    intro last
    rw [List.getLast?_map] at last
    obtain ⟨byte, here, same⟩ := Option.map_eq_some_iff.mp last
    rw [lowercase_hyphen same] at here
    exact label.last here

end Label

/-! ## Joined labels -/

theorem length_join (present : labels ≠ []) :
    ([dot].intercalate labels).length + 1 = Name.wireSum labels := by
  obtain ⟨label, rest, rfl⟩ := List.exists_cons_of_ne_nil present
  rw [Name.intercalate_dot, Name.wireSum_cons, List.length_append]
  have others : (rest.flatMap fun label => dot :: label).length = Name.wireSum rest := by
    induction rest with
    | nil => rfl
    | cons next rest ih =>
      rw [List.flatMap_cons, List.length_append, ih (by simp), Name.wireSum_cons,
        List.length_cons]
  omega

theorem lowercase_join (labels : List Bytes) :
    ([dot].intercalate labels).map toAsciiLowercase =
      [dot].intercalate (labels.map fun label => label.map toAsciiLowercase) := by
  cases labels with
  | nil => rfl
  | cons label rest =>
    rw [List.map_cons, Name.intercalate_dot, Name.intercalate_dot, List.map_append,
      List.map_flatMap, List.flatMap_map]
    rfl

/-- A text without an empty label does not end in a dot. -/
theorem stripDot_eq {text : Bytes} (full : [] ∉ text.splitOn dot) : Name.stripDot text = text := by
  unfold Name.stripDot
  rw [if_neg]
  intro last
  obtain ⟨before, rfl⟩ := List.getLast?_eq_some_iff.mp last
  rw [List.splitOn_append_cons_self, List.splitOn_nil] at full
  exact full (List.mem_append_right _ (List.mem_singleton.mpr rfl))

/-! ## The assembly -/

namespace Name

theorem refuse_iff {offset : Nat} {label : Bytes} :
    refuse index offset label = none ↔
      label.head? ≠ some hyphen ∧ label.getLast? ≠ some hyphen ∧
        ∀ byte ∈ label, LabelByte byte := by
  constructor
  · intro kept
    have plain := refuse_none kept
    unfold refuse at kept
    split at kept
    · cases kept
    · split at kept
      · cases kept
      · exact ⟨‹_›, ‹_›, fun byte member => isLabelByte_iff.mp (plain byte member)⟩
  · rintro ⟨first, last, plain⟩
    have found : label.zipIdx.find? (fun entry => !isLabelByte entry.1) = none := by
      rw [List.find?_eq_none]
      intro entry member
      have inside := List.fst_mem_of_mem_zipIdx member
      rw [isLabelByte_iff.mpr (plain entry.1 inside)]
      decide
    unfold refuse
    rw [if_neg first, if_neg last, found]

theorem assembleFrom_labels {total : Nat} {written out : Bytes}
    (built : assembleFrom total index written labels = some (.ok out)) :
    ∀ label ∈ labels, Label label := by
  induction labels generalizing index written with
  | nil =>
    intro label member
    cases member
  | cons label rest ih =>
    unfold assembleFrom at built
    split at built
    · cases built
    · rename_i sized
      split at built
      · cases built
      · split at built
        · cases built
        · rename_i kept
          split at built
          · cases built
          · have checked := refuse_iff.mp kept
            intro other member
            cases member with
            | head => exact ⟨Decidable.not_not.mp sized, checked.2.2, checked.1, checked.2.1⟩
            | tail _ member => exact ih built other member

/-- Labels of the grammar are written one after the other. -/
theorem assembleFrom_grammar {total : Nat} {written : Bytes}
    (checked : ∀ label ∈ labels, Label label)
    (room : written.length + wireSum labels ≤ total + (if index = 0 then 1 else 0)) :
    ∃ out, assembleFrom total index written labels = some (.ok out) := by
  induction labels generalizing index written with
  | nil => exact ⟨written, rfl⟩
  | cons label rest ih =>
    have valid := checked label List.mem_cons_self
    have kept : ∀ offset, refuse index offset label = none :=
      fun _ => refuse_iff.mpr ⟨valid.first, valid.last, valid.plain⟩
    have others : ∀ other ∈ rest, Label other :=
      fun other member => checked other (List.mem_cons_of_mem _ member)
    rw [wireSum_cons] at room
    unfold assembleFrom
    rw [if_neg (Decidable.not_not.mpr valid.sized)]
    by_cases first : index = 0
    · rw [if_pos first] at room
      rw [if_neg (by omega)]
      dsimp only
      rw [kept, write_fits (by rw [List.length_map]; omega)]
      refine ih others ?_
      rw [List.length_append, List.length_map, if_neg (by omega)]
      omega
    · rw [if_neg first] at room
      rw [if_pos first, write_fits (by rw [List.length_singleton]; omega)]
      dsimp only
      rw [kept, write_fits (by
        rw [List.length_append, List.length_singleton, List.length_map]
        omega)]
      refine ih others ?_
      rw [List.length_append, List.length_append, List.length_map, List.length_singleton,
        if_neg (by omega)]
      omega

/-- Labels of the announced length come out as their text in lower case, if they follow
the grammar, and not otherwise. -/
theorem assemble_iff {labels : List Bytes} {total : Nat} (present : labels ≠ [])
    (whole : wireSum labels = total + 1) {name : Name} :
    assemble total labels = some (.ok name) ↔
      (minPresentationLen ≤ total ∧ total ≤ maxPresentationLen) ∧
        (∀ label ∈ labels, Label label) ∧
        name.bytes = ([dot].intercalate labels).map toAsciiLowercase := by
  constructor
  · intro built
    have read := (assemble_ok present built).2
    have joined : name.bytes = ([dot].intercalate labels).map toAsciiLowercase := by
      rw [lowercase_join, ← read]
      exact (List.intercalate_splitOn dot).symm
    unfold assemble at built
    split at built
    · cases built
    · split at built
      · cases built
      · split at built
        · cases built
        · cases built
        · rename_i bytes run
          exact ⟨⟨by omega, by omega⟩, assembleFrom_labels run, joined⟩
  · rintro ⟨⟨some, short⟩, checked, text⟩
    obtain ⟨out, run⟩ : ∃ out, assembleFrom total 0 [] labels = .some (.ok out) :=
      assembleFrom_grammar checked (by
        rw [List.length_nil, if_pos rfl]
        omega)
    have built : assemble total labels = .some (.ok ⟨out⟩) := by
      unfold assemble
      rw [if_neg (by omega), if_neg (by omega), run]
    have read := (assemble_ok present built).2
    have joined : out = ([dot].intercalate labels).map toAsciiLowercase := by
      rw [lowercase_join, ← read]
      exact (List.intercalate_splitOn dot).symm
    rw [built, joined, ← text]

/-! ## Text -/

theorem wireSum_splitOn (text : Bytes) : wireSum (text.splitOn dot) = text.length + 1 := by
  rw [← length_join (List.splitOn_ne_nil dot text), List.intercalate_splitOn]

theorem parse_iff {input : Bytes} {name : Name} :
    parse input = some (.ok name) ↔
      Grammar (stripDot input) ∧ name.bytes = (stripDot input).map toAsciiLowercase := by
  have assembled := @assemble_iff ((stripDot input).splitOn dot) (stripDot input).length
    (List.splitOn_ne_nil dot (stripDot input)) (wireSum_splitOn (stripDot input)) name
  rw [List.intercalate_splitOn] at assembled
  constructor
  · intro parsed
    obtain ⟨sized, labels, text⟩ := assembled.mp parsed
    exact ⟨⟨sized, labels⟩, text⟩
  · rintro ⟨grammar, text⟩
    exact assembled.mpr ⟨grammar.sized, grammar.labels, text⟩

theorem parse_ne_none (input : Bytes) : parse input ≠ none := by
  have whole := wireSum_splitOn (stripDot input)
  exact assemble_ne_none (by omega)

end Name

namespace Grammar

variable {text : Bytes}

theorem stripped (grammar : Grammar text) : Name.stripDot text = text := by
  apply stripDot_eq
  intro empty
  have sized := (grammar.labels [] empty).sized.1
  exact absurd sized (by decide)

theorem splitOn_lowercase (grammar : Grammar text) :
    (text.map toAsciiLowercase).splitOn dot =
      (text.splitOn dot).map fun label => label.map toAsciiLowercase := by
  have joined := lowercase_join (text.splitOn dot)
  rw [List.intercalate_splitOn] at joined
  rw [joined, List.splitOn_intercalate dot]
  · intro label member
    obtain ⟨origin, known, rfl⟩ := List.mem_map.mp member
    exact (grammar.labels origin known).lowercase.no_dot
  · intro none
    exact List.splitOn_ne_nil dot text (List.map_eq_nil_iff.mp none)

theorem lowercase (grammar : Grammar text) : Grammar (text.map toAsciiLowercase) where
  sized := by
    rw [List.length_map]
    exact grammar.sized
  labels := by
    intro label member
    rw [grammar.splitOn_lowercase] at member
    obtain ⟨origin, known, rfl⟩ := List.mem_map.mp member
    exact (grammar.labels origin known).lowercase

end Grammar

theorem Name.parse_bytes {input : Bytes} {name : Name} (parsed : parse input = some (.ok name)) :
    parse name.bytes = some (.ok name) := by
  obtain ⟨grammar, text⟩ := parse_iff.mp parsed
  have again : ((stripDot input).map toAsciiLowercase).map toAsciiLowercase =
      (stripDot input).map toAsciiLowercase := by
    rw [List.map_map]
    exact List.map_congr_left fun byte _ => lowercase_lowercase byte
  rw [parse_iff, text, grammar.lowercase.stripped, again]
  exact ⟨grammar.lowercase, rfl⟩

end Host

/-! ## The wire -/

namespace Wire

theorem Labels.nextFrom_nonempty {fuel : Nat} {labels rest : Labels} {label : Bytes}
    (found : nextFrom fuel labels = .ok (some (label, rest))) : label ≠ [] := by
  induction fuel generalizing labels with
  | zero => cases found
  | succ fuel ih =>
    unfold nextFrom at found
    obtain ⟨part, -, found⟩ := Run.bind_ok.mp found
    cases part with
    | pointer target stop =>
      dsimp only at found
      split at found
      · cases found
      · exact ih found
    | label read =>
      dsimp only at found
      split at found
      · cases found
      · split at found
        · cases found
        · cases found
          assumption

theorem Traverses.nonempty {labels : Labels} {items : List Bytes}
    (traverses : Traverses labels items) : [] ∉ items := by
  induction traverses with
  | done _ => exact List.not_mem_nil
  | step found _ ih =>
    intro member
    cases member with
    | head => exact Labels.nextFrom_nonempty found rfl
    | tail _ member => exact ih member

end Wire

open Host Host.Name Wire

/-- The labels that a replay passes are those of a text whose labels have no dots inside
exactly if they have none. -/
theorem tryDecode_iff (expanded : Expanded) :
    ∃ labels, expanded.labels = .ok labels ∧
      ∀ name, tryDecode expanded = some (.ok name) ↔
        (∀ label ∈ labels, dot ∉ label) ∧
          parse ([dot].intercalate labels) = some (.ok name) := by
  obtain ⟨labels, traverses, replayed, sum⟩ := expanded.labels_ok
  have full := traverses.nonempty
  refine ⟨labels, replayed, ?_⟩
  intro name
  unfold tryDecode
  rw [replayed]
  dsimp only
  by_cases none : labels = []
  · subst none
    rw [wireSum_nil] at sum
    rw [if_pos sum.symm]
    constructor
    · intro refused
      cases refused
    · rintro ⟨-, parsed⟩
      have sized := (parse_iff.mp parsed).1.sized.1
      exact absurd sized (by decide)
  · have whole := length_join none
    have assembled := @assemble_iff labels (expanded.remaining - 1) none (by omega) name
    rw [if_neg (by omega), assembled, parse_iff]
    constructor
    · rintro ⟨sized, checked, text⟩
      have undotted : ∀ label ∈ labels, dot ∉ label :=
        fun label member => (checked label member).no_dot
      have split := List.splitOn_intercalate dot undotted none
      have stripped : stripDot ([dot].intercalate labels) = [dot].intercalate labels :=
        stripDot_eq (by rwa [split])
      rw [stripped]
      refine ⟨undotted, ⟨⟨by omega, by omega⟩, ?_⟩, text⟩
      rw [split]
      exact checked
    · rintro ⟨undotted, grammar, text⟩
      have split := List.splitOn_intercalate dot undotted none
      have stripped : stripDot ([dot].intercalate labels) = [dot].intercalate labels :=
        stripDot_eq (by rwa [split])
      rw [stripped] at grammar text
      have checked := grammar.labels
      rw [split] at checked
      have sized := grammar.sized
      exact ⟨⟨by omega, by omega⟩, checked, text⟩

/-- Parsing accepts the grammar, and gives the text in lower case, which is parsed again to
the same name. Names are equal when the texts differ in the case of letters and a last dot
only. A name on the wire is accepted when no label has a dot inside and its text is, and
gives the same name. No assembly comes to a place where its buffer is short. -/
theorem names_grammar :
    (∀ input, parse input ≠ none ∧ ∀ name, parse input = some (.ok name) ↔
      Grammar (stripDot input) ∧ name.bytes = (stripDot input).map toAsciiLowercase) ∧
    (∀ input name, parse input = some (.ok name) → parse name.bytes = some (.ok name)) ∧
    (∀ input other name name', parse input = some (.ok name) → parse other = some (.ok name') →
      (name = name' ↔ eqIgnoreAsciiCase (stripDot input) (stripDot other) = true)) ∧
    ∀ expanded : Expanded, tryDecode expanded ≠ none ∧
      ∃ labels, expanded.labels = .ok labels ∧
        ∀ name, tryDecode expanded = some (.ok name) ↔
          (∀ label ∈ labels, dot ∉ label) ∧
            parse ([dot].intercalate labels) = some (.ok name) := by
  refine ⟨fun input => ⟨parse_ne_none input, fun _ => parse_iff⟩, ?_, ?_, ?_⟩
  · intro input name parsed
    exact parse_bytes parsed
  · intro input other name name' parsed parsed'
    have text := (parse_iff.mp parsed).2
    have text' := (parse_iff.mp parsed').2
    rw [eqIgnoreAsciiCase_iff, ← text, ← text']
    cases name
    cases name'
    exact ⟨fun same => congrArg Host.Name.bytes same,
      fun same => congrArg Host.Name.mk same⟩
  · intro expanded
    exact ⟨tryDecode_ne_none expanded, tryDecode_iff expanded⟩

/-- The answer to a question for a name of one label, `a.b` with the dot inside. -/
def dotted : Packet where
  bytes := [0, 1, 129, 128, 0, 1, 0, 0, 0, 0, 0, 0, 3, 97, 46, 98, 0, 0, 1, 0, 1]
  bound := by decide

def dottedName : Expanded := ⟨dotted, 12, 4, rfl⟩

/-- The text of that label is accepted as two labels, and the label is not. -/
theorem tryDecode_refuses_dot :
    ∃ expanded labels, expand dotted ⟨12⟩ = .ok expanded ∧ expanded.labels = .ok labels ∧
      ¬ ∀ name, tryDecode expanded = some (.ok name) ↔
        parse ([dot].intercalate labels) = some (.ok name) := by
  have refused : tryDecode dottedName = some (.error (.labelCharacter 0 1 dot)) := by
    decide +kernel
  have taken : parse ([dot].intercalate [[97, 46, 98]]) = some (.ok ⟨[97, 46, 98]⟩) := by
    decide +kernel
  have read : dottedName.labels = .ok [[97, 46, 98]] := by rfl
  refine ⟨dottedName, [[97, 46, 98]], by rfl, read, ?_⟩
  intro same
  have decoded := (same ⟨[97, 46, 98]⟩).mpr taken
  rw [refused] at decoded
  cases decoded

end Dope.Dns
