import Mathlib.Order.Basic
import Mathlib.Order.Defs.LinearOrder

/-! # Heaps with a hole

A priority heap in an array is edited around a hole: entries are shifted into
it one after another, and the entry in hand closes it at the end. An engine
chooses the entries to shift. What it promises is that every shift stays in the
array and that the heap order is restored, whatever that order is below the
root.
-/

namespace Dope.Hole

universe u

variable {α : Type u}

/-- The entry at `source` moves into the hole. -/
def shift (entries : List α) (hole source : Nat) : List α :=
  match entries[source]? with
  | some entry => entries.set hole entry
  | none => entries

/-- Shift along a path of sources. Each source becomes the hole. -/
def walk : List α → Nat → List Nat → List α × Nat
  | entries, hole, [] => (entries, hole)
  | entries, hole, source :: path => walk (shift entries hole source) source path

/-- Walk, and close the hole with the entry in hand. -/
def settle (entries : List α) (hole : Nat) (path : List Nat) (hand : α) : List α :=
  (walk entries hole path).1.set (walk entries hole path).2 hand

/-- The path stays in an array of `size` entries, and no entry is shifted into
its own place. -/
def Walks (size : Nat) : Nat → List Nat → Prop
  | hole, [] => hole < size
  | hole, source :: path => hole < size ∧ source ≠ hole ∧ Walks size source path

/-- The entries outside the hole. -/
def Others (entries : List α) (hole : Nat) (entry : α) : Prop :=
  ∃ position, position ≠ hole ∧ entries[position]? = some entry

variable {hole : Nat} {path : List Nat}

theorem Walks.bound {size : Nat} (h : Walks size hole path) : hole < size := by
  cases path with
  | nil => exact h
  | cons source path => exact h.1

@[simp] theorem length_shift (entries : List α) (hole source : Nat) :
    (shift entries hole source).length = entries.length := by
  unfold shift
  split
  · exact List.length_set
  · rfl

theorem length_walk (entries : List α) (hole : Nat) (path : List Nat) :
    (walk entries hole path).1.length = entries.length := by
  induction path generalizing entries hole with
  | nil => rfl
  | cons source path ih =>
    unfold walk
    rw [ih, length_shift]

@[simp] theorem length_settle (entries : List α) (hole : Nat) (path : List Nat) (hand : α) :
    (settle entries hole path hand).length = entries.length := by
  unfold settle
  rw [List.length_set, length_walk]

variable {entries : List α}

theorem Walks.walk_lt (h : Walks entries.length hole path) :
    (walk entries hole path).2 < entries.length := by
  induction path generalizing entries hole with
  | nil => exact h
  | cons source path ih =>
    obtain ⟨-, -, rest⟩ := h
    unfold walk
    rw [← length_shift entries hole source] at rest ⊢
    exact ih rest

/-! ## What a walk keeps -/

variable {entry : α}

theorem shift_get {source : Nat} (inside : hole < entries.length)
    (found : entries[source]? = some entry) (position : Nat) :
    (shift entries hole source)[position]? =
      if position = hole then some entry else entries[position]? := by
  unfold shift
  rw [found]
  dsimp only
  by_cases here : position = hole
  · rw [if_pos here, here, List.getElem?_set_self inside]
  · rw [if_neg here, List.getElem?_set_ne (fun same => here same.symm)]

/-- A shift loses no entry and makes no copy. -/
theorem others_shift {source : Nat} (inside : hole < entries.length) (other : source ≠ hole)
    (within : source < entries.length) (entry : α) :
    Others (shift entries hole source) source entry ↔ Others entries hole entry := by
  have found : entries[source]? = some entries[source] := List.getElem?_eq_getElem within
  constructor
  · rintro ⟨position, away, at_⟩
    rw [shift_get inside found] at at_
    split at at_
    · exact ⟨source, other, found.trans at_⟩
    · rename_i there
      exact ⟨position, there, at_⟩
  · rintro ⟨position, away, at_⟩
    by_cases here : position = source
    · refine ⟨hole, other.symm, ?_⟩
      rw [shift_get inside found, if_pos rfl, ← found, ← here]
      exact at_
    · refine ⟨position, here, ?_⟩
      rw [shift_get inside found, if_neg away]
      exact at_

theorem others_walk (h : Walks entries.length hole path) (entry : α) :
    Others (walk entries hole path).1 (walk entries hole path).2 entry ↔
      Others entries hole entry := by
  induction path generalizing entries hole with
  | nil => rfl
  | cons source path ih =>
    obtain ⟨inside, other, rest⟩ := h
    unfold walk
    rw [ih (by rwa [length_shift]), others_shift inside other rest.bound]

theorem mem_set_hole (inside : hole < entries.length) (hand entry : α) :
    entry ∈ entries.set hole hand ↔ entry = hand ∨ Others entries hole entry := by
  rw [List.mem_iff_getElem?]
  constructor
  · rintro ⟨position, at_⟩
    by_cases here : position = hole
    · rw [here, List.getElem?_set_self inside] at at_
      exact .inl (Option.some.inj at_).symm
    · rw [List.getElem?_set_ne (fun same => here same.symm)] at at_
      exact .inr ⟨position, here, at_⟩
  · rintro (rfl | ⟨position, away, at_⟩)
    · exact ⟨hole, List.getElem?_set_self inside⟩
    · refine ⟨position, ?_⟩
      rw [List.getElem?_set_ne (fun same => away same.symm)]
      exact at_

/-- The walk ends with the entry in hand and the entries outside the hole. -/
theorem mem_settle (h : Walks entries.length hole path) (hand entry : α) :
    entry ∈ settle entries hole path hand ↔ entry = hand ∨ Others entries hole entry := by
  unfold settle
  rw [mem_set_hole (by rw [length_walk]; exact h.walk_lt), others_walk h]

theorem mem_of_others (h : Others entries hole entry) : entry ∈ entries := by
  obtain ⟨position, -, at_⟩ := h
  exact List.mem_iff_getElem?.mpr ⟨position, at_⟩

/-- Past the end there is no hole. -/
theorem others_length : Others entries entries.length entry ↔ entry ∈ entries := by
  constructor
  · exact mem_of_others
  · intro member
    obtain ⟨position, at_⟩ := List.mem_iff_getElem?.mp member
    have bound := (List.getElem?_eq_some_iff.mp at_).1
    exact ⟨position, by omega, at_⟩

/-- With the hole at the end, the others are those in front of it. -/
theorem others_concat {value : α} :
    Others (entries ++ [value]) entries.length entry ↔ entry ∈ entries := by
  rw [← others_length]
  constructor
  · rintro ⟨position, away, at_⟩
    have inside := (List.getElem?_eq_some_iff.mp at_).1
    rw [List.length_append, List.length_singleton] at inside
    exact ⟨position, away, by rwa [List.getElem?_append_left (by omega)] at at_⟩
  · rintro ⟨position, away, at_⟩
    have inside := (List.getElem?_eq_some_iff.mp at_).1
    exact ⟨position, away, by rwa [List.getElem?_append_left inside]⟩

/-- With the hole further in front, the last entry is one of the others. -/
theorem others_append {last : α} (inside : hole < entries.length) :
    Others (entries ++ [last]) hole entry ↔ entry = last ∨ Others entries hole entry := by
  constructor
  · rintro ⟨position, away, at_⟩
    by_cases final : position = entries.length
    · rw [final, List.getElem?_concat_length] at at_
      exact .inl (Option.some.inj at_).symm
    · have bound := (List.getElem?_eq_some_iff.mp at_).1
      rw [List.length_append, List.length_singleton] at bound
      exact .inr ⟨position, away, by rwa [List.getElem?_append_left (by omega)] at at_⟩
  · rintro (rfl | ⟨position, away, at_⟩)
    · exact ⟨entries.length, by omega, List.getElem?_concat_length⟩
    · have bound := (List.getElem?_eq_some_iff.mp at_).1
      exact ⟨position, away, by rwa [List.getElem?_append_left bound]⟩

/-! ## Engines -/

/-- The choices of an engine: the path of a stored entry, the path of a replaced
entry and whether it is placed anew, and the path of the last entry when
another is removed. -/
structure Engine (α : Type u) where
  store : List α → α → List Nat
  update : List α → Nat → α → List Nat × Bool
  remove : List α → Nat → List Nat

/-- The engine keeps to its hole and restores the order, and the order puts the
least entry at the root. -/
structure Engine.Lawful (engine : Engine α) (before : α → α → Prop) (Ordered : List α → Prop) :
    Prop where
  nil : Ordered []
  root : ∀ {entry : α} {rest : List α}, Ordered (entry :: rest) →
    ∀ other ∈ rest, before entry other
  store : ∀ {entries : List α} (value : α), Ordered entries →
    Walks (entries.length + 1) entries.length (engine.store entries value) ∧
      Ordered (settle (entries ++ [value]) entries.length (engine.store entries value) value)
  update : ∀ {entries : List α} {position : Nat} (value : α), Ordered entries →
    position < entries.length →
    Walks entries.length position (engine.update entries position value).1 ∧
      ((engine.update entries position value).2 = false →
        (engine.update entries position value).1 = []) ∧
      Ordered (settle entries position (engine.update entries position value).1 value)
  remove : ∀ {entries : List α} {last : α} {position : Nat}, Ordered (entries ++ [last]) →
    position < entries.length →
    Walks entries.length position (engine.remove (entries ++ [last]) position) ∧
      Ordered (settle entries position (engine.remove (entries ++ [last]) position) last)
  shrink : ∀ {entries : List α} {last : α}, Ordered (entries ++ [last]) → Ordered entries

/-! ## The least entry at the root -/

theorem exists_least {before : α → α → Prop} (total : ∀ a b, before a b ∨ before b a)
    (trans : ∀ {a b c}, before a b → before b c → before a c) (some : entries ≠ []) :
    ∃ least ∈ entries, ∀ other ∈ entries, before least other := by
  induction entries with
  | nil => exact absurd rfl some
  | cons entry rest ih =>
    have self : before entry entry := (total entry entry).elim id id
    by_cases empty : rest = []
    · subst empty
      refine ⟨entry, List.mem_singleton_self entry, ?_⟩
      intro other member
      rw [List.mem_singleton.mp member]
      exact self
    · obtain ⟨least, inside, all⟩ := ih empty
      rcases total entry least with first | second
      · refine ⟨entry, List.mem_cons_self, ?_⟩
        intro other member
        rcases List.mem_cons.mp member with rfl | member
        · exact self
        · exact trans first (all other member)
      · refine ⟨least, List.mem_cons_of_mem _ inside, ?_⟩
        intro other member
        rcases List.mem_cons.mp member with rfl | member
        · exact second
        · exact all other member

section
variable (before : α → α → Prop) [DecidableRel before]

/-- The order of an engine that looks after the root only. -/
def RootFirst (entries : List α) : Prop :=
  ∀ root, entries[0]? = some root → ∀ other ∈ entries, before root other

/-- The position of a least entry behind the root. -/
def leastBehind (entries : List α) : Option Nat :=
  entries.tail.findIdx? fun entry => entries.tail.all fun other => before entry other

/-- One shift is enough: the least entry comes up to the root, or the root goes
down to the hole. -/
def rootPath (entries : List α) (hole : Nat) (hand : α) : List Nat :=
  if hole = 0 then
    match leastBehind before entries with
    | none => []
    | some k => if entries[k + 1]?.all fun least => before hand least then [] else [k + 1]
  else if entries[0]?.all fun root => before root hand then []
  else [0]

def rootFirst : Engine α where
  store entries value := rootPath before (entries ++ [value]) entries.length value
  update entries position value :=
    (rootPath before entries position value, !(rootPath before entries position value).isEmpty)
  remove entries position :=
    match entries.getLast? with
    | none => []
    | some last => rootPath before entries.dropLast position last

variable {before}

/-- A least entry behind the root is found unless there is nothing there. -/
theorem leastBehind_spec (total : ∀ a b, before a b ∨ before b a)
    (trans : ∀ {a b c}, before a b → before b c → before a c) (entries : List α) :
    (leastBehind before entries = none ∧ entries.tail = []) ∨
      ∃ k least, leastBehind before entries = some k ∧ entries[k + 1]? = some least ∧
        ∀ other ∈ entries.tail, before least other := by
  unfold leastBehind
  cases found : entries.tail.findIdx? fun entry => entries.tail.all fun other => before entry other with
  | none =>
    refine .inl ⟨rfl, ?_⟩
    by_contra some
    obtain ⟨least, inside, all⟩ := exists_least total trans some
    have missed := List.findIdx?_eq_none_iff.mp found least inside
    rw [List.all_eq_false] at missed
    obtain ⟨other, member, clash⟩ := missed
    exact clash (decide_eq_true (all other member))
  | some k =>
    obtain ⟨bound, holds, -⟩ := List.findIdx?_eq_some_iff_getElem.mp found
    refine .inr ⟨k, entries.tail[k], rfl, ?_, ?_⟩
    · rw [← List.getElem?_tail, List.getElem?_eq_getElem bound]
    · intro other member
      exact of_decide_eq_true (List.all_eq_true.mp holds other member)

theorem others_zero : Others entries 0 entry ↔ entry ∈ entries.tail := by
  rw [List.mem_iff_getElem?]
  constructor
  · rintro ⟨position, away, at_⟩
    obtain ⟨position, rfl⟩ := Nat.exists_eq_succ_of_ne_zero away
    exact ⟨position, by rw [List.getElem?_tail]; exact at_⟩
  · rintro ⟨position, at_⟩
    exact ⟨position + 1, by omega, by rw [List.getElem?_tail] at at_; exact at_⟩

/-- The path keeps to the array and puts the least entry at the root, if the
root was least among the entries outside the hole. -/
theorem rootPath_spec (total : ∀ a b, before a b ∨ before b a)
    (trans : ∀ {a b c}, before a b → before b c → before a c) (inside : hole < entries.length)
    (hand : α)
    (ordered : hole ≠ 0 → ∀ root, entries[0]? = some root → ∀ other, Others entries hole other →
      before root other) :
    Walks entries.length hole (rootPath before entries hole hand) ∧
      RootFirst before (settle entries hole (rootPath before entries hole hand) hand) := by
  have self : ∀ entry, before entry entry := fun entry => (total entry entry).elim id id
  have finish : ∀ {path : List Nat} {root : α}, Walks entries.length hole path →
      (settle entries hole path hand)[0]? = some root → before root hand →
      (∀ other, Others entries hole other → before root other) →
      RootFirst before (settle entries hole path hand) := by
    intro path root walks top first rest found same other member
    rw [top] at same
    cases same
    rcases (mem_settle walks hand other).mp member with rfl | member
    · exact first
    · exact rest other member
  unfold rootPath
  by_cases zero : hole = 0
  · subst zero
    rw [if_pos rfl]
    have stay : (settle entries 0 [] hand)[0]? = some hand := List.getElem?_set_self inside
    rcases leastBehind_spec total trans entries with ⟨none, empty⟩ | ⟨k, least, found, at_, all⟩
    · rw [none]
      refine ⟨inside, finish inside stay (self hand) ?_⟩
      intro other member
      rw [others_zero, empty] at member
      exact absurd member List.not_mem_nil
    · rw [found]
      dsimp only
      rw [at_]
      by_cases first : before hand least
      · rw [if_pos (by simpa using first)]
        refine ⟨inside, finish inside stay (self hand) ?_⟩
        intro other member
        exact trans first (all other (others_zero.mp member))
      · rw [if_neg (by simpa using first)]
        have bound := (List.getElem?_eq_some_iff.mp at_).1
        have walks : Walks entries.length 0 [k + 1] := ⟨inside, by omega, bound⟩
        refine ⟨walks, finish walks ?_ ((total hand least).resolve_left first) ?_⟩
        · unfold settle walk walk
          rw [List.getElem?_set_ne (by omega), shift_get inside at_, if_pos rfl]
        · intro other member
          exact all other (others_zero.mp member)
  · rw [if_neg zero]
    have top : entries[0]? = some entries[0] := List.getElem?_eq_getElem (by omega)
    have least := ordered zero _ top
    rw [top]
    by_cases first : before entries[0] hand
    · rw [if_pos (by simpa using first)]
      refine ⟨inside, finish inside ?_ first least⟩
      unfold settle walk
      rw [List.getElem?_set_ne (by omega), top]
    · rw [if_neg (by simpa using first)]
      have walks : Walks entries.length hole [0] := ⟨inside, Ne.symm zero, by
        show 0 < entries.length
        omega⟩
      refine ⟨walks, finish walks ?_ (self hand) ?_⟩
      · unfold settle walk walk
        exact List.getElem?_set_self (by rw [length_shift]; omega)
      · intro other member
        exact trans ((total entries[0] hand).resolve_left first) (least other member)

theorem rootFirst_lawful (total : ∀ a b, before a b ∨ before b a)
    (trans : ∀ {a b c}, before a b → before b c → before a c) :
    (rootFirst before).Lawful before (RootFirst before) where
  nil := by
    intro root found
    cases found
  root := by
    intro entry rest ordered other member
    exact ordered entry rfl other (List.mem_cons_of_mem _ member)
  store := by
    intro entries value ordered
    have inside : entries.length < (entries ++ [value]).length := by simp
    have spec := rootPath_spec total trans inside value ?_
    · rwa [List.length_append] at spec
    · intro some root top other member
      rw [List.getElem?_append_left (by omega)] at top
      obtain ⟨position, away, at_⟩ := member
      have bound := (List.getElem?_eq_some_iff.mp at_).1
      rw [List.length_append, List.length_singleton] at bound
      rw [List.getElem?_append_left (by omega)] at at_
      exact ordered root top other (List.mem_iff_getElem?.mpr ⟨position, at_⟩)
  update := by
    intro entries position value ordered inside
    obtain ⟨walks, first⟩ := rootPath_spec total trans inside value (fun _ root top other member =>
      ordered root top other (mem_of_others member))
    refine ⟨walks, ?_, first⟩
    intro kept
    simpa [rootFirst] using kept
  remove := by
    intro entries last position ordered inside
    have path : (rootFirst before).remove (entries ++ [last]) position =
        rootPath before entries position last := by
      simp [rootFirst]
    rw [path]
    refine rootPath_spec total trans inside last ?_
    intro _ root top other member
    refine ordered root ?_ other (List.mem_append_left _ (mem_of_others member))
    rw [List.getElem?_append_left (by omega)]
    exact top
  shrink := by
    intro entries last ordered root top other member
    refine ordered root ?_ other (List.mem_append_left _ member)
    rw [List.getElem?_append_left (List.getElem?_eq_some_iff.mp top).1]
    exact top

end

end Dope.Hole
