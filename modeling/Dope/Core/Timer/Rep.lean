import Mathlib.Algebra.Group.Nat.Defs
import Mathlib.Data.List.Perm.Subperm
import Dope.Core.Timer.Heap

/-! # The map of a timer store

The four planes describe one map from slots to alarms. The heap edits keep the
positions and the state words of all entries together, around the hole and
after it is closed.
-/

namespace Dope.Core.Timer

open Run Function

variable {P R : Type}

/-! ## The heap prefix -/

/-- The planes hold `entries`, and every slot knows its position, except at the
hole. -/
structure Lays (core : Core P R) (entries : List (Nat × P)) (hole : Nat) : Prop where
  fits : entries.length ≤ core.capacity.count
  entry : ∀ {position slot : Nat} {due : P}, entries[position]? = some (slot, due) →
    position ≠ hole → core.slots position = some slot ∧ core.priorities position = some due ∧
      slot < core.capacity.count ∧ core.states slot = position

/-- What a heap edit that ends with `entries` leaves alone. -/
structure Moved (core next : Core P R) (entries : Nat × P → Prop) : Prop where
  capacity : next.capacity = core.capacity
  residents : next.residents = core.residents
  len : next.len = core.len
  free : next.free = core.free
  states : ∀ slot, (∀ due, ¬ entries (slot, due)) → next.states slot = core.states slot

theorem Moved.refl (core : Core P R) (entries : Nat × P → Prop) : Moved core core entries :=
  ⟨rfl, rfl, rfl, rfl, fun _ _ => rfl⟩

theorem Moved.trans {core middle next : Core P R} {entries : Nat × P → Prop}
    (first : Moved core middle entries) (second : Moved middle next entries) :
    Moved core next entries where
  capacity := second.capacity.trans first.capacity
  residents := second.residents.trans first.residents
  len := second.len.trans first.len
  free := second.free.trans first.free
  states := fun slot away => (second.states slot away).trans (first.states slot away)

theorem Moved.mono {core next : Core P R} {entries wider : Nat × P → Prop}
    (moved : Moved core next entries) (grows : ∀ entry, entries entry → wider entry) :
    Moved core next wider :=
  { moved with states := fun slot away => moved.states slot (fun due member =>
      away due (grows _ member)) }

variable {core : Core P R} {entries : List (Nat × P)} {hole position : Nat}

theorem Lays.bound (h : Lays core entries hole) (inside : position < entries.length) :
    position < core.capacity.count := by
  have fits := h.fits
  omega

variable {slot : Nat}

theorem Lays.unique (h : Lays core entries hole) {first second : Nat} {due other : P}
    (left : entries[first]? = some (slot, due)) (right : entries[second]? = some (slot, other))
    (away : first ≠ hole) (away' : second ≠ hole) : first = second := by
  obtain ⟨-, -, -, word⟩ := h.entry left away
  obtain ⟨-, -, -, word'⟩ := h.entry right away'
  exact word.symm.trans word'

theorem Lays.entryAt (h : Lays core entries hole) {entry : Nat × P}
    (found : entries[position]? = some entry) (away : position ≠ hole) :
    core.entryAt position = .ok entry := by
  obtain ⟨slot, due⟩ := entry
  obtain ⟨slots, priorities, -, -⟩ := h.entry found away
  unfold Core.entryAt
  rw [if_pos (h.bound (List.getElem?_eq_some_iff.mp found).1), slots, priorities]

theorem Lays.entriesFrom (h : Lays core entries entries.length) {left : Nat}
    (whole : position + left = entries.length) :
    core.entriesFrom left position = .ok (entries.drop position) := by
  induction left generalizing position with
  | zero =>
    rw [Core.entriesFrom, List.drop_of_length_le (by omega)]
  | succ left ih =>
    have inside : position < entries.length := by omega
    unfold Core.entriesFrom
    rw [h.entryAt (List.getElem?_eq_getElem inside) (by omega), ok_bind, ih (by omega),
      ok_bind, List.drop_eq_getElem_cons inside]

theorem Lays.reads (h : Lays core entries entries.length) (len : core.len = entries.length) :
    core.entries = .ok entries := by
  unfold Core.entries
  rw [h.entriesFrom (by omega), List.drop_zero]

theorem Lays.read (h : Lays core entries entries.length) {entry : Nat × P}
    (found : entries[position]? = some entry) :
    ∃ next, core.read position = .ok (entry, next) ∧ Lays next entries position ∧
      Moved core next (fun _ => False) ∧ next.slots = core.slots := by
  have inside := (List.getElem?_eq_some_iff.mp found).1
  have run : core.read position = .ok (entry,
      { core with priorities := update core.priorities position none }) := by
    unfold Core.read
    rw [h.entryAt found (by omega), ok_bind]
  refine ⟨_, run, ⟨h.fits, ?_⟩, ⟨rfl, rfl, rfl, rfl, fun _ _ => rfl⟩, rfl⟩
  intro other slot due at_ away
  have within := (List.getElem?_eq_some_iff.mp at_).1
  obtain ⟨slots, priorities, bound, word⟩ := h.entry at_ (by omega)
  refine ⟨slots, ?_, bound, word⟩
  dsimp only
  rw [update_of_ne away]
  exact priorities

section

variable (h : Lays core entries hole) (inside : hole < entries.length)

include h inside

/-- Close the hole with an entry whose slot stands nowhere else. -/
theorem Lays.write (due : P) (bound : slot < core.capacity.count)
    (fresh : ∀ other, ¬ Hole.Others entries hole (slot, other)) :
    ∃ next, core.write true hole (slot, due) = .ok next ∧
      (∀ size, Lays next (entries.set hole (slot, due)) size) ∧
      Moved core next (fun entry => entry = (slot, due)) := by
  have limit := core.capacity.bound
  have fits := h.fits
  have word : hole % 2 ^ 32 = hole := Nat.mod_eq_of_lt (by omega)
  have run : core.write true hole (slot, due) = .ok
      { core with
        slots := update core.slots hole (some slot)
        priorities := update core.priorities hole (some due)
        states := update core.states slot hole } := by
    unfold Core.write
    rw [if_pos (h.bound inside), if_pos rfl, word]
    exact if_pos bound
  refine ⟨_, run, ?_, ?_⟩
  · intro size
    refine ⟨by rw [List.length_set]; exact fits, ?_⟩
    intro position other due' at_ _
    dsimp only
    by_cases here : position = hole
    · subst here
      rw [List.getElem?_set_self inside] at at_
      cases at_
      simp only [update_self]
      exact ⟨trivial, trivial, bound, trivial⟩
    · rw [List.getElem?_set_ne (fun same => here same.symm)] at at_
      obtain ⟨slots, priorities, within, stands⟩ := h.entry at_ here
      have apart : other ≠ slot := by
        rintro rfl
        exact fresh due' ⟨position, here, at_⟩
      rw [update_of_ne here, update_of_ne here, update_of_ne apart]
      exact ⟨slots, priorities, within, stands⟩
  · refine ⟨rfl, rfl, rfl, rfl, ?_⟩
    intro other away
    have apart : other ≠ slot := by
      rintro rfl
      exact away due rfl
    exact update_of_ne apart _ _

theorem Lays.keep (due : P) (slots : core.slots hole = some slot)
    (bound : slot < core.capacity.count) (stands : core.states slot = hole) :
    ∃ next, core.write false hole (slot, due) = .ok next ∧
      (∀ size, Lays next (entries.set hole (slot, due)) size) ∧
      Moved core next (fun _ => False) := by
  have run : core.write false hole (slot, due) = .ok
      { core with priorities := update core.priorities hole (some due) } :=
    if_pos (h.bound inside)
  refine ⟨_, run, ?_, ⟨rfl, rfl, rfl, rfl, fun _ _ => rfl⟩⟩
  intro size
  refine ⟨by rw [List.length_set]; exact h.fits, ?_⟩
  intro position other due' at_ _
  by_cases here : position = hole
  · subst here
    rw [List.getElem?_set_self inside] at at_
    cases at_
    exact ⟨slots, update_self .., bound, stands⟩
  · rw [List.getElem?_set_ne (fun same => here same.symm)] at at_
    obtain ⟨slots', priorities', bound', stands'⟩ := h.entry at_ here
    exact ⟨slots', (update_of_ne here _ _).trans priorities', bound', stands'⟩

theorem Lays.shift {source : Nat} (within : source < entries.length) (other : source ≠ hole) :
    ∃ next, core.shift source hole = .ok next ∧
      Lays next (Hole.shift entries hole source) source ∧
      Moved core next (Hole.Others entries hole) := by
  obtain ⟨⟨slot, due⟩, found⟩ : ∃ entry, entries[source]? = some entry :=
    ⟨_, List.getElem?_eq_getElem within⟩
  obtain ⟨-, -, bound, stands⟩ := h.entry found other
  have limit := core.capacity.bound
  have fits := h.fits
  have word : hole % 2 ^ 32 = hole := Nat.mod_eq_of_lt (by omega)
  have run : core.shift source hole = .ok
      { core with
        slots := update core.slots hole (some slot)
        priorities :=
          update (update core.priorities source none) hole (some due)
        states := update core.states slot hole } := by
    unfold Core.shift Core.read
    rw [h.entryAt found other, ok_bind, ok_bind]
    unfold Core.write
    dsimp only
    rw [if_pos (h.bound inside), if_pos rfl, word]
    exact if_pos bound
  refine ⟨_, run, ⟨by rw [Hole.length_shift]; exact fits, ?_⟩, ⟨rfl, rfl, rfl, rfl, ?_⟩⟩
  · intro position slot' due' at_ away
    rw [Hole.shift_get inside found] at at_
    dsimp only
    by_cases here : position = hole
    · subst here
      rw [if_pos rfl] at at_
      cases at_
      simp only [update_self]
      exact ⟨trivial, trivial, bound, trivial⟩
    · rw [if_neg here] at at_
      obtain ⟨slots, priorities, within', stands'⟩ := h.entry at_ here
      have apart : slot' ≠ slot := by
        rintro rfl
        exact away (stands'.symm.trans stands)
      rw [update_of_ne here, update_of_ne here, update_of_ne away,
        update_of_ne apart]
      exact ⟨slots, priorities, within', stands'⟩
  · intro slot' away
    have apart : slot' ≠ slot := by
      rintro rfl
      exact away due ⟨source, other, found⟩
    exact update_of_ne apart _ _

end

/-- The walk of the planes follows the walk of the entries. -/
theorem Lays.walk {path : List Nat} (h : Lays core entries hole)
    (walks : Hole.Walks entries.length hole path) :
    ∃ next, core.walk hole path = .ok ((Hole.walk entries hole path).2, next) ∧
      Lays next (Hole.walk entries hole path).1 (Hole.walk entries hole path).2 ∧
      Moved core next (Hole.Others entries hole) := by
  induction path generalizing core entries hole with
  | nil => exact ⟨core, rfl, h, .refl core _⟩
  | cons source path ih =>
    obtain ⟨inside, other, rest⟩ := walks
    obtain ⟨middle, shifted, lays, moved⟩ := h.shift inside rest.bound other
    rw [← Hole.length_shift entries hole source] at rest
    obtain ⟨next, run, lays', moved'⟩ := ih lays rest
    rw [Hole.length_shift] at rest
    refine ⟨next, ?_, lays', moved.trans (moved'.mono ?_)⟩
    · unfold Core.walk
      rw [shifted, ok_bind]
      exact run
    · intro entry member
      exact (Hole.others_shift inside other rest.bound entry).mp member

theorem Lays.settle {path : List Nat} (h : Lays core entries hole)
    (walks : Hole.Walks entries.length hole path) (due : P) (bound : slot < core.capacity.count)
    (fresh : ∀ other, ¬ Hole.Others entries hole (slot, other)) :
    ∃ middle next, core.walk hole path = .ok ((Hole.walk entries hole path).2, middle) ∧
      middle.write true (Hole.walk entries hole path).2 (slot, due) = .ok next ∧
      (∀ size, Lays next (Hole.settle entries hole path (slot, due)) size) ∧
      Moved core next (· ∈ Hole.settle entries hole path (slot, due)) := by
  obtain ⟨middle, run, lays, moved⟩ := h.walk walks
  have inside : (Hole.walk entries hole path).2 < (Hole.walk entries hole path).1.length := by
    rw [Hole.length_walk]
    exact walks.walk_lt
  obtain ⟨next, wrote, closed, moved'⟩ := lays.write inside due (by rwa [moved.capacity])
    (fun other member => fresh other ((Hole.others_walk walks _).mp member))
  refine ⟨middle, next, run, wrote, closed, (moved.mono ?_).trans (moved'.mono ?_)⟩
  · intro entry member
    exact (Hole.mem_settle walks _ _).mpr (.inr member)
  · rintro entry rfl
    exact (Hole.mem_settle walks _ _).mpr (.inl rfl)

theorem Lays.front {front back : List (Nat × P)} (h : Lays core (front ++ back) hole) :
    Lays core front hole where
  fits := by
    have fits := h.fits
    rw [List.length_append] at fits
    omega
  entry := by
    intro position slot due at_ away
    have inside := (List.getElem?_eq_some_iff.mp at_).1
    exact h.entry (by rw [List.getElem?_append_left inside]; exact at_) away

theorem Lays.forget (h : Lays core entries hole) (behind : entries.length ≤ position) :
    Lays { core with priorities := update core.priorities position none } entries hole where
  fits := h.fits
  entry := by
    intro other slot due at_ away
    have inside := (List.getElem?_eq_some_iff.mp at_).1
    obtain ⟨slots, priorities, bound, word⟩ := h.entry at_ away
    have apart : other ≠ position := by omega
    exact ⟨slots, (update_of_ne apart _ _).trans priorities, bound, word⟩

/-- The entry at the hole is the only one of its slot. -/
theorem Lays.others_iff (h : Lays core entries entries.length) {due : P}
    (found : entries[position]? = some (slot, due)) (entry : Nat × P) :
    Hole.Others entries position entry ↔ entry ∈ entries ∧ entry.1 ≠ slot := by
  have inside := (List.getElem?_eq_some_iff.mp found).1
  constructor
  · rintro ⟨other, away, at_⟩
    refine ⟨List.mem_iff_getElem?.mpr ⟨other, at_⟩, ?_⟩
    rintro rfl
    have within := (List.getElem?_eq_some_iff.mp at_).1
    exact away (h.unique at_ found (by omega) (by omega))
  · rintro ⟨member, apart⟩
    obtain ⟨other, at_⟩ := List.mem_iff_getElem?.mp member
    refine ⟨other, ?_, at_⟩
    rintro rfl
    rw [found] at at_
    cases at_
    exact apart rfl

/-! ## Heap edits -/

/-- The planes hold an ordered heap. -/
structure Heaped (Ordered : List (Nat × P) → Prop) (core : Core P R)
    (entries : List (Nat × P)) : Prop where
  lays : Lays core entries entries.length
  len : core.len = entries.length
  ordered : Ordered entries

variable {before : Nat × P → Nat × P → Prop} {Ordered : List (Nat × P) → Prop}
  {engine : Hole.Engine (Nat × P)}

section

variable (lawful : engine.Lawful before Ordered) (h : Heaped Ordered core entries)

include lawful h

theorem Heaped.insert (due : P) (bound : slot < core.capacity.count)
    (room : entries.length < core.capacity.count) (fresh : ∀ other, (slot, other) ∉ entries) :
    ∃ next grown, core.insert engine slot due = .ok next ∧ Heaped Ordered next grown ∧
      (∀ entry, entry ∈ grown ↔ entry = (slot, due) ∨ entry ∈ entries) ∧
      Moved { core with len := core.len + 1 } next (· ∈ grown) := by
  obtain ⟨walks, ordered⟩ := lawful.store (slot, due) h.ordered
  have opened : Lays core (entries ++ [(slot, due)]) entries.length := by
    refine ⟨by rw [List.length_append]; exact room, ?_⟩
    intro position other due' at_ away
    have inside := (List.getElem?_eq_some_iff.mp at_).1
    rw [List.length_append, List.length_singleton] at inside
    rw [List.getElem?_append_left (by omega)] at at_
    exact h.lays.entry at_ away
  have size : (entries ++ [(slot, due)]).length = entries.length + 1 := by simp
  rw [← size] at walks
  obtain ⟨middle, next, walked, wrote, closed, moved⟩ := opened.settle walks due bound
    (fun other member => fresh other (Hole.others_concat.mp member))
  refine ⟨{ next with len := core.len + 1 }, _, ?_, ⟨⟨(closed 0).fits, (closed _).entry⟩, ?_,
    ordered⟩, ?_, { moved with len := rfl }⟩
  · unfold Core.insert
    rw [h.lays.reads h.len, ok_bind, h.len, walked, ok_bind]
    dsimp only
    rw [wrote, ok_bind]
  · rw [Hole.length_settle, size, h.len]
  · intro entry
    rw [Hole.mem_settle walks, Hole.others_concat]

theorem Heaped.setAt {old : P} (found : entries[position]? = some (slot, old)) (due : P) :
    ∃ next edited, core.setAt engine position slot due = .ok next ∧ Heaped Ordered next edited ∧
      (∀ entry, entry ∈ edited ↔ entry = (slot, due) ∨ entry ∈ entries ∧ entry.1 ≠ slot) ∧
      Moved core next (· ∈ edited) := by
  have inside := (List.getElem?_eq_some_iff.mp found).1
  obtain ⟨walks, kept, ordered⟩ := lawful.update (slot, due) h.ordered inside
  obtain ⟨slots, -, bound, stands⟩ := h.lays.entry found (by omega)
  obtain ⟨middle, took, lays, moved, same⟩ := h.lays.read found
  have others := h.lays.others_iff found
  have members : ∀ entry, entry ∈ Hole.settle entries position
      (engine.update entries position (slot, due)).1 (slot, due) ↔
      entry = (slot, due) ∨ entry ∈ entries ∧ entry.1 ≠ slot := by
    intro entry
    rw [Hole.mem_settle walks, others]
  have fresh : ∀ other, ¬ Hole.Others entries position (slot, other) := by
    intro other member
    exact ((others _).mp member).2 rfl
  unfold Core.setAt
  rw [h.lays.reads h.len, ok_bind, took, ok_bind]
  cases place : (engine.update entries position (slot, due)).2 with
  | true =>
    obtain ⟨middle', next, walked, wrote, closed, moved'⟩ := lays.settle walks due
      (by rwa [moved.capacity]) fresh
    refine ⟨next, _, ?_, ⟨closed _, ?_, ordered⟩, members,
      (moved.mono (fun _ member => member.elim)).trans moved'⟩
    · dsimp only
      rw [walked, ok_bind]
      dsimp only
      rw [place]
      exact wrote
    · rw [Hole.length_settle, moved'.len, moved.len, h.len]
  | false =>
    -- The entry stays, and its slot and word already stand there.
    have path := kept place
    rw [path] at ordered members
    have word : middle.states slot = position :=
      (moved.states slot (fun _ => id)).trans stands
    obtain ⟨next, wrote, closed, moved'⟩ := lays.keep inside due (same ▸ slots)
      (by rwa [moved.capacity]) word
    refine ⟨next, _, ?_, ⟨closed _, ?_, ordered⟩, members,
      (moved.trans moved').mono (fun _ member => member.elim)⟩
    · dsimp only
      rw [path]
      dsimp only [Core.walk, ok_bind]
      rw [place]
      exact wrote
    · rw [List.length_set, moved'.len, moved.len, h.len]

theorem Heaped.removeAt {due : P} (found : entries[position]? = some (slot, due)) :
    ∃ next rest, core.removeAt engine position = .ok (due, next) ∧ Heaped Ordered next rest ∧
      (∀ entry, entry ∈ rest ↔ entry ∈ entries ∧ entry.1 ≠ slot) ∧
      Moved { core with len := core.len - 1 } next (· ∈ rest) := by
  have inside := (List.getElem?_eq_some_iff.mp found).1
  have others := h.lays.others_iff found
  obtain ⟨middle, took, lays, moved, -⟩ := h.lays.read found
  obtain ⟨front, last, rfl⟩ : ∃ front last, entries = front ++ [last] := by
    rcases List.eq_nil_or_concat entries with rfl | ⟨front, last, rfl⟩
    · exact absurd inside (Nat.not_lt_zero _)
    · exact ⟨front, last, List.concat_eq_append⟩
  have size : core.len - 1 = front.length := by
    rw [h.len, List.length_append, List.length_singleton, Nat.add_sub_cancel]
  unfold Core.removeAt
  rw [h.lays.reads h.len, ok_bind, took, ok_bind]
  dsimp only
  rw [size]
  by_cases final : position = front.length
  · subst final
    rw [if_pos rfl]
    refine ⟨_, front, rfl, ⟨⟨lays.front.fits, lays.front.entry⟩, rfl, lawful.shrink h.ordered⟩,
      ?_, { moved.mono (fun _ member => member.elim) with len := rfl }⟩
    intro entry
    rw [← others, Hole.others_concat]
  · rw [if_neg final]
    rw [List.length_append, List.length_singleton] at inside
    have within : position < front.length := by omega
    have behind : (front ++ [last])[front.length]? = some last := by simp
    obtain ⟨walks, ordered⟩ := lawful.remove h.ordered within
    have reading : middle.read front.length = .ok (last,
        { middle with priorities := update middle.priorities front.length none }) := by
      unfold Core.read
      rw [lays.entryAt behind (fun same => final same.symm), ok_bind]
    obtain ⟨lastSlot, lastDue⟩ := last
    obtain ⟨-, -, bound, stands⟩ := lays.entry behind (fun same => final same.symm)
    obtain ⟨middle', next, walked, wrote, closed, moved'⟩ :=
      (lays.front.forget (Nat.le_refl _)).settle walks lastDue bound (by
        rintro other ⟨place, away, at_⟩
        have under := (List.getElem?_eq_some_iff.mp at_).1
        obtain ⟨-, -, -, stands'⟩ := lays.front.entry at_ away
        omega)
    rw [reading, ok_bind]
    dsimp only
    rw [walked, ok_bind]
    dsimp only
    rw [wrote, ok_bind]
    refine ⟨_, _, rfl, ⟨⟨(closed 0).fits, (closed _).entry⟩, ?_, ordered⟩, ?_, ?_⟩
    · rw [Hole.length_settle]
    · intro entry
      rw [Hole.mem_settle walks, ← others, Hole.others_append within]
    · exact { (moved.mono (fun _ member => member.elim)).trans
        { moved' with len := moved'.len } with len := rfl }

/-! ## Alarms -/

end

/-- What the store is for: every slot is free or holds an alarm. -/
inductive Alarm (P R : Type) where
  | free
  | idle (item : R)
  | armed (item : R) (due : P)
  | fired (item : R)
deriving DecidableEq, Repr

namespace Alarm

def item : Alarm P R → Option R
  | .free => none
  | .idle item | .armed item _ | .fired item => some item

def due : Alarm P R → Option P
  | .armed _ due => some due
  | .free | .idle _ | .fired _ => none

def state : Alarm P R → Option State
  | .free => none
  | .idle _ => some .idle
  | .armed _ _ => some .armed
  | .fired _ => some .fired

/-- The word of a slot that is not armed. -/
def word : Alarm P R → Option Nat
  | .free => some freeWord
  | .idle _ => some idleWord
  | .fired _ => some firedWord
  | .armed _ _ => none

end Alarm

/-- The free chain, from its head to the word that ends it. -/
def Linked (residents : Nat → Resident R) : Nat → List Nat → Prop
  | head, [] => head = freeWord
  | head, slot :: rest => head = slot ∧ ∃ next, residents slot = .next next ∧
      Linked residents next rest

/-- The planes describe the map: the heap holds the armed slots, the words the
others, and the free chain the slots that are not leased. -/
structure Describes (Ordered : List (Nat × P) → Prop) (core : Core P R)
    (map : Nat → Alarm P R) (entries : List (Nat × P)) (chain : List Nat) : Prop where
  heaped : Heaped Ordered core entries
  armed : ∀ slot due, (slot, due) ∈ entries ↔ (map slot).due = some due
  word : ∀ slot word, slot < core.capacity.count → (map slot).word = some word →
    core.states slot = word
  item : ∀ slot item, (map slot).item = some item →
    slot < core.capacity.count ∧ core.residents slot = .value item
  linked : Linked core.residents core.free chain
  nodup : chain.Nodup
  vacant : ∀ slot, slot ∈ chain ↔ slot < core.capacity.count ∧ map slot = .free

theorem Linked.congr {residents residents' : Nat → Resident R} {head : Nat} {chain : List Nat}
    (h : Linked residents head chain) (same : ∀ slot ∈ chain, residents' slot = residents slot) :
    Linked residents' head chain := by
  induction chain generalizing head with
  | nil => exact h
  | cons slot rest ih =>
    obtain ⟨rfl, next, link, linked⟩ := h
    refine ⟨rfl, next, ?_, ih linked ?_⟩
    · rw [same _ List.mem_cons_self]
      exact link
    · intro other member
      exact same other (List.mem_cons_of_mem _ member)

namespace Describes

variable {map : Nat → Alarm P R} {chain : List Nat} {slot : Nat} {item : R}

section

variable (h : Describes Ordered core map entries chain)

include h

/-- An armed slot stands in the heap at the position its word tells. -/
theorem stands {due : P} (armed : (map slot).due = some due) :
    entries[core.states slot]? = some (slot, due) ∧ slot < core.capacity.count ∧
      core.states slot < 2 ^ 32 - 3 := by
  obtain ⟨position, at_⟩ := List.mem_iff_getElem?.mp ((h.armed slot due).mpr armed)
  have inside := (List.getElem?_eq_some_iff.mp at_).1
  obtain ⟨-, -, bound, stands⟩ := h.heaped.lays.entry at_ (by omega)
  have fits := h.heaped.lays.fits
  have limit := core.capacity.bound
  rw [stands]
  exact ⟨at_, bound, by omega⟩

theorem phase_armed {due : P} (armed : (map slot).due = some due) :
    core.phase slot = .ok (.armed (core.states slot)) := by
  obtain ⟨-, bound, small⟩ := h.stands armed
  unfold Core.phase
  rw [if_pos bound, if_neg (by unfold idleWord; omega), if_neg (by unfold firedWord; omega)]

theorem phase_idle (idle : map slot = .idle item) : core.phase slot = .ok .idle := by
  have bound := (h.item slot item (by rw [idle]; rfl)).1
  unfold Core.phase
  rw [if_pos bound, if_pos (h.word slot idleWord bound (by rw [idle]; rfl))]

theorem phase_fired (fired : map slot = .fired item) : core.phase slot = .ok .fired := by
  have bound := (h.item slot item (by rw [fired]; rfl)).1
  have word := h.word slot firedWord bound (by rw [fired]; rfl)
  unfold Core.phase
  rw [if_pos bound, word, if_neg (by decide), if_pos rfl]

end

end Describes

end Dope.Core.Timer
