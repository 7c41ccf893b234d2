import Dope.Core.Flight.Batch

/-! # Issuing the entries of a group

A selected group is free: it is not leased, and none of its entries is in
flight. Activation threads as many of its vacant entries on the free list as
were asked for, and leaves everything outside of the group alone.
-/

namespace Dope.Core.Flight

open Function

variable {T : Type}

/-- The entry is in the block of the group. -/
def Group.Has (group : Group) (e : Nat) : Prop := group.first ≤ e ∧ e < group.first + group.len

theorem Group.mem_slice {group : Group} {e : Nat} : e ∈ group.slice ↔ group.Has e := by
  unfold slice Has
  rw [List.mem_range'_1]

namespace Arena

variable {arena after : Arena T} {g e : Nat}

/-! ## Free lists -/

/-- The link of a vacant entry. -/
def link (arena : Arena T) (e : Nat) : Option Nat :=
  match (arena.entry e).word with
  | .free next => next
  | _ => none

/-- The free list of a group. -/
structure Free (arena : Arena T) (g : Nat) (xs : List Nat) : Prop where
  threads : Stack.Threads arena.link (arena.group g).free xs
  nodup : xs.Nodup
  vacant : ∀ e ∈ xs, ∃ next, (arena.entry e).word = .free next
  inside : ∀ e ∈ xs, (arena.group g).Has e

/-- A group and its entries are as before. -/
structure Apart (g : Nat) (before after : Arena T) : Prop where
  group : after.group g = before.group g
  entry : ∀ e, (before.group g).Has e → after.entry e = before.entry e

theorem Apart.refl (g : Nat) (arena : Arena T) : Apart g arena arena := ⟨rfl, fun _ _ => rfl⟩

theorem Apart.trans {third : Arena T} (first : Apart g arena after) (second : Apart g after third) :
    Apart g arena third := by
  refine ⟨second.group.trans first.group, ?_⟩
  intro e has
  rw [second.entry e (by rw [first.group]; exact has), first.entry e has]

theorem Free.apart {xs : List Nat} (free : Free arena g xs) (apart : Apart g arena after) :
    Free after g xs := by
  refine ⟨?_, free.nodup, ?_, ?_⟩
  · rw [apart.group]
    apply free.threads.frame
    intro e member
    unfold link
    rw [apart.entry e (free.inside e member)]
  · intro e member
    rw [apart.entry e (free.inside e member)]
    exact free.vacant e member
  · intro e member
    rw [apart.group]
    exact free.inside e member

/-! ## Returning an entry -/

/-- What stays the same when links change. -/
structure Keeps (before after : Arena T) : Prop where
  len : after.len = before.len
  capacity : after.capacity = before.capacity
  count : after.count = before.count
  first : ∀ g, (after.group g).first = (before.group g).first
  size : ∀ g, (after.group g).len = (before.group g).len
  entry : ∀ e, (after.entry e).value = (before.entry e).value ∧
    (after.entry e).index = (before.entry e).index ∧
    (after.entry e).generation = (before.entry e).generation ∧
    ((after.entry e).word = (before.entry e).word ∨
      (∃ next, (after.entry e).word = .free next) ∧ before.flags e = .clear)

theorem Keeps.refl (arena : Arena T) : Keeps arena arena :=
  ⟨rfl, rfl, rfl, fun _ => rfl, fun _ => rfl, fun _ => ⟨rfl, rfl, rfl, .inl rfl⟩⟩

theorem Keeps.flags (keeps : Keeps arena after) (e : Nat) : after.flags e = arena.flags e := by
  obtain ⟨-, -, -, same | ⟨⟨next, word⟩, clear⟩⟩ := keeps.entry e
  · unfold Arena.flags
    rw [same]
  · rw [clear]
    unfold Arena.flags
    rw [word]
    rfl

theorem Keeps.trans {third : Arena T} (first : Keeps arena after) (second : Keeps after third) :
    Keeps arena third := by
  refine ⟨second.len.trans first.len, second.capacity.trans first.capacity,
    second.count.trans first.count, fun g => (second.first g).trans (first.first g),
    fun g => (second.size g).trans (first.size g), ?_⟩
  intro e
  obtain ⟨value, index, generation, word⟩ := first.entry e
  obtain ⟨value', index', generation', word'⟩ := second.entry e
  refine ⟨value'.trans value, index'.trans index, generation'.trans generation, ?_⟩
  rcases word' with same | ⟨free, clear⟩
  · rw [same]
    exact word
  · right
    rw [← first.flags e]
    exact ⟨free, clear⟩

theorem Keeps.has (keeps : Keeps arena after) (g e : Nat) :
    (after.group g).Has e ↔ (arena.group g).Has e := by
  unfold Group.Has
  rw [keeps.first, keeps.size]

theorem releaseVacant_entry (arena : Arena T) (e g other : Nat) :
    (arena.releaseVacant e g).entry other =
      if other = e then { arena.entry e with word := .free (arena.group g).free }
      else arena.entry other := by
  unfold releaseVacant setGroup setWord setEntry
  dsimp only
  rw [update_apply]

theorem releaseVacant_group (arena : Arena T) (e g other : Nat) :
    (arena.releaseVacant e g).group other =
      if other = g then { arena.group g with free := some e } else arena.group other := by
  unfold releaseVacant setGroup setWord setEntry
  dsimp only
  rw [update_apply]

theorem releaseVacant_keeps (clear : arena.flags e = .clear) (g : Nat) :
    Keeps arena (arena.releaseVacant e g) := by
  refine ⟨rfl, rfl, rfl, ?_, ?_, ?_⟩
  · intro other
    rw [releaseVacant_group]
    split
    · rename_i same
      rw [same]
    · rfl
  · intro other
    rw [releaseVacant_group]
    split
    · rename_i same
      rw [same]
    · rfl
  · intro other
    rw [releaseVacant_entry]
    split
    · rename_i same
      subst same
      exact ⟨rfl, rfl, rfl, .inr ⟨⟨_, rfl⟩, clear⟩⟩
    · exact ⟨rfl, rfl, rfl, .inl rfl⟩

theorem Free.release {xs : List Nat} (free : Free arena g xs) (out : e ∉ xs)
    (has : (arena.group g).Has e) : Free (arena.releaseVacant e g) g (e :: xs) := by
  have linked : (arena.releaseVacant e g).link = update arena.link e (arena.group g).free := by
    funext other
    rw [update_apply]
    unfold link
    rw [releaseVacant_entry]
    by_cases same : other = e
    · rw [if_pos same, if_pos same]
    · rw [if_neg same, if_neg same]
  have group : (arena.releaseVacant e g).group g = { arena.group g with free := some e } := by
    rw [releaseVacant_group, if_pos rfl]
  refine ⟨?_, List.nodup_cons.mpr ⟨out, free.nodup⟩, ?_, ?_⟩
  · rw [linked, group]
    exact free.threads.push out
  · intro other member
    rw [releaseVacant_entry]
    split
    · exact ⟨_, rfl⟩
    · rename_i differ
      rcases List.mem_cons.mp member with same | member
      · exact absurd same differ
      · exact free.vacant other member
  · intro other member
    rw [group]
    rcases List.mem_cons.mp member with rfl | member
    · exact has
    · exact free.inside other member

/-- A group that does not hold the entry is left alone. -/
theorem releaseVacant_apart {other : Nat} (differ : other ≠ g)
    (out : ¬ (arena.group other).Has e) : Apart other arena (arena.releaseVacant e g) := by
  constructor
  · rw [releaseVacant_group, if_neg differ]
  · intro e' has
    rw [releaseVacant_entry, if_neg]
    rintro rfl
    exact out has

/-! ## Issuing -/

/-- The vacant entries of a list. -/
def vacant (arena : Arena T) (es : List Nat) : List Nat :=
  es.filter fun e => arena.flags e = .clear

/-- The header and the links of the group change, and nothing else. -/
structure Issues (g : Nat) (before after : Arena T) : Prop where
  keeps : Keeps before after
  group : after.group g = { before.group g with free := (after.group g).free }
  apart : ∀ other, other ≠ g → (∀ e, (before.group other).Has e → ¬ (before.group g).Has e) →
    Apart other before after

theorem Issues.refl (g : Nat) (arena : Arena T) : Issues g arena arena :=
  ⟨.refl arena, rfl, fun other _ _ => .refl other arena⟩

theorem issue_issues {es : List Nat} {left : Nat} (inside : ∀ e ∈ es, (arena.group g).Has e) :
    Issues g arena (issue g es left arena) := by
  induction es generalizing arena left with
  | nil => exact .refl g arena
  | cons e rest ih =>
    cases left with
    | zero => exact .refl g arena
    | succ left =>
      have inside' : ∀ e ∈ rest, (arena.group g).Has e :=
        fun e member => inside e (List.mem_cons_of_mem _ member)
      unfold issue
      split
      · rename_i clear
        have keeps := releaseVacant_keeps clear g
        have rest := @ih (arena.releaseVacant e g) left fun e member =>
          (keeps.has g e).mpr (inside' e member)
        have group : (arena.releaseVacant e g).group g =
            { arena.group g with free := some e } := by
          rw [releaseVacant_group, if_pos rfl]
        refine ⟨keeps.trans rest.keeps, ?_, ?_⟩
        · have header := rest.group
          rw [group] at header
          exact header
        · intro other differ disjoint
          have out : ¬ (arena.group other).Has e := by
            intro has
            exact disjoint e has (inside e List.mem_cons_self)
          apply (releaseVacant_apart differ out).trans
          apply rest.apart other differ
          intro e' has
          rw [keeps.has] at has ⊢
          exact disjoint e' has
      · exact ih inside'

/-- The group is leased and its free list has the entries that were asked for. -/
structure Leased (arena : Arena T) (g capacity : Nat) : Prop where
  leased : (arena.group g).leased = true
  empty : (arena.group g).empty = decide (capacity = 0)
  issued : (arena.group g).issued = capacity
  free : ∃ xs, Free arena g xs ∧ xs.length = capacity

theorem Leased.apart {capacity : Nat} (leased : Leased arena g capacity)
    (apart : Apart g arena after) : Leased after g capacity := by
  obtain ⟨xs, free, size⟩ := leased.free
  refine ⟨?_, ?_, ?_, xs, free.apart apart, size⟩
  · rw [apart.group]
    exact leased.leased
  · rw [apart.group]
    exact leased.empty
  · rw [apart.group]
    exact leased.issued

theorem activate_keeps (arena : Arena T) (g capacity : Nat) :
    Keeps arena (arena.activate g capacity) := by
  have reset : Keeps arena (arena.setGroup g { arena.group g with
      free := none, leased := true, empty := capacity = 0, issued := capacity }) := by
    refine ⟨rfl, rfl, rfl, ?_, ?_, fun _ => ⟨rfl, rfl, rfl, .inl rfl⟩⟩
    · intro other
      unfold setGroup
      dsimp only
      rw [update_apply]
      split
      · rename_i same
        rw [same]
      · rfl
    · intro other
      unfold setGroup
      dsimp only
      rw [update_apply]
      split
      · rename_i same
        rw [same]
      · rfl
  apply reset.trans
  apply (issue_issues _).keeps
  intro e member
  rw [reset.has]
  exact Group.mem_slice.mp (List.mem_reverse.mp member)

theorem activate_apart {other : Nat} (differ : other ≠ g) (capacity : Nat)
    (disjoint : ∀ e, (arena.group other).Has e → ¬ (arena.group g).Has e) :
    Apart other arena (arena.activate g capacity) := by
  have same : ∀ group : Group, (arena.setGroup g group).group other = arena.group other :=
    fun group => update_of_ne differ ..
  have here : ∀ group : Group, (arena.setGroup g group).group g = group :=
    fun group => update_self ..
  have reset : ∀ group : Group, Apart other arena (arena.setGroup g group) :=
    fun group => ⟨same group, fun _ _ => rfl⟩
  apply (reset _).trans
  apply (issue_issues _).apart other differ
  · intro e has
    rw [same] at has
    rw [here]
    exact disjoint e has
  · intro e member
    rw [here]
    exact Group.mem_slice.mp (List.mem_reverse.mp member)

theorem activate_group (arena : Arena T) (g capacity : Nat) :
    (arena.activate g capacity).group g = { arena.group g with
      free := ((arena.activate g capacity).group g).free
      leased := true
      empty := capacity = 0
      issued := capacity } := by
  have here : ∀ group : Group, (arena.setGroup g group).group g = group :=
    fun group => update_self ..
  have issues := (@issue_issues T (arena.setGroup g { arena.group g with
      free := none, leased := true, empty := capacity = 0, issued := capacity }) g
      (arena.group g).slice.reverse capacity (by
    intro e member
    rw [here]
    exact Group.mem_slice.mp (List.mem_reverse.mp member))).group
  rw [here] at issues
  exact issues

end Arena

end Dope.Core.Flight
