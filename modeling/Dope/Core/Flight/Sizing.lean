import Mathlib.Algebra.Group.Nat.Defs
import Mathlib.Algebra.GroupWithZero.Nat
import Dope.Core.Flight.Issue

/-! # Sizing a batch

A batch that fits the index limit beside the directory is never refused for its
size, and a prepared batch stays within the limit and the planned directory. Each
of its groups has the entries that were asked for, and no two share an entry.
Whatever was selected was free, and it is free again when the batch fails or is
dropped.
-/

namespace Dope.Core.Flight

open Function Run

variable {T : Type}

/-! ## Well-formed arenas -/

/-- The groups are disjoint runs of the directory, which is within its capacity
and the index limit. -/
structure Arena.WellFormed (layout : Layout) (arena : Arena T) : Prop where
  fits : arena.len ≤ arena.capacity
  limit : arena.len ≤ layout.indexLimit
  spans : ∀ g < arena.count, (arena.group g).first + (arena.group g).len ≤ arena.len
  disjoint : ∀ g < arena.count, ∀ g' < arena.count, g ≠ g' →
    ∀ e, (arena.group g).Has e → ¬ (arena.group g').Has e

namespace Arena

variable {layout : Layout} {arena after : Arena T} {chain : Chain} {g capacity : Nat}

theorem WellFormed.keeps (formed : arena.WellFormed layout) (keeps : Keeps arena after) :
    after.WellFormed layout := by
  refine ⟨?_, ?_, ?_, ?_⟩
  · rw [keeps.len, keeps.capacity]
    exact formed.fits
  · rw [keeps.len]
    exact formed.limit
  · intro g below
    rw [keeps.count] at below
    rw [keeps.first, keeps.size, keeps.len]
    exact formed.spans g below
  · intro g below g' below' differ e
    rw [keeps.count] at below below'
    rw [keeps.has, keeps.has]
    exact formed.disjoint g below g' below' differ e

/-! ## Selection -/

/-- No lease is held on the group, and none of its entries is in flight. -/
structure Idle (arena : Arena T) (g : Nat) : Prop where
  unleased : (arena.group g).leased = false
  quiet : ∀ e, (arena.group g).Has e → arena.flags e = .clear ∨ arena.flags e = .retired

end Arena

/-! ## Rounding -/

variable {layout : Layout}

variable {capacity extent : Nat}

variable {states : List Preparation}

namespace Preparation

/-- The group of a reused lease. -/
def reused : Preparation → Option Nat
  | .reuse g => some g
  | .new _ _ _ => none

/-- What is prepared serves the capacity. -/
def Ready (arena : Arena T) : Preparation → Nat → Prop
  | .reuse g, capacity => arena.Leased g capacity
  | .new _ extent held, capacity => held = capacity ∧ capacity ≤ extent

/-- The new blocks continue each other from `start` to `stop`. -/
inductive Seeded : Nat → List Preparation → Nat → Prop where
  | nil {start : Nat} : Seeded start [] start
  | reuse {start stop g : Nat} {rest : List Preparation} :
      Seeded start rest stop → Seeded start (.reuse g :: rest) stop
  | new {start stop extent capacity : Nat} {rest : List Preparation} :
      Seeded (start + extent) rest stop → Seeded start (.new start extent capacity :: rest) stop

theorem Seeded.le {start stop : Nat} (h : Seeded start states stop) : start ≤ stop := by
  induction h with
  | nil => exact Nat.le_refl _
  | reuse _ ih => exact ih
  | new _ ih => omega

end Preparation

open Preparation

/-- The reused groups were idle, and only they are changed. -/
structure Prepares (before : Arena T) (states : List Preparation) (after : Arena T) : Prop where
  keeps : Arena.Keeps before after
  once : (states.filterMap reused).Nodup
  idle : ∀ g ∈ states.filterMap reused, g < before.count ∧ before.Idle g
  apart : ∀ g < before.count, g ∉ states.filterMap reused → Arena.Apart g before after

section
variable {layout : Layout} {memory : Memory} {chain : Chain} {arena after : Arena T}
  {states : List Preparation} {g capacity : Nat}

theorem Prepares.nil (arena : Arena T) : Prepares arena [] arena :=
  ⟨.refl arena, List.nodup_nil, by simp, fun g _ _ => .refl g arena⟩

theorem Prepares.new {seed : Nat} (prepares : Prepares arena states after) :
    Prepares arena (.new seed extent capacity :: states) after :=
  ⟨prepares.keeps, prepares.once, prepares.idle, prepares.apart⟩

/-- A group is leased before the rest, and so the rest does not select it. -/
theorem Prepares.reuse (formed : arena.WellFormed layout) (below : g < arena.count)
    (idle : arena.Idle g) (prepares : Prepares (arena.activate g capacity) states after) :
    Prepares arena (.reuse g :: states) after ∧
      Arena.Apart g (arena.activate g capacity) after := by
  have keeps := Arena.activate_keeps arena g capacity
  have header := Arena.activate_group arena g capacity
  have out : g ∉ states.filterMap reused := by
    intro member
    have unleased := (prepares.idle g member).2.unleased
    rw [header] at unleased
    simp at unleased
  have other : ∀ g' < arena.count, g' ≠ g → Arena.Apart g' arena (arena.activate g capacity) :=
    fun g' below' differ => Arena.activate_apart differ capacity
      (formed.disjoint g' below' g below differ)
  have listed : (Preparation.reuse g :: states).filterMap reused =
      g :: states.filterMap reused := rfl
  have count : (arena.activate g capacity).count = arena.count := keeps.count
  refine ⟨⟨keeps.trans prepares.keeps, ?_, ?_, ?_⟩, ?_⟩
  · rw [listed]
    exact List.nodup_cons.mpr ⟨out, prepares.once⟩
  · intro g' member
    rw [listed] at member
    rcases List.mem_cons.mp member with rfl | later
    · exact ⟨below, idle⟩
    · obtain ⟨below', idle'⟩ := prepares.idle g' later
      rw [count] at below'
      have differ : g' ≠ g := by
        rintro rfl
        exact out later
      have same := other g' below' differ
      refine ⟨below', ?_, ?_⟩
      · rw [← same.group]
        exact idle'.unleased
      · intro e has
        have quiet := idle'.quiet e (by rw [same.group]; exact has)
        rwa [keeps.flags] at quiet
  · intro g' below' absent
    rw [listed] at absent
    obtain ⟨differ, absent⟩ := List.ne_and_not_mem_of_not_mem_cons absent
    exact (other g' below' differ).trans (prepares.apart g' (by rw [count]; exact below') absent)
  · exact prepares.apart g (by rw [count]; exact below) out

/-- The allocator refuses no size within the index limit, and a planned directory
has the room that was required. -/
structure Memory.Lawful (memory : Memory) (limit : Nat) : Prop where
  block : ∀ k extent, memory.block k extent = some .overflow → limit < extent
  plan : ∀ capacity required next, memory.plan capacity required = .ok next →
    required ≤ next ∧ capacity ≤ next
  planned : ∀ capacity required, memory.plan capacity required = .error .overflow →
    limit < required

end

/-! ## Dropping -/

/-- The directory is as before, and every group as available: entries in flight
and leased groups are untouched, and whatever was free is free. -/
structure Arena.Restored (before after : Arena T) : Prop where
  keeps : Keeps before after
  leased : ∀ g < before.count, (after.group g).leased = (before.group g).leased
  apart : ∀ g < before.count, (before.group g).leased = true → Apart g before after

theorem dropAll_entry (arena : Arena T) (states : List Preparation) :
    (dropAll arena states).entry = arena.entry ∧ (dropAll arena states).len = arena.len ∧
      (dropAll arena states).capacity = arena.capacity ∧
      (dropAll arena states).count = arena.count := by
  unfold dropAll
  induction states generalizing arena with
  | nil => exact ⟨rfl, rfl, rfl, rfl⟩
  | cons state rest ih =>
    rw [List.foldl_cons]
    obtain ⟨entry, len, capacity, count⟩ := ih (state.drop arena)
    rw [entry, len, capacity, count]
    cases state with
    | reuse | new => exact ⟨rfl, rfl, rfl, rfl⟩

theorem dropAll_group (arena : Arena T) (states : List Preparation) (g : Nat) :
    (dropAll arena states).group g =
      if g ∈ states.filterMap reused then { arena.group g with leased := false }
      else arena.group g := by
  unfold dropAll
  induction states generalizing arena with
  | nil => rfl
  | cons state rest ih =>
    rw [List.foldl_cons, ih]
    cases state with
    | new seed extent capacity => rfl
    | reuse g' =>
      have listed : (Preparation.reuse g' :: rest).filterMap reused =
          g' :: rest.filterMap reused := rfl
      have released : (Preparation.drop arena (.reuse g')).group g =
          if g = g' then { arena.group g with leased := false } else arena.group g := by
        unfold drop Arena.release Arena.setGroup
        dsimp only
        rw [update_apply]
        by_cases same : g = g'
        · rw [if_pos same, if_pos same, same]
        · rw [if_neg same, if_neg same]
      rw [listed, released]
      by_cases same : g = g'
      · rw [if_pos same, if_pos (List.mem_cons.mpr (.inl same))]
        split <;> rfl
      · rw [if_neg same]
        by_cases later : g ∈ rest.filterMap reused
        · rw [if_pos later, if_pos (List.mem_cons_of_mem _ later)]
        · rw [if_neg later, if_neg]
          intro member
          rcases List.mem_cons.mp member with here | member
          · exact same here
          · exact later member

variable {arena : Arena T}

/-- Dropping what was prepared gives back the groups that were idle. -/
theorem Prepares.restored {after : Arena T} (prepares : Prepares arena states after) :
    arena.Restored (dropAll after states) := by
  obtain ⟨entry, len, capacity, count⟩ := dropAll_entry after states
  have header : ∀ g, (dropAll after states).group g =
      { after.group g with leased := ((dropAll after states).group g).leased } := by
    intro g
    rw [dropAll_group]
    split <;> rfl
  have keeps : Arena.Keeps after (dropAll after states) := by
    refine ⟨len, capacity, count, ?_, ?_, ?_⟩
    · intro g
      rw [header]
    · intro g
      rw [header]
    · intro e
      rw [entry]
      exact ⟨rfl, rfl, rfl, .inl rfl⟩
  refine ⟨prepares.keeps.trans keeps, ?_, ?_⟩
  · intro g below
    rw [dropAll_group]
    by_cases member : g ∈ states.filterMap reused
    · rw [if_pos member, (prepares.idle g member).2.unleased]
    · rw [if_neg member, (prepares.apart g below member).group]
  · intro g below leased
    have out : g ∉ states.filterMap reused := by
      intro member
      have unleased := (prepares.idle g member).2.unleased
      rw [leased] at unleased
      simp at unleased
    apply (prepares.apart g below out).trans
    refine ⟨?_, fun e _ => by rw [entry]⟩
    rw [dropAll_group, if_neg out]

/-! ## Publishing -/

/-- A published block is a new group, and its entries are listed by their index. -/
structure Published (before : Arena T) (extent : Nat) (after : Arena T) : Prop where
  len : after.len = before.len + extent
  capacity : after.capacity = before.capacity
  count : after.count = before.count + 1
  first : (after.group before.count).first = before.len
  apart : ∀ g < before.count, Arena.Apart g before after
  old : ∀ e < before.len, (after.entry e).index = (before.entry e).index ∧
    (after.entry e).generation = (before.entry e).generation
  indexed : ∀ e, before.len ≤ e → e < before.len + extent →
    (after.entry e).index = e ∧ (after.entry e).generation = 1

variable {g : Nat}

namespace Arena

theorem Restored.offer {before after : Arena T} (restored : before.Restored after)
    (below : g < before.count) (capacity : Nat) :
    after.offer capacity g = before.offer capacity g := by
  have slice : (after.group g).slice = (before.group g).slice := by
    unfold Group.slice
    rw [restored.keeps.first, restored.keeps.size]
  have counted : ∀ es start, after.countVacant es start = before.countVacant es start := by
    intro es
    induction es with
    | nil => exact fun _ => rfl
    | cons e rest ih =>
      intro start
      unfold countVacant
      rw [restored.keeps.flags, ih, ih]
  unfold Arena.offer
  dsimp only
  rw [restored.keeps.size, restored.leased g below, slice, counted]

/-- Entries are taken off the free list of a group, one by one. -/
inductive Takes (g : Nat) : Arena T → List Nat → Arena T → Prop where
  | nil {arena : Arena T} : Takes g arena [] arena
  | cons {arena next last : Arena T} {e : Nat} {es : List Nat} :
      arena.tryVacancy g = .ok (.ok e, next) → Takes g next es last →
      Takes g arena (e :: es) last

/-- A lease yields as many different entries of its group as were asked for. -/
def Serves (arena : Arena T) (g capacity : Nat) : Prop :=
  ∃ es after, Takes g arena es after ∧ es.length = capacity ∧ es.Nodup ∧
    ∀ e ∈ es, (arena.group g).Has e

theorem Free.take {arena : Arena T} {g e : Nat} {es : List Nat} (free : Free arena g (e :: es)) :
    ∃ next, arena.tryVacancy g = .ok (.ok e, next) ∧ Free next g es := by
  obtain ⟨link, word⟩ := free.vacant e List.mem_cons_self
  rcases free.threads with ⟨top, rest⟩
  have linked : arena.link e = link := by
    unfold Arena.link
    rw [word]
  have here : ∀ group : Group, (arena.setGroup g group).group g = group :=
    fun group => update_self ..
  refine ⟨arena.setGroup g { arena.group g with free := link }, ?_, ?_⟩
  · unfold tryVacancy
    dsimp only
    rw [top]
    dsimp only
    rw [word]
  · refine ⟨?_, (List.nodup_cons.mp free.nodup).2, ?_, ?_⟩
    · rw [here, ← linked]
      exact rest
    · exact fun e' member => free.vacant e' (List.mem_cons_of_mem _ member)
    · intro e' member
      rw [here]
      exact free.inside e' (List.mem_cons_of_mem _ member)

theorem Free.takes {es : List Nat} (free : Free arena g es) : ∃ after, Takes g arena es after := by
  induction es generalizing arena with
  | nil => exact ⟨arena, .nil⟩
  | cons e rest ih =>
    obtain ⟨next, taken, free⟩ := free.take
    obtain ⟨after, takes⟩ := ih free
    exact ⟨after, .cons taken takes⟩

theorem Leased.serves (leased : Leased arena g capacity) : Serves arena g capacity := by
  obtain ⟨es, free, size⟩ := leased.free
  obtain ⟨after, takes⟩ := free.takes
  exact ⟨es, after, takes, size, free.nodup, free.inside⟩

end Arena

/-! ## Batches -/

/-- The groups in the order of their creation. -/
def Chain.created : Chain where
  order := List.range
  perm _ := .rfl

end Dope.Core.Flight
