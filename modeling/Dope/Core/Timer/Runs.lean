import Mathlib.Order.Compare
import Mathlib.Order.Lattice
import Mathlib.Order.Nat
import Dope.Core.Timer.Ops

/-! # Runs of a timer store

The store refines a map from slots to alarms, for any order of operations by
the holders of the leases.
-/

namespace Dope.Core.Timer

open Run Function

variable {P R : Type}

/-! ## Leases -/

/-- The store with the leases that are out. -/
structure Store (P R : Type) where
  core : Core P R
  held : List Nat

variable {slot : Nat}

namespace Store

variable {Ordered : List (Nat × P) → Prop} {map : Nat → Alarm P R} {cap : Nat} {store : Store P R}

/-- The planes describe the map, and the leases are out for the slots that are
not free. -/
structure Stands (Ordered : List (Nat × P) → Prop) (cap : Nat) (store : Store P R)
    (map : Nat → Alarm P R) : Prop where
  count : store.core.capacity.count = cap
  held : ∀ slot, slot ∈ store.held ↔ map slot ≠ .free
  describes : ∃ entries chain, Describes Ordered store.core map entries chain

theorem Stands.item (h : Stands Ordered cap store map) {slot : Nat} (held : slot ∈ store.held) :
    ∃ item, (map slot).item = some item := by
  have leased := (h.held slot).mp held
  cases alarm : map slot with
  | free => exact absurd alarm leased
  | idle item | fired item | armed item due => exact ⟨item, rfl⟩

/-- An operation on one leased slot that leaves it leased. -/
theorem Stands.edit (h : Stands Ordered cap store map) {core : Core P R} {item : R}
    {alarm : Alarm P R} {entries : List (Nat × P)} {chain : List Nat}
    (same : core.capacity = store.core.capacity) (has : (map slot).item = some item)
    (keeps : alarm ≠ .free)
    (describes : Describes Ordered core (update map slot alarm) entries chain) :
    Stands Ordered cap { store with core } (update map slot alarm) where
  count := by
    rw [← h.count]
    exact congrArg Capacity.count same
  held := by
    intro other
    rw [h.held]
    by_cases here : other = slot
    · subst here
      rw [update_self]
      refine iff_of_true ?_ keeps
      intro free
      rw [free] at has
      cases has
    · rw [update_of_ne here]
  describes := ⟨entries, chain, describes⟩

/-- The free chain of a new store runs through all slots. -/
theorem linked_new (capacity : Capacity) {left start : Nat}
    (whole : start + left = capacity.count) :
    Linked (fun index => (.next (if index + 1 = capacity.count then freeWord else index + 1) :
      Resident R)) (if start = capacity.count then freeWord else start)
      (List.range' start left) := by
  induction left generalizing start with
  | zero =>
    rw [if_pos (by omega)]
    rfl
  | succ left ih =>
    rw [if_neg (by omega), List.range'_succ]
    exact ⟨rfl, _, rfl, ih (by omega)⟩

end Store

variable [LinearOrder P]

/-! ## Expiry -/

/-- The order in which alarms expire. -/
def Earlier (entry other : Nat × P) : Prop := cmp entry other ≠ .gt

instance (entry other : Nat × P) : Decidable (Earlier entry other) :=
  inferInstanceAs (Decidable (cmp entry other ≠ .gt))

theorem earlier_iff {entry other : Nat × P} :
    Earlier entry other ↔ entry.2 < other.2 ∨ entry.2 = other.2 ∧ entry.1 ≤ other.1 := by
  unfold Earlier cmp
  rcases lt_trichotomy entry.2 other.2 with less | same | more
  · simp [compare_lt_iff_lt.mpr less, less]
  · rw [same]
    simp [Nat.compare_ne_gt]
  · simp [compare_gt_iff_gt.mpr more, not_lt_of_gt more, ne_of_gt more]

/-- What an expiry does to the map. -/
structure Expires (now : P) (budget : Nat) (map : Nat → Alarm P R) (fired : List Nat)
    (after : Nat → Alarm P R) : Prop where
  within : fired.length ≤ budget
  due : ∀ slot ∈ fired, ∃ item due, map slot = .armed item due ∧ due ≤ now ∧
    after slot = .fired item
  ascending : fired.Pairwise fun slot other => ∀ due due', (map slot).due = some due →
    (map other).due = some due' → due < due' ∨ due = due' ∧ slot < other
  others : ∀ slot, slot ∉ fired → after slot = map slot
  first : ∀ slot ∈ fired, ∀ other, other ∉ fired → ∀ due due', (map slot).due = some due →
    (map other).due = some due' → due < due' ∨ due = due' ∧ slot < other
  complete : fired.length < budget → ∀ slot due, (after slot).due = some due → now < due

variable {core : Core P R} {entries : List (Nat × P)} {Ordered : List (Nat × P) → Prop}
  {engine : Hole.Engine (Nat × P)} {map : Nat → Alarm P R} {chain : List Nat}

theorem Expires.nothing (now : P) (budget : Nat)
    (none : 0 < budget → ∀ slot due, (map slot).due = some due → now < due) :
    Expires now budget map [] map where
  within := Nat.zero_le _
  due := by simp
  ascending := .nil
  others := fun _ _ => rfl
  first := by simp
  complete := none

theorem Expires.cons {now due : P} {budget slot : Nat} {item : R} {fired : List Nat}
    {after : Nat → Alarm P R} (armed : map slot = .armed item due) (reached : due ≤ now)
    (least : ∀ other due', (map other).due = some due' → other ≠ slot →
      due < due' ∨ due = due' ∧ slot < other)
    (rest : Expires now budget (update map slot (.fired item)) fired after) :
    Expires now (budget + 1) map (slot :: fired) after := by
  have gone : slot ∉ fired := by
    intro member
    obtain ⟨other, due', alarm, -⟩ := rest.due slot member
    rw [update_self] at alarm
    cases alarm
  have apart : ∀ {other}, other ∈ fired → other ≠ slot := by
    rintro other member rfl
    exact gone member
  have shows : ∀ {due'}, (map slot).due = some due' → due' = due := by
    intro due' has
    rw [armed] at has
    cases has
    rfl
  refine ⟨?_, ?_, ?_, ?_, ?_, ?_⟩
  · exact Nat.succ_le_succ rest.within
  · intro other member
    rcases List.mem_cons.mp member with rfl | member
    · refine ⟨item, due, armed, reached, ?_⟩
      rw [rest.others _ gone, update_self]
    · obtain ⟨item', due', alarm, reached', fires⟩ := rest.due other member
      rw [update_of_ne (apart member)] at alarm
      exact ⟨item', due', alarm, reached', fires⟩
  · refine List.pairwise_cons.mpr ⟨?_, ?_⟩
    · intro other member due₁ due₂ has has'
      rw [shows has]
      exact least other due₂ has' (apart member)
    · refine rest.ascending.imp_of_mem ?_
      intro first second left right order due₁ due₂ has has'
      refine order due₁ due₂ ?_ ?_
      · rw [update_of_ne (apart left)]
        exact has
      · rw [update_of_ne (apart right)]
        exact has'
  · intro other away
    rw [List.mem_cons, not_or] at away
    rw [rest.others other away.2, update_of_ne away.1]
  · intro first member other away due₁ due₂ has has'
    rw [List.mem_cons, not_or] at away
    rcases List.mem_cons.mp member with rfl | member
    · rw [shows has]
      exact least other due₂ has' away.1
    · refine rest.first first member other away.2 due₁ due₂ ?_ ?_
      · rw [update_of_ne (apart member)]
        exact has
      · rw [update_of_ne away.1]
        exact has'
  · intro left
    exact rest.complete (by simpa using left)

theorem Expires.free_iff {now : P} {budget : Nat} {fired : List Nat} {after : Nat → Alarm P R}
    (h : Expires now budget map fired after) (slot : Nat) :
    map slot ≠ .free ↔ after slot ≠ .free := by
  by_cases member : slot ∈ fired
  · rcases h.due slot member with ⟨item, due, armed, -, fires⟩
    simp [armed, fires]
  · rw [h.others slot member]

namespace Describes

theorem earliest (h : Describes Ordered core map entries chain) {due : P} {others : List (Nat × P)}
    (top : entries = (slot, due) :: others) (first : ∀ entry ∈ others, Earlier (slot, due) entry)
    {other : Nat} {due' : P} (armed : (map other).due = some due') (away : other ≠ slot) :
    due < due' ∨ due = due' ∧ slot < other := by
  have member := (h.armed other due').mpr armed
  rw [top] at member
  rcases List.mem_cons.mp member with same | member
  · exact absurd (congrArg Prod.fst same) away
  · rcases earlier_iff.mp (first _ member) with less | ⟨same, less⟩
    · exact .inl less
    · dsimp only at same less
      exact .inr ⟨same, by omega⟩

theorem due (lawful : engine.Lawful Earlier Ordered) (now : P)
    (h : Describes Ordered core map entries chain) :
    (core.due now = .ok false ∧ ∀ slot due, (map slot).due = some due → now < due) ∨
      ∃ slot item due next rest, core.due now = .ok true ∧ due ≤ now ∧
        map slot = .armed item due ∧
        (∀ other due', (map other).due = some due' → other ≠ slot →
          due < due' ∨ due = due' ∧ slot < other) ∧
        core.fire engine = .ok (slot, next) ∧ next.capacity = core.capacity ∧
        Describes Ordered next (update map slot (.fired item)) rest chain := by
  rcases h.fire lawful with ⟨rfl, root⟩ |
    ⟨slot, item, due, others, next, rest, top, root, front, armed, least, run, same, describes⟩
  · refine .inl ⟨?_, ?_⟩
    · unfold Core.due
      rw [if_neg (by simp [root])]
    · intro slot due armed
      exact absurd ((h.armed slot due).mpr armed) List.not_mem_nil
  · have reads : core.due now = .ok (decide (due ≤ now)) := by
      unfold Core.due
      rw [if_pos root, front, ok_bind]
    have first : ∀ other due', (map other).due = some due' → other ≠ slot →
        due < due' ∨ due = due' ∧ slot < other :=
      fun other due' has away => h.earliest top least has away
    by_cases reached : due ≤ now
    · rw [decide_eq_true reached] at reads
      exact .inr ⟨slot, item, due, next, rest, reads, reached, armed, first, run, same, describes⟩
    · rw [decide_eq_false reached] at reads
      refine .inl ⟨reads, ?_⟩
      intro other due' has
      have later : now < due := lt_of_not_ge reached
      by_cases here : other = slot
      · subst here
        rw [armed] at has
        cases has
        exact later
      · rcases first other due' has here with less | ⟨level, -⟩
        · exact lt_trans later less
        · exact level ▸ later

theorem expireFrom (lawful : engine.Lawful Earlier Ordered) (now : P) (budget : Nat)
    (h : Describes Ordered core map entries chain) :
    ∃ fired next after rest, core.expireFrom engine now budget = .ok (fired, next) ∧
      next.capacity = core.capacity ∧ Expires now budget map fired after ∧
        Describes Ordered next after rest chain := by
  induction budget generalizing core map entries with
  | zero => exact ⟨[], core, map, entries, rfl, rfl, .nothing now 0 (by simp), h⟩
  | succ budget ih =>
    unfold Core.expireFrom
    rcases h.due lawful now with ⟨reads, none⟩ |
      ⟨slot, item, due, next, rest, reads, reached, armed, first, run, same, describes⟩
    · refine ⟨[], core, map, entries, ?_, rfl, .nothing now _ (fun _ => none), h⟩
      rw [reads]
      rfl
    · rcases ih describes with ⟨fired, last, after, rest', ran, same', expires, describes'⟩
      refine ⟨slot :: fired, last, after, rest', ?_, same'.trans same,
        expires.cons armed reached first, describes'⟩
      have resident := describes.item slot item (by rw [update_self]; rfl)
      have woken : next.resident slot = .ok item := by
        unfold Core.resident
        rw [if_pos resident.1, resident.2]
      rw [reads, ok_bind, if_pos rfl, run, ok_bind]
      dsimp only
      rw [woken, ok_bind, ran, ok_bind]

theorem expire (lawful : engine.Lawful Earlier Ordered) (now : P) (budget : Nat)
    (h : Describes Ordered core map entries chain) :
    ∃ fired next after rest, core.expire engine now budget = .ok (fired, next) ∧
      next.capacity = core.capacity ∧ Expires now budget map fired after ∧
        Describes Ordered next after rest chain := by
  unfold Core.expire
  rcases h.due lawful now with ⟨reads, none⟩ | ⟨slot, item, due, next, rest, reads, -⟩
  · rw [reads]
    exact ⟨[], core, map, entries, rfl, rfl, .nothing now budget (fun _ => none), h⟩
  · rw [reads]
    exact h.expireFrom lawful now budget

end Describes

/-! ## The map -/

inductive Input (P R : Type) where
  | lease (item : R)
  | release (slot : Nat)
  | set (slot : Nat) (due : P)
  | clear (slot : Nat)
  | fire
  | expire (now : P) (budget : Nat)
  | look (slot : Nat)

inductive Output (P R : Type) where
  | leased (slot : Option Nat)
  | released (item : R)
  | done
  | fired (slot : Option Nat)
  | expired (slots : List Nat)
  | seen (state : State) (priority : Option P) (item : R)

/-- The map that a store of `count` slots stands for. A lease takes any free
slot, and is refused when there is none. -/
inductive Steps (count : Nat) (map : Nat → Alarm P R) :
    Input P R → Output P R → (Nat → Alarm P R) → Prop where
  | lease {slot : Nat} (item : R) : slot < count → map slot = .free →
      Steps count map (.lease item) (.leased (some slot))
        (update map slot (.idle item))
  | full (item : R) : (∀ slot < count, map slot ≠ .free) →
      Steps count map (.lease item) (.leased none) map
  | release {slot : Nat} {item : R} : (map slot).item = some item →
      Steps count map (.release slot) (.released item) (update map slot .free)
  | set {slot : Nat} {item : R} (due : P) : (map slot).item = some item →
      Steps count map (.set slot due) .done (update map slot (.armed item due))
  | clear {slot : Nat} {item : R} : (map slot).item = some item →
      Steps count map (.clear slot) .done (update map slot (.idle item))
  | fire {slot : Nat} {item : R} {due : P} : map slot = .armed item due →
      (∀ other due', (map other).due = some due' → other ≠ slot →
        due < due' ∨ due = due' ∧ slot < other) →
      Steps count map .fire (.fired (some slot)) (update map slot (.fired item))
  | still : (∀ slot, (map slot).due = none) → Steps count map .fire (.fired none) map
  | expire {now : P} {budget : Nat} {fired : List Nat} {after : Nat → Alarm P R} :
      Expires now budget map fired after →
      Steps count map (.expire now budget) (.expired fired) after
  | look {slot : Nat} {item : R} {state : State} : (map slot).item = some item →
      (map slot).state = some state →
      Steps count map (.look slot) (.seen state (map slot).due item) map

def alarms (count : Nat) : Spec (Nat → Alarm P R) (Input P R) (Output P R) where
  start map := ∀ slot, map slot = .free
  step := Steps count

/-! ## The store -/

namespace Store

variable (engine : Hole.Engine (Nat × P))

def step (store : Store P R) : Input P R → Except Fault (Output P R × Store P R)
  | .lease item =>
      if store.core.vacancy then do
        let (slot, core) ← store.core.lease item
        .ok (.leased (some slot), ⟨core, slot :: store.held⟩)
      else .ok (.leased none, store)
  | .release slot => do
      let (item, core) ← store.core.release engine slot
      .ok (.released item, ⟨core, store.held.filter (· ≠ slot)⟩)
  | .set slot due => do
      let core ← store.core.set engine slot due
      .ok (.done, { store with core })
  | .clear slot => do
      let core ← store.core.clear engine slot
      .ok (.done, { store with core })
  | .fire =>
      if store.core.root then do
        let (slot, core) ← store.core.fire engine
        .ok (.fired (some slot), { store with core })
      else .ok (.fired none, store)
  | .expire now budget => do
      let (fired, core) ← store.core.expire engine now budget
      .ok (.expired fired, { store with core })
  | .look slot => do
      let state ← store.core.state slot
      let priority ← store.core.priority slot
      let item ← store.core.resident slot
      .ok (.seen state priority item, store)

/-- A slot is named through its lease, which its holder has until the release. -/
def allowed (store : Store P R) : Input P R → Prop
  | .release slot | .set slot _ | .clear slot | .look slot => slot ∈ store.held
  | .lease _ | .fire | .expire _ _ => True

def machine (extraMax cap : Nat) : Machine (Store P R) (Input P R) (Output P R) Fault where
  start store := Core.tryNew extraMax cap = .ok store.core ∧ store.held = []
  allowed := allowed
  step := step engine

variable {engine} {cap extraMax : Nat} {store : Store P R}

theorem Stands.lease (h : Stands Ordered cap store map) (item : R) :
    ∃ output next after, step engine store (.lease item) = .ok (output, next) ∧
      Steps cap map (.lease item) output after ∧ Stands Ordered cap next after := by
  rcases h.describes with ⟨entries, chain, describes⟩
  unfold step
  dsimp only
  rcases describes.lease item with ⟨empty, refused⟩ |
    ⟨slot, rest, next, head, vacant, run, same, describes'⟩
  · rw [if_neg (by simp [refused])]
    refine ⟨_, store, map, rfl, .full item ?_, h⟩
    intro slot bound free
    have member := (describes.vacant slot).mpr ⟨by rw [h.count]; exact bound, free⟩
    rw [empty] at member
    exact absurd member List.not_mem_nil
  · rw [if_pos vacant, run, ok_bind]
    have member : slot ∈ chain := by
      rw [head]
      exact List.mem_cons_self
    rcases (describes.vacant slot).mp member with ⟨bound, free⟩
    rw [h.count] at bound
    refine ⟨_, _, _, rfl, .lease item bound free, ⟨?_, ?_, ⟨entries, rest, describes'⟩⟩⟩
    · rw [← h.count]
      exact congrArg Capacity.count same
    · intro other
      rw [List.mem_cons, h.held]
      by_cases here : other = slot
      · subst here
        simp
      · rw [update_of_ne here]
        simp [here]

theorem Stands.release (lawful : engine.Lawful Earlier Ordered) (h : Stands Ordered cap store map)
    (held : slot ∈ store.held) :
    ∃ output next after, step engine store (.release slot) = .ok (output, next) ∧
      Steps cap map (.release slot) output after ∧ Stands Ordered cap next after := by
  rcases h.describes with ⟨entries, chain, describes⟩
  rcases h.item held with ⟨item, has⟩
  rcases describes.release lawful has with ⟨next, rest, run, same, describes'⟩
  unfold step
  dsimp only
  rw [run, ok_bind]
  refine ⟨_, _, _, rfl, .release has, ⟨?_, ?_, ⟨rest, slot :: chain, describes'⟩⟩⟩
  · rw [← h.count]
    exact congrArg Capacity.count same
  · intro other
    rw [List.mem_filter, h.held]
    by_cases here : other = slot
    · subst here
      simp
    · rw [update_of_ne here]
      simp [here]

theorem stands_new (lawful : engine.Lawful Earlier Ordered)
    (started : Core.tryNew extraMax cap = .ok store.core) (none : store.held = []) :
    Stands Ordered cap store (fun _ => .free) := by
  unfold Core.tryNew Capacity.new at started
  split at started
  · rename_i fits
    rw [ok_bind, Except.ok.injEq] at started
    have linked := linked_new (R := R) ⟨cap, fits.1⟩ (Nat.zero_add cap)
    refine ⟨?_, ?_, ⟨[], List.range' 0 cap, ?_⟩⟩
    · rw [← started]
    · intro slot
      simp [none]
    · rw [← started]
      refine ⟨⟨⟨Nat.zero_le _, by simp⟩, rfl, lawful.nil⟩, ?_, ?_, ?_, ?_, List.nodup_range', ?_⟩
      · intro slot due
        simp [Alarm.due]
      · intro slot word bound has
        cases has
        rfl
      · intro slot item has
        cases has
      · have head : (if cap = 0 then freeWord else 0) = if 0 = cap then freeWord else 0 := by
          simp [eq_comm]
        dsimp only
        rw [head]
        exact linked
      · intro slot
        simp [List.mem_range'_1]
  · cases started

theorem refines (lawful : engine.Lawful Earlier Ordered) :
    (machine engine extraMax cap : Machine (Store P R) _ _ _).Refines (alarms cap)
      (Stands Ordered cap) where
  start := by
    intro store started
    exact ⟨_, fun _ => rfl, stands_new lawful started.1 started.2⟩
  step := by
    intro store map input h allowed
    rcases h.describes with ⟨entries, chain, describes⟩
    show ∃ output next after, step engine store input = .ok (output, next) ∧
      Steps cap map input output after ∧ Stands Ordered cap next after
    cases input with
    | lease item => exact h.lease item
    | release slot => exact h.release lawful allowed
    | set slot due =>
      rcases h.item allowed with ⟨item, has⟩
      rcases describes.set lawful has due with ⟨next, edited, run, same, describes'⟩
      unfold step
      dsimp only
      rw [run, ok_bind]
      exact ⟨_, _, _, rfl, .set due has, h.edit same has (by simp) describes'⟩
    | clear slot =>
      rcases h.item allowed with ⟨item, has⟩
      rcases describes.clear lawful has with ⟨next, rest, run, same, describes'⟩
      unfold step
      dsimp only
      rw [run, ok_bind]
      exact ⟨_, _, _, rfl, .clear has, h.edit same has (by simp) describes'⟩
    | fire =>
      unfold step
      dsimp only
      rcases describes.fire lawful with ⟨rfl, root⟩ |
        ⟨slot, item, due, others, next, rest, top, root, -, armed, least, run, same, describes'⟩
      · rw [if_neg (by simp [root])]
        refine ⟨_, store, map, rfl, .still ?_, h⟩
        intro slot
        cases armed : (map slot).due with
        | none => rfl
        | some due => exact absurd ((describes.armed slot due).mpr armed) List.not_mem_nil
      · rw [if_pos root, run, ok_bind]
        refine ⟨_, _, _, rfl, .fire armed ?_, h.edit same (by rw [armed]; rfl) (by simp)
          describes'⟩
        intro other due' has away
        exact describes.earliest top least has away
    | expire now budget =>
      rcases describes.expire lawful now budget with
        ⟨fired, next, after, rest, run, same, expires, describes'⟩
      unfold step
      dsimp only
      rw [run, ok_bind]
      refine ⟨_, _, _, rfl, .expire expires, ⟨?_, ?_, ⟨rest, chain, describes'⟩⟩⟩
      · rw [← h.count]
        exact congrArg Capacity.count same
      · intro slot
        rw [h.held, expires.free_iff]
    | look slot =>
      rcases h.item allowed with ⟨item, has⟩
      rcases describes.looks has with ⟨state, read, shows, due, resident⟩
      unfold step
      dsimp only
      rw [read, ok_bind, due, ok_bind, resident, ok_bind]
      exact ⟨_, store, map, rfl, .look has shows, h⟩

/-- In every run the store answers as a map from slots to alarms, the planes
describe that map, and no position in the heap is one of the reserved words. -/
theorem reachable_describes (lawful : engine.Lawful Earlier Ordered)
    {events : List (Input P R × Output P R)}
    (h : (machine engine extraMax cap).Traces events store) :
    ∃ map, (alarms cap).Traces events map ∧
      (∃ entries chain, Describes Ordered store.core map entries chain ∧
        ∀ position slot due, entries[position]? = some (slot, due) →
          store.core.states slot = position ∧
          position ≠ freeWord ∧ position ≠ idleWord ∧ position ≠ firedWord) ∧
      ∀ input, allowed store input → ∃ output next, step engine store input = .ok (output, next) := by
  rcases (refines lawful).traces h with ⟨map, traces, stands⟩
  rcases stands.describes with ⟨entries, chain, describes⟩
  refine ⟨map, traces, ⟨entries, chain, describes, ?_⟩, ?_⟩
  · intro position slot due found
    have inside := (List.getElem?_eq_some_iff.mp found).1
    rcases describes.heaped.lays.entry found (by omega) with ⟨-, -, -, word⟩
    have fits := describes.heaped.lays.fits
    have limit := store.core.capacity.bound
    unfold freeWord idleWord firedWord
    exact ⟨word, by omega, by omega, by omega⟩
  · intro input permitted
    have sim : (machine engine extraMax cap : Machine (Store P R) _ _ _).Refines (alarms cap)
        (Stands Ordered cap) := refines lawful
    rcases sim.step store map input stands permitted with ⟨output, next, -, run, -⟩
    exact ⟨output, next, run⟩

theorem reachable_describes_example :
    ∃ (store : Store Nat Nat) (map : Nat → Alarm Nat Nat),
      (machine (Hole.rootFirst Earlier) 10 2).Traces
        [(.lease 7, .leased (some 0)), (.lease 8, .leased (some 1)), (.set 0 30, .done),
          (.set 1 20, .done), (.expire 25 4, .expired [1])] store ∧
      (alarms 2).Traces
        [(.lease 7, .leased (some 0)), (.lease 8, .leased (some 1)), (.set 0 30, .done),
          (.set 1 20, .done), (.expire 25 4, .expired [1])] map := by
  have total : ∀ a b : Nat × Nat, Earlier a b ∨ Earlier b a := by
    intro a b
    rw [earlier_iff, earlier_iff]
    omega
  have trans : ∀ {a b c : Nat × Nat}, Earlier a b → Earlier b c → Earlier a c := by
    intro a b c
    rw [earlier_iff, earlier_iff, earlier_iff]
    omega
  have first : (machine (Hole.rootFirst Earlier) 10 2 : Machine (Store Nat Nat) _ _ _).Traces []
      ⟨_, []⟩ := .start ⟨rfl, rfl⟩
  have leased := (first.call (.lease 7) trivial rfl).call (.lease 8) trivial rfl
  have one := leased.call (.set 0 30) (List.mem_cons_of_mem _ List.mem_cons_self) rfl
  have both := one.call (.set 1 20) List.mem_cons_self rfl
  have last := both.call (.expire 25 4) trivial rfl
  rcases reachable_describes (Hole.rootFirst_lawful total trans) last with ⟨map, traces, -⟩
  exact ⟨_, map, last, traces⟩

end Store

end Dope.Core.Timer
