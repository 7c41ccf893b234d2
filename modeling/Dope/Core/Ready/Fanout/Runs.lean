import Dope.Core.Ready.Fanout.Registry
import Dope.Base.Run

/-! # Runs of a broadcast registry

The values of a run carry when they were installed. A pass never returns what was
installed after the last publication, returns a value once, and when nothing is
pending nobody waits for a publication that came after his value.
-/

namespace Dope.Core.Ready.Fanout

open Links Function

/-! ## Words -/

namespace Entry

variable {W : Type}

/-- The epoch an entry was delivered to. -/
def stamp (entry : Entry W) : Nat := (entry.delivered &&& ~~~present).toNat

def Marked (entry : Entry W) : Prop := entry.delivered &&& present ≠ 0

end Entry

variable {epoch : BitVec 64}

theorem low_bit (even : epoch.toNat % 2 = 0) : epoch.getLsbD 0 = false := by
  rw [← BitVec.testBit_toNat, Nat.testBit_zero]
  simp [even]

theorem present_bit : ∀ i : Fin 64, present.getLsbD i = decide (i.val = 0) := by decide

theorem clear_present (even : epoch.toNat % 2 = 0) : epoch &&& ~~~present = epoch := by
  apply BitVec.eq_of_getLsbD_eq
  intro i inside
  rw [BitVec.getLsbD_and, BitVec.getLsbD_not, present_bit ⟨i, inside⟩]
  by_cases first : i = 0
  · subst first
    rw [low_bit even]
    rfl
  · simp [first, inside]

theorem or_present_clear (even : epoch.toNat % 2 = 0) :
    (epoch ||| present) &&& ~~~present = epoch := by
  apply BitVec.eq_of_getLsbD_eq
  intro i inside
  rw [BitVec.getLsbD_and, BitVec.getLsbD_or, BitVec.getLsbD_not, present_bit ⟨i, inside⟩]
  by_cases first : i = 0
  · subst first
    rw [low_bit even]
    rfl
  · simp [first, inside]

theorem or_present_marked (epoch : BitVec 64) : (epoch ||| present) &&& present ≠ 0 := by
  intro zero
  have bit := congrArg (BitVec.getLsbD · 0) zero
  simp [present] at bit

theorem even_unmarked (even : epoch.toNat % 2 = 0) : epoch &&& present = 0 := by
  apply BitVec.eq_of_getLsbD_eq
  intro i inside
  rw [BitVec.getLsbD_and, present_bit ⟨i, inside⟩]
  by_cases first : i = 0
  · subst first
    rw [low_bit even]
    simp
  · simp [first]

theorem reset_clear (state : BitVec 64) : (state &&& present) &&& ~~~present = 0 := by
  apply BitVec.eq_of_getLsbD_eq
  intro i inside
  simp only [BitVec.getLsbD_and, BitVec.getLsbD_not]
  cases present.getLsbD i <;> simp

theorem reset_marked (state : BitVec 64) : (state &&& present) &&& present = state &&& present := by
  rw [BitVec.and_assoc, BitVec.and_self]

namespace Entry

variable {W : Type} {entry : Entry W} {epoch : BitVec 64}

theorem install_stamp (even : epoch.toNat % 2 = 0) (value : W) :
    (install epoch value).stamp = epoch.toNat :=
  congrArg BitVec.toNat (or_present_clear even)

theorem install_marked (value : W) : (install epoch value).Marked := or_present_marked epoch

theorem reset_stamp : entry.reset.stamp = 0 := congrArg BitVec.toNat (reset_clear entry.delivered)

theorem reset_iff : entry.reset.Marked ↔ entry.Marked := by
  unfold Marked reset
  rw [reset_marked]

theorem step_cases (entry : Entry W) :
    epoch.toNat ≤ entry.stamp ∧ entry.step epoch = (.idle, entry) ∨
    entry.stamp < epoch.toNat ∧ ¬ entry.Marked ∧
      entry.step epoch = (.idle, { entry with delivered := epoch }) ∨
    entry.stamp < epoch.toNat ∧ entry.Marked ∧
      entry.step epoch = (.item entry.value, ⟨none, epoch⟩) := by
  unfold step
  dsimp only
  by_cases done : epoch ≤ entry.delivered &&& ~~~present
  · rw [if_pos done]
    exact .inl ⟨BitVec.le_def.mp done, rfl⟩
  · rw [if_neg done]
    have less : entry.stamp < epoch.toNat := Nat.lt_of_not_le fun le => done (BitVec.le_def.mpr le)
    right
    by_cases clear : entry.delivered &&& present = 0
    · rw [if_pos clear]
      exact .inl ⟨less, fun marked => marked clear, rfl⟩
    · rw [if_neg clear]
      exact .inr ⟨less, clear, rfl⟩

theorem delivered_stamp (even : epoch.toNat % 2 = 0) (value : Option W) :
    (⟨value, epoch⟩ : Entry W).stamp = epoch.toNat ∧ ¬ (⟨value, epoch⟩ : Entry W).Marked :=
  ⟨congrArg BitVec.toNat (clear_present even), fun marked => marked (even_unmarked even)⟩

end Entry

/-! ## Invariant -/

/-- A value with the number of its installation, and of the last publication then. -/
structure Tag (W : Type) where
  value : W
  serial : Nat
  born : Nat
deriving DecidableEq, Repr

variable {W : Type}

/-- An entry holds a value when it is marked, and its epoch is the current one when
the value was installed after the last publication. -/
def Entry.Good (publishes installs : Nat) (epoch : BitVec 64) (returned : List (Tag W × Nat))
    (entry : Entry (Tag W)) : Prop :=
  entry.stamp ≤ epoch.toNat ∧
    match entry.value with
    | none => ¬ entry.Marked
    | some tag => entry.Marked ∧ tag.born ≤ publishes ∧
        (tag.born = publishes ↔ entry.stamp = epoch.toNat) ∧ tag.serial < installs ∧
        ∀ r ∈ returned, r.1.serial ≠ tag.serial

structure Sound (registry : Registry (Tag W)) (publishes installs : Nat)
    (returned : List (Tag W × Nat)) : Prop where
  nodup : (registry.links ++ registry.free).Nodup
  even : registry.epoch.toNat % 2 = 0
  halves : registry.draining.toNat % 2 = 0
  behind : registry.draining.toNat ≤ registry.epoch.toNat
  good : ∀ i ∈ registry.links,
    (registry.entries i).Good publishes installs registry.epoch returned
  single : ∀ i ∈ registry.links, ∀ j ∈ registry.links, ∀ tag tag',
    (registry.entries i).value = some tag → (registry.entries j).value = some tag' →
    tag'.serial = tag.serial → j = i
  pass : ∃ passed rest, registry.links = passed ++ rest ∧ registry.cursor = rest.head? ∧
    ∀ i ∈ passed, (registry.entries i).Marked →
      registry.draining.toNat ≤ (registry.entries i).stamp
  once : (returned.map (·.1.serial)).Nodup
  past : ∀ r ∈ returned, r.1.serial < installs ∧ r.1.born < r.2

variable {tag : Tag W} {index : Nat}

namespace Sound

variable {registry : Registry (Tag W)} {publishes installs : Nat} {returned : List (Tag W × Nat)}

section

variable (h : Sound registry publishes installs returned)

include h

theorem links_nodup : registry.links.Nodup :=
  h.nodup.of_append_left

/-- When nothing is pending, what is left was installed after the last publication. -/
theorem settled (quiet : registry.hasPending = false) {i : Nat} (mem : i ∈ registry.links)
    (held : (registry.entries i).value = some tag) : tag.born = publishes := by
  unfold Registry.hasPending at quiet
  rw [Bool.or_eq_false_iff] at quiet
  rcases quiet with ⟨idle, same⟩
  have equal : registry.draining = registry.epoch := by simpa using same
  rcases h.pass with ⟨passed, rest, links, cursor, done⟩
  have empty : rest = [] := by
    cases rest with
    | nil => rfl
    | cons x xs => rw [cursor] at idle; cases idle
  rw [empty, List.append_nil] at links
  have good := h.good i mem
  unfold Entry.Good at good
  rw [held] at good
  have late := done i (links ▸ mem) good.2.1
  rw [equal] at late
  exact good.2.2.2.1.mpr (Nat.le_antisymm good.1 late)

/-- A new value is installed in an entry of the chain. -/
theorem install {links free : List Nat} (value : W) (nodup : (links ++ free).Nodup)
    (others : ∀ i ∈ links, i ≠ index → i ∈ registry.links)
    (pass : ∃ passed rest, links = passed ++ rest ∧ registry.cursor = rest.head? ∧ ∀ i ∈ passed, i
      ≠ index → (registry.entries i).Marked → registry.draining.toNat ≤ (registry.entries i).stamp) :
    
    Sound { registry with
      free, links
      entries := update registry.entries index
        (.install registry.epoch ⟨value, installs, publishes⟩) }
      publishes (installs + 1) returned := by
  have self : update registry.entries index
      (.install registry.epoch ⟨value, installs, publishes⟩) index =
        .install registry.epoch ⟨value, installs, publishes⟩ := update_self ..
  have other : ∀ i, i ≠ index → update registry.entries index
      (.install registry.epoch ⟨value, installs, publishes⟩) i = registry.entries i :=
    fun i apart => update_of_ne apart ..
  generalize update registry.entries index
    (.install registry.epoch ⟨value, installs, publishes⟩) = entries at self other
  have stamp : (entries index).stamp = registry.epoch.toNat := by
    rw [self]
    exact Entry.install_stamp h.even _
  have held : ∀ i ∈ links, i ≠ index → ∀ tag, (entries i).value = some tag →
      tag.serial < installs := by
    intro i there apart tag value
    rw [other i apart] at value
    have good := h.good i (others i there apart)
    unfold Entry.Good at good
    rw [value] at good
    exact good.2.2.2.2.1
  refine ⟨nodup, h.even, h.halves, h.behind, ?_, ?_, ?_, h.once, ?_⟩
  · intro i there
    show (entries i).Good publishes (installs + 1) registry.epoch returned
    by_cases same : i = index
    · rw [same]
      refine ⟨Nat.le_of_eq stamp, ?_⟩
      rw [self]
      refine ⟨Entry.install_marked _, Nat.le_refl _, iff_of_true rfl (Entry.install_stamp h.even _),
        Nat.lt_succ_self _, ?_⟩
      intro r old
      exact Nat.ne_of_lt (h.past r old).1
    · rw [other i same]
      have good := h.good i (others i there same)
      refine ⟨good.1, ?_⟩
      have old := good.2
      cases value : (registry.entries i).value with
      | none => rw [value] at old; exact old
      | some tag =>
        rw [value] at old
        exact ⟨old.1, old.2.1, old.2.2.1, Nat.lt_succ_of_lt old.2.2.2.1, old.2.2.2.2⟩
  · intro i there j there' tag tag' value value' same
    by_cases first : i = index
    · by_cases second : j = index
      · rw [first, second]
      · have less := held j there' second tag' value'
        have new : tag.serial = installs := by
          rw [show (entries i).value = _ from congrArg Entry.value (first ▸ self)] at value
          exact congrArg Tag.serial (Option.some.inj value).symm
        omega
    · have less := held i there first tag value
      by_cases second : j = index
      · have new : tag'.serial = installs := by
          rw [show (entries j).value = _ from congrArg Entry.value (second ▸ self)] at value'
          exact congrArg Tag.serial (Option.some.inj value').symm
        omega
      · rw [show (entries i).value = _ from congrArg Entry.value (other i first)] at value
        rw [show (entries j).value = _ from congrArg Entry.value (other j second)] at value'
        exact h.single i (others i there first) j (others j there' second) tag tag' value value' same
  · rcases pass with ⟨passed, rest, split, cursor, done⟩
    refine ⟨passed, rest, split, cursor, ?_⟩
    intro i there marked
    show registry.draining.toNat ≤ (entries i).stamp
    by_cases same : i = index
    · rw [same, stamp]
      exact h.behind
    · have old : (registry.entries i).Marked := by
        rw [← other i same]
        exact marked
      rw [other i same]
      exact done i there same old
  · intro r old
    exact ⟨Nat.lt_succ_of_lt (h.past r old).1, (h.past r old).2⟩

theorem renew (index : Nat) (value : W) :
    Sound { registry with
      entries := update registry.entries index
        (.install registry.epoch ⟨value, installs, publishes⟩) }
      publishes (installs + 1) returned := by
  refine h.install value h.nodup (fun i there _ => there) ?_
  rcases h.pass with ⟨passed, rest, split, cursor, done⟩
  exact ⟨passed, rest, split, cursor, fun i there _ => done i there⟩

/-- A new subscriber comes at the end of the chain, behind a pass that is over or in
front of one that runs. -/
theorem insert {free : List Nat} (value : W) (first : registry.free = index :: free) :
    Sound { registry with
      free
      links := registry.links ++ [index]
      entries := update registry.entries index
        (.install registry.epoch ⟨value, installs, publishes⟩) }
      publishes (installs + 1) returned := by
  have nodup : (registry.links ++ [index] ++ free).Nodup := by
    rw [List.append_assoc]
    have all := h.nodup
    rw [first] at all
    exact all
  refine h.install value nodup ?_ ?_
  · intro i there apart
    rcases List.mem_append.mp there with old | new
    · exact old
    · exact absurd (List.mem_singleton.mp new) apart
  · rcases h.pass with ⟨passed, rest, split, cursor, done⟩
    cases rest with
    | nil =>
      rw [List.append_nil] at split
      refine ⟨passed ++ [index], [], by rw [split, List.append_nil], cursor, ?_⟩
      intro i there apart
      rcases List.mem_append.mp there with old | new
      · exact done i old
      · exact absurd (List.mem_singleton.mp new) apart
    | cons x xs =>
      refine ⟨passed, x :: (xs ++ [index]), ?_, cursor, fun i there _ => done i there⟩
      rw [split, List.append_assoc]
      rfl

/-- A later epoch is published, and a pass that runs goes on. -/
theorem advance (later : epoch.toNat = registry.epoch.toNat + 2) :
    Sound { registry with epoch } (publishes + 1) installs returned := by
  have even := h.even
  have behind := h.behind
  refine ⟨h.nodup, ?_, h.halves, ?_, ?_, h.single, h.pass, h.once, h.past⟩
  · show epoch.toNat % 2 = 0
    omega
  · show registry.draining.toNat ≤ epoch.toNat
    omega
  · intro i mem
    show (registry.entries i).Good (publishes + 1) installs epoch returned
    have good := h.good i mem
    refine ⟨by have le := good.1; omega, ?_⟩
    have old := good.2
    cases value : (registry.entries i).value with
    | none => rw [value] at old; exact old
    | some tag =>
      rw [value] at old
      refine ⟨old.1, Nat.le_succ_of_le old.2.1, ?_, old.2.2.2⟩
      have le := good.1
      have born := old.2.1
      constructor
      · intro same
        omega
      · intro same
        omega

/-- The epochs wrap, and every entry is as if it had never been delivered to. -/
theorem wrap :
    Sound { registry with
      entries := fun index => (registry.entries index).reset
      epoch := 2, draining := 0 } (publishes + 1) installs returned := by
  refine ⟨h.nodup, ?_, ?_, Nat.zero_le _, ?_, ?_, ?_, h.once, h.past⟩
  · show (2#64).toNat % 2 = 0
    decide
  · show (0#64).toNat % 2 = 0
    decide
  · intro i mem
    show (registry.entries i).reset.Good (publishes + 1) installs 2 returned
    have old := (h.good i mem).2
    refine ⟨by rw [Entry.reset_stamp]; decide, ?_⟩
    show match (registry.entries i).value with
      | none => ¬ (registry.entries i).reset.Marked
      | some tag => (registry.entries i).reset.Marked ∧ _
    cases value : (registry.entries i).value with
    | none =>
      rw [value] at old
      exact fun marked => old (Entry.reset_iff.mp marked)
    | some tag =>
      rw [value] at old
      refine ⟨Entry.reset_iff.mpr old.1, Nat.le_succ_of_le old.2.1, ?_, old.2.2.2⟩
      have born := old.2.1
      rw [Entry.reset_stamp]
      constructor
      · intro same
        omega
      · intro same
        exact absurd same (by decide)
  · exact h.single
  · rcases h.pass with ⟨passed, rest, split, cursor, -⟩
    exact ⟨passed, rest, split, cursor, fun _ _ _ => Nat.zero_le _⟩

/-- A pass starts at the head of the chain, in the current epoch. -/
theorem restart :
    Sound { registry with draining := registry.epoch, cursor := registry.links.head? }
      publishes installs returned :=
  ⟨h.nodup, h.even, h.even, Nat.le_refl _, h.good, h.single,
    ⟨[], registry.links, rfl, rfl, fun _ no => nomatch no⟩, h.once, h.past⟩

theorem publish : Sound registry.publish (publishes + 1) installs returned := by
  have even := h.even
  have bound := registry.epoch.isLt
  have sum : (registry.epoch + 2).toNat = (registry.epoch.toNat + 2) % 2 ^ 64 := BitVec.toNat_add ..
  unfold Registry.publish
  dsimp only
  by_cases zero : registry.epoch + 2 = 0
  · rw [if_pos zero]
    dsimp only
    split
    · exact h.wrap.restart
    · exact h.wrap
  · rw [if_neg zero]
    dsimp only
    have apart : (registry.epoch + 2).toNat ≠ 0 := fun none => zero (BitVec.eq_of_toNat_eq none)
    have later : (registry.epoch + 2).toNat = registry.epoch.toNat + 2 := by
      by_cases top : registry.epoch.toNat + 2 = 2 ^ 64
      · rw [sum, top] at apart
        exact absurd rfl apart
      · rw [sum, Nat.mod_eq_of_lt (by omega)]
    split
    · exact (h.advance later).restart
    · exact h.advance later

/-- An entry changes, and it holds nothing afterwards that it did not hold. -/
theorem edit (index : Nat) (entry : Entry (Tag W))
    (good : entry.Good publishes installs registry.epoch returned)
    (value : entry.value = none ∨ entry.value = (registry.entries index).value)
    {cursor : Option Nat}
    (pass : ∃ passed rest, registry.links = passed ++ rest ∧ cursor = rest.head? ∧ ∀ i ∈ passed,
      (update registry.entries index entry i).Marked → registry.draining.toNat ≤ (update
      registry.entries index entry i).stamp) :
    Sound { registry with cursor, entries := update registry.entries index entry }
      publishes installs returned := by
  have held : ∀ i tag, (update registry.entries index entry i).value = some tag →
      (registry.entries i).value = some tag := by
    intro i tag some
    by_cases same : i = index
    · subst same
      rw [update_self] at some
      rcases value with none | kept
      · rw [none] at some
        cases some
      · exact kept.symm.trans some
    · rw [update_of_ne same] at some
      exact some
  refine ⟨h.nodup, h.even, h.halves, h.behind, ?_, ?_, pass, h.once, h.past⟩
  · intro i mem
    show (update registry.entries index entry i).Good _ _ _ _
    by_cases same : i = index
    · subst same
      rw [update_self]
      exact good
    · rw [update_of_ne same]
      exact h.good i mem
  · intro i mem j mem' tag tag' some some' same
    exact h.single i mem j mem' tag tag' (held i tag some) (held j tag' some') same

theorem give {at_ : Nat}
    (gone : ∀ i ∈ registry.links, ∀ tag', (registry.entries i).value = some tag' → tag'.serial ≠
      tag.serial) (fresh : ∀ r ∈ returned, r.1.serial ≠ tag.serial)
    (serial : tag.serial < installs) (old : tag.born < at_) :
    Sound registry publishes installs (returned ++ [(tag, at_)]) := by
  refine ⟨h.nodup, h.even, h.halves, h.behind, ?_, h.single, h.pass, ?_, ?_⟩
  · intro i mem
    have good := h.good i mem
    refine ⟨good.1, ?_⟩
    have rest := good.2
    cases value : (registry.entries i).value with
    | none => rw [value] at rest; exact rest
    | some tag' =>
      rw [value] at rest
      refine ⟨rest.1, rest.2.1, rest.2.2.1, rest.2.2.2.1, ?_⟩
      intro r here
      rcases List.mem_append.mp here with before | now
      · exact rest.2.2.2.2 r before
      · rw [List.mem_singleton.mp now]
        exact (gone i mem tag' value).symm
  · rw [List.map_append]
    refine List.Nodup.append h.once (List.nodup_singleton _) ?_
    intro serial' before now
    rcases List.mem_map.mp before with ⟨r, there, same⟩
    exact fresh r there (same.trans (List.mem_singleton.mp now))
  · intro r here
    rcases List.mem_append.mp here with before | now
    · exact h.past r before
    · rw [List.mem_singleton.mp now]
      exact ⟨serial, old⟩

end

end Sound

theorem after_split {x : Nat} {rest : List Nat} (passed : List Nat)
    (nodup : (passed ++ x :: rest).Nodup) : after x (passed ++ x :: rest) = rest.head? := by
  induction passed with
  | nil =>
    show (if x = x then rest.head? else after x rest) = _
    rw [if_pos rfl]
  | cons y ys ih =>
    have apart : y ≠ x := by
      rintro rfl
      exact (List.nodup_cons.mp nodup).1 (List.mem_append.mpr (.inr List.mem_cons_self))
    show (if y = x then _ else after x (ys ++ x :: rest)) = _
    rw [if_neg apart]
    exact ih (List.nodup_cons.mp nodup).2

/-- What has been returned after an examination. -/
def note (returned : List (Tag W × Nat)) (publishes : Nat) :
    Option (Step (Tag W)) → List (Tag W × Nat)
  | some (.item (some tag)) => returned ++ [(tag, publishes)]
  | some (.item none) | some .idle | none => returned

/-- What an examination may answer. -/
def Answers (publishes : Nat) : Option (Step (Tag W)) → Prop
  | some (.item (some tag)) => tag.born < publishes
  | some (.item none) => False
  | some .idle | none => True

namespace Sound

variable {registry : Registry (Tag W)} {publishes installs : Nat} {returned : List (Tag W × Nat)}

/-- The entry under the cursor is examined, and the cursor goes on. -/
theorem examine (h : Sound registry publishes installs returned)
    (here : registry.cursor = some index) :
    Answers publishes (some ((registry.entries index).step registry.draining).1) ∧
      Sound { registry with
        cursor := after index registry.links
        entries := update registry.entries index
          ((registry.entries index).step registry.draining).2 } publishes installs
        (note returned publishes (some ((registry.entries index).step registry.draining).1)) := by
  rcases h.pass with ⟨passed, rest, split, cursor, done⟩
  cases rest with
  | nil => rw [here] at cursor; cases cursor
  | cons x xs =>
    rw [here] at cursor
    cases Option.some.inj cursor
    have nodup := h.links_nodup
    rw [split] at nodup
    have mem : index ∈ registry.links := by
      rw [split]
      exact List.mem_append.mpr (.inr List.mem_cons_self)
    have next : after index registry.links = xs.head? := by
      rw [split]
      exact after_split passed nodup
    have good := h.good index mem
    -- the entry joins those that are passed
    have pass : ∀ entry : Entry (Tag W),
        (entry.Marked → registry.draining.toNat ≤ entry.stamp) →
        ∃ passed rest, registry.links = passed ++ rest ∧
          after index registry.links = rest.head? ∧
          ∀ i ∈ passed, (update registry.entries index entry i).Marked →
            registry.draining.toNat ≤
              (update registry.entries index entry i).stamp := by
      intro entry late
      refine ⟨passed ++ [index], xs, by rw [split, List.append_assoc]; rfl, next, ?_⟩
      intro i there marked
      by_cases same : i = index
      · subst same
        rw [update_self] at marked ⊢
        exact late marked
      · rw [update_of_ne same] at marked ⊢
        rcases List.mem_append.mp there with before | now
        · exact done i before marked
        · exact absurd (List.mem_singleton.mp now) same
    rcases Entry.step_cases (registry.entries index) with
      ⟨late, ran⟩ | ⟨early, clear, ran⟩ | ⟨early, marked, ran⟩
    · rw [ran]
      exact ⟨trivial, h.edit index _ good (.inr rfl) (pass _ fun _ => late)⟩
    · rw [ran]
      have delivered := Entry.delivered_stamp h.halves (registry.entries index).value
      refine ⟨trivial, h.edit index ⟨(registry.entries index).value, registry.draining⟩ ⟨?_, ?_⟩
        (.inr rfl) (pass _ fun marked => absurd marked delivered.2)⟩
      · rw [delivered.1]
        exact h.behind
      · have old := good.2
        show match (registry.entries index).value with
          | none => ¬ Entry.Marked _
          | some tag => _
        cases value : (registry.entries index).value with
        | none => exact (Entry.delivered_stamp h.halves none).2
        | some tag =>
          rw [value] at old
          exact absurd old.1 clear
    · rw [ran]
      have delivered := Entry.delivered_stamp h.halves (none : Option (Tag W))
      have taken := h.edit index ⟨none, registry.draining⟩
        ⟨Nat.le_trans (Nat.le_of_eq delivered.1) h.behind, delivered.2⟩ (.inl rfl)
        (pass _ fun marked => absurd marked delivered.2)
      have old := good.2
      cases value : (registry.entries index).value with
      | none =>
        rw [value] at old
        exact absurd marked old
      | some tag =>
        rw [value] at old
        have older : tag.born < publishes := by
          refine Nat.lt_of_le_of_ne old.2.1 fun same => ?_
          have stamp := old.2.2.1.mp same
          have behind := h.behind
          omega
        refine ⟨older, taken.give ?_ old.2.2.2.2 old.2.2.2.1 older⟩
        intro i there tag' value' same
        by_cases equal : i = index
        · subst equal
          rw [show (update registry.entries i _ i).value = _ from
            congrArg Entry.value (update_self ..)] at value'
          cases value'
        · rw [show (update registry.entries index _ i).value = _ from
            congrArg Entry.value (update_of_ne equal ..)] at value'
          exact equal (h.single index mem i there tag tag' value value' same)

theorem step (h : Sound registry publishes installs returned) :
    Answers publishes registry.step.1 ∧
      Sound registry.step.2 publishes installs (note returned publishes registry.step.1) := by
  have begun : Sound (if registry.cursor.isNone ∧ registry.draining ≠ registry.epoch then
      { registry with draining := registry.epoch, cursor := registry.links.head? }
    else registry) publishes installs returned := by
    split
    · exact h.restart
    · exact h
  unfold Registry.step
  dsimp only
  generalize (if registry.cursor.isNone ∧ registry.draining ≠ registry.epoch then
      { registry with draining := registry.epoch, cursor := registry.links.head? }
    else registry) = registry at begun ⊢
  cases here : registry.cursor with
  | none => exact ⟨trivial, begun⟩
  | some index => exact begun.examine here

/-- A subscriber leaves, and the cursor does not stay on it. -/
theorem retire (h : Sound registry publishes installs returned) {key : Nat}
    (mem : key ∈ registry.links) : Sound (registry.retire key) publishes installs returned := by
  have links := h.links_nodup
  have other : ∀ i ∈ registry.links.erase key, i ∈ registry.links ∧
      update registry.entries key (registry.entries key).retire i = registry.entries i := by
    intro i there
    have apart := (links.mem_erase_iff.mp there).1
    exact ⟨List.mem_of_mem_erase there, update_of_ne apart ..⟩
  -- the draining epoch is caught up only when nobody is left
  have alone : (before key registry.links).isNone ∧ (after key registry.links).isNone →
      registry.links.erase key = [] := by
    intro both
    have first := (before_eq_none links mem).mp (Option.isNone_iff_eq_none.mp both.1)
    have last := Option.isNone_iff_eq_none.mp both.2
    cases chain : registry.links with
    | nil => rfl
    | cons x xs =>
      rw [chain] at first last
      cases Option.some.inj first
      have ends : after key (key :: xs) = xs.head? := after_split [] (chain ▸ links)
      rw [ends, List.head?_eq_none_iff] at last
      rw [last, List.erase_cons_head]
  have cursor : ∃ passed rest, registry.links.erase key = passed ++ rest ∧
      (if registry.cursor = some key then after key registry.links else registry.cursor) =
        rest.head? ∧
      ∀ i ∈ passed, (registry.entries i).Marked →
        registry.draining.toNat ≤ (registry.entries i).stamp := by
    rcases h.pass with ⟨passed, rest, split, cursor, done⟩
    rw [split] at links
    by_cases before : key ∈ passed
    · have apart : registry.cursor ≠ some key := by
        intro here
        rw [here] at cursor
        exact List.disjoint_of_nodup_append links before (List.mem_of_mem_head? cursor.symm)
      refine ⟨passed.erase key, rest, ?_, ?_, ?_⟩
      · rw [split, List.erase_append_left _ before]
      · rw [if_neg apart]
        exact cursor
      · exact fun i there => done i (List.mem_of_mem_erase there)
    · refine ⟨passed, rest.erase key, ?_, ?_, done⟩
      · rw [split, List.erase_append_right _ before]
      · cases rest with
        | nil =>
          rw [List.append_nil] at split
          exact absurd (split ▸ mem) before
        | cons x xs =>
          rw [cursor]
          by_cases same : x = key
          · subst same
            show (if some x = some x then after x registry.links else _) = _
            rw [if_pos rfl, split, after_split passed links, List.erase_cons_head]
          · have apart : (x :: xs).head? ≠ some key := fun equal => same (Option.some.inj equal)
            rw [if_neg apart, List.erase_cons_tail (by simpa using same)]
            rfl
  refine ⟨?_, h.even, ?_, ?_, ?_, ?_, ?_, h.once, h.past⟩
  · show (registry.links.erase key ++ key :: registry.free).Nodup
    have perm : (registry.links.erase key ++ key :: registry.free).Perm
        (registry.links ++ registry.free) :=
      List.perm_middle.trans ((List.perm_cons_erase mem).symm.append_right registry.free)
    exact perm.nodup_iff.mpr h.nodup
  · show (if _ then registry.epoch else registry.draining).toNat % 2 = 0
    split
    · exact h.even
    · exact h.halves
  · show (if _ then registry.epoch else registry.draining).toNat ≤ registry.epoch.toNat
    split
    · exact Nat.le_refl _
    · exact h.behind
  · intro i there
    show (update registry.entries key _ i).Good _ _ _ _
    rw [(other i there).2]
    exact h.good i (other i there).1
  · intro i there j there' tag tag' value value' same
    rw [show ((registry.retire key).entries i).value = _ from
      congrArg Entry.value (other i there).2] at value
    rw [show ((registry.retire key).entries j).value = _ from
      congrArg Entry.value (other j there').2] at value'
    exact h.single i (other i there).1 j (other j there').1 tag tag' value value' same
  · rcases cursor with ⟨passed, rest, split, next, done⟩
    refine ⟨passed, rest, split, next, ?_⟩
    intro i there marked
    have left : i ∈ registry.links.erase key := split ▸ List.mem_append.mpr (.inl there)
    show (if _ then registry.epoch else registry.draining).toNat ≤
      (update registry.entries key _ i).stamp
    rw [show (registry.retire key).entries i = _ from (other i left).2] at marked
    rw [(other i left).2]
    split
    · rename_i last
      rw [alone last] at left
      cases left
    · exact done i there marked

end Sound

/-! ## Runs -/

/-- A registry with the leases of a run, and what was installed and returned. -/
structure Watch (W : Type) where
  registry : Registry (Tag W)
  leases : Nat → Lease
  installs : Nat
  publishes : Nat
  returned : List (Tag W × Nat)

inductive Input (W : Type) where
  | keep (lease : Nat) (value : W)
  | keepOther (lease : Nat) (active : Bound)
  | cancel (lease : Nat)
  | publish
  | step
  | drain (work : Nat)
deriving DecidableEq, Repr

inductive Output (W : Type) where
  | done
  | rejected (reject : Reject)
  | examined (step : Option (Step (Tag W)))
  | drained (drain : Drain (Tag W))
deriving DecidableEq, Repr

variable {registry : Registry (Tag W)} {lease : Nat}

namespace Watch

/-- The address of the registry. -/
def address : Nat := 0

def keep (watch : Watch W) (lease : Nat) (value : W) : Output W × Watch W :=
  match watch.registry.tryKeep address (watch.leases lease)
      ⟨value, watch.installs, watch.publishes⟩ with
  | .error reject => (.rejected reject, watch)
  | .ok (bound, registry) =>
      (.done, { watch with
        registry, leases := update watch.leases lease bound
        installs := watch.installs + 1 })

/-- A lease is dropped. One of another registry is given back there. -/
def cancel (watch : Watch W) (lease : Nat) : Watch W :=
  let leases := update watch.leases lease none
  match watch.leases lease with
  | none => watch
  | some active =>
      if active.target = address then
        { watch with registry := watch.registry.retire active.key, leases }
      else { watch with leases }

def drain (watch : Watch W) (work : Nat) : Output W × Watch W :=
  let (drained, registry) := one work watch.registry
  (.drained drained, { watch with
    registry
    returned := match drained with
      | .woke target => note watch.returned watch.publishes (some (.item target))
      | .empty | .exhausted => watch.returned })

def step (watch : Watch W) : Input W → Output W × Watch W
  | .keep lease value => watch.keep lease value
  | .keepOther lease active => (.done, { watch with
      leases := update watch.leases lease (some active) })
  | .cancel lease => (.done, watch.cancel lease)
  | .publish => (.done, { watch with
      registry := watch.registry.publish, publishes := watch.publishes + 1 })
  | .step => (.examined watch.registry.step.1, { watch with
      registry := watch.registry.step.2
      returned := note watch.returned watch.publishes watch.registry.step.1 })
  | .drain work => watch.drain work

def allowed (watch : Watch W) : Input W → Prop
  | .keepOther lease active => watch.leases lease = none ∧ active.target ≠ address
  | .keep _ _ | .cancel _ | .publish | .step | .drain _ => True

def machine (capacity : Nat) : Run.Machine (Watch W) (Input W) (Output W) Empty where
  start watch := watch = ⟨Registry.tryNew capacity, fun _ => none, 0, 0, []⟩
  allowed := allowed
  step watch input := .ok (watch.step input)

structure Inv (watch : Watch W) : Prop where
  sound : Sound watch.registry watch.publishes watch.installs watch.returned
  linked : ∀ lease key, watch.leases lease = some ⟨address, key⟩ → key ∈ watch.registry.links
  own : ∀ lease lease' key, watch.leases lease = some ⟨address, key⟩ →
    watch.leases lease' = some ⟨address, key⟩ → lease' = lease

namespace Inv

variable {watch : Watch W}

theorem step_keep (h : Inv watch) (lease : Nat) (value : W) : Inv (watch.keep lease value).2 := by
  unfold keep Registry.tryKeep
  cases bound : watch.leases lease with
  | some active =>
    dsimp only
    by_cases other : active.target ≠ address
    · rw [if_pos other]
      exact h
    · rw [if_neg other]
      rw [not_not] at other
      have here : watch.leases lease = some ⟨address, active.key⟩ := by
        rw [bound, ← other]
      have same : update watch.leases lease (some active) = watch.leases := by
        rw [← bound, update_eq_self]
      dsimp only
      rw [same]
      exact ⟨h.sound.renew active.key value, h.linked, h.own⟩
  | none =>
    dsimp only
    unfold Registry.tryInsert
    cases free : watch.registry.free with
    | nil => exact h
    | cons index rest =>
      dsimp only
      have fresh : index ∉ watch.registry.links := by
        intro mem
        refine List.disjoint_of_nodup_append h.sound.nodup mem ?_
        rw [free]
        exact List.mem_cons_self
      have apart : ∀ lease' key, watch.leases lease' = some ⟨address, key⟩ → key ≠ index := by
        intro lease' key there same
        exact fresh (same ▸ h.linked lease' key there)
      have kept : ∀ lease' key,
          update watch.leases lease (some ⟨address, index⟩) lease' =
            some ⟨address, key⟩ →
          lease' = lease ∧ key = index ∨
            lease' ≠ lease ∧ watch.leases lease' = some ⟨address, key⟩ := by
        intro lease' key there
        by_cases same : lease' = lease
        · subst same
          rw [update_self] at there
          cases there
          exact .inl ⟨rfl, rfl⟩
        · rw [update_of_ne same] at there
          exact .inr ⟨same, there⟩
      refine ⟨h.sound.insert value free, ?_, ?_⟩
      · intro lease' key there
        show key ∈ watch.registry.links ++ [index]
        rcases kept lease' key there with ⟨-, rfl⟩ | ⟨-, old⟩
        · exact List.mem_append.mpr (.inr List.mem_cons_self)
        · exact List.mem_append.mpr (.inl (h.linked lease' key old))
      · intro first second key there there'
        rcases kept first key there with ⟨rfl, rfl⟩ | ⟨-, old⟩
        · rcases kept second key there' with ⟨rfl, -⟩ | ⟨-, old'⟩
          · rfl
          · exact absurd rfl (apart second key old')
        · rcases kept second key there' with ⟨-, rfl⟩ | ⟨-, old'⟩
          · exact absurd rfl (apart first key old)
          · exact h.own first second key old old'

/-- A lease lets go of what it had, and the others keep theirs. -/
theorem release (h : Inv watch) {bound : Lease} (other : ∀ key, bound ≠ some ⟨address, key⟩)
    (sound : Sound registry watch.publishes watch.installs watch.returned)
    (linked : ∀ lease' key, lease' ≠ lease → watch.leases lease' = some ⟨address, key⟩ → key ∈
      registry.links) :
    Inv { watch with registry, leases := update watch.leases lease bound } := by
  have kept : ∀ lease' key, update watch.leases lease bound lease' = some ⟨address, key⟩ →
      lease' ≠ lease ∧ watch.leases lease' = some ⟨address, key⟩ := by
    intro lease' key there
    by_cases same : lease' = lease
    · subst same
      rw [update_self] at there
      exact absurd there (other key)
    · rw [update_of_ne same] at there
      exact ⟨same, there⟩
  refine ⟨sound, ?_, ?_⟩
  · intro lease' key there
    exact linked lease' key (kept _ _ there).1 (kept _ _ there).2
  · intro first second key there there'
    exact h.own first second key (kept _ _ there).2 (kept _ _ there').2

theorem step_cancel (h : Inv watch) (lease : Nat) : Inv (watch.cancel lease) := by
  have empty : ∀ key, (none : Lease) ≠ some ⟨address, key⟩ := fun _ => nofun
  unfold cancel
  dsimp only
  cases bound : watch.leases lease with
  | none => exact h
  | some active =>
    dsimp only
    by_cases here : active.target = address
    · rw [if_pos here]
      have there : watch.leases lease = some ⟨address, active.key⟩ := by rw [bound, ← here]
      refine h.release empty (h.sound.retire (h.linked _ _ there)) ?_
      intro lease' key apart live
      have other : key ≠ active.key := by
        rintro rfl
        exact apart (h.own lease lease' _ there live)
      exact (List.mem_erase_of_ne other).mpr (h.linked _ _ live)
    · rw [if_neg here]
      exact h.release empty h.sound fun lease' key _ => h.linked lease' key

/-- Entries and the cursor change, and the chain stays. -/
theorem pass (h : Inv watch) {publishes : Nat} {returned : List (Tag W × Nat)}
    (sound : Sound registry publishes watch.installs returned)
    (links : registry.links = watch.registry.links) :
    Inv { watch with registry, publishes, returned } := by
  refine ⟨sound, ?_, h.own⟩
  intro lease key there
  show key ∈ registry.links
  rw [links]
  exact h.linked lease key there

end Inv

end Watch

theorem Registry.publish_links (registry : Registry W) : registry.publish.links = registry.links := by
  unfold publish
  dsimp only
  by_cases zero : registry.epoch + 2 = 0
  · rw [if_pos zero]
    dsimp only
    split <;> rfl
  · rw [if_neg zero]
    dsimp only
    split <;> rfl

theorem Registry.step_links (registry : Registry W) : registry.step.2.links = registry.links := by
  unfold step
  dsimp only
  split
  · split <;> rfl
  · split <;> rfl

/-- A publication moves no value. -/
theorem Registry.publish_value (registry : Registry W) (key : Nat) :
    (registry.publish.entries key).value = (registry.entries key).value := by
  unfold publish
  dsimp only
  by_cases zero : registry.epoch + 2 = 0
  · rw [if_pos zero]
    dsimp only
    split <;> rfl
  · rw [if_neg zero]
    dsimp only
    split <;> rfl

theorem Entry.step_value (entry : Entry W) (epoch : BitVec 64) :
    (entry.step epoch).2.value = entry.value ∨ (entry.step epoch).1 = .item entry.value := by
  unfold step
  dsimp only
  split
  · exact .inl rfl
  · split
    · exact .inl rfl
    · exact .inr rfl

/-- An examination leaves a value where it is, or answers with it. -/
theorem Registry.step_value (registry : Registry W) (key : Nat) :
    (registry.step.2.entries key).value = (registry.entries key).value ∨
      registry.step.1 = some (.item (registry.entries key).value) := by
  unfold step
  dsimp only
  generalize begun : (if registry.cursor.isNone ∧ registry.draining ≠ registry.epoch then
    { registry with draining := registry.epoch, cursor := registry.links.head? } else registry) =
    other
  have entries : other.entries = registry.entries := by
    rw [← begun]
    split <;> rfl
  cases other.cursor with
  | none => exact .inl (by rw [entries])
  | some index =>
    dsimp only
    by_cases same : key = index
    · subst same
      rw [update_self, ← entries]
      rcases (other.entries key).step_value other.draining with kept | taken
      · exact .inl kept
      · exact .inr (congrArg some taken)
    · rw [update_of_ne same, entries]
      exact .inl rfl

/-- Nothing is examined when nothing is pending. -/
theorem Registry.step_idle {registry : Registry W} (quiet : registry.hasPending = false) :
    registry.step = (none, registry) := by
  unfold hasPending at quiet
  rw [Bool.or_eq_false_iff] at quiet
  have idle : registry.cursor = none := by simpa using quiet.1
  have same : registry.draining = registry.epoch := by simpa using quiet.2
  unfold step
  dsimp only
  rw [if_neg (fun both => both.2 same), idle]

/-- A drain leaves a value where it is, or wakes with it. -/
theorem one_value (work : Nat) (registry : Registry W) (key : Nat) :
    ((one work registry).2.entries key).value = (registry.entries key).value ∨
      (one work registry).1 = .woke (registry.entries key).value := by
  induction work generalizing registry with
  | zero =>
    unfold one
    cases pending : registry.hasPending with
    | false =>
      rw [registry.step_idle pending]
      exact .inl rfl
    | true => exact .inl rfl
  | succ work ih =>
    unfold one
    cases pending : registry.hasPending with
    | false =>
      rw [registry.step_idle pending]
      exact .inl rfl
    | true =>
      have stepped := registry.step_value key
      generalize registry.step = answer at stepped
      rcases answer with ⟨- | - | target, next⟩
      · exact .inl (stepped.resolve_right (by simp))
      · have kept : (next.entries key).value = _ := stepped.resolve_right (by simp)
        dsimp only
        rw [← kept]
        exact ih next
      · rcases stepped with kept | taken
        · exact .inl kept
        · cases taken
          exact .inr rfl

theorem Registry.step_none {registry : Registry W} (none : registry.step.1 = none) :
    registry.step.2.hasPending = false := by
  unfold step at none ⊢
  dsimp only at none ⊢
  by_cases begins : registry.cursor.isNone ∧ registry.draining ≠ registry.epoch
  · rw [if_pos begins] at none ⊢
    cases first : registry.links.head? with
    | some index => rw [first] at none; cases none
    | none => simp [hasPending]
  · rw [if_neg begins] at none ⊢
    cases here : registry.cursor with
    | some index => rw [here] at none; cases none
    | none =>
      rw [here] at begins
      have same : registry.draining = registry.epoch := by simpa using begins
      simp [hasPending, here, same]

/-- A drain examines until it wakes one, and ends when nothing is pending. -/
theorem Sound.one {publishes installs : Nat} {returned : List (Tag W × Nat)} (work : Nat)
    (h : Sound registry publishes installs returned) :
    match one work registry with
    | (.empty, next) => next.links = registry.links ∧ next.hasPending = false ∧
        Sound next publishes installs returned
    | (.exhausted, next) => next.links = registry.links ∧ Sound next publishes installs returned
    | (.woke target, next) => next.links = registry.links ∧
        (∃ tag, target = some tag ∧ tag.born < publishes ∧
          ∀ r ∈ returned, r.1.serial ≠ tag.serial) ∧
        Sound next publishes installs (note returned publishes (some (.item target))) := by
  induction work generalizing registry with
  | zero =>
    unfold Fanout.one
    cases pending : registry.hasPending with
    | false =>
      rw [registry.step_idle pending]
      exact ⟨rfl, pending, h⟩
    | true => exact ⟨rfl, h⟩
  | succ work ih =>
    unfold Fanout.one
    cases pending : registry.hasPending with
    | false =>
      rw [registry.step_idle pending]
      exact ⟨rfl, pending, h⟩
    | true =>
      have links := registry.step_links
      have stepped := h.step
      have quiet := @Registry.step_none _ registry
      generalize registry.step = answer at links stepped quiet
      rcases answer with ⟨examined, next⟩
      cases examined with
      | none => exact ⟨links, quiet rfl, stepped.2⟩
      | some examined =>
        cases examined with
        | idle =>
          have rest := ih stepped.2
          dsimp only
          dsimp only at links
          rw [← links]
          exact rest
        | item target =>
          cases target with
          | none => exact absurd stepped.1 id
          | some tag =>
            refine ⟨links, ⟨tag, rfl, stepped.1, ?_⟩, stepped.2⟩
            have once := stepped.2.once
            rw [show note returned publishes (some (.item (some tag))) =
              returned ++ [(tag, publishes)] from rfl, List.map_append] at once
            intro r there same
            exact List.disjoint_of_nodup_append once
              (List.mem_map.mpr ⟨r, there, same⟩) List.mem_cons_self

namespace Watch

variable {watch : Watch W} {capacity : Nat}

theorem start_inv (capacity : Nat) :
    Inv (⟨Registry.tryNew capacity, fun _ => none, 0, 0, []⟩ : Watch W) where
  sound := {
    nodup := List.nodup_range
    even := by
      show (0#64).toNat % 2 = 0
      decide
    halves := by
      show (0#64).toNat % 2 = 0
      decide
    behind := Nat.le_refl _
    good := fun _ no => nomatch no
    single := fun _ no => nomatch no
    pass := ⟨[], [], rfl, rfl, fun _ no => nomatch no⟩
    once := List.nodup_nil
    past := fun _ no => nomatch no }
  linked := fun _ _ no => nomatch no
  own := fun _ _ _ no => nomatch no

theorem step_inv (h : Inv watch) {input : Input W} (ok : watch.allowed input) :
    Inv (watch.step input).2 := by
  cases input with
  | keep lease value => exact h.step_keep lease value
  | keepOther lease active =>
    have other : ∀ key, some active ≠ some (⟨address, key⟩ : Bound) := by
      intro key same
      exact ok.2 (congrArg Bound.target (Option.some.inj same))
    exact h.release other h.sound fun lease' key _ => h.linked lease' key
  | cancel lease => exact h.step_cancel lease
  | publish => exact h.pass h.sound.publish watch.registry.publish_links
  | step => exact h.pass h.sound.step.2 watch.registry.step_links
  | drain work =>
    have ran := h.sound.one work
    show Inv (watch.drain work).2
    unfold drain
    generalize one work watch.registry = answer at ran ⊢
    rcases answer with ⟨drained, next⟩
    cases drained with
    | empty => exact h.pass ran.2.2 ran.1
    | exhausted => exact h.pass ran.2 ran.1
    | woke target => exact h.pass ran.2.2 ran.1

theorem inv_invariant (capacity : Nat) :
    (machine (W := W) capacity).Invariant Inv where
  start := by
    intro watch start
    cases start
    exact start_inv capacity
  step := fun _ _ h ok => ⟨_, _, rfl, step_inv h ok⟩

/-- The value of the subscriber that has the lease. -/
def Holds (watch : Watch W) (lease : Nat) (tag : Tag W) : Prop :=
  ∃ key, watch.leases lease = some ⟨address, key⟩ ∧
    (watch.registry.entries key).value = some tag

/-- What is kept is installed. -/
theorem keep_holds {value : W} (done : (watch.keep lease value).1 = .done) :
    (watch.keep lease value).2.Holds lease ⟨value, watch.installs, watch.publishes⟩ := by
  unfold keep Registry.tryKeep Registry.tryInsert at done ⊢
  cases bound : watch.leases lease with
  | some active =>
    rw [bound] at done
    dsimp only at done ⊢
    by_cases other : active.target ≠ address
    · rw [if_pos other] at done
      cases done
    · rw [if_neg other]
      refine ⟨active.key, ?_, by simp [Entry.install]⟩
      rw [← not_not.mp other]
      exact update_self ..
  | none =>
    rw [bound] at done
    dsimp only at done ⊢
    cases free : watch.registry.free with
    | nil =>
      rw [free] at done
      cases done
    | cons index rest => exact ⟨index, update_self .., by simp [Entry.install]⟩

/-- Another subscriber's value stays where it is. -/
theorem keep_other (h : Inv watch) {other : Nat} (apart : other ≠ lease)
    (held : watch.Holds other tag) (value : W) : (watch.keep lease value).2.Holds other tag := by
  rcases held with ⟨key, there, holds⟩
  unfold keep Registry.tryKeep Registry.tryInsert
  cases bound : watch.leases lease with
  | some active =>
    dsimp only
    by_cases foreign : active.target ≠ address
    · rw [if_pos foreign]
      exact ⟨key, there, holds⟩
    · rw [if_neg foreign]
      refine ⟨key, (update_of_ne apart ..).trans there, ?_⟩
      have distinct : key ≠ active.key := by
        rintro rfl
        exact apart (h.own lease other _ (by rw [bound, ← not_not.mp foreign]) there)
      dsimp only
      rw [update_of_ne distinct]
      exact holds
  | none =>
    dsimp only
    cases free : watch.registry.free with
    | nil => exact ⟨key, there, holds⟩
    | cons index rest =>
      refine ⟨key, (update_of_ne apart ..).trans there, ?_⟩
      have distinct : key ≠ index := by
        rintro rfl
        refine List.disjoint_of_nodup_append h.sound.nodup (h.linked _ _ there) ?_
        rw [free]
        exact List.mem_cons_self
      dsimp only
      rw [update_of_ne distinct]
      exact holds

theorem cancel_other (h : Inv watch) {other : Nat} (apart : other ≠ lease)
    (held : watch.Holds other tag) : (watch.cancel lease).Holds other tag := by
  rcases held with ⟨key, there, holds⟩
  unfold cancel
  cases bound : watch.leases lease with
  | none => exact ⟨key, there, holds⟩
  | some active =>
    dsimp only
    by_cases here : active.target = address
    · rw [if_pos here]
      have distinct : key ≠ active.key := by
        rintro rfl
        exact apart (h.own lease other _ (by rw [bound, ← here]) there)
      refine ⟨key, (update_of_ne apart ..).trans there, ?_⟩
      dsimp only [Registry.retire]
      rw [update_of_ne distinct]
      exact holds
    · rw [if_neg here]
      exact ⟨key, (update_of_ne apart ..).trans there, holds⟩

/-- A held value is held on, or is returned, replaced or cancelled. -/
theorem step_holds (h : Inv watch) (held : watch.Holds lease tag) {input : Input W}
    (ok : watch.allowed input) :
    (watch.step input).2.Holds lease tag ∨
      (watch.step input).2.returned = watch.returned ++ [(tag, watch.publishes)] ∨
      input = .cancel lease ∨ ∃ value, input = .keep lease value := by
  cases input with
  | keep other value =>
    by_cases same : lease = other
    · exact .inr (.inr (.inr ⟨value, by rw [same]⟩))
    · exact .inl (keep_other h same held value)
  | keepOther other active =>
    rcases held with ⟨key, there, holds⟩
    have apart : lease ≠ other := by
      rintro rfl
      rw [ok.1] at there
      cases there
    exact .inl ⟨key, (update_of_ne apart ..).trans there, holds⟩
  | cancel other =>
    by_cases same : lease = other
    · exact .inr (.inr (.inl (by rw [same])))
    · exact .inl (cancel_other h same held)
  | publish =>
    rcases held with ⟨key, there, holds⟩
    exact .inl ⟨key, there, (watch.registry.publish_value key).trans holds⟩
  | step =>
    rcases held with ⟨key, there, holds⟩
    rcases watch.registry.step_value key with kept | taken
    · exact .inl ⟨key, there, kept.trans holds⟩
    · refine .inr (.inl ?_)
      rw [holds] at taken
      exact congrArg (note watch.returned watch.publishes) taken
  | drain work =>
    rcases held with ⟨key, there, holds⟩
    rcases one_value work watch.registry key with kept | taken
    · exact .inl ⟨key, there, kept.trans holds⟩
    · refine .inr (.inl ?_)
      rw [holds] at taken
      dsimp only [step, drain]
      rw [taken]
      rfl

/-- In every reachable state, whatever has been returned was returned once and was
installed before the publication that was the last one then, and the same holds of
what is examined next. When nothing is pending, what waits was installed after the
last publication, and a drain that ends empty leaves nothing pending. What is kept is
installed, and a subscriber holds it until it is returned, replaced or cancelled. -/
theorem reachable_delivered (h : (machine capacity).Reachable watch) :
    (∀ r ∈ watch.returned, r.1.born < r.2) ∧
      (watch.returned.map (·.1.serial)).Nodup ∧
      (∀ target, watch.registry.step.1 = some (.item target) →
        ∃ tag, target = some tag ∧ tag.born < watch.publishes ∧
          ∀ r ∈ watch.returned, r.1.serial ≠ tag.serial) ∧
      (watch.registry.hasPending = false → ∀ i ∈ watch.registry.links, ∀ tag,
        (watch.registry.entries i).value = some tag → tag.born = watch.publishes) ∧
      (∀ work, (one work watch.registry).1 = .empty →
        (one work watch.registry).2.hasPending = false) ∧
      (∀ lease key, watch.leases lease = some ⟨address, key⟩ → key ∈ watch.registry.links) ∧
      (∀ lease value, (watch.step (.keep lease value)).1 = .done →
        (watch.step (.keep lease value)).2.Holds lease
          ⟨value, watch.installs, watch.publishes⟩) ∧
      ∀ lease tag, watch.Holds lease tag → ∀ input, watch.allowed input →
        (watch.step input).2.Holds lease tag ∨
          (watch.step input).2.returned = watch.returned ++ [(tag, watch.publishes)] ∨
          input = .cancel lease ∨ ∃ value, input = .keep lease value := by
  have inv := (inv_invariant capacity).holds h
  refine ⟨fun r mem => (inv.sound.past r mem).2, inv.sound.once, ?_, ?_, ?_, inv.linked,
    fun _ _ => keep_holds, fun _ _ held _ => step_holds inv held⟩
  · intro target out
    have stepped := inv.sound.step
    rw [out] at stepped
    cases target with
    | none => exact absurd stepped.1 id
    | some tag =>
        refine ⟨tag, rfl, stepped.1, ?_⟩
        have once := stepped.2.once
        rw [show note watch.returned watch.publishes (some (.item (some tag))) =
          watch.returned ++ [(tag, watch.publishes)] from rfl, List.map_append] at once
        intro r there same
        exact List.disjoint_of_nodup_append once (List.mem_map.mpr ⟨r, there, same⟩)
          List.mem_cons_self
  · intro quiet i mem tag held
    exact inv.sound.settled quiet mem held
  · intro work out
    have ran := inv.sound.one work
    generalize one work watch.registry = answer at ran out ⊢
    rcases answer with ⟨drained, next⟩
    cases out
    exact ran.2.1

/-- A second publication comes in the middle of a pass, after a value was replaced. -/
theorem reachable_delivered_example :
    ∃ watch, (machine (W := Nat) 2).Reachable watch ∧
      (watch.returned.map (·.1.value)) = [1, 2] ∧
      (∀ r ∈ watch.returned, r.1.born < r.2) ∧
      ∃ tag, watch.registry.step.1 = some (.item (some tag)) ∧ tag.value = 11 ∧
        tag.born < watch.publishes := by
  have start : (machine (W := Nat) 2).Reachable _ := .start rfl
  have one := start.call (.keep 0 1) trivial rfl
  have two := one.call (.keep 1 2) trivial rfl
  have three := two.call .publish trivial rfl
  have four := three.call .step trivial rfl
  have five := four.call (.keep 0 11) trivial rfl
  have six := five.call .publish trivial rfl
  have seven := six.call .step trivial rfl
  have all := reachable_delivered seven
  rcases all.2.2.1 _ rfl with ⟨tag, same, older, -⟩
  cases same
  exact ⟨_, seven, rfl, all.1, _, rfl, rfl, older⟩

end Watch

end Dope.Core.Ready.Fanout
