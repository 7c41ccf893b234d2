import Dope.Core.Ready.Arena.World
import Dope.Core.Ready.Arena.Lanes

/-! # Owners of slots

Every slot that is live is owned by one key, in its own generation. An operation
turns one slot from a kind into another and moves its key along.
-/

namespace Dope.Core.Ready.Arena

variable {G : Type}

/-- The keys are those of the slots of this kind. -/
structure Owns (layout : Layout) (slots : Slots G) (kind : Kind) (keys : List (Key G)) : Prop where
  live : ∀ key ∈ keys, layout.Inside key.index ∧ (slots key.index).kind = kind ∧
    (slots key.index).generation = key.epoch
  nodup : (keys.map Key.index).Nodup
  every : ∀ i, layout.Inside i → (slots i).kind = kind → ∃ key ∈ keys, key.index = i

/-- One slot changes its kind. -/
structure Becomes (slots slots' : Slots G) (index : Nat) (kind : Kind) : Prop where
  kind : (slots' index).kind = kind
  generation : (slots' index).generation = (slots index).generation
  others : ∀ j, j ≠ index → slots' j = slots j

/-- Only the payloads and queues of tasks and topologies change. -/
structure Quiet (slots slots' : Slots G) : Prop where
  kind : ∀ j, (slots' j).kind = (slots j).kind
  generation : ∀ j, (slots' j).generation = (slots j).generation
  others : ∀ j, (slots j).kind ≠ .task → (slots j).kind ≠ .topology → slots' j = slots j

/-- A task or a topology is edited without its kind and generation. -/
theorem Quiet.modify (slots : Slots G) {index : Nat} {edit : Cell G → Cell G}
    (live : (slots index).kind = .task ∨ (slots index).kind = .topology)
    (kind : (edit (slots index)).kind = (slots index).kind)
    (generation : (edit (slots index)).generation = (slots index).generation) :
    Quiet slots (slots.modify index edit) := by
  refine ⟨?_, ?_, ?_⟩
  · intro j
    by_cases here : j = index
    · rw [here, Slots.modify_self]
      exact kind
    · rw [Slots.modify_other _ _ here]
  · intro j
    by_cases here : j = index
    · rw [here, Slots.modify_self]
      exact generation
    · rw [Slots.modify_other _ _ here]
  · intro j task topology
    by_cases here : j = index
    · rw [here] at task topology
      rcases live with old | old
      · exact absurd old task
      · exact absurd old topology
    · rw [Slots.modify_other _ _ here]

theorem Becomes.modify (slots : Slots G) {index : Nat} {edit : Cell G → Cell G} {kind : Kind}
    (turned : (edit (slots index)).kind = kind)
    (generation : (edit (slots index)).generation = (slots index).generation) :
    Becomes slots (slots.modify index edit) index kind where
  kind := by
    rw [Slots.modify_self]
    exact turned
  generation := by
    rw [Slots.modify_self]
    exact generation
  others _ apart := Slots.modify_other _ _ apart

variable {key : Key G}

namespace Owns

variable {layout : Layout} {slots slots' : Slots G} {kind kind' : Kind} {keys keys' : List (Key G)}
  {index : Nat}

section

variable (h : Owns layout slots kind keys)

include h

theorem perm (same : keys.Perm keys') :
    Owns layout slots kind keys' where
  live key mem := h.live key (same.mem_iff.mpr mem)
  nodup := (same.map Key.index).nodup_iff.mp h.nodup
  every := by
    intro i inside here
    rcases h.every i inside here with ⟨key, mem, at_⟩
    exact ⟨key, same.mem_iff.mp mem, at_⟩

theorem injective {key' : Key G} (mem : key ∈ keys) (mem' : key' ∈ keys)
    (same : key'.index = key.index) : key' = key := by
  have epoch := (h.live key mem).2.2
  have epoch' := (h.live key' mem').2.2
  rw [same, epoch] at epoch'
  cases key
  cases key'
  dsimp only at same epoch'
  rw [same, epoch']

theorem congr (same : ∀ j, (slots' j).kind = (slots j).kind)
    (generation : ∀ j, (slots' j).generation = (slots j).generation) :
    Owns layout slots' kind keys where
  live := by
    intro key mem
    rw [same, generation]
    exact h.live key mem
  nodup := h.nodup
  every := by
    intro i inside here
    rw [same] at here
    exact h.every i inside here

/-- A slot that is of another kind before and after does not matter. -/
theorem other (turn : Becomes slots slots' index kind') (before : (slots index).kind ≠ kind)
    (after : kind' ≠ kind) :
    Owns layout slots' kind keys where
  live := by
    intro key mem
    rcases h.live key mem with ⟨inside, same, epoch⟩
    have apart : key.index ≠ index := by
      intro here
      rw [here] at same
      exact before same
    rw [turn.others _ apart]
    exact ⟨inside, same, epoch⟩
  nodup := h.nodup
  every := by
    intro i inside here
    by_cases same : i = index
    · rw [same, turn.kind] at here
      exact absurd here after
    · rw [turn.others _ same] at here
      exact h.every i inside here

end

theorem gain (h : Owns layout slots kind keys) {key : Key G}
    (turn : Becomes slots slots' key.index kind) (before : (slots key.index).kind ≠ kind)
    (inside : layout.Inside key.index) (epoch : (slots key.index).generation = key.epoch) :
    Owns layout slots' kind (key :: keys) where
  live := by
    intro key' mem
    rcases List.mem_cons.mp mem with rfl | old
    · exact ⟨inside, turn.kind, turn.generation.trans epoch⟩
    · rcases h.live key' old with ⟨inside', same, epoch'⟩
      have apart : key'.index ≠ key.index := by
        intro here
        rw [here] at same
        exact before same
      rw [turn.others _ apart]
      exact ⟨inside', same, epoch'⟩
  nodup := by
    refine List.nodup_cons.mpr ⟨?_, h.nodup⟩
    intro mem
    rcases List.mem_map.mp mem with ⟨key', old, same⟩
    have here := (h.live key' old).2.1
    rw [same] at here
    exact before here
  every := by
    intro i inside' here
    by_cases same : i = key.index
    · exact ⟨key, List.mem_cons_self, same.symm⟩
    · rw [turn.others _ same] at here
      rcases h.every i inside' here with ⟨key', mem, at_⟩
      exact ⟨key', List.mem_cons_of_mem _ mem, at_⟩

theorem lose (h : Owns layout slots kind (key :: keys))
    (turn : Becomes slots slots' key.index kind') (after : kind' ≠ kind) :
    Owns layout slots' kind keys where
  live := by
    intro key' mem
    have apart : key'.index ≠ key.index := fun same =>
      (List.nodup_cons.mp h.nodup).1 (same ▸ List.mem_map.mpr ⟨key', mem, rfl⟩)
    rw [turn.others _ apart]
    exact h.live key' (List.mem_cons_of_mem _ mem)
  nodup := (List.nodup_cons.mp h.nodup).2
  every := by
    intro i inside here
    have apart : i ≠ key.index := by
      intro same
      rw [same, turn.kind] at here
      exact after here
    rw [turn.others _ apart] at here
    rcases h.every i inside here with ⟨key', mem, at_⟩
    rcases List.mem_cons.mp mem with rfl | old
    · exact absurd at_.symm apart
    · exact ⟨key', old, at_⟩

theorem renew (h : Owns layout slots kind (key :: keys)) {epoch : G}
    (same : (slots' key.index).kind = kind) (next : (slots' key.index).generation = epoch)
    (others : ∀ j, j ≠ key.index → slots' j = slots j) :
    Owns layout slots' kind (⟨key.index, epoch⟩ :: keys) where
  live := by
    intro key' mem
    rcases List.mem_cons.mp mem with rfl | old
    · exact ⟨(h.live key List.mem_cons_self).1, same, next⟩
    · have apart : key'.index ≠ key.index := fun equal =>
        (List.nodup_cons.mp h.nodup).1 (equal ▸ List.mem_map.mpr ⟨key', old, rfl⟩)
      rw [others _ apart]
      exact h.live key' (List.mem_cons_of_mem _ old)
  nodup := h.nodup
  every := by
    intro i inside here
    by_cases equal : i = key.index
    · exact ⟨_, List.mem_cons_self, equal.symm⟩
    · rw [others _ equal] at here
      rcases h.every i inside here with ⟨key', mem, at_⟩
      rcases List.mem_cons.mp mem with rfl | old
      · exact absurd at_.symm equal
      · exact ⟨key', List.mem_cons_of_mem _ old, at_⟩

variable [DecidableEq G]

theorem front (h : Owns layout slots kind keys) (mem : key ∈ keys) :
    keys.Perm (key :: keys.filter (· ≠ key)) := by
  have nodup : keys.Nodup := h.nodup.of_map _
  have erased : keys.filter (· ≠ key) = keys.erase key := by
    rw [nodup.erase_eq_filter]
    refine List.filter_congr (fun x _ => ?_)
    rw [Bool.eq_iff_iff]
    simp
  rw [erased]
  exact List.perm_cons_erase mem

end Owns

end Dope.Core.Ready.Arena
