import Dope.Egress.Metadata.Formed
import Mathlib.Algebra.BigOperators.Fin

/-! # Configured pools

Model of `storage/config` and of `metadata/arena`: how the credit of a
configuration is shared out among the lanes, and the pool that starts with it.
-/

namespace Dope.Egress.Metadata

open Wait Function Share

def capBytes : Nat := 2 ^ 20

def capEntries : Nat := 2 ^ 12

inductive Kind where
  | split
  | shared
deriving DecidableEq, Repr

/-- A split configuration is the default one. -/
structure Config where
  kind : Kind
  shared : Amount
  default : kind = .split → shared = ⟨capEntries / 2, capBytes / 2⟩

namespace Config

def DEFAULT : Config := ⟨.split, ⟨capEntries / 2, capBytes / 2⟩, fun _ => rfl⟩

/-- `Config::shared` -/
def ofShared (shared : Amount) : Config := ⟨.shared, shared, fun h => by cases h⟩

def total (config : Config) : Amount :=
  match config.kind with
  | .split => ⟨capEntries, capBytes⟩
  | .shared => config.shared

def reserved (config : Config) : Amount :=
  match config.kind with
  | .split => DEFAULT.shared
  | .shared => ⟨0, 0⟩

def entries (config : Config) : Nat := config.total.entries

theorem total_eq (config : Config) : config.total = config.shared + config.reserved := by
  unfold total reserved
  cases kind : config.kind with
  | split =>
    rw [config.default kind]
    rfl
  | shared => rfl

end Config

/-! ## Lanes -/

/-- The part of one lane: the remainder goes to the first lanes. -/
def dealt (amount count index : Nat) : Nat :=
  amount / count + if index < amount % count then 1 else 0

/-- `Store::try_lanes`: the reserve of one lane. -/
def reserveOf (config : Config) (n : Nat) (lane : Fin n) : Amount :=
  ⟨dealt config.reserved.entries n lane, dealt config.reserved.resident n lane⟩

theorem count_below (n k : Nat) (le : k ≤ n) :
    ∑ lane : Fin n, (if (lane : Nat) < k then 1 else 0) = k := by
  rw [Fin.sum_univ_eq_sum_range fun index => if index < k then 1 else 0]
  rw [← Finset.card_filter]
  have same : (Finset.range n).filter (· < k) = Finset.range k := by
    ext index
    rw [Finset.mem_filter, Finset.mem_range, Finset.mem_range]
    omega
  rw [same, Finset.card_range]

theorem sum_dealt (amount : Nat) {n : Nat} (some : 0 < n) :
    ∑ lane : Fin n, dealt amount n lane = amount := by
  unfold dealt
  rw [Finset.sum_add_distrib, count_below n _ (Nat.mod_lt amount some).le, Finset.sum_const,
    Finset.card_univ, Fintype.card_fin, smul_eq_mul]
  exact Nat.div_add_mod amount n

/-! ## The pool at the start -/

def Account.new (credit : HeldCredit) (n : Nat) (config : Config) : Account credit n :=
  ⟨config.shared, fun lane => credit.new (reserveOf config n lane)⟩

def Pool.new {credit : HeldCredit} {n : Nat} (access : Access credit n) (T : Type)
    (wait : access.State) (config : Config) : Pool access T where
  slab := Slab.new config.entries
  links _ := .empty
  account := Account.new credit n config
  wait := wait

theorem Slab.new_threads {T : Type} (len k : Nat) : ∀ count, k + count = len →
    Stack.Threads (Slab.new len : Slab T).next (if k < len then some k else none)
      (List.range' k count) := by
  intro count
  induction count generalizing k with
  | zero =>
    intro whole
    rw [if_neg (by omega)]
    rfl
  | succ count ih =>
    intro whole
    rw [if_pos (by omega), List.range'_succ]
    refine ⟨rfl, ?_⟩
    exact ih (k + 1) (by omega)

theorem formed_new {n : Nat} {T : Type} (len : Nat) :
    Formed (Slab.new len : Slab T) (fun _ : Fin n => .empty) (List.range len) [] (fun _ => []) := by
  refine ⟨?_, fun _ => .empty _, ?_⟩
  · rw [List.range_eq_range']
    have threads := @Slab.new_threads T len 0 len (Nat.zero_add len)
    unfold Slab.new at threads ⊢
    dsimp only at threads ⊢
    by_cases some : 0 < len
    · rw [if_pos some] at threads
      rw [if_pos (by omega)]
      exact threads
    · rw [if_neg some] at threads
      rw [if_neg (by omega)]
      exact threads
  · constructor
    have only : ∀ place : Place n, place ≠ .free →
        (parts (List.range len) [] (fun _ => ([] : List (Placed T))) place : Multiset Nat) = 0 := by
      intro place differ
      cases place with
      | free => exact absurd rfl differ
      | held | lane => rfl
    rw [Finset.sum_eq_single .free]
    · rfl
    · exact fun place _ differ => only place differ
    · exact fun out => absurd (Finset.mem_univ _) out

end Dope.Egress.Metadata
