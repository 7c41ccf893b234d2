import Mathlib.Algebra.BigOperators.Group.Finset.Basic
import Mathlib.Algebra.Order.BigOperators.Group.Finset
import Mathlib.Data.Multiset.Count
import Mathlib.Data.Fintype.Basic

/-! # Shares of a set

Every member of a set stands in one of several lists, and once.
-/

namespace Dope.Share

variable {ι α : Type} [Fintype ι] [DecidableEq ι] [DecidableEq α]

/-- The lists share out the set. -/
structure Shares (whole : Finset α) (parts : ι → List α) : Prop where
  sum : ∑ i, (parts i : Multiset α) = whole.val

variable {whole : Finset α} {parts parts' : ι → List α} {i j : ι} {a : α}

omit [DecidableEq ι] in
theorem Shares.count_le (h : Shares whole parts) (a : α) : ∑ i, (parts i).count a ≤ 1 := by
  have counted : (∑ i, (parts i : Multiset α)).count a = ∑ i, (parts i).count a := by
    rw [Multiset.count_sum']
    exact Finset.sum_congr rfl fun i _ => Multiset.coe_count a (parts i)
  rw [← counted, h.sum]
  exact Multiset.nodup_iff_count_le_one.mp whole.nodup a

omit [DecidableEq ι] in
theorem Shares.nodup (h : Shares whole parts) (i : ι) : (parts i).Nodup := by
  rw [List.nodup_iff_count_le_one]
  intro a
  have le : (parts i).count a ≤ ∑ j, (parts j).count a :=
    Finset.single_le_sum (fun j _ => Nat.zero_le ((parts j).count a)) (Finset.mem_univ i)
  exact le.trans (h.count_le a)

theorem Shares.apart (h : Shares whole parts) (differ : i ≠ j) (member : a ∈ parts i) :
    a ∉ parts j := by
  intro member'
  have two : (parts i).count a + (parts j).count a ≤ ∑ k, (parts k).count a := by
    rw [← Finset.sum_pair (f := fun k => (parts k).count a) differ]
    exact Finset.sum_le_sum_of_subset (Finset.subset_univ _)
  have one := h.count_le a
  have pos := List.count_pos_iff.mpr member
  have pos' := List.count_pos_iff.mpr member'
  omega

omit [DecidableEq ι] [DecidableEq α] in
theorem Shares.card (h : Shares whole parts) : ∑ i, (parts i).length = whole.card := by
  have counted : (∑ i, (parts i : Multiset α)).card = ∑ i, (parts i).length := by
    rw [Multiset.card_sum]
    exact Finset.sum_congr rfl fun i _ => Multiset.coe_card (parts i)
  rw [← counted, h.sum]
  rfl

omit [DecidableEq ι] [DecidableEq α] in
theorem Shares.length_le (h : Shares whole parts) (i : ι) : (parts i).length ≤ whole.card := by
  rw [← h.card]
  exact Finset.single_le_sum (fun j _ => Nat.zero_le (parts j).length) (Finset.mem_univ i)

omit [DecidableEq α] in
/-- Members move between two lists. -/
theorem Shares.exchange (h : Shares whole parts) (differ : i ≠ j)
    (others : ∀ k, k ≠ i → k ≠ j → parts' k = parts k)
    (both : (parts' i ++ parts' j).Perm (parts i ++ parts j)) : Shares whole parts' := by
  constructor
  have split : ∀ f : ι → List α, ∑ k, (f k : Multiset α) =
      ((f i ++ f j : List α) : Multiset α) +
        ∑ k ∈ (Finset.univ.erase i).erase j, (f k : Multiset α) := by
    intro f
    have inner : j ∈ Finset.univ.erase i := Finset.mem_erase.mpr ⟨differ.symm, Finset.mem_univ j⟩
    rw [← Finset.add_sum_erase _ _ (Finset.mem_univ i), ← Finset.add_sum_erase _ _ inner,
      ← Multiset.coe_add, add_assoc]
  rw [← h.sum, split parts', split parts, Multiset.coe_eq_coe.mpr both]
  congr 1
  apply Finset.sum_congr rfl
  intro k member
  rw [Finset.mem_erase, Finset.mem_erase] at member
  rw [others k member.2.1 member.1]

end Dope.Share
