import Dope.Egress.Wait.Forest

/-! # Selection from the wait forest

`oldest` finds the smallest ticket of all waiting lanes, `eligible` the
smallest ticket among the lanes whose demand fits the free shared credit. Both
read the cached tickets, so they rest on the representation invariant.
-/

namespace Dope.Egress.Wait

open Dope.Avl BinaryTree

variable {n : Nat} {nodes : Nodes n}

/-- The waiting lane with the smallest ticket among those that satisfy `p`. -/
def Selects (waiters : Waiters n) (p : Waiter → Prop) : Option (Fin n) → Prop
  | none => ∀ i w, waiters i = some w → ¬ p w
  | some lane => ∃ w, waiters lane = some w ∧ p w ∧
      ∀ i w', waiters i = some w' → p w' → w.ticket ≤ w'.ticket

/-! ## One tree -/

/-- The members of a tree whose resident demand is within `resident`. -/
def within (nodes : Nodes n) (resident : Nat) (lanes : List (Fin n)) : List (Fin n) :=
  lanes.filter fun i => (nodes i).resident ≤ resident

theorem precedes_resident {a b : Fin n} (h : key nodes a < key nodes b) :
    (nodes a).resident ≤ (nodes b).resident := by
  rcases (key_lt_iff nodes a b).mp h with h | h
  · exact h.le
  · exact h.1.le

theorem eligibleAt_least {fuel resident : Nat} {root : Option (Fin n)} {t : BinaryTree (Fin n)}
    (rep : Rep nodes root t) (ord : Ordered (key nodes) t) (hf : t.height ≤ fuel) :
    ∃ o, Forest.eligibleAt fuel nodes root resident = some o ∧
      Least nodes (within nodes resident (toList t)) o := by
  induction t generalizing root fuel with
  | nil =>
    rw [show root = none from rep]
    exact ⟨none, by simp [Forest.eligibleAt], rfl⟩
  | node a l r hl hr =>
    obtain ⟨rfl, repl, repr, -⟩ := rep_node.mp rep
    have hmax : (BinaryTree.node a l r).height = max l.height r.height + 1 := rfl
    obtain ⟨fuel, rfl⟩ : ∃ k, fuel = k + 1 := ⟨fuel - 1, by omega⟩
    unfold Ordered at ord
    rw [toList_node, List.pairwise_append] at ord
    obtain ⟨ordl, ordar, cross⟩ := ord
    obtain ⟨ordr, rest⟩ := List.pairwise_cons.mp ordar
    have onLeft : Rep nodes (nodes a).left l := repl.1
    have onRight : Rep nodes (nodes a).right r := repr.1
    rw [Forest.eligibleAt]
    by_cases hlt : resident < (nodes a).resident
    · -- everything from `a` on asks for more
      obtain ⟨o, run, least⟩ := hl onLeft ordl (Nat.le_of_lt_succ (by omega : l.height < fuel + 1))
      refine ⟨o, by rw [if_pos hlt]; exact run, ?_⟩
      have none_right : within nodes resident (a :: toList r) = [] := by
        apply List.filter_eq_nil_iff.mpr
        intro i hi
        rcases List.mem_cons.mp hi with rfl | hi
        · simpa using hlt
        · have := precedes_resident (ordr i hi)
          simp only [decide_eq_true_eq, not_le]
          omega
      rw [toList_node, within, List.filter_append]
      rw [within] at none_right least
      rw [none_right, List.append_nil]
      exact least
    · -- everything up to `a` fits
      obtain ⟨o, run, least⟩ :=
        hr onRight rest (Nat.le_of_lt_succ (by omega : r.height < fuel + 1))
      refine ⟨_, by rw [if_neg hlt, run]; rfl, ?_⟩
      have all_left : within nodes resident (toList l) = toList l := by
        apply List.filter_eq_self.mpr
        intro i hi
        have := precedes_resident (cross i hi a List.mem_cons_self)
        simp only [decide_eq_true_eq]
        omega
      have own : within nodes resident (a :: toList r) =
          a :: within nodes resident (toList r) := by
        simp [within, not_lt.mp hlt]
      have split : within nodes resident (toList (.node a l r)) =
          (toList l ++ [a]) ++ within nodes resident (toList r) := by
        rw [toList_node, within, List.filter_append]
        rw [within] at all_left own
        rw [all_left, own]
        simp [within]
      rw [split, onLeft.oldest]
      exact ((oldestOf_least nodes l).best (least_singleton nodes a)).best least

/-! ## The whole forest -/

variable {forest : Forest n} {waiters : Waiters n} {trees : Entries → BinaryTree (Fin n)}
  {i : Fin n}

theorem Holds.ticket (h : Holds forest waiters trees) {w : Waiter} (hw : waiters i = some w) :
    (forest.nodes i).ticket = w.ticket :=
  congrArg Prod.fst (h.data i w hw)

theorem Holds.resident (h : Holds forest waiters trees) {w : Waiter} (hw : waiters i = some w) :
    (forest.nodes i).resident = w.demand.amount.resident :=
  congrArg (fun d => d.2.1) (h.data i w hw)

variable {p : Waiter → Prop}

/-- A least candidate of a list that holds the lanes with `p` is the selected one. -/
theorem Holds.selects (h : Holds forest waiters trees) {lanes : List (Fin n)}
    {o : Option (Oldest n)} (least : Least forest.nodes lanes o)
    (mem : ∀ i, i ∈ lanes ↔ ∃ w, waiters i = some w ∧ p w) :
    Selects waiters p (o.map (·.lane)) := by
  cases o with
  | none =>
    intro i w hw hp
    have hi := (mem i).mpr ⟨w, hw, hp⟩
    rw [show lanes = [] from least] at hi
    simp at hi
  | some o =>
    obtain ⟨ho, ticket, low⟩ := least
    obtain ⟨w, hw, hp⟩ := (mem o.lane).mp ho
    refine ⟨w, hw, hp, ?_⟩
    intro i w' hw' hp'
    have le := low i ((mem i).mpr ⟨w', hw', hp'⟩)
    rw [ticket, h.ticket hw, h.ticket hw'] at le
    exact le

theorem Entries.toNat_ofDemand (demand : Demand) :
    (Entries.ofDemand demand).toNat = demand.amount.entries := by
  have bound := demand.bound
  unfold Entries.ofDemand
  generalize demand.amount.entries = k at bound ⊢
  match k with
  | 0 | 1 | 2 => rfl
  | k + 3 => omega

theorem Holds.oldest_spec (h : Holds forest waiters trees) :
    Selects waiters (fun _ => True) forest.oldest := by
  have least : ∀ e, Least forest.nodes (toList (trees e))
      (Oldest.at forest.nodes (forest.roots.get e)) := by
    intro e
    rw [(h.rooted e).rep.oldest]
    exact oldestOf_least forest.nodes (trees e)
  apply h.selects (((least .zero).best (least .one)).best (least .two))
  intro i
  simp only [List.mem_append, h.mem, and_true]
  constructor
  · rintro ((⟨w, hw, -⟩ | ⟨w, hw, -⟩) | ⟨w, hw, -⟩) <;> exact ⟨w, hw⟩
  · rintro ⟨w, hw⟩
    cases hc : w.entries
    · exact .inl (.inl ⟨w, hw, hc⟩)
    · exact .inl (.inr ⟨w, hw, hc⟩)
    · exact .inr ⟨w, hw, hc⟩

theorem Holds.mem_within (h : Holds forest waiters trees) {e : Entries} {resident : Nat} :
    i ∈ within forest.nodes resident (toList (trees e)) ↔
      ∃ w, waiters i = some w ∧ w.entries = e ∧ w.demand.amount.resident ≤ resident := by
  simp only [within, List.mem_filter, h.mem, decide_eq_true_eq]
  constructor
  · rintro ⟨⟨w, hw, hc⟩, hle⟩
    rw [h.resident hw] at hle
    exact ⟨w, hw, hc, hle⟩
  · rintro ⟨w, hw, hc, hle⟩
    rw [h.resident hw]
    exact ⟨⟨w, hw, hc⟩, hle⟩

/-- The classes that `eligible` looks at for a given amount of free entries. -/
theorem fits_iff (w : Waiter) (shared : Amount) :
    w.demand.fits shared ↔
      w.entries.toNat ≤ shared.entries ∧ w.demand.amount.resident ≤ shared.resident := by
  rw [Waiter.entries, Entries.toNat_ofDemand]
  rfl

theorem Holds.eligible_spec (h : Holds forest waiters trees) (shared : Amount) :
    ∃ lane, forest.eligible shared = some lane ∧
      Selects waiters (fun w => w.demand.fits shared) lane := by
  have enough : ∀ e, (trees e).height ≤ Forest.fuel n := by
    intro e
    have len := height_le_numNodes (trees e)
    have card := List.Nodup.length_le_card (h.nodup e)
    rw [toList_length, Fintype.card_fin] at card
    unfold Forest.fuel
    omega
  have one : ∀ e, ∃ o, Forest.eligibleAt (Forest.fuel n) forest.nodes (forest.roots.get e)
      shared.resident = some o ∧
        Least forest.nodes (within forest.nodes shared.resident (toList (trees e))) o :=
    fun e => eligibleAt_least (h.rooted e).rep (h.ordered e) (enough e)
  obtain ⟨o0, run0, least0⟩ := one .zero
  obtain ⟨o1, run1, least1⟩ := one .one
  obtain ⟨o2, run2, least2⟩ := one .two
  simp only [Roots.get] at run0 run1 run2
  simp only [Forest.eligible, run0, run1, run2, Option.bind_eq_bind, Option.bind_some,
    Option.pure_def]
  have pick : ∀ {o : Option (Oldest n)} {lanes : List (Fin n)}, Least forest.nodes lanes o →
      (∀ i, i ∈ lanes ↔ ∃ e, e.toNat ≤ shared.entries ∧
        i ∈ within forest.nodes shared.resident (toList (trees e))) →
      Selects waiters (fun w => w.demand.fits shared) (o.map (·.lane)) := by
    intro o lanes least mem
    apply h.selects least
    intro i
    simp only [mem, h.mem_within, fits_iff]
    constructor
    · rintro ⟨e, he, w, hw, rfl, hr⟩
      exact ⟨w, hw, he, hr⟩
    · rintro ⟨w, hw, he, hr⟩
      exact ⟨w.entries, he, w, hw, rfl, hr⟩
  have cases_le : ∀ {P : Entries → Prop}, (∃ e : Entries, e.toNat ≤ shared.entries ∧ P e) ↔
      P .zero ∨ (1 ≤ shared.entries ∧ P .one) ∨ (2 ≤ shared.entries ∧ P .two) := by
    intro P
    constructor
    · rintro ⟨e, he, hp⟩
      cases e
      · exact .inl hp
      · exact .inr (.inl ⟨he, hp⟩)
      · exact .inr (.inr ⟨he, hp⟩)
    · rintro (hp | ⟨he, hp⟩ | ⟨he, hp⟩)
      · exact ⟨.zero, Nat.zero_le _, hp⟩
      · exact ⟨.one, he, hp⟩
      · exact ⟨.two, he, hp⟩
  by_cases hz : shared.entries = 0
  · rw [if_pos hz]
    refine ⟨_, rfl, pick least0 fun i => ?_⟩
    rw [cases_le]
    simp [hz]
  rw [if_neg hz]
  by_cases ho : shared.entries = 1
  · rw [if_pos ho]
    refine ⟨_, rfl, pick (least0.best least1) fun i => ?_⟩
    rw [cases_le]
    simp [ho]
  · rw [if_neg ho]
    have two : 2 ≤ shared.entries := by omega
    refine ⟨_, rfl, pick ((least0.best least1).best least2) fun i => ?_⟩
    rw [cases_le]
    simp [two, show 1 ≤ shared.entries by omega]

/-! ## Selection over whole runs -/

/-- The waiting lane whose ticket is strictly below that of every other waiting
lane with `p`. -/
def First (waiters : Waiters n) (p : Waiter → Prop) (lane : Fin n) : Prop :=
  ∃ w, waiters lane = some w ∧ p w ∧
    ∀ i w', waiters i = some w' → p w' → i ≠ lane → w.ticket < w'.ticket

/-- No two lanes wait under one ticket. -/
def Waiters.Distinct (waiters : Waiters n) : Prop :=
  ∀ i j w w', waiters i = some w → waiters j = some w' → w.ticket = w'.ticket → i = j

theorem Selects.first_iff {lane : Option (Fin n)} (h : Selects waiters p lane)
    (distinct : waiters.Distinct) (i : Fin n) : lane = some i ↔ First waiters p i := by
  constructor
  · intro hl
    rw [hl] at h
    obtain ⟨w, hw, hp, least⟩ := h
    refine ⟨w, hw, hp, ?_⟩
    intro j w' hw' hp' hne
    have le := least j w' hw' hp'
    have ne : w.ticket ≠ w'.ticket := fun e => hne (distinct i j w w' hw hw' e).symm
    omega
  · rintro ⟨w, hw, hp, low⟩
    cases lane with
    | none => exact absurd hp (h i w hw)
    | some j =>
      obtain ⟨w', hw', hp', least⟩ := h
      by_cases hne : j = i
      · rw [hne]
      · have lt := low j w' hw' hp' hne
        have le := least i w hw hp
        omega

theorem Selects.none_iff {lane : Option (Fin n)} (h : Selects waiters p lane) :
    lane = none ↔ ∀ i w, waiters i = some w → ¬ p w := by
  constructor
  · intro hl
    rw [hl] at h
    exact h
  · intro hn
    cases lane with
    | none => rfl
    | some j =>
      obtain ⟨w, hw, hp, -⟩ := h
      exact absurd hp (hn j w hw)

/-- In every forest that a run of admissible operations reaches, `eligible`
returns the first waiting lane whose demand fits the shared credit on both
axes, and `oldest` the first waiting lane. -/
theorem run_selects (lanes : LaneCount) (ops : List (Op lanes.count))
    (waiters : Waiters lanes.count) (admissible : Waiters.run ops = some waiters)
    (distinct : waiters.Distinct) :
    ∃ forest, Forest.run ops = some forest ∧
      (∀ shared : Amount, ∃ lane, forest.eligible shared = some lane ∧
        (∀ i, lane = some i ↔ First waiters (fun w =>
          w.demand.amount.entries ≤ shared.entries ∧
            w.demand.amount.resident ≤ shared.resident) i) ∧
        (lane = none ↔ ∀ i w, waiters i = some w → ¬ (w.demand.amount.entries ≤ shared.entries ∧
          w.demand.amount.resident ≤ shared.resident))) ∧
      (∀ i, forest.oldest = some i ↔ First waiters (fun _ => True) i) ∧
      (forest.oldest = none ↔ ∀ i, waiters i = none) := by
  obtain ⟨forest, trees, run, h⟩ := holds_new.steps lanes.bound admissible
  refine ⟨forest, run, ?_, h.oldest_spec.first_iff distinct, ?_⟩
  · intro shared
    obtain ⟨lane, eligible, sel⟩ := h.eligible_spec shared
    exact ⟨lane, eligible, sel.first_iff distinct, sel.none_iff⟩
  · rw [h.oldest_spec.none_iff]
    constructor
    · intro hn i
      cases hw : waiters i with
      | none => rfl
      | some w => exact absurd trivial (hn i w hw)
    · intro hn i w hw
      rw [hn i] at hw
      cases hw

theorem run_selects_example :
    ∃ forest, Forest.run exampleOps = some forest ∧ forest.eligible ⟨1, 19⟩ = some (some 0) ∧
      forest.oldest = some 0 := by
  obtain ⟨waiters, hw⟩ : ∃ waiters, Waiters.run exampleOps = some waiters := ⟨_, rfl⟩
  have zero : waiters 0 = some ⟨⟨⟨0, 5⟩, by decide⟩, 0⟩ := by
    cases hw
    rfl
  have members : ∀ i w, waiters i = some w → (i = 0 ∧ w.ticket = 0) ∨ (i = 2 ∧ w.ticket = 2) := by
    cases hw
    intro i w hi
    match i with
    | 0 => exact .inl ⟨rfl, by cases hi; rfl⟩
    | 1 => cases hi
    | 2 => exact .inr ⟨rfl, by cases hi; rfl⟩
  have distinct : waiters.Distinct := by
    intro i j w w' hi hj e
    rcases members i w hi with ⟨rfl, ti⟩ | ⟨rfl, ti⟩ <;>
      rcases members j w' hj with ⟨rfl, tj⟩ | ⟨rfl, tj⟩ <;> first | rfl | omega
  have first : ∀ i w, waiters i = some w → i ≠ 0 → 0 < w.ticket := by
    intro i w hi hne
    rcases members i w hi with ⟨rfl, ti⟩ | ⟨rfl, ti⟩
    · exact absurd rfl hne
    · omega
  obtain ⟨forest, run, eligible, oldest, -⟩ :=
    run_selects ⟨3, by decide, by decide⟩ exampleOps waiters hw distinct
  obtain ⟨lane, query, pick, -⟩ := eligible ⟨1, 19⟩
  have chosen : lane = some 0 :=
    (pick 0).mpr ⟨_, zero, by decide, fun i w hi _ hne => first i w hi hne⟩
  rw [chosen] at query
  exact ⟨forest, run, query, (oldest 0).mpr ⟨_, zero, trivial, fun i w hi _ => first i w hi⟩⟩

end Dope.Egress.Wait
