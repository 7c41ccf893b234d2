import Dope.Base.Run
import Dope.Egress.Wait.Remove

/-! # The wait forest over whole runs

The forest stands for a finite map: the waiting lanes, each with its demand and
its ticket. `Holds` relates the two through one pure tree for each demand
class, and every operation of the forest refines the update of the map. A run
of admissible operations therefore never exhausts its fuel and always ends in a
well-formed forest.
-/

namespace Dope.Egress.Wait

open Dope.Avl BinaryTree

variable {n : Nat}

/-! ## The waiting lanes -/

/-- What a waiting lane asks for, and when it asked. -/
structure Waiter where
  demand : Demand
  ticket : Nat

/-- The lanes inserted and not removed. -/
abbrev Waiters (n : Nat) := Fin n → Option Waiter

/-- The demand class of a waiting lane. -/
def Waiter.entries (waiter : Waiter) : Entries :=
  Entries.ofDemand waiter.demand

def Waiter.data (waiter : Waiter) : Nat × Nat × Entries :=
  (waiter.ticket, waiter.demand.amount.resident, waiter.entries)

inductive Op (n : Nat) where
  | insert (lane : Fin n) (demand : Demand) (ticket : Nat)
  | remove (lane : Fin n)
  | refresh (lane : Fin n) (demand : Demand)

/-- The callers insert lanes that do not wait, and remove or refresh lanes
that do. -/
def Waiters.step (waiters : Waiters n) : Op n → Option (Waiters n)
  | .insert lane demand ticket =>
      match waiters lane with
      | none => some (Function.update waiters lane (some ⟨demand, ticket⟩))
      | some _ => none
  | .remove lane =>
      match waiters lane with
      | none => none
      | some _ => some (Function.update waiters lane none)
  | .refresh lane demand =>
      match waiters lane with
      | none => none
      | some waiter => some (Function.update waiters lane (some { waiter with demand := demand }))

def Forest.step (forest : Forest n) : Op n → Option (Forest n)
  | .insert lane demand ticket => forest.insert lane demand ticket
  | .remove lane => forest.remove lane
  | .refresh lane demand => forest.refresh lane demand

def Waiters.run (ops : List (Op n)) : Option (Waiters n) :=
  ops.foldlM Waiters.step (fun _ => none)

def Forest.run (ops : List (Op n)) : Option (Forest n) :=
  ops.foldlM Forest.step Forest.new

/-! ## The representation invariant -/

/-- One balanced search tree for each demand class holds the waiting lanes. -/
structure Holds (forest : Forest n) (waiters : Waiters n) (trees : Entries → BinaryTree (Fin n)) :
    Prop where
  rooted : ∀ e, Rooted forest.nodes (forest.roots.get e) (trees e)
  ordered : ∀ e, Ordered (key forest.nodes) (trees e)
  balanced : ∀ e, Balanced (trees e)
  mem : ∀ e i, i ∈ toList (trees e) ↔ ∃ w, waiters i = some w ∧ w.entries = e
  data : ∀ i w, waiters i = some w → (forest.nodes i).data = w.data

variable {nodes : Nodes n} {t : BinaryTree (Fin n)}

theorem ordered_nodup (h : Ordered (key nodes) t) : (toList t).Nodup := by
  apply List.Pairwise.imp _ h
  intro a b hab e
  subst e
  exact lt_irrefl _ hab

/-- The search order of a tree depends on the demands of its members only. -/
theorem ordered_congr {nodes' : Nodes n} (h : Ordered (key nodes) t)
    (same : ∀ i ∈ toList t, (nodes' i).data = (nodes i).data) : Ordered (key nodes') t := by
  apply List.Pairwise.imp_of_mem _ h
  intro a b ha hb hab
  have resident : ∀ i ∈ toList t, (nodes' i).resident = (nodes i).resident :=
    fun i hi => congrArg (fun d => d.2.1) (same i hi)
  unfold key at hab ⊢
  rw [resident a ha, resident b hb]
  exact hab

theorem Holds.nodup {forest : Forest n} {waiters : Waiters n} {trees : Entries → BinaryTree (Fin n)}
    (h : Holds forest waiters trees) (e : Entries) : (toList (trees e)).Nodup :=
  ordered_nodup (h.ordered e)

@[simp] theorem Roots.get_set_self (roots : Roots n) (e : Entries) (root : Option (Fin n)) :
    (roots.set e root).get e = root := by
  cases e <;> rfl

variable {e : Entries}

theorem Roots.get_set_of_ne (roots : Roots n) {e' : Entries} (root : Option (Fin n)) (h : e' ≠ e) :
    (roots.set e root).get e' = roots.get e' := by
  cases e <;> cases e' <;> simp_all [Roots.set, Roots.get]

variable {x : Fin n}

/-- An edit of the tree of class `e` that changes at most the lane `x` of the map. -/
theorem Holds.update {forest : Forest n} {waiters : Waiters n}
    {trees : Entries → BinaryTree (Fin n)} (h : Holds forest waiters trees)
    {waiter : Option Waiter} {nodes' : Nodes n} {root' : Option (Fin n)} {t' : BinaryTree (Fin n)}
    (before : ∀ w, waiters x = some w → w.entries = e)
    (after : ∀ w, waiter = some w → w.entries = e ∧ (nodes' x).data = w.data)
    (frame : ∀ i, i ≠ x → i ∉ toList (trees e) → nodes' i = forest.nodes i)
    (data : ∀ i, i ≠ x → (nodes' i).data = (forest.nodes i).data) (rooted : Rooted nodes' root' t')
    (ordered : Ordered (key nodes') t') (balanced : Balanced t')
    (mem : ∀ i, i ∈ toList t' ↔ (i = x ∧ waiter ≠ none) ∨ (i ≠ x ∧ i ∈ toList (trees e))) :
    Holds ⟨forest.roots.set e root', nodes'⟩ (Function.update waiters x waiter)
      (Function.update trees e t') := by
  have apart : ∀ e', e' ≠ e → ∀ i ∈ toList (trees e'), i ≠ x ∧ i ∉ toList (trees e) := by
    intro e' he i hi
    obtain ⟨w, hw, hc⟩ := (h.mem e' i).mp hi
    constructor
    · intro hx
      subst hx
      exact he (hc ▸ before w hw)
    · intro hi'
      obtain ⟨w', hw', hc'⟩ := (h.mem e i).mp hi'
      rw [hw] at hw'
      obtain rfl := Option.some.inj hw'
      exact he (hc ▸ hc')
  constructor
  · intro e'
    by_cases he : e' = e
    · subst he
      simpa using rooted
    · rw [Function.update_of_ne he, Roots.get_set_of_ne _ _ he]
      exact (h.rooted e').congr (h.nodup e') fun i hi =>
        frame i (apart e' he i hi).1 (apart e' he i hi).2
  · intro e'
    by_cases he : e' = e
    · subst he
      simpa using ordered
    · rw [Function.update_of_ne he]
      exact ordered_congr (h.ordered e') fun i hi => data i (apart e' he i hi).1
  · intro e'
    by_cases he : e' = e
    · subst he
      simpa using balanced
    · rw [Function.update_of_ne he]
      exact h.balanced e'
  · intro e' i
    by_cases hx : i = x
    · subst hx
      rw [Function.update_self]
      by_cases he : e' = e
      · subst he
        rw [Function.update_self, mem i]
        constructor
        · intro hi
          have hw : waiter ≠ none := hi.elim And.right fun h => absurd rfl h.1
          obtain ⟨w, rfl⟩ := Option.ne_none_iff_exists'.mp hw
          exact ⟨w, rfl, (after w rfl).1⟩
        · rintro ⟨w, rfl, -⟩
          exact .inl ⟨rfl, by simp⟩
      · rw [Function.update_of_ne he]
        constructor
        · intro hi
          exact absurd rfl (apart e' he i hi).1
        · rintro ⟨w, rfl, hc⟩
          exact absurd (hc ▸ (after w rfl).1) he
    · rw [Function.update_of_ne hx]
      by_cases he : e' = e
      · subst he
        rw [Function.update_self, mem i, ← h.mem e' i]
        simp [hx]
      · rw [Function.update_of_ne he]
        exact h.mem e' i
  · intro i w hw
    by_cases hx : i = x
    · subst hx
      rw [Function.update_self] at hw
      exact (after w hw).2
    · rw [Function.update_of_ne hx] at hw
      exact (data i hx).trans (h.data i w hw)

/-! ## Oldest tickets -/

/-- `o` is a member of `lanes` with the smallest ticket. -/
def Least (nodes : Nodes n) (lanes : List (Fin n)) : Option (Oldest n) → Prop
  | none => lanes = []
  | some o =>
      o.lane ∈ lanes ∧ o.ticket = (nodes o.lane).ticket ∧
        ∀ i ∈ lanes, o.ticket ≤ (nodes i).ticket

theorem Least.best {xs ys : List (Fin n)} {a b : Option (Oldest n)} (ha : Least nodes xs a)
    (hb : Least nodes ys b) : Least nodes (xs ++ ys) (Oldest.best a b) := by
  cases a with
  | none =>
    rw [show xs = [] from ha]
    exact hb
  | some a =>
    cases b with
    | none =>
      rw [show ys = [] from hb, List.append_nil]
      exact ha
    | some b =>
      obtain ⟨ma, ta, la⟩ := ha
      obtain ⟨mb, tb, lb⟩ := hb
      simp only [Oldest.best]
      by_cases hlt : b.ticket < a.ticket
      · rw [if_pos hlt]
        refine ⟨List.mem_append_right _ mb, tb, ?_⟩
        intro i hi
        rcases List.mem_append.mp hi with hi | hi
        · exact hlt.le.trans (la i hi)
        · exact lb i hi
      · rw [if_neg hlt]
        refine ⟨List.mem_append_left _ ma, ta, ?_⟩
        intro i hi
        rcases List.mem_append.mp hi with hi | hi
        · exact la i hi
        · exact (not_lt.mp hlt).trans (lb i hi)

theorem least_singleton (nodes : Nodes n) (a : Fin n) :
    Least nodes [a] (some ⟨(nodes a).ticket, a⟩) := by
  refine ⟨List.mem_singleton.mpr rfl, rfl, ?_⟩
  intro i hi
  rw [List.mem_singleton.mp hi]

theorem oldestOf_least (nodes : Nodes n) (t : BinaryTree (Fin n)) :
    Least nodes (toList t) (oldestOf nodes t) := by
  induction t with
  | nil => rfl
  | node a l r hl hr =>
    have own := (hl.best (least_singleton nodes a)).best hr
    simpa [oldestOf] using own

/-! ## The operations -/

theorem holds_new : Holds (Forest.new : Forest n) (fun _ => none) (fun _ => .nil) := by
  constructor
  · intro e
    constructor
    · cases e <;> rfl
    · intro r hr
      cases e <;> simp [Forest.new, Roots.new, Roots.get] at hr
  · intro e
    exact List.Pairwise.nil
  · intro e
    trivial
  · intro e i
    simp
  · intro i w hw
    simp at hw

theorem rep_waiting {resident : Nat} {ticket : Nat}
    (h : nodes x = Node.waiting x resident e ticket) : Rep nodes (some x) (.node x .nil .nil) := by
  refine ⟨rfl, ⟨?_, ?_⟩, ⟨?_, ?_⟩, ?_, ?_⟩ <;>
    simp [h, Node.waiting, Rep, BinaryTree.height, oldestOf, Oldest.best]

variable (hn : n + 1 < 2 ^ 32) {forest : Forest n} {waiters : Waiters n}
  {trees : Entries → BinaryTree (Fin n)}

include hn

section

variable (h : Holds forest waiters trees)

include h

theorem Holds.insertNode (hx : waiters x = none) (w : Waiter) :
    ∃ forest' trees', forest.insertNode x
        (Node.waiting x w.demand.amount.resident w.entries w.ticket) = some forest' ∧
      Holds forest' (Function.update waiters x (some w)) trees' := by
  let node := Node.waiting x w.demand.amount.resident w.entries w.ticket
  let nodes := forest.nodes.modify x fun _ => node
  have self : nodes x = node := Nodes.modify_self _ _ _
  have other : ∀ i, i ≠ x → nodes i = forest.nodes i := fun i hi => Nodes.modify_of_ne _ _ hi
  have hxt : x ∉ toList (trees w.entries) := by
    intro hi
    obtain ⟨w', hw', -⟩ := (h.mem _ _).mp hi
    rw [hx] at hw'
    simp at hw'
  have away : ∀ i ∈ toList (trees w.entries), i ≠ x := fun i hi e => hxt (e ▸ hi)
  have ndt := h.nodup w.entries
  have bal := h.balanced w.entries
  have rep : Rep nodes (forest.roots.get w.entries) (trees w.entries) :=
    (h.rooted w.entries).rep.congr ndt fun i hi => other i (away i hi)
  have nd : (x :: toList (trees w.entries)).Nodup := List.nodup_cons.mpr ⟨hxt, ndt⟩
  have short := height_le hn bal ndt
  have enough : (trees w.entries).height ≤ Forest.fuel n := by
    have len := height_le_numNodes (trees w.entries)
    have card := List.Nodup.length_le_card ndt
    rw [toList_length, Fintype.card_fin] at card
    unfold Forest.fuel
    omega
  obtain ⟨⟨mid, root⟩, run, ins⟩ := Edit.insert_spec hn rep (rep_waiting self) nd bal enough
  have grown := insert_balanced (key nodes) (x := x) bal
  have touch := ins.touches
  dsimp only at touch
  have last : Touches (x :: toList (trees w.entries)) mid
      (mid.modify root fun node => node.setParent none) := by
    apply Nodes.setParent_touches
    have mem := ins.rep.mem
    rw [mem_insert] at mem
    exact List.mem_cons.mpr mem
  have all := touch.trans last
  refine ⟨⟨forest.roots.set w.entries (some root), _⟩, _, ?_, h.update (x := x) ?_ ?_ ?_ ?_
    (ins.rep.detach (Edit.insert_nodup nd)) ?_ grown.1 ?_⟩
  · simp only [Forest.insertNode]
    change (Edit.insert (Forest.fuel n) nodes (forest.roots.get w.entries) x).bind _ = _
    rw [run]
    rfl
  · intro w' hw'
    rw [hx] at hw'
    simp at hw'
  · intro w' hw'
    obtain rfl := Option.some.inj hw'
    exact ⟨rfl, (all.data x).trans (by rw [self]; rfl)⟩
  · intro i hi hit
    rw [all.frame i (by simp [hi, hit]), other i hi]
  · intro i hi
    rw [all.data i, other i hi]
  · rw [all.key]
    apply insert_ordered
    · exact ordered_congr (h.ordered _) fun i hi => by rw [other i (away i hi)]
    · intro i hi e
      exact away i hi (key_injective nodes e)
  · intro i
    rw [mem_insert]
    by_cases hi : i = x <;> simp [hi]

theorem Holds.insert (hx : waiters x = none) (demand : Demand) (ticket : Nat) :
    ∃ forest' trees', forest.insert x demand ticket = some forest' ∧
      Holds forest' (Function.update waiters x (some ⟨demand, ticket⟩)) trees' :=
  h.insertNode hn hx ⟨demand, ticket⟩

theorem Holds.remove {w : Waiter} (hx : waiters x = some w) :
    ∃ forest' trees', forest.remove x = some forest' ∧
      (forest'.nodes x).data = (forest.nodes x).data ∧
      Holds forest' (Function.update waiters x none) trees' := by
  have hmem : x ∈ toList (trees w.entries) := (h.mem _ _).mpr ⟨w, hx, rfl⟩
  have hclass : (forest.nodes x).entries = w.entries := congrArg (fun d => d.2.2) (h.data x w hx)
  obtain ⟨⟨mid, root⟩, t', run, out⟩ :=
    Edit.remove_spec hn (h.rooted w.entries) (h.nodup w.entries) (h.balanced w.entries) hmem
      (show n < Forest.fuel n from Nat.lt_succ_self n)
  have touch := out.touches
  dsimp only at touch
  refine ⟨⟨forest.roots.set w.entries root, mid⟩, _, ?_, touch.data x, h.update (x := x) ?_ ?_ ?_ ?_
    out.rooted ?_ out.balanced ?_⟩
  · simp only [Forest.remove, hclass]
    rw [run]
    rfl
  · intro w' hw'
    rw [hx] at hw'
    rw [← Option.some.inj hw']
  · intro w' hw'
    simp at hw'
  · intro i _ hi
    exact touch.frame i hi
  · intro i _
    exact touch.data i
  · rw [touch.key]
    unfold Ordered
    rw [out.list]
    exact (h.ordered w.entries).sublist List.erase_sublist
  · intro i
    rw [out.list, (h.nodup w.entries).mem_erase_iff]
    simp

theorem Holds.refresh {w : Waiter} (hx : waiters x = some w) (demand : Demand) :
    ∃ forest' trees', forest.refresh x demand = some forest' ∧
      Holds forest' (Function.update waiters x (some { w with demand := demand })) trees' := by
  have hdata := h.data x w hx
  have hticket : (forest.nodes x).ticket = w.ticket := congrArg Prod.fst hdata
  by_cases same : (forest.nodes x).entries = Entries.ofDemand demand ∧
      (forest.nodes x).resident = demand.amount.resident
  · -- the node keeps its place, so the map changes only in the unused part of the demand
    refine ⟨forest, trees, by simp [Forest.refresh, same], ?_⟩
    have hclass : Entries.ofDemand demand = w.entries :=
      same.1.symm.trans (congrArg (fun d => d.2.2) hdata)
    constructor
    · exact h.rooted
    · exact h.ordered
    · exact h.balanced
    · intro e i
      rw [h.mem e i]
      by_cases hi : i = x
      · subst hi
        simp [hx, Waiter.entries, hclass]
      · rw [Function.update_of_ne hi]
    · intro i w' hw'
      by_cases hi : i = x
      · subst hi
        rw [Function.update_self] at hw'
        obtain rfl := Option.some.inj hw'
        simp only [Node.data, Waiter.data, Waiter.entries, hticket, same]
      · rw [Function.update_of_ne hi] at hw'
        exact h.data i w' hw'
  · obtain ⟨mid, trees', run, -, hmid⟩ := h.remove hn hx
    obtain ⟨forest', trees'', run', h'⟩ :=
      hmid.insertNode hn (x := x) (Function.update_self _ _ _) { w with demand := demand }
    rw [Function.update_idem] at h'
    refine ⟨forest', trees'', ?_, h'⟩
    simp only [Forest.refresh, if_neg same, run, hticket]
    exact run'

end

/-- Every admissible operation succeeds and refines the update of the map. -/
theorem Holds.step (h : Holds forest waiters trees) {op : Op n} {waiters' : Waiters n}
    (hop : waiters.step op = some waiters') :
    ∃ forest' trees', forest.step op = some forest' ∧ Holds forest' waiters' trees' := by
  cases op with
  | insert lane demand ticket =>
    cases hw : waiters lane with
    | none =>
      simp only [Waiters.step, hw, Option.some.injEq] at hop
      exact hop ▸ h.insert hn hw demand ticket
    | some w => simp [Waiters.step, hw] at hop
  | remove lane =>
    cases hw : waiters lane with
    | none => simp [Waiters.step, hw] at hop
    | some w =>
      simp only [Waiters.step, hw, Option.some.injEq] at hop
      obtain ⟨forest', trees', run, -, h'⟩ := h.remove hn hw
      exact ⟨forest', trees', run, hop ▸ h'⟩
  | refresh lane demand =>
    cases hw : waiters lane with
    | none => simp [Waiters.step, hw] at hop
    | some w =>
      simp only [Waiters.step, hw, Option.some.injEq] at hop
      exact hop ▸ h.refresh hn hw demand

theorem Holds.steps {ops : List (Op n)} {waiters' : Waiters n} (h : Holds forest waiters trees)
    (hops : ops.foldlM Waiters.step waiters = some waiters') :
    ∃ forest' trees', ops.foldlM Forest.step forest = some forest' ∧
      Holds forest' waiters' trees' := by
  induction ops generalizing forest waiters trees with
  | nil =>
    simp only [List.foldlM_nil, Option.pure_def, Option.some.injEq] at hops
    exact ⟨forest, trees, rfl, hops ▸ h⟩
  | cons op ops ih =>
    rw [List.foldlM_cons] at hops
    obtain ⟨mid, hop, hrest⟩ := Option.bind_eq_some_iff.mp hops
    obtain ⟨forest₁, trees₁, run, h₁⟩ := h.step hn hop
    obtain ⟨forest', trees', rest, h'⟩ := ih h₁ hrest
    refine ⟨forest', trees', ?_, h'⟩
    rw [List.foldlM_cons, run]
    exact rest

omit hn

/-! ## Well-formed forests -/

/-- The tree read from the plane by following left and right links. -/
def Links (nodes : Nodes n) : Option (Fin n) → BinaryTree (Fin n) → Prop
  | root, .nil => root = none
  | root, .node a l r =>
      root = some a ∧ Links nodes (nodes a).left l ∧ Links nodes (nodes a).right r

theorem Rep.links {root : Option (Fin n)} (h : Rep nodes root t) : Links nodes root t := by
  induction t generalizing root with
  | nil => exact h
  | node a l r hl hr =>
    obtain ⟨hroot, hangl, hangr, -⟩ := rep_node.mp h
    exact ⟨hroot, hl hangl.1, hr hangr.1⟩

/-- What the three trees of a forest promise about the waiting lanes. -/
structure WellFormed (forest : Forest n) (waiters : Waiters n)
    (trees : Entries → BinaryTree (Fin n)) : Prop where
  links : ∀ e, Links forest.nodes (forest.roots.get e) (trees e)
  ordered : ∀ e, (toList (trees e)).Pairwise fun a b => Edit.precedes forest.nodes a b
  balanced : ∀ e, Balanced (trees e)
  /-- Every lane waits in the tree of its class, and in no other. -/
  members : ∀ e i, i ∈ toList (trees e) ↔ ∃ w, waiters i = some w ∧ w.entries = e
  stored : ∀ i w, waiters i = some w → (forest.nodes i).ticket = w.ticket ∧
    (forest.nodes i).resident = w.demand.amount.resident ∧ (forest.nodes i).entries = w.entries
  top : ∀ e r, forest.roots.get e = some r → (forest.nodes r).parent = none
  parents : ∀ i, waiters i ≠ none → ∀ p, (forest.nodes i).parent = some p ↔
    waiters p ≠ none ∧ Xor ((forest.nodes p).left = some i) ((forest.nodes p).right = some i)
  /-- Stored heights are exact and below the `u8` range at every subtree. -/
  heights : ∀ e fs a l r, plugAll fs (.node a l r) = trees e →
    (forest.nodes a).height = (BinaryTree.node a l r).height ∧
      (BinaryTree.node a l r).height < 2 ^ 8
  oldest : ∀ e fs a l r, plugAll fs (.node a l r) = trees e →
    ∃ o, (forest.nodes a).oldest = some o ∧ o.lane ∈ toList (.node a l r) ∧
      o.ticket = (forest.nodes o.lane).ticket ∧
      ∀ i ∈ toList (.node a l r), o.ticket ≤ (forest.nodes i).ticket

theorem Holds.subtree (h : Holds forest waiters trees) {fs : List (Frame (Fin n))} {a : Fin n}
    {l r : BinaryTree (Fin n)} (ht : plugAll fs (.node a l r) = trees e) :
    ∃ d, forest.roots.get e = some d ∧ Climbs forest.nodes fs a d ∧
      Rep forest.nodes (some a) (.node a l r) := by
  have rooted := h.rooted e
  rw [← ht] at rooted
  have mem : a ∈ toList (plugAll fs (.node a l r)) :=
    (plugAll_perm fs _).mem_iff.mpr (by simp)
  obtain ⟨d, hd⟩ := rooted.rep.root_of_mem mem
  have rep := rooted.rep
  rw [hd] at rep
  obtain ⟨c, repc, climb⟩ := Climbs.of_rep rep (by simp [BinaryTree.height])
  obtain rfl := Option.some.inj (rep_node.mp repc).1
  exact ⟨d, hd, climb, repc⟩

theorem Holds.exists_subtree (h : Holds forest waiters trees) {i : Fin n} (hi : waiters i ≠ none) :
    ∃ e fs l r, plugAll fs (.node i l r) = trees e := by
  obtain ⟨w, hw⟩ := Option.ne_none_iff_exists'.mp hi
  obtain ⟨fs, l, r, ht⟩ := exists_plugAll_of_mem ((h.mem w.entries i).mpr ⟨w, hw, rfl⟩)
  exact ⟨w.entries, fs, l, r, ht⟩

/-- A parent link mirrors exactly one child link of a waiting lane. -/
theorem Holds.parent_iff (h : Holds forest waiters trees) {i : Fin n} (hi : waiters i ≠ none)
    (p : Fin n) :
    (forest.nodes i).parent = some p ↔ waiters p ≠ none ∧
      Xor ((forest.nodes p).left = some i) ((forest.nodes p).right = some i) := by
  constructor
  · intro hp
    obtain ⟨e, fs, l, r, ht⟩ := h.exists_subtree hi
    obtain ⟨d, hd, climb, -⟩ := h.subtree ht
    cases fs with
    | nil =>
      obtain rfl : i = d := climb
      rw [(h.rooted e).top i hd] at hp
      simp at hp
    | cons f fs =>
      obtain ⟨parent, link, sib, -⟩ := climb
      obtain rfl : f.value = p := Option.some.inj (parent.symm.trans hp)
      have mem : f.value ∈ toList (trees e) := by
        rw [← ht]
        exact (plugAll_perm _ _).mem_iff.mpr (by simp [pathList])
      obtain ⟨w, hw, -⟩ := (h.mem e f.value).mp mem
      have ndt := h.nodup e
      rw [← ht] at ndt
      have flat := (plugAll_perm _ _).nodup_iff.mp ndt
      have off : i ∉ toList f.sibling := by
        intro hs
        rw [List.nodup_append] at flat
        exact flat.2.2 i (by simp) i (by simp [pathList, hs]) rfl
      have other : (forest.nodes f.value).child f.side.flip ≠ some i := by
        intro hs
        have rep := sib.1
        rw [hs] at rep
        exact off rep.mem
      refine ⟨by simp [hw], ?_⟩
      cases hside : f.side <;> rw [hside] at link other
      · exact .inl ⟨link, other⟩
      · exact .inr ⟨link, other⟩
  · intro hp
    obtain ⟨e, fs, l, r, ht⟩ := h.exists_subtree hp.1
    obtain ⟨d, -, -, rep⟩ := h.subtree ht
    obtain ⟨-, hangl, hangr, -⟩ := rep_node.mp rep
    exact hp.2.elim (fun hl => hangl.2 i hl.1) fun hr => hangr.2 i hr.1

theorem Holds.wellFormed (hn : n + 1 < 2 ^ 32) (h : Holds forest waiters trees) :
    WellFormed forest waiters trees := by
  constructor
  · intro e
    exact (h.rooted e).rep.links
  · intro e
    apply List.Pairwise.imp _ (h.ordered e)
    intro a b
    exact (key_lt_iff forest.nodes a b).mp
  · exact h.balanced
  · exact h.mem
  · intro i w hw
    have data := h.data i w hw
    exact ⟨congrArg Prod.fst data, congrArg (fun d => d.2.1) data, congrArg (fun d => d.2.2) data⟩
  · intro e r hr
    exact (h.rooted e).top r hr
  · intro i hi p
    exact h.parent_iff hi p
  · intro e fs a l r ht
    obtain ⟨d, -, -, rep⟩ := h.subtree ht
    obtain ⟨-, -, -, hgt, -⟩ := rep_node.mp rep
    have bal := h.balanced e
    have nd := h.nodup e
    rw [← ht] at bal nd
    have flat := (plugAll_perm _ _).nodup_iff.mp nd
    have low := height_le hn ((balanced_plugAll _ _).mp bal).1 (List.nodup_append.mp flat).1
    exact ⟨hgt, by omega⟩
  · intro e fs a l r ht
    obtain ⟨d, -, -, rep⟩ := h.subtree ht
    obtain ⟨-, -, -, -, old⟩ := rep_node.mp rep
    have least := oldestOf_least forest.nodes (.node a l r)
    rw [← old] at least
    cases ho : (forest.nodes a).oldest with
    | none =>
      rw [ho] at least
      simp [Least] at least
    | some o =>
      rw [ho] at least
      exact ⟨o, rfl, least⟩

theorem LaneCount.bound (lanes : LaneCount) : lanes.count + 1 < 2 ^ 32 := by
  have lt := lanes.lt
  omega

/-- Every run of admissible operations from the empty forest succeeds, and
ends in a well-formed forest that holds exactly the lanes inserted and not
removed. -/
theorem run_wellFormed (lanes : LaneCount) (ops : List (Op lanes.count))
    (waiters : Waiters lanes.count) (admissible : Waiters.run ops = some waiters) :
    ∃ forest trees, Forest.run ops = some forest ∧ WellFormed forest waiters trees := by
  obtain ⟨forest, trees, run, h⟩ := holds_new.steps lanes.bound admissible
  exact ⟨forest, trees, run, h.wellFormed lanes.bound⟩

/-- In every run the stored height of a waiting lane is logarithmic in the number of lanes
that wait. -/
theorem run_shallow (lanes : LaneCount) (ops : List (Op lanes.count))
    (waiters : Waiters lanes.count) (admissible : Waiters.run ops = some waiters) :
    ∃ forest, Forest.run ops = some forest ∧ ∀ i, waiters i ≠ none →
      2 ^ ((forest.nodes i).height / 2) ≤
        ((List.finRange lanes.count).filter fun j => (waiters j).isSome).length + 1 := by
  obtain ⟨forest, trees, run, h⟩ := holds_new.steps lanes.bound admissible
  refine ⟨forest, run, ?_⟩
  intro i waits
  obtain ⟨e, fs, l, r, ht⟩ := h.exists_subtree waits
  obtain ⟨d, -, -, rep⟩ := h.subtree ht
  obtain ⟨-, -, -, height, -⟩ := rep_node.mp rep
  have balanced := h.balanced e
  have nodup := h.nodup e
  rw [← ht] at balanced nodup
  have flat := (plugAll_perm _ _).nodup_iff.mp nodup
  rw [height]
  apply (two_pow_height_le ((balanced_plugAll _ _).mp balanced).1).trans
  rw [← toList_length]
  apply Nat.succ_le_succ
  apply (List.subperm_of_subset (List.nodup_append.mp flat).1 _).length_le
  intro j member
  have held : j ∈ toList (trees e) := by
    rw [← ht]
    exact (plugAll_perm _ _).mem_iff.mpr (List.mem_append_left _ member)
  obtain ⟨w, hw, -⟩ := (h.mem e j).mp held
  simp [hw]

/-- Three lanes enter, one moves to another class, one leaves. -/
def exampleOps : List (Op 3) :=
  [.insert 0 ⟨⟨1, 40⟩, by decide⟩ 0, .insert 1 ⟨⟨1, 10⟩, by decide⟩ 1,
    .insert 2 ⟨⟨1, 20⟩, by decide⟩ 2, .refresh 0 ⟨⟨0, 5⟩, by decide⟩, .remove 1]

theorem run_wellFormed_example :
    ∃ waiters forest trees, Waiters.run exampleOps = some waiters ∧
      Forest.run exampleOps = some forest ∧ WellFormed forest waiters trees := by
  obtain ⟨waiters, hw⟩ : ∃ waiters, Waiters.run exampleOps = some waiters := ⟨_, rfl⟩
  obtain ⟨forest, trees, run, h⟩ :=
    run_wellFormed ⟨3, by decide, by decide⟩ exampleOps waiters hw
  exact ⟨waiters, forest, trees, hw, run, h⟩

theorem run_shallow_example : ∃ waiters forest, Waiters.run exampleOps = some waiters ∧
    Forest.run exampleOps = some forest ∧ ∀ i, waiters i ≠ none →
      2 ^ ((forest.nodes i).height / 2) ≤ 3 := by
  obtain ⟨waiters, hw⟩ : ∃ waiters, Waiters.run exampleOps = some waiters := ⟨_, rfl⟩
  obtain ⟨forest, run, low⟩ := run_shallow ⟨3, by decide, by decide⟩ exampleOps waiters hw
  cases hw
  exact ⟨_, forest, rfl, run, low⟩

end Dope.Egress.Wait
