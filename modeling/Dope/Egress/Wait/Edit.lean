import Dope.Egress.Wait.Rebalance
import Mathlib.Data.Fintype.Card
import Mathlib.Data.Prod.Lex

/-! # Insertion and removal in a linked tree

`Edit.insert` and `Edit.remove` follow the pure insertion and the pure
bottom-up repair. Removal works on a path: `Climbs nodes fs c d` says that the
links from cell `c` upwards are the frames `fs` and end at cell `d`. The
cached fields along a path may be stale; `restore` recomputes them.
-/

namespace Dope.Egress.Wait

open Dope.Avl BinaryTree

variable {n : Nat} {nodes nodes' : Nodes n}

/-- The search key of a lane: resident demand, then lane index. -/
def key (nodes : Nodes n) (a : Fin n) : Nat ×ₗ Fin n :=
  toLex ((nodes a).resident, a)

theorem key_lt_iff (nodes : Nodes n) (a b : Fin n) :
    key nodes a < key nodes b ↔ Edit.precedes nodes a b :=
  Prod.Lex.toLex_lt_toLex

theorem key_injective (nodes : Nodes n) : Function.Injective (key nodes) := by
  intro a b h
  exact (Prod.ext_iff.mp (toLex.injective h)).2

theorem Touches.key {cells : List (Fin n)} (h : Touches cells nodes nodes') :
    key nodes' = key nodes := by
  funext a
  unfold Wait.key
  rw [h.resident a]

variable {t : BinaryTree (Fin n)}

/-- With fewer than `2 ^ 32` lanes a balanced tree stays far below the `u8`
range of the stored heights. -/
theorem height_le (hn : n + 1 < 2 ^ 32) (bal : Balanced t) (nd : (toList t).Nodup) :
    t.height ≤ 63 := by
  have card : (toList t).length ≤ n := by
    have h := List.Nodup.length_le_card nd
    rwa [Fintype.card_fin] at h
  rw [toList_length] at card
  exact height_le_of_numNodes_lt bal (k := 31) (by omega)

variable {x : Fin n}

namespace Edit

/-- A subtree that was edited away from `a` is linked below `a` again, and
`a` is rebalanced. -/
theorem relink_reroots {s : Side} {a c : Fin n} {x y : BinaryTree (Fin n)}
    (hx : Rep nodes (some c) x) (hy : Hangs nodes a s.flip y)
    (nd : (toList (join s a x y)).Nodup) (hh : (join s a x y).height + 1 < 2 ^ 8) :
    Reroots (toList (join s a x y)) nodes a (Avl.rebalance (join s a x y))
      (rebalance (link s nodes a (some c)) a) := by
  have flat := nodup_join.mp nd
  rw [List.nodup_cons, List.mem_append, not_or, List.nodup_append] at flat
  obtain ⟨⟨hax, hay⟩, ndx, ndy, dxy⟩ := flat
  have near : Hangs (link s nodes a (some c)) a s x := link_hangs hx ndx hax
  have far : Hangs (link s nodes a (some c)) a s.flip y :=
    link_hangs_flip hx hy ndy hay hax fun i hi hj => dxy i hj i hi rfl
  have res := rebalance_reroots_join near far nd hh
  have hca : some c ≠ some a := fun h => hax (Option.some.inj h ▸ hx.mem)
  have touch : Touches (toList (join s a x y)) nodes (link s nodes a (some c)) := by
    apply link_touches (mem_toList_join.mpr (.inr (.inl rfl)))
    intro i hi
    obtain rfl := Option.some.inj hi
    exact mem_toList_join.mpr (.inl hx.mem)
  refine ⟨res.rep, ?_, touch.trans res.touches⟩
  rw [res.parent, link_self hca, Node.parent_setChild]

/-! ## Insertion -/

/-- The shape in which `insert` returns from a subtree. -/
structure Inserted (nodes : Nodes n) (t : BinaryTree (Fin n)) (x : Fin n)
    (result : Nodes n × Fin n) : Prop where
  rep : Rep result.1 (some result.2) (Avl.insert (key nodes) x t)
  touches : Touches (x :: toList t) nodes result.1

theorem insert_nodup (nd : (x :: toList t).Nodup) : (toList (Avl.insert (key nodes) x t)).Nodup :=
  (insert_perm (key nodes) x t).nodup_iff.mpr nd

theorem insert_level (hn : n + 1 < 2 ^ 32) {s : Side} {a : Fin n} {near far : BinaryTree (Fin n)}
    {result : Nodes n × Fin n} (hfar : Hangs nodes a s.flip far)
    (nd : (x :: toList (join s a near far)).Nodup) (bal : Balanced (join s a near far))
    (ih : Inserted nodes near x result) :
    Rep (rebalance (link s result.1 a (some result.2)) a).1
        (some (rebalance (link s result.1 a (some result.2)) a).2)
        (Avl.rebalance (join s a (Avl.insert (key nodes) x near) far)) ∧
      Touches (x :: toList (join s a near far)) nodes
        (rebalance (link s result.1 a (some result.2)) a).1 := by
  have flat : (x :: a :: (toList near ++ toList far)).Nodup :=
    ((join_perm s a near far).cons x).nodup_iff.mp nd
  have perm : (toList (join s a (Avl.insert (key nodes) x near) far)).Perm
      (x :: a :: (toList near ++ toList far)) := by
    calc
      (toList (join s a (Avl.insert (key nodes) x near) far)).Perm
          (a :: (toList (Avl.insert (key nodes) x near) ++ toList far)) := join_perm s a _ far
      List.Perm _ (a :: (x :: toList near ++ toList far)) :=
        ((insert_perm (key nodes) x near).append_right _).cons a
      List.Perm _ (x :: a :: (toList near ++ toList far)) := List.Perm.swap x a _
  have nd' := perm.nodup_iff.mpr flat
  simp only [List.nodup_cons, List.mem_cons, List.mem_append, not_or, List.nodup_append] at flat
  obtain ⟨⟨hxa, hxn, hxf⟩, ⟨han, haf⟩, ndn, ndf, dnf⟩ := flat
  have away : ∀ i, i ≠ x → i ∉ toList near → result.1 i = nodes i := by
    intro i hx hn
    apply ih.touches.frame i
    simp [hx, hn]
  have hfar' : Hangs result.1 a s.flip far := by
    apply hfar.move ndf
    · rw [away a (Ne.symm hxa) han]
    · intro i hi
      exact away i (fun e => hxf (e ▸ hi)) fun hj => dnf i hj i hi rfl
  -- the height of the intermediate tree is bounded through its balanced children
  rw [balanced_join] at bal
  have grow := (insert_balanced (key nodes) (x := x) bal.2.2.1).2.2
  have near_le := height_le hn bal.2.2.1 ndn
  have far_le := height_le hn bal.2.2.2 ndf
  have res := relink_reroots ih.rep hfar' nd' (by rw [height_join]; omega)
  refine ⟨res.rep, ?_⟩
  have inner : Touches (x :: toList (join s a near far)) nodes result.1 := by
    apply ih.touches.mono
    intro i hi
    rcases List.mem_cons.mp hi with rfl | hi
    · exact List.mem_cons_self
    · exact List.mem_cons_of_mem _ (mem_toList_join.mpr (.inl hi))
  apply inner.trans
  apply res.touches.mono
  intro i hi
  have hi := perm.mem_iff.mp hi
  simp only [List.mem_cons, List.mem_append, mem_toList_join] at hi ⊢
  tauto

theorem insert_spec (hn : n + 1 < 2 ^ 32) {fuel : Nat} {root : Option (Fin n)}
    (rep : Rep nodes root t) (fresh : Rep nodes (some x) (.node x .nil .nil))
    (nd : (x :: toList t).Nodup) (bal : Balanced t) (hf : t.height ≤ fuel) :
    ∃ result, insert fuel nodes root x = some result ∧ Inserted nodes t x result := by
  induction t generalizing root fuel with
  | nil =>
    rw [show root = none from rep]
    exact ⟨(nodes, x), by simp [insert], fresh, Touches.refl _ _⟩
  | node a l r hl hr =>
    obtain ⟨rfl, repl, repr, -⟩ := rep_node.mp rep
    have hmax : (BinaryTree.node a l r).height = max l.height r.height + 1 := rfl
    obtain ⟨fuel, rfl⟩ : ∃ k, fuel = k + 1 := ⟨fuel - 1, by omega⟩
    have parts := bal
    obtain ⟨-, -, ball, balr⟩ := parts
    have flat := ((join_perm .left a l r).cons x).nodup_iff.mp nd
    simp only [List.nodup_cons, List.mem_cons, List.mem_append, not_or,
      List.nodup_append] at flat
    obtain ⟨⟨hxa, hxl, hxr⟩, ⟨hal, har⟩, ndl, ndr, dlr⟩ := flat
    have onLeft : Rep nodes (nodes a).left l := repl.1
    have onRight : Rep nodes (nodes a).right r := repr.1
    rw [insert]
    by_cases hlt : precedes nodes x a
    · obtain ⟨result, run, ih⟩ := hl onLeft (List.nodup_cons.mpr ⟨hxl, ndl⟩) ball
        (Nat.le_of_lt_succ (by omega : l.height < fuel + 1))
      have level := insert_level hn (s := .left) repr nd bal ih
      rw [if_pos hlt, run]
      refine ⟨_, rfl, ?_, level.2⟩
      rw [Avl.insert, if_pos ((key_lt_iff nodes x a).mpr hlt)]
      exact level.1
    · obtain ⟨result, run, ih⟩ := hr onRight (List.nodup_cons.mpr ⟨hxr, ndr⟩) balr
        (Nat.le_of_lt_succ (by omega : r.height < fuel + 1))
      have level := insert_level hn (s := .right) repl nd bal ih
      rw [if_neg hlt, run]
      refine ⟨_, rfl, ?_, level.2⟩
      rw [Avl.insert, if_neg fun h => hlt ((key_lt_iff nodes x a).mp h)]
      exact level.1

end Edit

end Dope.Egress.Wait
