import Dope.Egress.Wait.Rep

/-! # Rotations and rebalancing of linked trees

The two in-place rotations and the rebalancing step follow the pure functions
of the same shape, confine their writes to the cells of the subtree, and hand
the old parent of the subtree over to its new root.
-/

namespace Dope.Egress.Wait.Edit

open Dope.Avl BinaryTree

variable {n : Nat} {nodes : Nodes n}

/-- The result of an edit that re-roots the subtree at `index`: the new root
represents `t`, keeps the old parent link, and only `cells` were written. -/
structure Reroots (cells : List (Fin n)) (nodes : Nodes n) (index : Fin n)
    (t : BinaryTree (Fin n)) (result : Nodes n × Fin n) : Prop where
  rep : Rep result.1 (some result.2) t
  parent : (result.1 result.2).parent = (nodes index).parent
  touches : Touches cells nodes result.1

variable {x y m : BinaryTree (Fin n)} {a : Fin n} {s : Side} {p : Fin n}

theorem rotate_reroots (hx : Hangs nodes a s x) (hm : Hangs nodes p s m)
    (hy : Hangs nodes p s.flip y) (nd : (a :: p :: (toList x ++ toList m ++ toList y)).Nodup)
    (hh : (join s p (join s a x m) y).height < 2 ^ 8) :
    Reroots (a :: p :: (toList x ++ toList m ++ toList y)) nodes a
      (join s p (join s a x m) y) (rotate s nodes a p) := by
  generalize hcells : a :: p :: (toList x ++ toList m ++ toList y) = cells at nd ⊢
  have mem : ∀ i, i ∈ cells ↔ i = a ∨ i = p ∨ i ∈ toList x ∨ i ∈ toList m ∨ i ∈ toList y := by
    intro i
    subst hcells
    simp
  rw [← hcells] at nd
  simp only [List.nodup_cons, List.nodup_append, List.mem_cons, List.mem_append, not_or] at nd
  obtain ⟨⟨hap, ⟨hax, ham⟩, hay⟩, ⟨⟨hpx, hpm⟩, hpy⟩, ⟨ndx, ndm, dxm⟩, ndy, dxy⟩ := nd
  have dmx : ∀ i ∈ toList x, i ∉ toList m := fun i hi hj => dxm i hi i hj rfl
  have dyx : ∀ i ∈ toList y, i ∉ toList x := fun i hi hj => dxy i (.inl hj) i hi rfl
  have dym : ∀ i ∈ toList y, i ∉ toList m := fun i hi hj => dxy i (.inr hj) i hi rfl
  rw [height_join, height_join] at hh
  -- the middle subtree moves below `a`
  set mid := (nodes p).child s with hmid
  have midMem : ∀ i, mid = some i → i ∈ toList m := by
    intro i hi
    have rep := hm.1
    rw [← hmid, hi] at rep
    exact rep.mem
  set n1 := link s.flip nodes a mid with hn1
  have t1 : Touches cells nodes n1 :=
    link_touches ((mem a).mpr (.inl rfl)) fun i hi => (mem i).mpr (by simp [midMem i hi])
  have m1 : Hangs n1 a s.flip m := link_hangs hm.1 ndm ham
  have x1 : Hangs n1 a s x := by
    have := link_hangs_flip (s := s.flip) hm.1 (by simpa using hx) ndx hax ham dmx
    simpa using this
  have p1 : n1 p = nodes p := link_other (Ne.symm hap) fun h => hpm (midMem p h)
  have y1 : Hangs n1 p s.flip y := by
    refine hy.move ndy (by rw [p1]) fun i hi => link_other ?_ ?_
    · rintro rfl; exact hay hi
    · exact fun h => dym i hi (midMem i h)
  -- `a` moves below `p`
  set n2 := link s n1 p (some a) with hn2
  have t2 : Touches cells n1 n2 :=
    link_touches ((mem p).mpr (.inr (.inl rfl))) fun i hi => by
      obtain rfl := Option.some.inj hi
      exact (mem _).mpr (.inl rfl)
  have a2 : n2 a = (n1 a).setParent (some p) := link_child hap
  have p2 : n2 p = (n1 p).setChild s (some a) := link_self fun h => hap (Option.some.inj h)
  have o2 : ∀ i, i ≠ p → i ≠ a → n2 i = n1 i := fun i hp ha =>
    link_other hp fun h => ha (Option.some.inj h).symm
  have keep2 : ∀ t : BinaryTree (Fin n), a ∉ toList t → p ∉ toList t →
      ∀ i ∈ toList t, n2 i = n1 i := by
    intro t hat hpt i hi
    exact o2 i (fun e => hpt (e ▸ hi)) (fun e => hat (e ▸ hi))
  -- `p` takes the old parent of `a`
  set n3 := n2.modify p (fun node => node.setParent (nodes a).parent) with hn3
  have t3 : Touches cells n2 n3 :=
    Nodes.modify_touches n2 ((mem p).mpr (.inr (.inl rfl))) rfl
  have p3 : n3 p = (n2 p).setParent (nodes a).parent := Nodes.modify_self _ _ _
  have o3 : ∀ i, i ≠ p → n3 i = n2 i := fun i hi => Nodes.modify_of_ne _ _ hi
  have keep3 : ∀ t : BinaryTree (Fin n), a ∉ toList t → p ∉ toList t →
      ∀ i ∈ toList t, n3 i = n1 i := by
    intro t hat hpt i hi
    rw [o3 i fun e => hpt (e ▸ hi), keep2 t hat hpt i hi]
  have a3 : n3 a = (n1 a).setParent (some p) := by rw [o3 a hap, a2]
  have x3 : Hangs n3 a s x := x1.move ndx (by rw [a3]; simp) (keep3 x hax hpx)
  have m3 : Hangs n3 a s.flip m := m1.move ndm (by rw [a3]; simp) (keep3 m ham hpm)
  have y3 : Hangs n3 p s.flip y := y1.move ndy (by rw [p3, p2]; simp) (keep3 y hay hpy)
  -- both cached fields are recomputed bottom-up
  have ndA : (a :: (toList x ++ toList m)).Nodup := by
    simp only [List.nodup_cons, List.nodup_append, List.mem_append, not_or]
    exact ⟨⟨hax, ham⟩, ndx, ndm, dxm⟩
  set n4 := update n3 a with hn4
  have rep4 : Rep n4 (some a) (join s a x m) :=
    update_rep_join x3 m3 ndA (by rw [height_join]; omega)
  have t4 : Touches cells n3 n4 := update_touches ((mem a).mpr (.inl rfl))
  have child4 : (n4 p).child s = some a := by
    rw [hn4, update_child, p3, p2]; simp
  have a4 : Hangs n4 p s (join s a x m) := by
    constructor
    · rw [child4]; exact rep4
    · intro c hc
      rw [child4] at hc
      obtain rfl := Option.some.inj hc
      rw [hn4, update_parent, a3, Node.parent_setParent]
  have y4 : Hangs n4 p s.flip y := by
    refine y3.move ndy (update_child a s.flip p) fun i hi => update_of_ne ?_
    rintro rfl
    exact hay hi
  have ndP : (p :: (toList (join s a x m) ++ toList y)).Nodup := by
    rw [List.nodup_cons, List.nodup_append, List.mem_append, mem_toList_join, nodup_join]
    refine ⟨by tauto, ndA, ndy, ?_⟩
    intro i hi j hj
    rcases mem_toList_join.mp hi with h | rfl | h
    · exact dxy i (.inl h) j hj
    · rintro rfl; exact hay hj
    · exact dxy i (.inr h) j hj
  have rep5 : Rep (update n4 p) (some p) (join s p (join s a x m) y) :=
    update_rep_join a4 y4 ndP (by rw [height_join, height_join]; omega)
  have t5 : Touches cells n4 (update n4 p) := update_touches ((mem p).mpr (.inr (.inl rfl)))
  have parent5 : (update n4 p p).parent = (nodes a).parent := by
    rw [update_parent, hn4, update_parent, p3, Node.parent_setParent]
  exact ⟨rep5, parent5, (((t1.trans t2).trans t3).trans t4).trans t5⟩

theorem heightAt_child {t : BinaryTree (Fin n)} (h : Hangs nodes a s t) :
    Node.heightAt nodes ((nodes a).child s) = t.height :=
  h.1.height

/-- `rotate_reroots` for a pivot that hangs from `a`. -/
theorem rotate_hanging (hx : Hangs nodes a s x) (hf : Hangs nodes a s.flip (join s p m y))
    (nd : (a :: (toList x ++ toList (join s p m y))).Nodup)
    (hh : (join s p (join s a x m) y).height < 2 ^ 8) :
    Reroots (a :: (toList x ++ toList (join s p m y))) nodes a
      (join s p (join s a x m) y) (rotate s nodes a p) := by
  obtain ⟨-, hm, hy, -⟩ := rep_join.mp hf.1
  have perm : (a :: (toList x ++ toList (join s p m y))).Perm
      (a :: p :: (toList x ++ toList m ++ toList y)) := by
    apply List.Perm.cons
    calc
      (toList x ++ toList (join s p m y)).Perm (toList x ++ p :: (toList m ++ toList y)) :=
        (join_perm s p m y).append_left (toList x)
      List.Perm _ (p :: (toList x ++ (toList m ++ toList y))) := List.perm_middle
      _ = p :: (toList x ++ toList m ++ toList y) := by rw [List.append_assoc]
  have res := rotate_reroots hx hm hy (perm.nodup_iff.mp nd) hh
  exact ⟨res.rep, res.parent, res.touches.mono fun i hi => perm.mem_iff.mpr hi⟩

/-- The inner rotation of a double rotation: the child `p` of `a` leans
towards `s`, and its child `q` takes its place below `a`. -/
theorem straighten_hanging {q : Fin n} {u v : BinaryTree (Fin n)} (hx : Hangs nodes a s x)
    (hf : Hangs nodes a s.flip (join s p (join s q u v) y))
    (nd : (a :: (toList x ++ toList (join s p (join s q u v) y))).Nodup)
    (hh : (join s q u (join s p v y)).height < 2 ^ 8) :
    ∃ nodes', rotate s.flip nodes p q = (nodes', q) ∧
      Hangs (link s.flip nodes' a (some q)) a s x ∧
      Hangs (link s.flip nodes' a (some q)) a s.flip (join s q u (join s p v y)) ∧
      (link s.flip nodes' a (some q) a).parent = (nodes a).parent ∧
      Touches (a :: (toList x ++ toList (join s p (join s q u v) y))) nodes
        (link s.flip nodes' a (some q)) := by
  obtain ⟨-, hm, hy, -⟩ := rep_join.mp hf.1
  -- the far tree before and after has the same cells
  have same := toList_join_join s p q u v y
  rw [List.nodup_cons, List.mem_append, not_or, List.nodup_append] at nd
  obtain ⟨⟨hax, haf⟩, ndx, ndf, dxf⟩ := nd
  have naQ : a ∉ toList (join s q u (join s p v y)) := same ▸ haf
  have ndQ : (toList (join s q u (join s p v y))).Nodup := same ▸ ndf
  have dxQ : ∀ i ∈ toList x, i ∉ toList (join s q u (join s p v y)) :=
    fun i hi hj => dxf i hi i (same ▸ hj) rfl
  have perm1 : (p :: (toList y ++ toList (join s.flip q v u))).Perm
      (toList (join s p (join s q u v) y)) := by
    rw [join_flip]
    apply List.Perm.trans _ (join_perm s p _ y).symm
    exact List.perm_append_comm.cons p
  have res := rotate_hanging (s := s.flip) (m := v) (y := u) (x := y) hy
    (by rw [Side.flip_flip, join_flip]; exact hm) (perm1.nodup_iff.mpr ndf)
    (by rw [join_flip, join_flip]; exact hh)
  obtain ⟨nodes', hrot⟩ : ∃ nodes', rotate s.flip nodes p q = (nodes', q) := ⟨_, rfl⟩
  rw [hrot] at res
  have away : ∀ i, i ∉ toList (join s p (join s q u v) y) → nodes' i = nodes i := by
    intro i hi
    apply res.touches.frame i
    exact fun h => hi (perm1.mem_iff.mp h)
  have rep1 := res.rep
  rw [join_flip, join_flip] at rep1
  have haq : a ≠ q := by
    rintro rfl
    exact naQ (mem_toList_join.mpr (.inr (.inl rfl)))
  have x1 : Hangs nodes' a s x :=
    hx.move ndx (by rw [away a haf]) fun i hi => away i fun hj => dxf i hi i hj rfl
  refine ⟨nodes', hrot, ?_, link_hangs rep1 ndQ naQ, ?_, ?_⟩
  · have := link_hangs_flip (s := s.flip) rep1 (by simpa using x1) ndx hax naQ dxQ
    simpa using this
  · rw [link_self fun h => haq (Option.some.inj h).symm, Node.parent_setChild, away a haf]
  · apply Touches.trans (res.touches.mono fun i hi => by simp [perm1.mem_iff.mp hi])
    apply link_touches (by simp)
    intro i hi
    obtain rfl := Option.some.inj hi
    simp [mem_toList_join]

/-- The overgrown child `p` is straightened if it leans towards `s`, and then
rotated into the place of `a`. -/
theorem lift_reroots (hx : Hangs nodes a s x) (hf : Hangs nodes a s.flip (join s p m y))
    (nd : (a :: (toList x ++ toList (join s p m y))).Nodup)
    (hh : (join s a x (join s p m y)).height + 1 < 2 ^ 8) :
    Reroots (a :: (toList x ++ toList (join s p m y))) nodes a
      (Avl.lift s a x (join s p m y)) (lift s nodes a p) := by
  obtain ⟨hroot, hm, hy, -⟩ := rep_join.mp hf.1
  rw [height_join, height_join] at hh
  rw [Avl.lift, straighten_join]
  have single : ¬ y.height < m.height →
      Reroots (a :: (toList x ++ toList (join s p m y))) nodes a
        (Avl.rotate s a x (if y.height < m.height then Avl.rotate s.flip p y m else join s p m y))
        (rotate s nodes a p) := by
    intro hle
    rw [if_neg hle, rotate_join]
    exact rotate_hanging hx hf nd (by rw [height_join, height_join]; omega)
  simp only [lift]
  cases hchild : (nodes p).child s with
  | none =>
    apply single
    rw [← heightAt_child hm, hchild]
    exact Nat.not_lt_zero _
  | some q =>
    dsimp only
    rw [heightAt_child hy, ← hchild, heightAt_child hm]
    split
    case isFalse hle => simpa only [if_neg hle] using single hle
    case isTrue hlt =>
      obtain ⟨q', u, v, rfl⟩ := exists_join s (t := m) (by omega)
      have mrep := hm.1
      rw [hchild] at mrep
      obtain rfl := Option.some.inj (rep_join.mp mrep).1
      rw [height_join] at hh
      obtain ⟨nodes', hrot, x2, q2, parent2, touch2⟩ := straighten_hanging hx hf nd
        (by simp only [height_join]; omega)
      have same := toList_join_join s p q u v y
      have res := rotate_hanging x2 q2 (by rw [same]; exact nd)
        (by simp only [height_join]; omega)
      rw [same] at res
      rw [hrot, rotate_flip_join, rotate_join]
      exact ⟨res.rep, res.parent.trans parent2, touch2.trans res.touches⟩

/-- The rebalancing step of a cell whose two children are represented. -/
theorem rebalance_reroots {l r : BinaryTree (Fin n)} (hl : Hangs nodes a .left l)
    (hr : Hangs nodes a .right r) (nd : (toList (.node a l r)).Nodup)
    (hh : (BinaryTree.node a l r).height + 1 < 2 ^ 8) :
    Reroots (toList (.node a l r)) nodes a (Avl.rebalance (.node a l r)) (rebalance nodes a) := by
  have rep := update_rep hl hr nd (by omega)
  have parent : (update nodes a a).parent = (nodes a).parent := update_parent a a
  have touch : Touches (toList (.node a l r)) nodes (update nodes a) := update_touches (by simp)
  obtain ⟨-, hl', hr', -⟩ := rep_node.mp rep
  have left_height : Node.heightAt (update nodes a) (update nodes a a).left = l.height :=
    heightAt_child hl'
  have right_height : Node.heightAt (update nodes a) (update nodes a a).right = r.height :=
    heightAt_child hr'
  have hmax : (BinaryTree.node a l r).height = max l.height r.height + 1 := rfl
  have lmod : (l.height + 1) % 2 ^ 8 = l.height + 1 := Nat.mod_eq_of_lt (by omega)
  have rmod : (r.height + 1) % 2 ^ 8 = r.height + 1 := Nat.mod_eq_of_lt (by omega)
  simp only [rebalance, tilt, left_height, right_height, lmod, rmod, Avl.rebalance]
  by_cases tall_left : r.height + 1 < l.height
  · rw [if_pos tall_left, if_pos tall_left]
    obtain ⟨p, m, y, rfl⟩ := exists_join .right (t := l) (by omega)
    have root : (update nodes a a).left = some p := (rep_join.mp hl'.1).1
    have perm := join_perm .right a r (join .right p m y)
    have res := lift_reroots (s := .right) hr' hl' (perm.nodup_iff.mp nd)
      (by rw [height_join]; omega)
    simp only [root, Option.elim]
    exact ⟨res.rep, res.parent.trans parent,
      touch.trans (res.touches.mono fun i hi => perm.mem_iff.mpr hi)⟩
  · rw [if_neg tall_left, if_neg tall_left]
    by_cases tall_right : l.height + 1 < r.height
    · rw [if_pos tall_right, if_pos tall_right]
      obtain ⟨p, m, y, rfl⟩ := exists_join .left (t := r) (by omega)
      have root : (update nodes a a).right = some p := (rep_join.mp hr'.1).1
      have perm := join_perm .left a l (join .left p m y)
      have res := lift_reroots (s := .left) hl' hr' (perm.nodup_iff.mp nd)
        (by rw [height_join]; omega)
      simp only [root, Option.elim]
      exact ⟨res.rep, res.parent.trans parent,
        touch.trans (res.touches.mono fun i hi => perm.mem_iff.mpr hi)⟩
    · rw [if_neg tall_right, if_neg tall_right]
      exact ⟨rep, parent, touch⟩

theorem rebalance_reroots_join (hx : Hangs nodes a s x) (hy : Hangs nodes a s.flip y)
    (nd : (toList (join s a x y)).Nodup) (hh : (join s a x y).height + 1 < 2 ^ 8) :
    Reroots (toList (join s a x y)) nodes a (Avl.rebalance (join s a x y))
      (rebalance nodes a) := by
  cases s
  · exact rebalance_reroots hx hy nd hh
  · exact rebalance_reroots hy hx nd hh

end Dope.Egress.Wait.Edit
