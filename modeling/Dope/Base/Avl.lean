import Mathlib.Data.Tree.Basic
import Mathlib.Data.List.Pairwise
import Mathlib.Data.List.Sort
import Mathlib.Data.List.Perm.Basic
import Mathlib.Tactic.Ring

/-! # Balanced binary trees

Pure height-balanced trees over an arbitrary element type: one rotation for
both sides, the rebalancing step, ordered insertion, and the bottom-up repair
of a path after a subtree has lost one level. In-order lists carry the order
and the membership; heights carry the balance. Nothing here refers to a
particular memory layout, so a linked representation can be related to it.
-/

namespace Dope.Avl

open BinaryTree

/-- The two child positions of a node. -/
inductive Side where
  | left
  | right
deriving DecidableEq, Repr

def Side.flip : Side → Side
  | .left => .right
  | .right => .left

@[simp] theorem Side.flip_flip (s : Side) : s.flip.flip = s := by
  cases s <;> rfl

@[simp] theorem Side.flip_left : Side.left.flip = .right := rfl

@[simp] theorem Side.flip_right : Side.right.flip = .left := rfl

variable {α κ : Type*}

/-- The node whose child on side `s` is `near` and whose other child is `far`. -/
def join (s : Side) (a : α) (near far : BinaryTree α) : BinaryTree α :=
  match s with
  | .left => .node a near far
  | .right => .node a far near

def child (s : Side) : BinaryTree α → BinaryTree α
  | .nil => .nil
  | .node _ l r =>
      match s with
      | .left => l
      | .right => r

/-- In-order traversal. -/
def toList : BinaryTree α → List α
  | .nil => []
  | .node a l r => toList l ++ a :: toList r

/-- The two child heights differ by at most one at every node. -/
def Balanced : BinaryTree α → Prop
  | .nil => True
  | .node _ l r =>
      l.height ≤ r.height + 1 ∧ r.height ≤ l.height + 1 ∧ Balanced l ∧ Balanced r

/-- Strictly increasing keys along the in-order traversal: a search tree. -/
def Ordered [LT κ] (key : α → κ) (t : BinaryTree α) : Prop :=
  (toList t).Pairwise (fun a b => key a < key b)

@[simp] theorem toList_nil : toList (.nil : BinaryTree α) = [] := rfl

@[simp] theorem toList_node (a : α) (l r : BinaryTree α) :
    toList (.node a l r) = toList l ++ a :: toList r := rfl

theorem toList_length (t : BinaryTree α) : (toList t).length = t.numNodes := by
  induction t with
  | nil => rfl
  | node a l r hl hr =>
    simp [hl, hr]
    omega

theorem join_child (s : Side) (a : α) (l r : BinaryTree α) :
    join s a (child s (.node a l r)) (child s.flip (.node a l r)) = .node a l r := by
  cases s <;> rfl

theorem join_flip (s : Side) (a : α) (near far : BinaryTree α) :
    join s.flip a near far = join s a far near := by
  cases s <;> rfl

@[simp] theorem height_join (s : Side) (a : α) (near far : BinaryTree α) :
    (join s a near far).height = max near.height far.height + 1 := by
  cases s
  · rfl
  · simp [join, height, max_comm]

@[simp] theorem balanced_join (s : Side) (a : α) (near far : BinaryTree α) :
    Balanced (join s a near far) ↔
      near.height ≤ far.height + 1 ∧ far.height ≤ near.height + 1 ∧
        Balanced near ∧ Balanced far := by
  cases s
  · rfl
  · simp only [join, Balanced]
    tauto

variable {near far : BinaryTree α} {s : Side} {a : α}

theorem mem_toList_join {b : α} :
    b ∈ toList (join s a near far) ↔ b ∈ toList near ∨ b = a ∨ b ∈ toList far := by
  cases s
  · simp [join]
  · simp only [join, toList_node, List.mem_append, List.mem_cons]
    tauto

theorem join_perm (s : Side) (a : α) (near far : BinaryTree α) :
    (toList (join s a near far)).Perm (a :: (toList near ++ toList far)) := by
  cases s
  · exact List.perm_middle
  · exact List.perm_middle.trans (List.perm_append_comm.cons a)

theorem nodup_join :
    (toList (join s a near far)).Nodup ↔
      (a :: (toList near ++ toList far)).Nodup :=
  (join_perm s a near far).nodup_iff

/-! ## Rotation and rebalancing -/

/-- Rotate towards side `s`: the far child becomes the root and the old root
its child on side `s`. -/
def rotate (s : Side) (a : α) (near far : BinaryTree α) : BinaryTree α :=
  match far with
  | .nil => join s a near .nil
  | .node p l r =>
      join s p (join s a near (child s (.node p l r))) (child s.flip (.node p l r))

/-- Before the outer rotation the far child must not lean towards side `s`. -/
def straighten (s : Side) (far : BinaryTree α) : BinaryTree α :=
  match far with
  | .nil => .nil
  | .node p l r =>
      if (child s.flip (.node p l r)).height < (child s (.node p l r)).height then
        rotate s.flip p (child s.flip (.node p l r)) (child s (.node p l r))
      else .node p l r

def lift (s : Side) (a : α) (near far : BinaryTree α) : BinaryTree α :=
  rotate s a near (straighten s far)

def rebalance : BinaryTree α → BinaryTree α
  | .nil => .nil
  | .node a l r =>
      if r.height + 1 < l.height then lift .right a r l
      else if l.height + 1 < r.height then lift .left a l r
      else .node a l r

@[simp] theorem rotate_join (s : Side) (a p : α) (near m y : BinaryTree α) :
    rotate s a near (join s p m y) = join s p (join s a near m) y := by
  cases s <;> rfl

theorem straighten_join (s : Side) (p : α) (m y : BinaryTree α) :
    straighten s (join s p m y) =
      if y.height < m.height then rotate s.flip p y m else join s p m y := by
  cases s <;> rfl

variable {t : BinaryTree α}

theorem exists_join (s : Side) (h : 0 < t.height) : ∃ a near far, t = join s a near far := by
  cases t with
  | nil => simp [height] at h
  | node a l r => exact ⟨a, _, _, (join_child s a l r).symm⟩

theorem toList_rotate (s : Side) (a : α) (near far : BinaryTree α) :
    toList (rotate s a near far) = toList (join s a near far) := by
  cases far with
  | nil => rfl
  | node p l r => cases s <;> simp [rotate, join, child]

/-- The inner rotation of a double rotation. -/
theorem rotate_flip_join (s : Side) (p q : α) (u v y : BinaryTree α) :
    rotate s.flip p y (join s q u v) = join s q u (join s p v y) := by
  rw [← join_flip s q v u, rotate_join, join_flip, join_flip]

theorem toList_join_join (s : Side) (p q : α) (u v y : BinaryTree α) :
    toList (join s q u (join s p v y)) = toList (join s p (join s q u v) y) := by
  rw [← rotate_flip_join, toList_rotate, join_flip]

theorem toList_straighten (s : Side) (far : BinaryTree α) :
    toList (straighten s far) = toList far := by
  cases far with
  | nil => rfl
  | node p l r =>
    simp only [straighten]
    split
    · rw [toList_rotate, join_flip, join_child]
    · rfl

theorem toList_join_congr {x x' y y' : BinaryTree α} (hx : toList x = toList x')
    (hy : toList y = toList y') : toList (join s a x y) = toList (join s a x' y') := by
  cases s <;> simp [join, hx, hy]

theorem toList_lift (s : Side) (a : α) (near far : BinaryTree α) :
    toList (lift s a near far) = toList (join s a near far) := by
  rw [lift, toList_rotate]
  exact toList_join_congr rfl (toList_straighten s far)

/-- Rebalancing only moves subtrees: the in-order traversal is unchanged. -/
@[simp] theorem toList_rebalance (t : BinaryTree α) : toList (rebalance t) = toList t := by
  cases t with
  | nil => rfl
  | node a l r =>
    simp only [rebalance]
    split
    · exact toList_lift .right a r l
    · split
      · exact toList_lift .left a l r
      · rfl

/-- A far child that is two levels taller is brought back within one level;
the whole node keeps its height or loses one level. -/
theorem lift_balanced (hn : Balanced near) (hf : Balanced far) (h : far.height = near.height + 2) :
    Balanced (lift s a near far) ∧
      ((lift s a near far).height = far.height ∨
        (lift s a near far).height = far.height + 1) := by
  obtain ⟨p, m, y, rfl⟩ := exists_join s (t := far) (by omega)
  rw [height_join] at h
  rw [balanced_join] at hf
  obtain ⟨h1, h2, hm, hy⟩ := hf
  unfold lift
  rw [straighten_join]
  split
  case isFalse hle =>
    simp only [rotate_join, balanced_join, height_join]
    refine ⟨⟨by omega, by omega, ⟨by omega, by omega, hn, hm⟩, hy⟩, by omega⟩
  case isTrue hlt =>
    -- the leaning middle subtree is nonempty and becomes the new root
    obtain ⟨q, u, v, rfl⟩ := exists_join s (t := m) (by omega)
    rw [height_join] at h h1 h2 hlt
    rw [balanced_join] at hm
    obtain ⟨h3, h4, hu, hv⟩ := hm
    rw [rotate_flip_join]
    simp only [rotate_join, balanced_join, height_join]
    refine ⟨⟨by omega, by omega, ⟨by omega, by omega, hn, hu⟩,
      ⟨by omega, by omega, hv, hy⟩⟩, by omega⟩

/-- One rebalancing step repairs a node whose child heights differ by at most
two. The result is as high as the higher child or one level higher. -/
theorem rebalance_balanced {l r : BinaryTree α} (hl : Balanced l) (hr : Balanced r)
    (h1 : l.height ≤ r.height + 2) (h2 : r.height ≤ l.height + 2) :
    Balanced (rebalance (.node a l r)) ∧
      max l.height r.height ≤ (rebalance (.node a l r)).height ∧
      (rebalance (.node a l r)).height ≤ max l.height r.height + 1 := by
  simp only [rebalance]
  split
  · obtain ⟨hb, hh⟩ := lift_balanced (s := .right) (a := a) hr hl (by omega)
    exact ⟨hb, by omega, by omega⟩
  · split
    · obtain ⟨hb, hh⟩ := lift_balanced (s := .left) (a := a) hl hr (by omega)
      exact ⟨hb, by omega, by omega⟩
    · simp only [Balanced, height]
      refine ⟨⟨by omega, by omega, hl, hr⟩, by omega, by omega⟩

/-- A node that is already within one level is left alone. -/
theorem rebalance_of_level {l r : BinaryTree α} (h1 : l.height ≤ r.height + 1)
    (h2 : r.height ≤ l.height + 1) : rebalance (.node a l r) = .node a l r := by
  rw [rebalance, if_neg (by omega), if_neg (by omega)]

/-- A balanced tree of height `h` holds at least `2 ^ (h / 2) - 1` elements. -/
theorem two_pow_height_le (h : Balanced t) : 2 ^ (t.height / 2) ≤ t.numNodes + 1 := by
  induction t with
  | nil => simp [height]
  | node a l r hl hr =>
    obtain ⟨h1, h2, bl, br⟩ := h
    have il := hl bl
    have ir := hr br
    simp only [height, numNodes]
    by_cases hz : max l.height r.height = 0
    · rw [hz]
      have : 2 ^ ((0 + 1) / 2) = 1 := rfl
      omega
    · obtain ⟨k, hk⟩ : ∃ k, max l.height r.height = k + 1 := ⟨_, (Nat.succ_pred hz).symm⟩
      have ml : 2 ^ (k / 2) ≤ 2 ^ (l.height / 2) :=
        Nat.pow_le_pow_right (by omega) (Nat.div_le_div_right (by omega))
      have mr : 2 ^ (k / 2) ≤ 2 ^ (r.height / 2) :=
        Nat.pow_le_pow_right (by omega) (Nat.div_le_div_right (by omega))
      have two : 2 ^ ((k + 1 + 1) / 2) = 2 * 2 ^ (k / 2) := by
        rw [show (k + 1 + 1) / 2 = k / 2 + 1 by omega, Nat.pow_succ, Nat.mul_comm]
      rw [hk, two]
      omega

/-- Fewer than `2 ^ k` elements keep a balanced tree at most `2 * k + 1` high. -/
theorem height_le_of_numNodes_lt (h : Balanced t) {k : Nat} (hk : t.numNodes + 1 < 2 ^ (k + 1)) :
    t.height ≤ 2 * k + 1 := by
  by_contra hc
  have hle : 2 ^ (k + 1) ≤ 2 ^ (t.height / 2) :=
    Nat.pow_le_pow_right (by omega) (by omega)
  have := two_pow_height_le h
  omega

/-! ## Ordered insertion -/

variable {x : α}

section Insert

variable [LinearOrder κ] (key : α → κ)

def insert (x : α) : BinaryTree α → BinaryTree α
  | .nil => .node x .nil .nil
  | .node a l r =>
      if key x < key a then rebalance (.node a (insert x l) r)
      else rebalance (.node a l (insert x r))

theorem insert_perm (x : α) (t : BinaryTree α) :
    (toList (insert key x t)).Perm (x :: toList t) := by
  induction t with
  | nil => simp [insert]
  | node a l r hl hr =>
    rw [insert]
    split
    · rw [toList_rebalance, toList_node, toList_node]
      exact hl.append_right (a :: toList r)
    · rw [toList_rebalance, toList_node, toList_node]
      calc
        (toList l ++ a :: toList (insert key x r)).Perm (toList l ++ a :: x :: toList r) :=
          (hr.cons a).append_left (toList l)
        List.Perm _ (toList l ++ x :: a :: toList r) :=
          (List.Perm.swap x a (toList r)).append_left (toList l)
        List.Perm _ (x :: (toList l ++ a :: toList r)) := List.perm_middle

theorem mem_insert {b : α} : b ∈ toList (insert key x t) ↔ b = x ∨ b ∈ toList t := by
  rw [(insert_perm key x t).mem_iff, List.mem_cons]

theorem insert_ordered (ht : Ordered key t) (hx : ∀ a ∈ toList t, key a ≠ key x) :
    Ordered key (insert key x t) := by
  induction t with
  | nil => simp [insert, Ordered]
  | node a l r hl hr =>
    unfold Ordered at ht
    rw [toList_node, List.pairwise_append] at ht
    obtain ⟨ol, oar, cross⟩ := ht
    obtain ⟨ar, or⟩ := List.pairwise_cons.mp oar
    have il := hl ol (fun b hb => hx b (by simp [hb]))
    have ir := hr or (fun b hb => hx b (by simp [hb]))
    have hax : key a ≠ key x := hx a (by simp)
    rw [insert]
    split
    case isTrue hlt =>
      unfold Ordered
      rw [toList_rebalance, toList_node, List.pairwise_append]
      refine ⟨il, oar, ?_⟩
      intro b hb c hc
      rcases (mem_insert key).mp hb with rfl | hb
      · rcases List.mem_cons.mp hc with rfl | hc
        · exact hlt
        · exact hlt.trans (ar c hc)
      · exact cross b hb c hc
    case isFalse hge =>
      have hgt : key a < key x := lt_of_le_of_ne (not_lt.mp hge) hax
      unfold Ordered
      rw [toList_rebalance, toList_node, List.pairwise_append]
      refine ⟨ol, List.pairwise_cons.mpr ⟨?_, ir⟩, ?_⟩
      · intro c hc
        rcases (mem_insert key).mp hc with rfl | hc
        · exact hgt
        · exact ar c hc
      · intro b hb c hc
        rcases List.mem_cons.mp hc with rfl | hc
        · exact cross b hb c (by simp)
        · rcases (mem_insert key).mp hc with rfl | hc
          · exact (cross b hb a (by simp)).trans hgt
          · exact cross b hb c (by simp [hc])

/-- Insertion keeps the balance and grows the tree by at most one level. -/
theorem insert_balanced (ht : Balanced t) :
    Balanced (insert key x t) ∧ t.height ≤ (insert key x t).height ∧
      (insert key x t).height ≤ t.height + 1 := by
  induction t with
  | nil => simp [insert, Balanced, height]
  | node a l r hl hr =>
    obtain ⟨h1, h2, bl, br⟩ := ht
    obtain ⟨cl, ll, ul⟩ := hl bl
    obtain ⟨cr, lr, ur⟩ := hr br
    rw [insert]
    split
    · by_cases hlev : (insert key x l).height ≤ r.height + 1
      · rw [rebalance_of_level hlev (by omega)]
        simp only [Balanced, height]
        exact ⟨⟨hlev, by omega, cl, br⟩, by omega, by omega⟩
      · obtain ⟨hb, hlo, hhi⟩ :=
          rebalance_balanced (a := a) cl br (by omega) (by omega)
        simp only [height]
        exact ⟨hb, by omega, by omega⟩
    · by_cases hlev : (insert key x r).height ≤ l.height + 1
      · rw [rebalance_of_level (by omega) hlev]
        simp only [Balanced, height]
        exact ⟨⟨by omega, hlev, bl, cr⟩, by omega, by omega⟩
      · obtain ⟨hb, hlo, hhi⟩ :=
          rebalance_balanced (a := a) bl cr (by omega) (by omega)
        simp only [height]
        exact ⟨hb, by omega, by omega⟩

end Insert

/-! ## Paths and bottom-up repair -/

/-- One step of a path: the hole is the child on `side`, `sibling` the other. -/
structure Frame (α : Type*) where
  side : Side
  value : α
  sibling : BinaryTree α

def plug (f : Frame α) (t : BinaryTree α) : BinaryTree α :=
  join f.side f.value t f.sibling

/-- Fill the hole of a path, innermost frame first. -/
def plugAll : List (Frame α) → BinaryTree α → BinaryTree α
  | [], t => t
  | f :: fs, t => plugAll fs (plug f t)

/-- Refill the hole and rebalance every node of the path on the way up. -/
def restore : List (Frame α) → BinaryTree α → BinaryTree α
  | [], t => t
  | f :: fs, t => restore fs (rebalance (plug f t))

@[simp] theorem plugAll_append (fs gs : List (Frame α)) (t : BinaryTree α) :
    plugAll (fs ++ gs) t = plugAll gs (plugAll fs t) := by
  induction fs generalizing t with
  | nil => rfl
  | cons f fs ih => simp [plugAll, ih]

variable {fs : List (Frame α)}

theorem toList_plugAll_congr {u : BinaryTree α} (h : toList t = toList u) :
    toList (plugAll fs t) = toList (plugAll fs u) := by
  induction fs generalizing t u with
  | nil => exact h
  | cons f fs ih => exact ih (toList_join_congr h rfl)

@[simp] theorem toList_restore (fs : List (Frame α)) (t : BinaryTree α) :
    toList (restore fs t) = toList (plugAll fs t) := by
  induction fs generalizing t with
  | nil => rfl
  | cons f fs ih =>
    rw [restore, ih, plugAll]
    exact toList_plugAll_congr (toList_rebalance (plug f t))

/-- The elements before and after the hole in the in-order traversal. -/
def around : List (Frame α) → List α × List α
  | [] => ([], [])
  | f :: fs =>
      match f.side with
      | .left => ((around fs).1, f.value :: toList f.sibling ++ (around fs).2)
      | .right => ((around fs).1 ++ toList f.sibling ++ [f.value], (around fs).2)

theorem toList_plugAll (fs : List (Frame α)) (t : BinaryTree α) :
    toList (plugAll fs t) = (around fs).1 ++ toList t ++ (around fs).2 := by
  induction fs generalizing t with
  | nil => simp [plugAll, around]
  | cons f fs ih =>
    rw [plugAll, ih]
    cases hs : f.side <;> simp [plug, join, around, hs]

/-- Along left frames the hole comes first, so the leftmost node can be cut. -/
theorem toList_plugAll_lefts {gs : List (Frame α)} (lefts : ∀ g ∈ gs, g.side = .left) (m : α)
    (u : BinaryTree α) : toList (plugAll gs (.node m .nil u)) = m :: toList (plugAll gs u) := by
  have first : (around gs).1 = [] := by
    induction gs with
    | nil => rfl
    | cons g gs ih =>
      simp only [around, lefts g List.mem_cons_self]
      exact ih fun f hf => lefts f (List.mem_cons_of_mem _ hf)
  rw [toList_plugAll, toList_plugAll, first]
  simp

/-- The elements of a path outside its hole. -/
def pathList : List (Frame α) → List α
  | [] => []
  | f :: fs => f.value :: (toList f.sibling ++ pathList fs)

@[simp] theorem pathList_append (fs gs : List (Frame α)) :
    pathList (fs ++ gs) = pathList fs ++ pathList gs := by
  induction fs with
  | nil => rfl
  | cons f fs ih => simp [pathList, ih]

theorem length_le_pathList (fs : List (Frame α)) : fs.length ≤ (pathList fs).length := by
  induction fs with
  | nil => rfl
  | cons f fs ih =>
    simp only [pathList, List.length_cons, List.length_append]
    omega

theorem plugAll_perm (fs : List (Frame α)) (t : BinaryTree α) :
    (toList (plugAll fs t)).Perm (toList t ++ pathList fs) := by
  induction fs generalizing t with
  | nil => simp [plugAll, pathList]
  | cons f fs ih =>
    rw [plugAll, pathList]
    calc
      (toList (plugAll fs (plug f t))).Perm (toList (plug f t) ++ pathList fs) := ih _
      List.Perm _ (f.value :: (toList t ++ toList f.sibling) ++ pathList fs) :=
        (join_perm f.side f.value t f.sibling).append_right _
      _ = f.value :: (toList t ++ (toList f.sibling ++ pathList fs)) := by simp
      List.Perm _ (toList t ++ f.value :: (toList f.sibling ++ pathList fs)) :=
        List.perm_middle.symm

/-- Every element has a path leading to the subtree it roots. -/
theorem exists_plugAll_of_mem (h : x ∈ toList t) : ∃ fs l r, plugAll fs (.node x l r) = t := by
  induction t with
  | nil => simp at h
  | node a l r hl hr =>
    rw [toList_node, List.mem_append, List.mem_cons] at h
    rcases h with h | rfl | h
    · obtain ⟨fs, u, v, rfl⟩ := hl h
      exact ⟨fs ++ [⟨.left, a, r⟩], u, v, by simp [plugAll, plug, join]⟩
    · exact ⟨[], l, r, rfl⟩
    · obtain ⟨fs, u, v, rfl⟩ := hr h
      exact ⟨fs ++ [⟨.right, a, l⟩], u, v, by simp [plugAll, plug, join]⟩

/-- The leftmost node of a nonempty tree, reached through left frames only. -/
theorem exists_minimum (a : α) (l r : BinaryTree α) :
    ∃ gs m u, plugAll gs (.node m .nil u) = .node a l r ∧ ∀ g ∈ gs, g.side = .left := by
  induction l generalizing a r with
  | nil => exact ⟨[], a, r, rfl, by simp⟩
  | node b v w hv _ =>
    obtain ⟨gs, m, u, hp, hs⟩ := hv b w
    refine ⟨gs ++ [⟨.left, a, r⟩], m, u, by simp [hp, plugAll, plug, join], ?_⟩
    intro g hg
    rcases List.mem_append.mp hg with hg | hg
    · exact hs g hg
    · rw [List.mem_singleton.mp hg]

/-- The path is balanced around a hole of height `h`. -/
def Fits : List (Frame α) → Nat → Prop
  | [], _ => True
  | f :: fs, h =>
      h ≤ f.sibling.height + 1 ∧ f.sibling.height ≤ h + 1 ∧ Balanced f.sibling ∧
        Fits fs (max h f.sibling.height + 1)

theorem balanced_plugAll (fs : List (Frame α)) (t : BinaryTree α) :
    Balanced (plugAll fs t) ↔ Balanced t ∧ Fits fs t.height := by
  induction fs generalizing t with
  | nil => simp [plugAll, Fits]
  | cons f fs ih =>
    rw [plugAll, ih, plug, balanced_join, height_join, Fits]
    tauto

variable {h : Nat}

/-- Only the sibling of a frame matters for the balance of a path. -/
theorem Fits.setValue {gs : List (Frame α)} {b : α} {y : BinaryTree α}
    (hf : Fits (gs ++ ⟨s, a, y⟩ :: fs) h) : Fits (gs ++ ⟨s, b, y⟩ :: fs) h := by
  induction gs generalizing h with
  | nil => exact hf
  | cons g gs ih => exact ⟨hf.1, hf.2.1, hf.2.2.1, ih hf.2.2.2⟩

/-- A frame around a hole of height `h` that lost at most one level is
rebalanced into a tree that lost at most one level. -/
theorem rebalance_plug {f : Frame α} (ht : Balanced t) (hs : Balanced f.sibling)
    (h1 : h ≤ f.sibling.height + 1) (h2 : f.sibling.height ≤ h + 1)
    (hh : t.height = h ∨ t.height + 1 = h) :
    Balanced (rebalance (plug f t)) ∧
      ((rebalance (plug f t)).height = max h f.sibling.height + 1 ∨
        (rebalance (plug f t)).height + 1 = max h f.sibling.height + 1) := by
  cases f with
  | mk s a y =>
    dsimp only at h1 h2 hs ⊢
    cases s with
    | left =>
      by_cases hlev : y.height ≤ t.height + 1
      · rw [plug, join, rebalance_of_level (by omega) hlev]
        simp only [Balanced, height]
        exact ⟨⟨by omega, hlev, ht, hs⟩, by omega⟩
      · have step := rebalance_balanced (a := a) ht hs (by omega) (by omega)
        exact ⟨step.1, by simp only [plug, join]; omega⟩
    | right =>
      by_cases hlev : y.height ≤ t.height + 1
      · rw [plug, join, rebalance_of_level hlev (by omega)]
        simp only [Balanced, height]
        exact ⟨⟨hlev, by omega, hs, ht⟩, by omega⟩
      · have step := rebalance_balanced (a := a) hs ht (by omega) (by omega)
        exact ⟨step.1, by simp only [plug, join]; omega⟩

/-- Putting a subtree that lost at most one level back into a balanced path
and rebalancing upwards gives a balanced tree. -/
theorem restore_balanced (hf : Fits fs h) (ht : Balanced t) (hh : t.height = h ∨ t.height + 1 = h) :
    Balanced (restore fs t) := by
  induction fs generalizing h t with
  | nil => exact ht
  | cons f fs ih =>
    obtain ⟨h1, h2, hs, hrest⟩ := hf
    have step := rebalance_plug ht hs h1 h2 hh
    rw [restore]
    exact ih hrest step.1 step.2

end Dope.Avl
