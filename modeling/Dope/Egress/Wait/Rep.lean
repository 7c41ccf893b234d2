import Dope.Egress.Wait.Tree
import Mathlib.Data.List.Nodup
import Mathlib.Tactic.Tauto

/-! # Linked trees and the balanced trees they represent

`Rep nodes root t` reads the links of the plane from `root` as the pure tree
`t`: every non-root cell points back to its parent, and the cached height and
oldest ticket of every cell are those of the subtree below it. The parent of
the root itself is left open, since the callers of `Edit` fix it afterwards.

Each mutation is described once, by the cells it writes. Trees that avoid
those cells keep their representation (`Rep.move`), and the rotation and
rebalancing lemmas below follow the pure operations of `Dope.Avl`.
-/

namespace Dope.Egress.Wait

open Dope.Avl BinaryTree

variable {n : Nat} {nodes nodes' nodes'' : Nodes n}

/-! ## What an edit may change -/

/-- The request data of a cell; no edit ever writes it. -/
def Node.data (node : Node n) : Nat × Nat × Entries :=
  (node.ticket, node.resident, node.entries)

/-- An edit confined to `cells`. -/
structure Touches (cells : List (Fin n)) (nodes nodes' : Nodes n) : Prop where
  data : ∀ i, (nodes' i).data = (nodes i).data
  frame : ∀ i, i ∉ cells → nodes' i = nodes i

theorem Touches.refl (cells : List (Fin n)) (nodes : Nodes n) : Touches cells nodes nodes :=
  ⟨fun _ => rfl, fun _ _ => rfl⟩

variable {cells : List (Fin n)}

theorem Touches.trans (h₁ : Touches cells nodes nodes') (h₂ : Touches cells nodes' nodes'') :
    Touches cells nodes nodes'' :=
  ⟨fun i => (h₂.data i).trans (h₁.data i), fun i hi => (h₂.frame i hi).trans (h₁.frame i hi)⟩

theorem Touches.mono {more : List (Fin n)} (h : Touches cells nodes nodes')
    (sub : ∀ i ∈ cells, i ∈ more) : Touches more nodes nodes' :=
  ⟨h.data, fun i hi => h.frame i fun hc => hi (sub i hc)⟩

theorem Touches.ticket (h : Touches cells nodes nodes') (i : Fin n) :
    (nodes' i).ticket = (nodes i).ticket :=
  congrArg Prod.fst (h.data i)

theorem Touches.resident (h : Touches cells nodes nodes') (i : Fin n) :
    (nodes' i).resident = (nodes i).resident :=
  congrArg (fun d => d.2.1) (h.data i)

/-! ## Cell updates -/

@[simp] theorem Nodes.modify_self (nodes : Nodes n) (i : Fin n) (f : Node n → Node n) :
    nodes.modify i f i = f (nodes i) := by
  simp [Nodes.modify]

variable {i : Fin n}

theorem Nodes.modify_of_ne (nodes : Nodes n) {j : Fin n} (f : Node n → Node n) (h : j ≠ i) :
    nodes.modify i f j = nodes j := by
  simp [Nodes.modify, h]

theorem Nodes.modify_touches (nodes : Nodes n) {f : Node n → Node n} (hi : i ∈ cells)
    (hf : (f (nodes i)).data = (nodes i).data) : Touches cells nodes (nodes.modify i f) := by
  constructor
  · intro j
    by_cases h : j = i
    · subst h; simpa using hf
    · rw [Nodes.modify_of_ne _ _ h]
  · intro j hj
    exact Nodes.modify_of_ne _ _ (fun h => hj (h ▸ hi))

@[simp] theorem Node.child_setChild (node : Node n) (s : Side) (c : Option (Fin n)) :
    (node.setChild s c).child s = c := by
  cases s <;> rfl

@[simp] theorem Node.child_flip_setChild (node : Node n) (s : Side) (c : Option (Fin n)) :
    (node.setChild s c).child s.flip = node.child s.flip := by
  cases s <;> rfl

@[simp] theorem Node.child_setChild_flip (node : Node n) (s : Side) (c : Option (Fin n)) :
    (node.setChild s.flip c).child s = node.child s := by
  cases s <;> rfl

@[simp] theorem Node.child_setParent (node : Node n) (s : Side) (p : Option (Fin n)) :
    (node.setParent p).child s = node.child s := by
  cases s <;> rfl

@[simp] theorem Node.parent_setParent (node : Node n) (p : Option (Fin n)) :
    (node.setParent p).parent = p := rfl

@[simp] theorem Node.parent_setChild (node : Node n) (s : Side) (c : Option (Fin n)) :
    (node.setChild s c).parent = node.parent := by
  cases s <;> rfl

@[simp] theorem Node.data_setChild (node : Node n) (s : Side) (c : Option (Fin n)) :
    (node.setChild s c).data = node.data := by
  cases s <;> rfl

@[simp] theorem Node.data_setParent (node : Node n) (p : Option (Fin n)) :
    (node.setParent p).data = node.data := rfl

@[simp] theorem Node.setParent_setParent (node : Node n) (p q : Option (Fin n)) :
    (node.setParent p).setParent q = node.setParent q := rfl

theorem Nodes.setParent_touches (nodes : Nodes n) {p : Option (Fin n)} (hi : i ∈ cells) :
    Touches cells nodes (nodes.modify i fun node => node.setParent p) :=
  Nodes.modify_touches nodes hi (Node.data_setParent _ _)

theorem Node.child_eq_of_setParent {a b : Node n} (h : a.setParent none = b.setParent none)
    (s : Side) : a.child s = b.child s := by
  rw [← Node.child_setParent a s none, h, Node.child_setParent]

theorem Node.eq_of_setParent {a b : Node n} (h : a.setParent none = b.setParent none)
    (up : a.parent = b.parent) : a = b := by
  calc
    a = (a.setParent none).setParent a.parent := rfl
    _ = (b.setParent none).setParent b.parent := by rw [h, up]
    _ = b := rfl

/-! ## Representation -/

/-- The oldest ticket below a node, combined in the order of `update`. -/
def oldestOf (nodes : Nodes n) : BinaryTree (Fin n) → Option (Oldest n)
  | .nil => none
  | .node a l r =>
      Oldest.best (Oldest.best (oldestOf nodes l) (some ⟨(nodes a).ticket, a⟩)) (oldestOf nodes r)

/-- The cached fields of `a` describe the subtree `t`. -/
def Cached (nodes : Nodes n) (a : Fin n) (t : BinaryTree (Fin n)) : Prop :=
  (nodes a).height = t.height ∧ (nodes a).oldest = oldestOf nodes t

def Rep (nodes : Nodes n) : Option (Fin n) → BinaryTree (Fin n) → Prop
  | root, .nil => root = none
  | root, .node a l r =>
      root = some a ∧
        (Rep nodes (nodes a).left l ∧ ∀ c, (nodes a).left = some c → (nodes c).parent = some a) ∧
        (Rep nodes (nodes a).right r ∧ ∀ c, (nodes a).right = some c → (nodes c).parent = some a) ∧
        Cached nodes a (.node a l r)

/-- The child of `a` on side `s` is the tree `t`, linked back to `a`. -/
def Hangs (nodes : Nodes n) (a : Fin n) (s : Side) (t : BinaryTree (Fin n)) : Prop :=
  Rep nodes ((nodes a).child s) t ∧ ∀ c, (nodes a).child s = some c → (nodes c).parent = some a

variable {root : Option (Fin n)} {a : Fin n}

theorem rep_node {l r : BinaryTree (Fin n)} :
    Rep nodes root (.node a l r) ↔
      root = some a ∧ Hangs nodes a .left l ∧ Hangs nodes a .right r ∧
        Cached nodes a (.node a l r) := Iff.rfl

variable {s : Side}

theorem rep_join {x y : BinaryTree (Fin n)} :
    Rep nodes root (join s a x y) ↔
      root = some a ∧ Hangs nodes a s x ∧ Hangs nodes a s.flip y ∧
        Cached nodes a (join s a x y) := by
  cases s
  · exact rep_node
  · simp only [join, rep_node, Side.flip_right]
    tauto

variable {t : BinaryTree (Fin n)}

theorem Rep.mem {c : Fin n} (h : Rep nodes (some c) t) : c ∈ toList t := by
  cases t with
  | nil => simp [Rep] at h
  | node a l r =>
    obtain ⟨rfl⟩ := Option.some.inj h.1
    simp

theorem oldestOf_congr (h : ∀ i ∈ toList t, (nodes' i).ticket = (nodes i).ticket) :
    oldestOf nodes' t = oldestOf nodes t := by
  induction t with
  | nil => rfl
  | node a l r hl hr =>
    simp only [oldestOf]
    rw [hl fun i hi => h i (by simp [hi]), hr fun i hi => h i (by simp [hi]),
      h a (by simp)]

section

variable (h : Rep nodes root t)

include h

/-- A tree keeps its representation when its cells change in nothing but the
parent link of its root. -/
theorem Rep.move (nd : (toList t).Nodup)
    (same : ∀ i ∈ toList t, (nodes' i).setParent none = (nodes i).setParent none)
    (up : ∀ i ∈ toList t, root ≠ some i → (nodes' i).parent = (nodes i).parent) :
    Rep nodes' root t := by
  induction t generalizing root with
  | nil => exact h
  | node a l r hl hr =>
    obtain ⟨rfl, ⟨repl, upl⟩, ⟨repr, upr⟩, hgt, old⟩ := h
    rw [toList_node, List.nodup_middle, List.nodup_cons, List.nodup_append] at nd
    obtain ⟨na, ndl, ndr, disj⟩ := nd
    have ma : a ∈ toList (.node a l r) := by simp
    have ml : ∀ i ∈ toList l, i ∈ toList (.node a l r) := fun i hi => by simp [hi]
    have mr : ∀ i ∈ toList r, i ∈ toList (.node a l r) := fun i hi => by simp [hi]
    have nel : ∀ i ∈ toList l, some a ≠ some i := by
      rintro i hi ⟨⟩
      exact na (by simp [hi])
    have ner : ∀ i ∈ toList r, some a ≠ some i := by
      rintro i hi ⟨⟩
      exact na (by simp [hi])
    have cl : (nodes' a).left = (nodes a).left := Node.child_eq_of_setParent (same a ma) .left
    have cr : (nodes' a).right = (nodes a).right := Node.child_eq_of_setParent (same a ma) .right
    refine ⟨rfl, ⟨?_, ?_⟩, ⟨?_, ?_⟩, ?_, ?_⟩
    · rw [cl]
      exact hl repl ndl (fun i hi => same i (ml i hi)) fun i hi _ => up i (ml i hi) (nel i hi)
    · intro c hc
      rw [cl] at hc
      rw [hc] at repl
      rw [up c (ml c repl.mem) (nel c repl.mem)]
      exact upl c hc
    · rw [cr]
      exact hr repr ndr (fun i hi => same i (mr i hi)) fun i hi _ => up i (mr i hi) (ner i hi)
    · intro c hc
      rw [cr] at hc
      rw [hc] at repr
      rw [up c (mr c repr.mem) (ner c repr.mem)]
      exact upr c hc
    · exact (congrArg Node.height (same a ma)).trans hgt
    · have tick : ∀ i ∈ toList (.node a l r), (nodes' i).ticket = (nodes i).ticket := by
        intro i hi
        have h := congrArg Node.ticket (same i hi)
        exact h
      rw [oldestOf_congr tick]
      exact (congrArg Node.oldest (same a ma)).trans old

theorem Rep.congr (nd : (toList t).Nodup) (same : ∀ i ∈ toList t, nodes' i = nodes i) :
    Rep nodes' root t :=
  h.move nd (fun i hi => by rw [same i hi]) fun i hi _ => by rw [same i hi]

theorem Rep.height : Node.heightAt nodes root = t.height := by
  cases t with
  | nil => rw [show root = none from h]; rfl
  | node a l r =>
    obtain ⟨rfl, -, -, hgt, -⟩ := h
    exact hgt

theorem Rep.oldest : Oldest.at nodes root = oldestOf nodes t := by
  cases t with
  | nil => rw [show root = none from h]; rfl
  | node a l r =>
    obtain ⟨rfl, -, -, -, old⟩ := h
    exact old

theorem Rep.root_eq_some (ht : 0 < t.height) : ∃ c, root = some c := by
  cases t with
  | nil => simp [BinaryTree.height] at ht
  | node a l r => exact ⟨a, h.1⟩

theorem Rep.root_of_mem {x : Fin n} (hx : x ∈ toList t) : ∃ c, root = some c := by
  cases t with
  | nil => simp at hx
  | node a l r => exact ⟨a, h.1⟩

theorem Rep.root_of_ne_nil (ht : t ≠ .nil) : ∃ c, root = some c := by
  cases t with
  | nil => exact absurd rfl ht
  | node a l r => exact ⟨a, h.1⟩

end

/-- A whole tree: the root has no parent. -/
structure Rooted (nodes : Nodes n) (root : Option (Fin n)) (t : BinaryTree (Fin n)) : Prop where
  rep : Rep nodes root t
  top : ∀ r, root = some r → (nodes r).parent = none

theorem Rooted.congr (h : Rooted nodes root t) (nd : (toList t).Nodup)
    (same : ∀ i ∈ toList t, nodes' i = nodes i) : Rooted nodes' root t := by
  constructor
  · exact h.rep.congr nd same
  · intro r hr
    have rep := h.rep
    rw [hr] at rep
    rw [same r rep.mem]
    exact h.top r hr

/-- Clearing the parent link of a subtree root turns it into a whole tree. -/
theorem Rep.detach {r : Fin n} (h : Rep nodes (some r) t) (nd : (toList t).Nodup) :
    Rooted (nodes.modify r fun node => node.setParent none) (some r) t := by
  constructor
  · apply h.move nd
    · intro i _
      by_cases hi : i = r
      · subst hi
        rw [Nodes.modify_self, Node.setParent_setParent]
      · rw [Nodes.modify_of_ne _ _ hi]
    · intro i _ hne
      rw [Nodes.modify_of_ne _ _ fun e => hne (by rw [e])]
  · intro c hc
    obtain rfl := Option.some.inj hc
    rw [Nodes.modify_self, Node.parent_setParent]

/-- Moving a hanging tree: its parent cell may change everything but the link. -/
theorem Hangs.move (h : Hangs nodes a s t) (nd : (toList t).Nodup)
    (link : (nodes' a).child s = (nodes a).child s) (same : ∀ i ∈ toList t, nodes' i = nodes i) :
    Hangs nodes' a s t := by
  constructor
  · rw [link]
    exact h.1.congr nd same
  · intro c hc
    rw [link] at hc
    have rep := h.1
    rw [hc] at rep
    rw [same c rep.mem]
    exact h.2 c hc

/-! ## Linking a child -/

variable {c : Option (Fin n)} {p : Fin n}

namespace Edit

theorem link_self (h : c ≠ some p) : link s nodes p c p = (nodes p).setChild s c := by
  cases c with
  | none => simp [link]
  | some c =>
    have : p ≠ c := fun e => h (by rw [e])
    simp [link, Nodes.modify_of_ne _ _ this]

theorem link_child {c : Fin n} (h : c ≠ p) :
    link s nodes p (some c) c = (nodes c).setParent (some p) := by
  simp [link, Nodes.modify_of_ne _ _ h]

theorem link_other (hp : i ≠ p) (hc : c ≠ some i) : link s nodes p c i = nodes i := by
  cases c with
  | none => simp [link, Nodes.modify_of_ne _ _ hp]
  | some c =>
    have : i ≠ c := fun e => hc (by rw [e])
    simp [link, Nodes.modify_of_ne _ _ hp, Nodes.modify_of_ne _ _ this]

theorem link_touches (hp : p ∈ cells) (hc : ∀ i, c = some i → i ∈ cells) :
    Touches cells nodes (link s nodes p c) := by
  have first : Touches cells nodes (nodes.modify p fun node => node.setChild s c) :=
    Nodes.modify_touches nodes hp (by simp)
  cases c with
  | none => exact first
  | some c =>
    have second := Nodes.modify_touches (nodes.modify p fun node => node.setChild s (some c))
      (f := fun node => node.setParent (some p)) (hc c rfl) rfl
    exact first.trans second

theorem link_setParent (hp : i ≠ p) :
    (link s nodes p c i).setParent none = (nodes i).setParent none := by
  by_cases hc : c = some i
  · subst hc
    rw [link_child hp, Node.setParent_setParent]
  · rw [link_other hp hc]

/-- A tree disjoint from its new parent hangs from it after linking. -/
theorem link_hangs (h : Rep nodes c t) (nd : (toList t).Nodup) (hp : p ∉ toList t) :
    Hangs (link s nodes p c) p s t := by
  have hne : c ≠ some p := by
    rintro rfl
    exact hp h.mem
  constructor
  · rw [link_self hne, Node.child_setChild]
    have away : ∀ i ∈ toList t, i ≠ p := by
      rintro i hi rfl
      exact hp hi
    refine h.move nd (fun i hi => link_setParent (away i hi)) ?_
    intro i hi hroot
    rw [link_other (away i hi) hroot]
  · intro i hi
    rw [link_self hne, Node.child_setChild] at hi
    subst hi
    have : i ≠ p := fun e => hne (by rw [e])
    rw [link_child this, Node.parent_setParent]

/-- Linking one child leaves the tree on the other side hanging. -/
theorem link_hangs_flip {u : BinaryTree (Fin n)} (hc : Rep nodes c t) (h : Hangs nodes p s.flip u)
    (nd : (toList u).Nodup) (hp : p ∉ toList u) (hpt : p ∉ toList t)
    (disj : ∀ i ∈ toList u, i ∉ toList t) : Hangs (link s nodes p c) p s.flip u := by
  have hne : c ≠ some p := by
    rintro rfl
    exact hpt hc.mem
  refine h.move nd (by rw [link_self hne, Node.child_flip_setChild]) ?_
  intro i hi
  refine link_other (fun e => hp (e ▸ hi)) ?_
  rintro rfl
  exact disj i hi hc.mem

/-! ## Recomputing the cached fields -/

theorem update_of_ne (h : i ≠ a) : update nodes a i = nodes i := by
  unfold update
  exact Nodes.modify_of_ne _ _ h

theorem update_child (a : Fin n) (s : Side) (i : Fin n) :
    (update nodes a i).child s = (nodes i).child s := by
  by_cases h : i = a
  · subst h
    cases s <;> simp [update, Node.child]
  · rw [update_of_ne h]

theorem update_parent (a i : Fin n) : (update nodes a i).parent = (nodes i).parent := by
  by_cases h : i = a
  · subst h
    simp [update]
  · rw [update_of_ne h]

theorem update_touches (h : a ∈ cells) : Touches cells nodes (update nodes a) := by
  unfold update
  exact Nodes.modify_touches nodes h rfl

/-- After `update` a cell with represented children represents its own tree. -/
theorem update_rep {l r : BinaryTree (Fin n)} (hl : Hangs nodes a .left l)
    (hr : Hangs nodes a .right r) (nd : (toList (.node a l r)).Nodup)
    (hh : (BinaryTree.node a l r).height < 2 ^ 8) :
    Rep (update nodes a) (some a) (.node a l r) := by
  have touch : Touches [a] nodes (update nodes a) := update_touches (by simp)
  rw [toList_node, List.nodup_middle, List.nodup_cons, List.nodup_append] at nd
  obtain ⟨na, ndl, ndr, -⟩ := nd
  have keep : ∀ i, i ∈ toList l ++ toList r → update nodes a i = nodes i :=
    fun i hi => update_of_ne (fun e => na (e ▸ hi))
  refine rep_node.mpr ⟨rfl, ?_, ?_, ?_, ?_⟩
  · exact hl.move ndl (update_child a .left a) fun i hi => keep i (by simp [hi])
  · exact hr.move ndr (update_child a .right a) fun i hi => keep i (by simp [hi])
  · have hgt : (update nodes a a).height =
        (max (Node.heightAt nodes (nodes a).left) (Node.heightAt nodes (nodes a).right) + 1) %
          2 ^ 8 := by
      simp [update]
    rw [hgt, show Node.heightAt nodes (nodes a).left = l.height from hl.1.height,
      show Node.heightAt nodes (nodes a).right = r.height from hr.1.height]
    exact Nat.mod_eq_of_lt hh
  · have old : (update nodes a a).oldest =
        Oldest.best (Oldest.best (Oldest.at nodes (nodes a).left) (some ⟨(nodes a).ticket, a⟩))
          (Oldest.at nodes (nodes a).right) := by
      simp [update]
    have same : oldestOf (update nodes a) (.node a l r) = oldestOf nodes (.node a l r) :=
      oldestOf_congr fun i _ => touch.ticket i
    rw [old, same,
      show Oldest.at nodes (nodes a).left = oldestOf nodes l from hl.1.oldest,
      show Oldest.at nodes (nodes a).right = oldestOf nodes r from hr.1.oldest]
    rfl

theorem update_rep_join {x y : BinaryTree (Fin n)} (hx : Hangs nodes a s x)
    (hy : Hangs nodes a s.flip y) (nd : (a :: (toList x ++ toList y)).Nodup)
    (hh : (join s a x y).height < 2 ^ 8) : Rep (update nodes a) (some a) (join s a x y) := by
  rw [← nodup_join (s := s)] at nd
  cases s
  · exact update_rep hx hy nd hh
  · exact update_rep hy hx nd hh

end Edit

end Dope.Egress.Wait
