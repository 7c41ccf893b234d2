import Dope.Egress.Wait.Edit

/-! # Removal from a linked tree

Removal works on a path: `Climbs nodes fs c d` says that the links from cell
`c` upwards are the frames `fs` and end at cell `d`. The cached fields along a
path may be stale; `restore` recomputes them on the way up. A cell with two
children is replaced by the least cell of its right subtree, so the repair
then starts inside that subtree.
-/

namespace Dope.Egress.Wait

open Dope.Avl BinaryTree

variable {n : Nat} {nodes nodes' : Nodes n}

/-! ## Paths -/

/-- The links from `c` upwards follow the frames `fs` and end at `d`. -/
def Climbs (nodes : Nodes n) : List (Frame (Fin n)) → Fin n → Fin n → Prop
  | [], c, d => c = d
  | f :: fs, c, d =>
      (nodes c).parent = some f.value ∧ (nodes f.value).child f.side = some c ∧
        Hangs nodes f.value f.side.flip f.sibling ∧ Climbs nodes fs f.value d

variable {fs gs : List (Frame (Fin n))} {d c : Fin n}

theorem climbs_append :
    Climbs nodes (fs ++ gs) c d ↔ ∃ e, Climbs nodes fs c e ∧ Climbs nodes gs e d := by
  induction fs generalizing c with
  | nil => simp [Climbs]
  | cons f fs ih =>
    simp only [List.cons_append, Climbs, ih]
    tauto

theorem Climbs.top_mem (h : Climbs nodes fs c d) : d ∈ c :: pathList fs := by
  induction fs generalizing c with
  | nil => simp [show c = d from h]
  | cons f fs ih =>
    have rest := ih h.2.2.2
    simp only [pathList, List.mem_cons, List.mem_append] at rest ⊢
    tauto

variable {t : BinaryTree (Fin n)}

/-- A represented tree gives the path to each of its subtrees. -/
theorem Climbs.of_rep (h : Rep nodes (some d) (plugAll fs t)) (ht : 0 < t.height) :
    ∃ c, Rep nodes (some c) t ∧ Climbs nodes fs c d := by
  induction fs generalizing t with
  | nil => exact ⟨d, h, rfl⟩
  | cons f fs ih =>
    obtain ⟨b, rep, climb⟩ := ih h (by rw [plug, height_join]; omega)
    obtain ⟨hb, hole, sib, -⟩ := rep_join.mp rep
    obtain rfl := Option.some.inj hb
    obtain ⟨c, hc⟩ := hole.1.root_eq_some ht
    have rep' := hole.1
    rw [hc] at rep'
    exact ⟨c, rep', hole.2 c hc, hc, sib, climb⟩

/-- A path survives an edit that leaves its cells alone, apart from the parent
link of its top. -/
theorem Climbs.move (h : Climbs nodes fs c d) (nd : (c :: pathList fs).Nodup)
    (same : ∀ i ∈ pathList fs, (nodes' i).setParent none = (nodes i).setParent none)
    (up : ∀ i ∈ c :: pathList fs, i ≠ d → (nodes' i).parent = (nodes i).parent) :
    Climbs nodes' fs c d := by
  induction fs generalizing c with
  | nil => exact h
  | cons f fs ih =>
    obtain ⟨parent, link, sib, climb⟩ := h
    have top := climb.top_mem
    simp only [pathList, List.nodup_cons, List.mem_cons, List.mem_append, not_or,
      List.nodup_append] at nd top same up
    obtain ⟨⟨hcf, -, hcp⟩, ⟨hfs, hfp⟩, nds, ndp, dsp⟩ := nd
    have hcd : c ≠ d := by
      intro e
      subst e
      exact top.elim hcf hcp
    refine ⟨?_, ?_, ?_, ?_⟩
    · rw [up c (.inl rfl) hcd, parent]
    · rw [Node.child_eq_of_setParent (same f.value (.inl rfl)), link]
    · apply sib.move nds (Node.child_eq_of_setParent (same f.value (.inl rfl)) _)
      intro i hi
      apply Node.eq_of_setParent (same i (.inr (.inl hi)))
      apply up i (.inr (.inr (.inl hi)))
      intro e
      subst e
      exact top.elim (fun h => hfs (h ▸ hi)) fun h => dsp i hi i h rfl
    · apply ih climb (List.nodup_cons.mpr ⟨hfp, ndp⟩)
      · intro i hi
        exact same i (.inr (.inr hi))
      · intro i hi
        rcases List.mem_cons.mp hi with rfl | hi
        · exact up _ (.inr (.inl rfl))
        · exact up i (.inr (.inr (.inr hi)))

theorem Climbs.congr (h : Climbs nodes fs c d) (nd : (c :: pathList fs).Nodup)
    (same : ∀ i ∈ pathList fs, nodes' i = nodes i) (parent : (nodes' c).parent = (nodes c).parent) :
    Climbs nodes' fs c d := by
  apply h.move nd
  · intro i hi
    rw [same i hi]
  · intro i hi _
    rcases List.mem_cons.mp hi with rfl | hi
    · exact parent
    · rw [same i hi]

/-- A path whose innermost frame `f` has its hole filled with `u`. -/
structure Opened (nodes : Nodes n) (f : Frame (Fin n)) (fs : List (Frame (Fin n)))
    (u : BinaryTree (Fin n)) (d : Fin n) : Prop where
  hole : Hangs nodes f.value f.side u
  sib : Hangs nodes f.value f.side.flip f.sibling
  climb : Climbs nodes fs f.value d

variable {u : BinaryTree (Fin n)} {f : Frame (Fin n)}

/-- As for `Climbs.move`, only the parent link of the top may change. -/
theorem Opened.move (h : Opened nodes f fs u d) (nd : (toList u ++ pathList (f :: fs)).Nodup)
    (same : ∀ i ∈ toList u ++ pathList (f :: fs), (nodes' i).setParent none = (nodes i).setParent
      none)
    (up : ∀ i ∈ toList u ++ pathList (f :: fs), i ≠ d → (nodes' i).parent = (nodes i).parent) :
    Opened nodes' f fs u d := by
  have top := h.climb.top_mem
  simp only [pathList, List.nodup_append, List.nodup_cons, List.mem_append, List.mem_cons,
    not_or] at nd same up top
  obtain ⟨ndu, ⟨⟨hfs, hfp⟩, nds, ndp, dsp⟩, du⟩ := nd
  have links : ∀ s, (nodes' f.value).child s = (nodes f.value).child s :=
    Node.child_eq_of_setParent (same f.value (.inr (.inl rfl)))
  constructor
  · apply h.hole.move ndu (links _)
    intro i hi
    apply Node.eq_of_setParent (same i (.inl hi)) (up i (.inl hi) _)
    intro e
    subst e
    exact top.elim (fun h => du i hi _ (.inl rfl) h) fun h => du i hi i (.inr (.inr h)) rfl
  · apply h.sib.move nds (links _)
    intro i hi
    apply Node.eq_of_setParent (same i (.inr (.inr (.inl hi)))) (up i (.inr (.inr (.inl hi))) _)
    intro e
    subst e
    exact top.elim (fun h => hfs (h ▸ hi)) fun h => dsp i hi i h rfl
  · apply h.climb.move (List.nodup_cons.mpr ⟨hfp, ndp⟩)
    · intro i hi
      exact same i (.inr (.inr (.inr hi)))
    · intro i hi
      rcases List.mem_cons.mp hi with rfl | hi
      · exact up _ (.inr (.inl rfl))
      · exact up i (.inr (.inr (.inr hi)))

variable {x m : Fin n} {root : Option (Fin n)} {l : BinaryTree (Fin n)} {fuel : Nat}
  {g : Frame (Fin n)} {lc rc : Fin n} {h : Nat}

namespace Edit

/-- `splice` finds the side on which the old child hangs. -/
theorem splice_eq_link {c : Option (Fin n)} (link' : (nodes f.value).child f.side = some x)
    (sib : Hangs nodes f.value f.side.flip f.sibling) (hx : x ∉ toList f.sibling) :
    splice nodes f.value x c = link f.side nodes f.value c := by
  cases hs : f.side with
  | left =>
    rw [hs] at link'
    rw [splice, if_pos (show (nodes f.value).left = some x from link'), left]
  | right =>
    rw [splice, if_neg, right]
    intro h
    have rep := sib.1
    rw [hs, show (nodes f.value).child Side.right.flip = some x from h] at rep
    exact hx rep.mem

/-! ## Restoring the path -/

@[simp] theorem restore_none (fuel : Nat) (nodes : Nodes n) (root : Option (Fin n)) :
    restore fuel nodes root none = some (nodes, root) := by
  cases fuel <;> rfl

/-- A hole filled with `u` and the path above it become a whole balanced tree. -/
structure Restored (nodes : Nodes n) (fs : List (Frame (Fin n))) (u : BinaryTree (Fin n))
    (result : Nodes n × Option (Fin n)) : Prop where
  rooted : Rooted result.1 result.2 (Avl.restore fs u)
  touches : Touches (toList (plugAll fs u)) nodes result.1

theorem restore_spec (hn : n + 1 < 2 ^ 32) (root : Option (Fin n)) (opened : Opened nodes f fs u d)
    (top : (nodes d).parent = none) (nd : (toList (plugAll (f :: fs) u)).Nodup)
    (fits : Fits (f :: fs) h) (bal : Balanced u) (hh : u.height = h ∨ u.height + 1 = h)
    (hf : fs.length < fuel) :
    ∃ result, restore fuel nodes root (some f.value) = some result ∧
      Restored nodes (f :: fs) u result := by
  obtain ⟨hole, sib, climb⟩ := opened
  induction fs generalizing f u nodes fuel h root with
  | nil =>
    obtain ⟨fuel, rfl⟩ : ∃ k, fuel = k + 1 := ⟨fuel - 1, by simp at hf; omega⟩
    obtain rfl : f.value = d := climb
    have ndu := ((join_perm f.side f.value u f.sibling).nodup_iff.mp nd)
    rw [List.nodup_cons, List.nodup_append] at ndu
    have hu := height_le hn bal ndu.2.1
    have hs := height_le hn fits.2.2.1 ndu.2.2.1
    have res := rebalance_reroots_join hole sib nd (by rw [height_join]; omega)
    have nd' : (toList (Avl.rebalance (plug f u))).Nodup := by
      rw [toList_rebalance]
      exact nd
    simp only [restore, top, restore_none]
    refine ⟨_, rfl, res.rep.detach nd', res.touches.trans ?_⟩
    apply Nodes.setParent_touches
    have mem := res.rep.mem
    rw [toList_rebalance] at mem
    exact mem
  | cons g fs ih =>
    obtain ⟨fuel, rfl⟩ : ∃ k, fuel = k + 1 := ⟨fuel - 1, by simp at hf; omega⟩
    obtain ⟨parent, link', sib', climb'⟩ := climb
    obtain ⟨h1, h2, bs, fits'⟩ := fits
    have perm := plugAll_perm (g :: fs) (plug f u)
    have flat := perm.nodup_iff.mp nd
    simp only [pathList, List.nodup_append, List.nodup_cons, List.mem_append, List.mem_cons,
      not_or] at flat
    obtain ⟨ndf, ⟨⟨hgs, hgp⟩, nds, ndp, dsp⟩, disj⟩ := flat
    have away : ∀ i, i = g.value ∨ i ∈ toList g.sibling ∨ i ∈ pathList fs →
        i ∉ toList (plug f u) := fun i hi hj => disj i hj i hi rfl
    have ndu := nodup_join.mp ndf
    rw [List.nodup_cons, List.nodup_append] at ndu
    have hu := height_le hn bal ndu.2.1
    have hs := height_le hn bs ndu.2.2.1
    have res := rebalance_reroots_join hole sib ndf (by rw [height_join]; omega)
    have step := rebalance_plug bal bs h1 h2 hh
    simp only [restore, parent]
    generalize rebalance nodes f.value = mid at res ⊢
    have keep : ∀ i, i = g.value ∨ i ∈ toList g.sibling ∨ i ∈ pathList fs →
        mid.1 i = nodes i := fun i hi => res.touches.frame i (away i hi)
    have nd' : (toList (Avl.rebalance (plug f u))).Nodup := by
      rw [toList_rebalance]
      exact ndf
    have rep := res.rep
    change Rep mid.1 (some mid.2) (Avl.rebalance (plug f u)) at rep
    have hmid : mid.2 ∈ toList (plug f u) := by
      have mem := rep.mem
      rwa [toList_rebalance] at mem
    have hgm : g.value ∉ toList (Avl.rebalance (plug f u)) := by
      rw [toList_rebalance]
      exact away _ (.inl rfl)
    have sib1 : Hangs mid.1 g.value g.side.flip g.sibling :=
      sib'.move nds (by rw [keep _ (.inl rfl)]) fun i hi => keep i (.inr (.inl hi))
    have hf_mem : f.value ∈ toList (plug f u) := mem_toList_join.mpr (.inr (.inl rfl))
    rw [splice_eq_link (by rw [keep _ (.inl rfl)]; exact link') sib1
      fun hi => away _ (.inr (.inl hi)) hf_mem]
    -- the rebalanced subtree now fills the next hole
    have hole2 : Hangs (link g.side mid.1 g.value (some mid.2)) g.value g.side
        (Avl.rebalance (plug f u)) := link_hangs rep nd' hgm
    have sib2 : Hangs (link g.side mid.1 g.value (some mid.2)) g.value g.side.flip g.sibling :=
      link_hangs_flip rep sib1 nds hgs hgm fun i hi hj =>
        away i (.inr (.inl hi)) (by rwa [toList_rebalance] at hj)
    have hne : some mid.2 ≠ some g.value := fun e =>
      away _ (.inl rfl) (Option.some.inj e ▸ hmid)
    have keep2 : ∀ i ∈ pathList fs, link g.side mid.1 g.value (some mid.2) i = nodes i := by
      intro i hi
      have hig : i ≠ g.value := fun e => hgp (e ▸ hi)
      have him : some mid.2 ≠ some i := fun e =>
        away i (.inr (.inr hi)) (Option.some.inj e ▸ hmid)
      rw [link_other hig him, keep i (.inr (.inr hi))]
    have parent2 : (link g.side mid.1 g.value (some mid.2) g.value).parent =
        (nodes g.value).parent := by
      rw [link_self hne, Node.parent_setChild, keep _ (.inl rfl)]
    have climb2 : Climbs (link g.side mid.1 g.value (some mid.2)) fs g.value d :=
      climb'.congr (List.nodup_cons.mpr ⟨hgp, ndp⟩) keep2 parent2
    have top2 : (link g.side mid.1 g.value (some mid.2) d).parent = none := by
      rcases List.mem_cons.mp climb'.top_mem with rfl | hd
      · rw [parent2, top]
      · rw [keep2 d hd, top]
    have list_eq : toList (plugAll (g :: fs) (Avl.rebalance (plug f u))) =
        toList (plugAll (f :: g :: fs) u) :=
      toList_plugAll_congr (toList_rebalance (plug f u))
    obtain ⟨result, run, out⟩ := ih root top2 (by rw [list_eq]; exact nd) fits' step.1 step.2
      (Nat.lt_of_succ_lt_succ hf) hole2 sib2 climb2
    refine ⟨result, run, out.rooted, ?_⟩
    have outer := out.touches
    rw [list_eq] at outer
    have mem : ∀ i ∈ toList (plug f u), i ∈ toList (plugAll (f :: g :: fs) u) :=
      fun i hi => perm.mem_iff.mpr (List.mem_append_left _ hi)
    apply ((res.touches.mono mem).trans ?_).trans outer
    apply link_touches
    · exact perm.mem_iff.mpr (by simp [pathList])
    · intro i hi
      obtain rfl := Option.some.inj hi
      exact mem _ hmid

/-! ## Removal -/

/-- The walk to the least cell of a subtree follows its left frames. -/
theorem minimum_spec {parent : Option (Fin n)} (climb : Climbs nodes gs m d)
    (lefts : ∀ g ∈ gs, g.side = .left) (least : (nodes m).left = none) (hf : gs.length < fuel) :
    minimum fuel nodes d parent = some (m, (gs.head?.map (·.value)).or parent) := by
  induction gs using List.reverseRecOn generalizing fuel d parent with
  | nil =>
    obtain ⟨fuel, rfl⟩ : ∃ k, fuel = k + 1 := ⟨fuel - 1, by simp at hf; omega⟩
    obtain rfl : m = d := climb
    simp [minimum, least]
  | append_singleton gs g ih =>
    obtain ⟨fuel, rfl⟩ : ∃ k, fuel = k + 1 := ⟨fuel - 1, by simp at hf; omega⟩
    obtain ⟨e, inner, -, link', -, last⟩ := climbs_append.mp climb
    obtain rfl : g.value = d := last
    have side := lefts g (by simp)
    rw [side] at link'
    have left' : (nodes g.value).left = some e := link'
    rw [minimum, left']
    dsimp only
    rw [ih inner (fun g' hg' => lefts g' (by simp [hg'])) (by simpa using hf)]
    cases gs <;> simp

theorem replace_of_parent {c : Option (Fin n)} {p : Fin n} (h : (nodes x).parent = some p) :
    replace nodes root x c = (splice nodes p x c, root) := by
  simp [replace, h]

/-- `replace` puts `m` in the place of `x` at the bottom of a path. -/
theorem replace_climbs (root : Option (Fin n)) (climb : Climbs nodes fs x d)
    (top : (nodes d).parent = none) (nd : (x :: m :: pathList fs).Nodup) :
    ∃ nodes' root' d', replace nodes root x (some m) = (nodes', root') ∧
      Climbs nodes' fs m d' ∧ (nodes' d').parent = none ∧
      (nodes' m).setParent none = (nodes m).setParent none ∧
      (∀ i, i ∉ m :: pathList fs → nodes' i = nodes i) ∧
      Touches (m :: pathList fs) nodes nodes' := by
  simp only [List.nodup_cons, List.mem_cons, not_or] at nd
  obtain ⟨⟨hxm, hxp⟩, hmp, ndp⟩ := nd
  cases fs with
  | nil =>
    obtain rfl : x = d := climb
    refine ⟨nodes.modify m fun node => node.setParent none, some m, m, ?_, rfl, ?_, ?_, ?_, ?_⟩
    · simp [replace, top]
    · rw [Nodes.modify_self, Node.parent_setParent]
    · rw [Nodes.modify_self, Node.setParent_setParent]
    · intro i hi
      apply Nodes.modify_of_ne
      simpa [pathList] using hi
    · exact Nodes.setParent_touches nodes (by simp)
  | cons f fs =>
    obtain ⟨parent, link', sib, climb'⟩ := climb
    simp only [pathList, List.mem_cons, List.mem_append, not_or] at hxp hmp
    simp only [pathList, List.nodup_cons, List.mem_append, not_or, List.nodup_append] at ndp
    obtain ⟨⟨hfs, hfp⟩, nds, ndr, dsr⟩ := ndp
    have hmf : some m ≠ some f.value := fun e => hmp.1 (Option.some.inj e)
    have keep : ∀ i, i ≠ f.value → i ≠ m →
        link f.side nodes f.value (some m) i = nodes i :=
      fun i hf hm => link_other hf fun e => hm (Option.some.inj e).symm
    have keepPath : ∀ i ∈ pathList fs, link f.side nodes f.value (some m) i = nodes i :=
      fun i hi => keep i (fun e => hfp (e ▸ hi)) fun e => hmp.2.2 (e ▸ hi)
    have parent' : (link f.side nodes f.value (some m) f.value).parent =
        (nodes f.value).parent := by
      rw [link_self hmf, Node.parent_setChild]
    refine ⟨link f.side nodes f.value (some m), root, d, ?_, ⟨?_, ?_, ?_, ?_⟩, ?_, ?_, ?_, ?_⟩
    · rw [replace_of_parent parent, splice_eq_link link' sib hxp.2.1]
    · rw [link_child hmp.1, Node.parent_setParent]
    · rw [link_self hmf, Node.child_setChild]
    · apply sib.move nds (by rw [link_self hmf, Node.child_flip_setChild])
      intro i hi
      exact keep i (fun e => hfs (e ▸ hi)) fun e => hmp.2.1 (e ▸ hi)
    · exact climb'.congr (List.nodup_cons.mpr ⟨hfp, ndr⟩) keepPath parent'
    · rcases List.mem_cons.mp climb'.top_mem with rfl | hd
      · rw [parent', top]
      · rw [keepPath d hd, top]
    · rw [link_child hmp.1, Node.setParent_setParent]
    · intro i hi
      simp only [pathList, List.mem_cons, List.mem_append, not_or] at hi
      exact keep i hi.2.1 hi.1
    · apply link_touches (by simp [pathList])
      intro i hi
      obtain rfl := Option.some.inj hi
      simp

/-- The successor `m` replaces `x` and takes over its left subtree. -/
theorem mount_spec (root : Option (Fin n)) (climb : Climbs nodes fs x d)
    (top : (nodes d).parent = none) (hl : Rep nodes (some c) l)
    (nd : (x :: m :: (toList l ++ pathList fs)).Nodup) :
    ∃ mid root' d', replace nodes root x (some m) = (mid, root') ∧
      Climbs (left mid m (some c)) fs m d' ∧ (left mid m (some c) d').parent = none ∧
      Hangs (left mid m (some c)) m .left l ∧
      (left mid m (some c) m).child .right = (nodes m).child .right ∧
      (∀ i, i ∉ m :: (toList l ++ pathList fs) → left mid m (some c) i = nodes i) ∧
      Touches (m :: (toList l ++ pathList fs)) nodes (left mid m (some c)) := by
  simp only [List.nodup_cons, List.mem_cons, List.mem_append, not_or, List.nodup_append] at nd
  obtain ⟨⟨hxm, hxl, hxp⟩, ⟨hml, hmp⟩, ndl, ndp, dlp⟩ := nd
  obtain ⟨mid, root', d', run, climb', top', same, keep, touch⟩ :=
    replace_climbs root (m := m) climb top
      (by simp only [List.nodup_cons, List.mem_cons, not_or]; exact ⟨⟨hxm, hxp⟩, hmp, ndp⟩)
  have hlMid : ∀ i ∈ toList l, mid i = nodes i := by
    intro i hi
    apply keep i
    simp only [List.mem_cons, not_or]
    exact ⟨fun e => hml (e ▸ hi), fun hj => dlp i hi i hj rfl⟩
  have repl : Rep mid (some c) l := hl.congr ndl hlMid
  have hcm : some c ≠ some m := fun e => hml (Option.some.inj e ▸ hl.mem)
  have keepPath : ∀ i ∈ pathList fs, left mid m (some c) i = mid i := by
    intro i hi
    refine link_other (fun e => hmp (e ▸ hi)) fun e => ?_
    exact dlp c hl.mem i hi (Option.some.inj e)
  have parent' : (left mid m (some c) m).parent = (mid m).parent := by
    rw [left, link_self hcm, Node.parent_setChild]
  refine ⟨mid, root', d', run, ?_, ?_, link_hangs repl ndl hml, ?_, ?_, ?_⟩
  · exact climb'.congr (List.nodup_cons.mpr ⟨hmp, ndp⟩) keepPath parent'
  · rcases List.mem_cons.mp climb'.top_mem with rfl | hd
    · rw [parent', top']
    · rw [keepPath d' hd, top']
  · have flip := Node.child_flip_setChild (mid m) .left (some c)
    rw [left, link_self hcm]
    exact flip.trans (Node.child_eq_of_setParent same .right)
  · intro i hi
    simp only [List.mem_cons, List.mem_append, not_or] at hi
    rw [left, link_other hi.1 fun e => hi.2.1 (Option.some.inj e ▸ hl.mem)]
    apply keep i
    simp only [List.mem_cons, not_or]
    exact ⟨hi.1, hi.2.2⟩
  · apply Touches.trans (touch.mono fun i hi => ?_)
    · apply link_touches (by simp)
      intro i hi
      obtain rfl := Option.some.inj hi
      simp [hl.mem]
    · simp only [List.mem_cons, List.mem_append] at hi ⊢
      tauto

/-- A cell with at most one child is replaced by that child. -/
theorem remove_single (hn : n + 1 < 2 ^ 32) (fuel : Nat) (root : Option (Fin n))
    {c : Option (Fin n)} (climb : Climbs nodes fs x d) (top : (nodes d).parent = none)
    (rep : Rep nodes c u) (nd : (x :: (toList u ++ pathList fs)).Nodup) (fits : Fits fs h)
    (bal : Balanced u) (hh : u.height + 1 = h) (hf : fs.length ≤ fuel) :
    ∃ result, restore fuel (replace nodes root x c).1 (replace nodes root x c).2
        (nodes x).parent = some result ∧ Restored nodes fs u result := by
  simp only [List.nodup_cons, List.mem_append, not_or, List.nodup_append] at nd
  obtain ⟨⟨hxu, hxp⟩, ndu, ndp, dup⟩ := nd
  cases fs with
  | nil =>
    obtain rfl : x = d := climb
    simp only [replace, top]
    cases c with
    | none =>
      refine ⟨(nodes, none), restore_none _ _ _, ⟨rep, ?_⟩, Touches.refl _ _⟩
      intro r hr
      simp at hr
    | some c =>
      refine ⟨_, restore_none _ _ _, rep.detach ndu, ?_⟩
      exact Nodes.setParent_touches nodes rep.mem
  | cons f fs =>
    obtain ⟨parent, link', sib, climb'⟩ := climb
    have perm := plugAll_perm (f :: fs) u
    simp only [pathList, List.mem_cons, List.mem_append, not_or] at hxp
    simp only [pathList, List.nodup_cons, List.mem_append, not_or, List.nodup_append] at ndp
    obtain ⟨⟨hfs, hfp⟩, nds, ndr, dsr⟩ := ndp
    have disj : ∀ i ∈ toList u, i ≠ f.value ∧ i ∉ toList f.sibling ∧ i ∉ pathList fs := by
      intro i hi
      have h := fun j hj => dup i hi j hj
      simp only [pathList, List.mem_cons, List.mem_append] at h
      exact ⟨h _ (.inl rfl), fun hj => h i (.inr (.inl hj)) rfl,
        fun hj => h i (.inr (.inr hj)) rfl⟩
    have hcu : ∀ i, c = some i → i ∈ toList u := by
      intro i hi
      rw [hi] at rep
      exact rep.mem
    have hfu : f.value ∉ toList u := fun hi => (disj _ hi).1 rfl
    have keep : ∀ i ∈ pathList fs, link f.side nodes f.value c i = nodes i :=
      fun i hi => link_other (fun e => hfp (e ▸ hi)) fun e => (disj i (hcu i e)).2.2 hi
    have parent' : (link f.side nodes f.value c f.value).parent = (nodes f.value).parent := by
      rw [link_self fun e => hfu (hcu _ e), Node.parent_setChild]
    have top' : (link f.side nodes f.value c d).parent = none := by
      rcases List.mem_cons.mp climb'.top_mem with rfl | hd
      · rw [parent', top]
      · rw [keep d hd, top]
    have nd : (toList (plugAll (f :: fs) u)).Nodup := by
      apply perm.nodup_iff.mpr
      simp only [pathList, List.nodup_cons, List.mem_append, not_or, List.nodup_append]
      exact ⟨ndu, ⟨⟨hfs, hfp⟩, nds, ndr, dsr⟩, dup⟩
    have hne : replace nodes root x c = (link f.side nodes f.value c, root) := by
      rw [replace_of_parent parent, splice_eq_link link' sib hxp.2.1]
    rw [hne, parent]
    have opened : Opened (link f.side nodes f.value c) f fs u d :=
      ⟨link_hangs rep ndu hfu,
        link_hangs_flip rep sib nds hfs hfu fun i hi hj => (disj i hj).2.1 hi,
        climb'.congr (List.nodup_cons.mpr ⟨hfp, ndr⟩) keep parent'⟩
    obtain ⟨result, run, out⟩ :=
      restore_spec hn root opened top' nd fits bal (.inr hh) hf
    refine ⟨result, run, out.rooted, ?_⟩
    apply Touches.trans (link_touches _ _) out.touches
    · exact perm.mem_iff.mpr (by simp [pathList])
    · intro i hi
      exact perm.mem_iff.mpr (List.mem_append_left _ (hcu i hi))

/-- The successor `m` gives up its right subtree to its parent. -/
theorem release_spec (climb : Climbs nodes (g :: gs) m d) (side : g.side = .left)
    (hu : Hangs nodes m .right u) (nd : (toList u ++ pathList (g :: gs)).Nodup) :
    Opened (left nodes g.value (nodes m).right) g gs u d ∧
      (∀ i, i ∉ g.value :: toList u → left nodes g.value (nodes m).right i = nodes i) ∧
      Touches (g.value :: toList u) nodes (left nodes g.value (nodes m).right) := by
  obtain ⟨-, -, sib, climb'⟩ := climb
  simp only [pathList, List.nodup_append, List.nodup_cons, List.mem_append, List.mem_cons,
    not_or] at nd
  obtain ⟨ndu, ⟨⟨hgs, hgp⟩, nds, ndp, dsp⟩, du⟩ := nd
  have mem : ∀ i, (nodes m).right = some i → i ∈ toList u := by
    intro i hi
    have rep := hu.1
    rw [show (nodes m).child .right = some i from hi] at rep
    exact rep.mem
  have hgu : g.value ∉ toList u := fun hi => du _ hi _ (.inl rfl) rfl
  rw [side] at sib
  refine ⟨⟨?_, ?_, ?_⟩, ?_, ?_⟩
  · rw [side]
    exact link_hangs hu.1 ndu hgu
  · rw [side]
    exact link_hangs_flip (s := .left) hu.1 sib nds hgs hgu
      fun i hi hj => du i hj i (.inr (.inl hi)) rfl
  · apply climb'.congr (List.nodup_cons.mpr ⟨hgp, ndp⟩)
    · intro i hi
      exact link_other (fun e => hgp (e ▸ hi)) fun e => du i (mem i e) i (.inr (.inr hi)) rfl
    · rw [left, link_self fun e => hgu (mem _ e), Node.parent_setChild]
  · intro i hi
    simp only [List.mem_cons, not_or] at hi
    exact link_other hi.1 fun e => hi.2 (mem i e)
  · exact link_touches List.mem_cons_self fun i hi => List.mem_cons_of_mem _ (mem i hi)

/-- The opened right subtree hangs below the successor `m` in its new place. -/
theorem hang_spec (inner : Opened nodes g gs u c) (outer : Climbs nodes fs m d)
    (hl : Hangs nodes m .left l)
    (nd : (toList u ++ pathList (g :: (gs ++ ⟨.right, m, l⟩ :: fs))).Nodup) :
    Opened (right nodes m (some c)) g (gs ++ ⟨.right, m, l⟩ :: fs) u d ∧
      (right nodes m (some c) d).parent = (nodes d).parent ∧
      Touches (m :: g.value :: pathList gs) nodes (right nodes m (some c)) := by
  have flat : ((toList u ++ pathList (g :: gs)) ++ (m :: (toList l ++ pathList fs))).Nodup := by
    simpa [pathList] using nd
  rw [List.nodup_append] at flat
  obtain ⟨ndi, ndo, apart⟩ := flat
  simp only [List.nodup_cons, List.mem_append, not_or, List.nodup_append] at ndo
  obtain ⟨⟨hml, hmp⟩, ndl, ndp, dlp⟩ := ndo
  have hc : c ∈ toList u ++ pathList (g :: gs) := by
    have top := inner.climb.top_mem
    simp only [pathList, List.mem_cons, List.mem_append] at top ⊢
    exact .inr (top.elim .inl fun h => .inr (.inr h))
  have inner_ne : ∀ i ∈ toList u ++ pathList (g :: gs), i ≠ m :=
    fun i hi => apart i hi m (by simp)
  have hcm : some c ≠ some m := fun e => inner_ne c hc (Option.some.inj e)
  have offL : ∀ i ∈ toList l, right nodes m (some c) i = nodes i := fun i hi =>
    link_other (fun e => hml (e ▸ hi)) fun e =>
      apart c hc i (by simp [hi]) (Option.some.inj e)
  have offP : ∀ i ∈ pathList fs, right nodes m (some c) i = nodes i := fun i hi =>
    link_other (fun e => hmp (e ▸ hi)) fun e =>
      apart c hc i (by simp [hi]) (Option.some.inj e)
  have self : right nodes m (some c) m = (nodes m).setChild .right (some c) := link_self hcm
  have parentM : (right nodes m (some c) m).parent = (nodes m).parent := by
    rw [self, Node.parent_setChild]
  have inner' : Opened (right nodes m (some c)) g gs u c := by
    apply inner.move ndi
    · intro i hi
      exact link_setParent (inner_ne i hi)
    · intro i hi hne
      rw [right, link_other (inner_ne i hi) fun e => hne (Option.some.inj e).symm]
  have parentC : (right nodes m (some c) c).parent = some m := by
    rw [right, link_child (inner_ne c hc), Node.parent_setParent]
  have childM : (right nodes m (some c) m).child .right = some c := by
    rw [self, Node.child_setChild]
  have hangL : Hangs (right nodes m (some c)) m .left l :=
    hl.move ndl (by rw [self]; exact Node.child_setChild_flip _ .left _) offL
  have climb' : Climbs (right nodes m (some c)) fs m d :=
    outer.congr (List.nodup_cons.mpr ⟨hmp, ndp⟩) offP parentM
  refine ⟨⟨inner'.hole, inner'.sib, ?_⟩, ?_, ?_⟩
  · exact climbs_append.mpr ⟨c, inner'.climb, parentC, childM, hangL, climb'⟩
  · rcases List.mem_cons.mp outer.top_mem with rfl | hd
    · exact parentM
    · rw [offP d hd]
  · apply link_touches List.mem_cons_self
    intro i hi
    obtain rfl := Option.some.inj hi
    exact List.mem_cons_of_mem _ inner.climb.top_mem

theorem remove_of_child (hlc : (nodes x).left = some lc) (hrc : (nodes x).right = some rc)
    (walk : minimum fuel nodes rc none = some (m, none)) :
    remove fuel nodes root x =
      restore fuel (left (replace nodes root x (some m)).1 m (some lc))
        (replace nodes root x (some m)).2 (some m) := by
  simp only [remove, hlc, hrc, walk, Option.bind_eq_bind, Option.bind_some]

theorem remove_of_descendant {p : Fin n} (hlc : (nodes x).left = some lc)
    (hrc : (nodes x).right = some rc) (walk : minimum fuel nodes rc none = some (m, some p)) :
    remove fuel nodes root x =
      restore fuel
        (right (left (replace (left nodes p (nodes m).right) root x (some m)).1 m (some lc))
          m (some rc))
        (replace (left nodes p (nodes m).right) root x (some m)).2 (some p) := by
  simp only [remove, hlc, hrc, walk, Option.bind_eq_bind, Option.bind_some]

theorem remove_near (hn : n + 1 < 2 ^ 32) (fuel : Nat) (root : Option (Fin n))
    (climb : Climbs nodes fs x d) (top : (nodes d).parent = none) (hlc : (nodes x).left = some lc)
    (hrc : (nodes x).right = some m) (repl : Rep nodes (some lc) l) (least : (nodes m).left = none)
    (hu : Hangs nodes m .right u) (nd : (x :: (toList u ++ pathList (⟨.right, m, l⟩ :: fs))).Nodup)
    (fits : Fits (⟨.right, m, l⟩ :: fs) h) (bal : Balanced u) (hh : u.height + 1 = h)
    (hf : fs.length < fuel) :
    ∃ result, remove fuel nodes root x = some result ∧
      Restored nodes (⟨.right, m, l⟩ :: fs) u result := by
  have perm := plugAll_perm (⟨.right, m, l⟩ :: fs) u
  have ndAll := perm.nodup_iff.mpr (List.nodup_cons.mp nd).2
  have here : Climbs nodes [] m m := rfl
  have walk : minimum fuel nodes m none = some (m, none) :=
    minimum_spec here (by simp) least (Nat.lt_of_le_of_lt (Nat.zero_le _) hf)
  simp only [pathList, List.nodup_cons, List.nodup_append, List.mem_cons, List.mem_append,
    not_or] at nd
  obtain ⟨⟨hxu, hxm, hxl, hxp⟩, ndu, ⟨⟨hml, hmp⟩, ndl, ndp, dlp⟩, du⟩ := nd
  obtain ⟨mid, root', d', run, climb', top', hangl, childr, keep, touch⟩ :=
    mount_spec root (m := m) climb top repl (by
      simp only [List.nodup_cons, List.nodup_append, List.mem_cons, List.mem_append, not_or]
      exact ⟨⟨hxm, hxl, hxp⟩, ⟨hml, hmp⟩, ndl, ndp, dlp⟩)
  have hangu : Hangs (left mid m (some lc)) m .right u := by
    apply hu.move ndu childr
    intro i hi
    apply keep i
    simp only [List.mem_cons, List.mem_append]
    exact fun h => du i hi i h rfl
  have opened : Opened (left mid m (some lc)) ⟨.right, m, l⟩ fs u d' := ⟨hangu, hangl, climb'⟩
  obtain ⟨result, rest, out⟩ :=
    restore_spec hn root' opened top' ndAll fits bal (.inr hh) hf
  refine ⟨result, ?_, out.rooted, ?_⟩
  · rw [remove_of_child hlc hrc walk, run]
    exact rest
  · apply Touches.trans (touch.mono _) out.touches
    intro i hi
    exact perm.mem_iff.mpr (List.mem_append_right _ hi)

/-- The successor of `x` lies deeper in the right subtree. -/
theorem remove_far (hn : n + 1 < 2 ^ 32) (fuel : Nat) (root : Option (Fin n))
    (climb : Climbs nodes fs x d) (top : (nodes d).parent = none) (hlc : (nodes x).left = some lc)
    (hrc : (nodes x).right = some rc) (repl : Rep nodes (some lc) l)
    (climbm : Climbs nodes (g :: gs) m rc) (lefts : ∀ f ∈ g :: gs, f.side = .left)
    (least : (nodes m).left = none) (hu : Hangs nodes m .right u)
    (nd : (x :: (toList u ++ pathList (g :: (gs ++ ⟨.right, m, l⟩ :: fs)))).Nodup)
    (fits : Fits (g :: (gs ++ ⟨.right, m, l⟩ :: fs)) h) (bal : Balanced u) (hh : u.height + 1 = h)
    (hf : (gs ++ ⟨.right, m, l⟩ :: fs).length < fuel) :
    ∃ result, remove fuel nodes root x = some result ∧
      Restored nodes (g :: (gs ++ ⟨.right, m, l⟩ :: fs)) u result := by
  have perm := plugAll_perm (g :: (gs ++ ⟨.right, m, l⟩ :: fs)) u
  have ndTail := (List.nodup_cons.mp nd).2
  have walk : minimum fuel nodes rc none = some (m, some g.value) :=
    minimum_spec climbm lefts least (by simp at hf ⊢; omega)
  have flat : (x :: ((toList u ++ pathList (g :: gs)) ++
      (m :: (toList l ++ pathList fs)))).Nodup := by
    simpa [pathList] using nd
  have mem : ∀ i, i ∈ (toList u ++ pathList (g :: gs)) ++ (m :: (toList l ++ pathList fs)) →
      i ∈ toList (plugAll (g :: (gs ++ ⟨.right, m, l⟩ :: fs)) u) := by
    intro i hi
    apply perm.mem_iff.mpr
    simpa [pathList] using hi
  rw [List.nodup_cons, List.mem_append, not_or, List.nodup_append] at flat
  obtain ⟨⟨hxi, hxo⟩, ndi, ndo, apart⟩ := flat
  have hgi : g.value ∈ toList u ++ pathList (g :: gs) := by simp [pathList]
  have sub : ∀ i ∈ g.value :: toList u, i ∈ toList u ++ pathList (g :: gs) := by
    intro i hi
    rcases List.mem_cons.mp hi with rfl | hi
    · exact hgi
    · exact List.mem_append_left _ hi
  obtain ⟨opened0, keep0, touch0⟩ := release_spec climbm (lefts g (by simp)) hu ndi
  have offO : ∀ i ∈ m :: (toList l ++ pathList fs), left nodes g.value (nodes m).right i =
      nodes i := fun i hi => keep0 i fun hj => apart i (sub i hj) i hi rfl
  have xOff : left nodes g.value (nodes m).right x = nodes x :=
    keep0 x fun hj => hxi (sub x hj)
  have parts := ndo
  simp only [List.nodup_cons, List.mem_append, not_or, List.nodup_append] at parts
  obtain ⟨⟨hml, hmp⟩, ndl, ndp, dlp⟩ := parts
  have pathOff : ∀ i ∈ pathList fs, left nodes g.value (nodes m).right i = nodes i :=
    fun i hi => offO i (by simp [hi])
  have hxp : x ∉ pathList fs := fun hi => hxo (by simp [hi])
  have climb0 := climb.congr (List.nodup_cons.mpr ⟨hxp, ndp⟩) pathOff (by rw [xOff])
  have top0 : (left nodes g.value (nodes m).right d).parent = none := by
    rcases List.mem_cons.mp climb.top_mem with rfl | hd
    · rw [xOff, top]
    · rw [pathOff d hd, top]
  have repl0 := repl.congr ndl fun i hi => offO i (by simp [hi])
  obtain ⟨mid, root', d', run, climb1, top1, hangl1, -, keep1, touch1⟩ :=
    mount_spec root climb0 top0 repl0 (List.nodup_cons.mpr ⟨hxo, ndo⟩)
  have keepInner : ∀ i ∈ toList u ++ pathList (g :: gs),
      left mid m (some lc) i = left nodes g.value (nodes m).right i :=
    fun i hi => keep1 i fun hj => apart i hi i hj rfl
  have opened1 : Opened (left mid m (some lc)) g gs u rc := by
    apply opened0.move ndi
    · intro i hi
      rw [keepInner i hi]
    · intro i hi _
      rw [keepInner i hi]
  obtain ⟨opened2, parent2, touch2⟩ := hang_spec opened1 climb1 hangl1 ndTail
  obtain ⟨result, rest, out⟩ := restore_spec hn root' opened2 (by rw [parent2, top1])
    (perm.nodup_iff.mpr ndTail) fits bal (.inr hh) hf
  refine ⟨result, ?_, out.rooted, ?_⟩
  · rw [remove_of_descendant hlc hrc walk, run]
    exact rest
  · apply Touches.trans _ out.touches
    apply Touches.trans (Touches.trans (touch0.mono _) (touch1.mono _)) (touch2.mono _)
    · intro i hi
      exact mem i (List.mem_append_left _ (sub i hi))
    · intro i hi
      exact mem i (List.mem_append_right _ hi)
    · intro i hi
      apply mem i
      simp only [List.mem_cons, pathList, List.mem_append] at hi ⊢
      rcases hi with rfl | rfl | hi
      · exact .inr (.inl rfl)
      · exact .inl (.inr (.inl rfl))
      · exact .inl (.inr (.inr (.inr hi)))

/-- The result of removing `x` from a whole tree. -/
structure Removed (nodes : Nodes n) (t : BinaryTree (Fin n)) (x : Fin n)
    (result : Nodes n × Option (Fin n)) (t' : BinaryTree (Fin n)) : Prop where
  rooted : Rooted result.1 result.2 t'
  balanced : Balanced t'
  list : toList t' = (toList t).erase x
  touches : Touches (toList t) nodes result.1

theorem erase_middle {a b : List (Fin n)} (nd : (a ++ x :: b).Nodup) :
    (a ++ x :: b).erase x = a ++ b := by
  rw [List.nodup_append] at nd
  have hx : x ∉ a := fun h => nd.2.2 x h x List.mem_cons_self rfl
  rw [List.erase_append_right _ hx, List.erase_cons_head]

theorem Restored.removed {result : Nodes n × Option (Fin n)} (out : Restored nodes fs u result)
    (fits : Fits fs h) (bal : Balanced u) (hh : u.height + 1 = h)
    (list : toList (plugAll fs u) = (toList t).erase x) :
    Removed nodes t x result (Avl.restore fs u) := by
  refine ⟨out.rooted, restore_balanced fits bal (.inr hh), by rw [toList_restore, list], ?_⟩
  apply out.touches.mono
  intro i hi
  rw [list] at hi
  exact List.mem_of_mem_erase hi

theorem remove_of_left_none (h : (nodes x).left = none) :
    remove fuel nodes root x =
      restore fuel (replace nodes root x (nodes x).right).1
        (replace nodes root x (nodes x).right).2 (nodes x).parent := by
  simp only [remove, h]

theorem remove_of_right_none (h : (nodes x).right = none) :
    remove fuel nodes root x =
      restore fuel (replace nodes root x (nodes x).left).1
        (replace nodes root x (nodes x).left).2 (nodes x).parent := by
  simp only [remove, h]
  cases (nodes x).left <;> rfl

theorem remove_spec (hn : n + 1 < 2 ^ 32) (rooted : Rooted nodes root t) (nd : (toList t).Nodup)
    (bal : Balanced t) (hx : x ∈ toList t) (hf : n < fuel) :
    ∃ result t', remove fuel nodes root x = some result ∧ Removed nodes t x result t' := by
  obtain ⟨fs, l, r, rfl⟩ := exists_plugAll_of_mem hx
  obtain ⟨d, rfl⟩ : ∃ d, root = some d := rooted.rep.root_of_mem hx
  obtain ⟨c, repx, climb⟩ := Climbs.of_rep rooted.rep (by simp [BinaryTree.height])
  obtain ⟨hc, hl, hr, -⟩ := rep_node.mp repx
  obtain rfl := Option.some.inj hc
  have top := rooted.top d rfl
  obtain ⟨ball, fits⟩ := (balanced_plugAll _ _).mp bal
  obtain ⟨h1, h2, ball, balr⟩ := ball
  have hmax : (BinaryTree.node c l r).height = max l.height r.height + 1 := rfl
  have perm : (toList (plugAll fs (.node c l r))).Perm
      (c :: ((toList l ++ toList r) ++ pathList fs)) :=
    (plugAll_perm fs _).trans (List.perm_middle.append_right _)
  have flat := perm.nodup_iff.mp nd
  have short : fs.length < n := by
    have card := List.Nodup.length_le_card flat
    have len := length_le_pathList fs
    simp only [List.length_cons, List.length_append, Fintype.card_fin] at card
    omega
  have erased : (toList (plugAll fs (.node c l r))).erase c =
      (around fs).1 ++ (toList l ++ toList r) ++ (around fs).2 := by
    have middle : toList (plugAll fs (.node c l r)) =
        ((around fs).1 ++ toList l) ++ c :: (toList r ++ (around fs).2) := by
      rw [toList_plugAll]
      simp
    rw [middle] at nd ⊢
    rw [erase_middle nd]
    simp
  by_cases hnl : l = .nil
  · subst hnl
    have hh : r.height + 1 = (BinaryTree.node c .nil r).height := by simp [BinaryTree.height]
    obtain ⟨result, run, out⟩ := remove_single hn fuel (some d) climb top hr.1
      (by simpa using flat) fits balr hh (by omega)
    refine ⟨result, _, ?_, out.removed fits balr hh (by rw [erased, toList_plugAll]; simp)⟩
    rw [remove_of_left_none (show (nodes c).left = none from hl.1)]
    exact run
  by_cases hnr : r = .nil
  · subst hnr
    have hh : l.height + 1 = (BinaryTree.node c l .nil).height := by simp [BinaryTree.height]
    obtain ⟨result, run, out⟩ := remove_single hn fuel (some d) climb top hl.1
      (by simpa using flat) fits ball hh (by omega)
    refine ⟨result, _, ?_, out.removed fits ball hh (by rw [erased, toList_plugAll]; simp)⟩
    rw [remove_of_right_none (show (nodes c).right = none from hr.1)]
    exact run
  obtain ⟨lc, hlc⟩ := hl.1.root_of_ne_nil hnl
  obtain ⟨rc, hrc⟩ := hr.1.root_of_ne_nil hnr
  have repl : Rep nodes (some lc) l := hlc ▸ hl.1
  obtain ⟨gs, m, u, rfl, lefts⟩ : ∃ gs m u, plugAll gs (.node m .nil u) = r ∧
      ∀ g ∈ gs, g.side = .left := by
    cases r with
    | nil => exact absurd rfl hnr
    | node a v w => exact exists_minimum a v w
  have repr : Rep nodes (some rc) (plugAll gs (.node m .nil u)) := hrc ▸ hr.1
  obtain ⟨m', repm, climbm⟩ := Climbs.of_rep repr (by simp [BinaryTree.height])
  obtain ⟨hm, leastm, hu, -⟩ := rep_node.mp repm
  obtain rfl := Option.some.inj hm
  have hh : u.height + 1 = (BinaryTree.node m' .nil u).height := by simp [BinaryTree.height]
  have whole : Balanced (plugAll (gs ++ ⟨.right, c, l⟩ :: fs) (.node m' .nil u)) := by
    rw [plugAll_append]
    exact bal
  obtain ⟨⟨-, -, -, balu⟩, fits'⟩ := (balanced_plugAll _ _).mp whole
  have fits' : Fits (gs ++ ⟨.right, m', l⟩ :: fs) (BinaryTree.node m' .nil u).height :=
    fits'.setValue
  have perm' : (c :: ((toList l ++ toList (plugAll gs (.node m' .nil u))) ++ pathList fs)).Perm
      (c :: (toList u ++ pathList (gs ++ ⟨.right, m', l⟩ :: fs))) := by
    apply List.Perm.cons
    apply List.perm_iff_count.mpr
    intro i
    have inner := (plugAll_perm gs (.node m' .nil u)).count_eq i
    simp only [toList_node, toList_nil, List.nil_append, List.count_append, pathList_append,
      pathList] at inner ⊢
    simp only [List.count_cons, List.count_append] at inner ⊢
    omega
  have list : toList (plugAll (gs ++ ⟨.right, m', l⟩ :: fs) u) =
      (toList (plugAll fs (.node c l (plugAll gs (.node m' .nil u))))).erase c := by
    rw [erased, plugAll_append, plugAll, toList_plugAll, toList_plugAll_lefts lefts]
    simp [plug, join]
  have nd' := perm'.nodup_iff.mp flat
  have short' : (gs ++ ⟨.right, m', l⟩ :: fs).length < n := by
    have card := List.Nodup.length_le_card nd'
    have len := length_le_pathList (gs ++ ⟨.right, m', l⟩ :: fs)
    simp only [List.length_cons, List.length_append, Fintype.card_fin] at card len ⊢
    omega
  cases gs with
  | nil =>
    obtain rfl : m' = rc := climbm
    obtain ⟨result, run, out⟩ := remove_near hn fuel (some d) climb top hlc hrc repl leastm.1 hu
      nd' fits' balu hh (by omega)
    exact ⟨result, _, run, out.removed fits' balu hh list⟩
  | cons g gs =>
    obtain ⟨result, run, out⟩ := remove_far hn fuel (some d) climb top hlc hrc repl climbm lefts
      leastm.1 hu nd' fits' balu hh (by simp at short' ⊢; omega)
    exact ⟨result, _, run, out.removed fits' balu hh list⟩

end Edit

end Dope.Egress.Wait
