import Dope.Egress.Metadata.Slab
import Mathlib.Data.Fintype.Sum
import Mathlib.Tactic.DeriveFintype

/-! # The nodes shared out

Every node of a slab is on the free list, held by a reservation or a batch, or
published on the chain of one lane. Taking, returning and publishing a node
move it from one to another.
-/

namespace Dope.Egress.Metadata

open Function Share

/-! ## Chains -/

/-- A published node with what it carries. -/
structure Placed (T : Type) where
  node : Nat
  load : NonEmpty T
  stored : Stored

section
variable {T : Type}

/-- The node carries a value and its credit. -/
structure Slab.Has (slab : Slab T) (placed : Placed T) : Prop where
  value : (slab.cells placed.node).value = some placed.load
  entry : (slab.cells placed.node).entry = some placed.stored
  occupied : (slab.cells placed.node).occupied = true

def nodes (xs : List (Placed T)) : List Nat := xs.map Placed.node

theorem nodes_append (xs ys : List (Placed T)) : nodes (xs ++ ys) = nodes xs ++ nodes ys :=
  List.map_append

theorem mem_nodes {xs : List (Placed T)} {placed : Placed T} (member : placed ∈ xs) :
    placed.node ∈ nodes xs := List.mem_map_of_mem member

/-- The links run from the head through the nodes to the tail. -/
structure Chain (slab : Slab T) (ends : Ends) (xs : List (Placed T)) : Prop where
  threads : Stack.Threads slab.next ends.head (nodes xs)
  tail : ends.tail = (nodes xs).getLast?
  has : ∀ placed ∈ xs, slab.Has placed

variable {slab slab' : Slab T} {ends : Ends} {xs ys : List (Placed T)} {placed : Placed T}
  {i j : Nat}

theorem Chain.empty (slab : Slab T) : Chain slab .empty [] where
  threads := rfl
  tail := rfl
  has _ member := absurd member List.not_mem_nil

theorem Chain.head_cons (chain : Chain slab ends (placed :: xs)) :
    ends.head = some placed.node := chain.threads.1

theorem Chain.eq_nil (chain : Chain slab ends xs) (none : ends.head = none) : xs = [] := by
  have threads := chain.threads
  rw [none] at threads
  exact List.map_eq_nil_iff.mp threads.eq_nil

theorem setCell_of_ne (cell : Cell T) (differ : j ≠ i) :
    (slab.setCell i cell).cells j = slab.cells j := update_of_ne differ ..

theorem setCell_self (cell : Cell T) : (slab.setCell i cell).cells i = cell := update_self ..

theorem next_setCell (cell : Cell T) :
    (slab.setCell i cell).next = update slab.next i cell.next := by
  funext k
  unfold Slab.next
  by_cases same : k = i
  · rw [same, update_self, setCell_self]
  · rw [update_of_ne same, setCell_of_ne cell same]

theorem next_setNext (next : Option Nat) :
    (slab.setNext i next).next = update slab.next i next := next_setCell _

theorem Slab.Has.of_cell (has : slab.Has placed)
    (same : slab'.cells placed.node = slab.cells placed.node) : slab'.Has placed := by
  refine ⟨?_, ?_, ?_⟩
  · rw [same, has.value]
  · rw [same, has.entry]
  · rw [same, has.occupied]

theorem Slab.Has.setNext (has : slab.Has placed) (next : Option Nat) :
    (slab.setNext i next).Has placed := by
  by_cases same : placed.node = i
  · have cell : (slab.setNext i next).cells placed.node =
        { slab.cells placed.node with next := next } := by
      rw [same]
      exact setCell_self _
    refine ⟨?_, ?_, ?_⟩
    · rw [cell]
      exact has.value
    · rw [cell]
      exact has.entry
    · rw [cell]
      exact has.occupied
  · exact has.of_cell (setCell_of_ne _ same)

theorem Chain.frame (chain : Chain slab ends xs)
    (same : ∀ k ∈ nodes xs, slab'.cells k = slab.cells k) : Chain slab' ends xs := by
  refine ⟨?_, chain.tail, ?_⟩
  · apply chain.threads.frame
    intro k member
    unfold Slab.next
    rw [same k member]
  · intro placed member
    exact (chain.has placed member).of_cell (same _ (mem_nodes member))

theorem join_of_ne {prev : Option Nat} {k : Nat} (differ : k ≠ i) (other : prev ≠ some k) :
    (slab.join prev i).cells k = slab.cells k := by
  unfold Slab.join
  cases prev with
  | none => exact setCell_of_ne _ differ
  | some prev =>
    have differ' : k ≠ prev := by
      rintro rfl
      exact other rfl
    exact (setCell_of_ne _ differ').trans (setCell_of_ne _ differ)

theorem join_len (prev : Option Nat) : (slab.join prev i).len = slab.len := by
  unfold Slab.join
  cases prev <;> rfl

theorem join_free (prev : Option Nat) : (slab.join prev i).free = slab.free := by
  unfold Slab.join
  cases prev <;> rfl

theorem Slab.Has.join (has : slab.Has placed) (prev : Option Nat) :
    (slab.join prev i).Has placed := by
  unfold Slab.join
  cases prev with
  | none => exact has.setNext none
  | some prev => exact (has.setNext none).setNext (some i)

/-- A node that carries a value is pushed at the back. -/
theorem Chain.push (chain : Chain slab ends xs) (nodup : (nodes xs).Nodup)
    (out : placed.node ∉ nodes xs) (has : slab.Has placed) :
    Chain (slab.join (ends.pushBack placed.node).1 placed.node) (ends.pushBack placed.node).2
      (xs ++ [placed]) := by
  have cut : nodes (xs ++ [placed]) = nodes xs ++ [placed.node] := nodes_append xs [placed]
  refine ⟨?_, ?_, ?_⟩
  · rw [cut]
    have tail := chain.tail
    unfold Ends.pushBack Slab.join
    dsimp only
    have alone : Stack.Threads (update slab.next placed.node none) (some placed.node)
        [placed.node] := by
      refine ⟨rfl, ?_⟩
      rw [update_self]
      rfl
    have kept := chain.threads.update out none
    cases last : ends.tail with
    | none =>
      rw [last] at tail
      have none : nodes xs = [] := List.getLast?_eq_none_iff.mp tail.symm
      rw [none] at kept
      have top : ends.head = .none := kept
      rw [none, top]
      dsimp only [Option.getD_none, List.nil_append]
      rw [next_setNext]
      exact alone
    | some last' =>
      rw [last] at tail
      cases top : ends.head with
      | none =>
        rw [chain.eq_nil top] at tail
        cases tail
      | some front =>
        rw [top] at kept
        dsimp only [Option.getD_some]
        rw [next_setNext, next_setNext]
        apply kept.splice nodup tail.symm _ alone
        intro k member inside
        rw [List.mem_singleton.mp member] at inside
        exact out inside
  · rw [cut, List.getLast?_concat]
    rfl
  · intro other member
    rcases List.mem_append.mp member with earlier | last
    · exact (chain.has other earlier).join _
    · rw [List.mem_singleton.mp last]
      exact has.join _

theorem Chain.pop (chain : Chain slab ends (placed :: xs)) :
    Chain slab (ends.pop (slab.next placed.node)) xs := by
  have rest := chain.threads.2
  refine ⟨rest, ?_, ?_⟩
  · unfold Ends.pop
    dsimp only
    cases xs with
    | nil =>
      have none : slab.next placed.node = none := rest
      rw [if_pos none]
      rfl
    | cons second xs =>
      have some : slab.next placed.node = some second.node := rest.1
      rw [some, if_neg (by simp), chain.tail]
      unfold nodes
      rw [List.map_cons, List.map_cons, List.getLast?_cons_cons]
  · exact fun other member => chain.has other (List.mem_cons_of_mem _ member)

theorem Chain.splice {source : Ends} {front last : Nat} (chain : Chain slab ends xs)
    (nodup : (nodes xs).Nodup) (tail : ends.tail = some last) (apart : ∀ k ∈ nodes ys, k ∉ nodes xs)
    (other : Chain slab source ys) (head : source.head = some front) :
    Chain (slab.setNext last (some front)) ⟨ends.head, source.tail⟩ (xs ++ ys) := by
  have end_ : (nodes xs).getLast? = some last := by rw [← chain.tail, tail]
  refine ⟨?_, ?_, ?_⟩
  · rw [nodes_append, next_setNext]
    have threads := other.threads
    rw [head] at threads
    exact chain.threads.splice nodup end_ apart threads
  · dsimp only
    rw [other.tail, nodes_append]
    cases ys with
    | nil =>
      have none := other.threads
      rw [head] at none
      cases none
    | cons placed ys =>
      unfold nodes
      rw [List.getLast?_append, List.map_cons, List.getLast?_cons, Option.some_or]
  · intro placed member
    rcases List.mem_append.mp member with earlier | later
    · exact (chain.has placed earlier).setNext _
    · exact (other.has placed later).setNext _

end

/-! ## All nodes -/

/-- Where a node may be. -/
inductive Place (n : Nat) where
  | free
  | held
  | lane (l : Fin n)
deriving DecidableEq, Fintype

variable {n : Nat} {T : Type}

def parts (free held : List Nat) (chains : Fin n → List (Placed T)) : Place n → List Nat
  | .free => free
  | .held => held
  | .lane l => nodes (chains l)

/-- The free list, the held nodes and the chains share out the slab. -/
structure Formed (slab : Slab T) (links : Fin n → Ends) (free held : List Nat)
    (chains : Fin n → List (Placed T)) : Prop where
  vacant : Stack.Threads slab.next slab.free free
  lanes : ∀ l, Chain slab (links l) (chains l)
  shares : Shares (Finset.range slab.len) (parts free held chains)

section
variable {slab slab' : Slab T} {links : Fin n → Ends} {free held held' : List Nat}
  {chains : Fin n → List (Placed T)} {i : Nat} {lane : Fin n}

section

variable (formed : Formed slab links free held chains)

include formed

theorem Formed.nodup_chain (l : Fin n) :
    (nodes (chains l)).Nodup := formed.shares.nodup (.lane l)

theorem Formed.out_free (member : i ∈ held) :
    i ∉ free := @Shares.apart _ _ _ _ _ _ _ .held .free _ formed.shares (by simp) member

theorem Formed.out_chain (member : i ∈ held) (l : Fin n) : i ∉ nodes (chains l) :=
  @Shares.apart _ _ _ _ _ _ _ .held (.lane l) _ formed.shares (by simp) member

theorem Formed.free_out_chain (member : i ∈ free) (l : Fin n) : i ∉ nodes (chains l) :=
  @Shares.apart _ _ _ _ _ _ _ .free (.lane l) _ formed.shares (by simp) member

theorem Formed.chain_out_chain {l l' : Fin n} (differ : l ≠ l') (member : i ∈ nodes (chains l)) :
    i ∉ nodes (chains l') :=
  @Shares.apart _ _ _ _ _ _ _ (.lane l) (.lane l') _ formed.shares
    (fun same => differ (Place.lane.inj same)) member

theorem Formed.frame (len : slab'.len = slab.len) (top : slab'.free = slab.free)
    (same : ∀ k, k ∉ held → slab'.cells k = slab.cells k) :
    Formed slab' links free held chains := by
  refine ⟨?_, ?_, ?_⟩
  · rw [top]
    apply formed.vacant.frame
    intro k member
    unfold Slab.next
    rw [same k fun inside => formed.out_free inside member]
  · intro l
    apply (formed.lanes l).frame
    intro k member
    exact same k fun inside => formed.out_chain inside l member
  · rw [len]
    exact formed.shares

end

theorem Formed.reserve (formed : Formed slab links (i :: free) held chains) :
    slab.free = some i ∧ Formed (slab.reserve i) links free (held ++ [i]) chains := by
  rcases formed.vacant with ⟨top, rest⟩
  refine ⟨top, rest, fun l => (formed.lanes l).frame fun _ _ => rfl, ?_⟩
  apply @Shares.exchange _ _ _ _ _ _ _ .free .held formed.shares (by simp)
  · intro place free held
    cases place with
    | free => exact absurd rfl free
    | held => exact absurd rfl held
    | lane l => rfl
  · have moved : (free ++ (held ++ [i])).Perm (i :: (free ++ held)) := by
      rw [← List.append_assoc]
      exact List.perm_append_singleton i (free ++ held)
    exact moved

theorem Formed.recycle (formed : Formed slab links free held chains)
    (member : held.Perm (i :: held')) : Formed (slab.recycle i) links (i :: free) held' chains := by
  have inside : i ∈ held := member.mem_iff.mpr List.mem_cons_self
  refine ⟨?_, ?_, ?_⟩
  · have pushed := formed.vacant.push (formed.out_free inside)
    have next : (slab.recycle i).next = update slab.next i slab.free := next_setNext slab.free
    rw [next]
    exact pushed
  · intro l
    apply (formed.lanes l).frame
    intro k chained
    apply setCell_of_ne
    rintro rfl
    exact formed.out_chain inside l chained
  · apply @Shares.exchange _ _ _ _ _ _ _ .free .held formed.shares (by simp)
    · intro place free held
      cases place with
      | free => exact absurd rfl free
      | held => exact absurd rfl held
      | lane l => rfl
    · have moved : (i :: free ++ held').Perm (free ++ held) :=
        calc
          i :: free ++ held' = i :: (free ++ held') := rfl
          List.Perm _ (free ++ i :: held') := List.perm_middle.symm
          List.Perm _ (free ++ held) := member.symm.append_left free
      exact moved

/-- A held node that carries a value is pushed to a lane. -/
theorem Formed.push {placed : Placed T} (formed : Formed slab links free held chains)
    (member : held.Perm (placed.node :: held')) (has : slab.Has placed) :
    Formed (slab.join ((links lane).pushBack placed.node).1 placed.node)
      (update links lane ((links lane).pushBack placed.node).2) free held'
      (update chains lane (chains lane ++ [placed])) := by
  have inside : placed.node ∈ held := member.mem_iff.mpr List.mem_cons_self
  have tail := (formed.lanes lane).tail
  have last : ∀ k, (links lane).tail = some k → k ∈ nodes (chains lane) := by
    intro k found
    rw [found] at tail
    exact List.mem_of_getLast? tail.symm
  refine ⟨?_, ?_, ?_⟩
  · rw [join_free]
    apply formed.vacant.frame
    intro k member
    unfold Slab.next
    rw [join_of_ne]
    · rintro rfl
      exact formed.out_free inside member
    · exact fun found => formed.free_out_chain member lane (last k found)
  · intro l
    by_cases here : l = lane
    · subst here
      rw [update_self, update_self]
      exact (formed.lanes l).push (formed.nodup_chain l) (formed.out_chain inside l) has
    · rw [update_of_ne here, update_of_ne here]
      apply (formed.lanes l).frame
      intro k chained
      apply join_of_ne
      · rintro rfl
        exact formed.out_chain inside l chained
      · exact fun found => formed.chain_out_chain here chained (last k found)
  · rw [join_len]
    apply @Shares.exchange _ _ _ _ _ _ _ .held (.lane lane) formed.shares (by simp)
    · intro place held apart
      cases place with
      | free => rfl
      | held => exact absurd rfl held
      | lane l =>
        have differ : l ≠ lane := by
          rintro rfl
          exact apart rfl
        unfold parts
        dsimp only
        rw [update_of_ne differ]
    · unfold parts
      dsimp only
      rw [update_self, nodes_append]
      have moved : (held' ++ (nodes (chains lane) ++ [placed.node])).Perm
          (held ++ nodes (chains lane)) :=
        calc
          held' ++ (nodes (chains lane) ++ [placed.node]) =
              held' ++ nodes (chains lane) ++ [placed.node] := (List.append_assoc ..).symm
          List.Perm _ (placed.node :: (held' ++ nodes (chains lane))) :=
            List.perm_append_singleton ..
          List.Perm _ (held ++ nodes (chains lane)) := member.symm.append_right _
      exact moved

theorem Formed.splice {ys : List (Placed T)} {source : Ends} {front : Nat}
    (formed : Formed slab links free held chains) (members : held.Perm (nodes ys ++ held'))
    (other : Chain slab source ys) (head : source.head = some front) :
    Formed
      (match (links lane).tail with
        | none => slab
        | some prev => slab.setNext prev (some front))
      (update links lane ⟨some ((links lane).head.getD front), source.tail⟩) free held'
      (update chains lane (chains lane ++ ys)) := by
  have inside : ∀ k ∈ nodes ys, k ∈ held :=
    fun k member => members.mem_iff.mpr (List.mem_append_left _ member)
  have shares : Shares (Finset.range slab.len)
      (parts free held' (update chains lane (chains lane ++ ys))) := by
    apply @Shares.exchange _ _ _ _ _ _ _ .held (.lane lane) formed.shares (by simp)
    · intro place held apart
      cases place with
      | free => rfl
      | held => exact absurd rfl held
      | lane l =>
        have differ : l ≠ lane := by
          rintro rfl
          exact apart rfl
        unfold parts
        dsimp only
        rw [update_of_ne differ]
    · unfold parts
      dsimp only
      rw [update_self, nodes_append]
      have moved : (held' ++ (nodes (chains lane) ++ nodes ys)).Perm
          (held ++ nodes (chains lane)) :=
        calc
          held' ++ (nodes (chains lane) ++ nodes ys) =
              held' ++ nodes (chains lane) ++ nodes ys := (List.append_assoc ..).symm
          List.Perm _ (nodes ys ++ (held' ++ nodes (chains lane))) := List.perm_append_comm
          List.Perm _ (nodes ys ++ held' ++ nodes (chains lane)) := by rw [List.append_assoc]
          List.Perm _ (held ++ nodes (chains lane)) := members.symm.append_right _
      exact moved
  have chain := formed.lanes lane
  cases tail : (links lane).tail with
  | none =>
    have empty : chains lane = [] := by
      have same := chain.tail
      rw [tail] at same
      exact List.map_eq_nil_iff.mp (List.getLast?_eq_none_iff.mp same.symm)
    have top : (links lane).head = none := by
      have threads := chain.threads
      rw [empty] at threads
      exact threads
    refine ⟨formed.vacant, ?_, shares⟩
    intro l
    by_cases here : l = lane
    · subst here
      rw [update_self, update_self, empty, top]
      refine ⟨?_, other.tail, other.has⟩
      have threads := other.threads
      rw [head] at threads
      exact threads
    · rw [update_of_ne here, update_of_ne here]
      exact formed.lanes l
  | some last =>
    have chained : last ∈ nodes (chains lane) := by
      have same := chain.tail
      rw [tail] at same
      exact List.mem_of_getLast? same.symm
    dsimp only
    refine ⟨?_, ?_, shares⟩
    · apply formed.vacant.frame
      intro k member
      rw [next_setNext, update_of_ne]
      rintro rfl
      exact formed.free_out_chain member lane chained
    · intro l
      by_cases here : l = lane
      · subst here
        rw [update_self, update_self]
        have joined := chain.splice (formed.nodup_chain l) tail
          (fun k member => formed.out_chain (inside k member) l) other head
        cases top : (links l).head with
        | none =>
          rw [chain.eq_nil top] at chained
          cases chained
        | some first =>
          rw [top] at joined
          exact joined
      · rw [update_of_ne here, update_of_ne here]
        apply (formed.lanes l).frame
        intro k member
        apply setCell_of_ne
        rintro rfl
        exact formed.chain_out_chain here member chained

end

end Dope.Egress.Metadata
