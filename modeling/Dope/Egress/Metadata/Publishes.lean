import Dope.Egress.Metadata.Batches
import Dope.Egress.Metadata.Vacant

/-! # Publishing is all or nothing

A reservation holds its nodes and its claims. Each way out of a publication
either returns all of them, or binds a node to every payload that is there and
returns the rest.
-/

namespace Dope.Egress.Metadata

open Wait Function Run

variable {node : Node}

section
variable {credit : HeldCredit} {n : Nat} {access : Access credit n} {T : Type}
  {pool : Pool access T} {lane : Fin n} {free held held' : List Nat}
  {chains : Fin n → List (Placed T)}

theorem Account.release_zero (account : Account credit n) (lane : Fin n) :
    account.release lane Amount.zero = account := by
  have within : Amount.zero ≤ account.held lane := Amount.zero_le _
  apply Account.eq_of lane
  · rw [Account.release_shared _ _ within]
    apply Amount.ext
    · rw [Amount.add_entries, Amount.min_entries, Amount.zero_entries, Nat.zero_min, Nat.add_zero]
    · rw [Amount.add_resident, Amount.min_resident, Amount.zero_resident, Nat.zero_min,
        Nat.add_zero]
  · rw [Account.release_held _ _ within, Amount.sub_zero]
  · exact Account.release_reserve _ _
  · exact fun l differ => Account.release_others _ _ differ

/-! ## Single nodes -/

theorem Node.rollback_formed {node : Node} (formed : Formed pool.slab pool.links free held chains)
    (member : held.Perm (node.index :: held')) :
    Formed (node.rollback pool lane).slab (node.rollback pool lane).links (node.index :: free)
      held' chains :=
  formed.recycle member

theorem Pool.commit_formed {index : Nat} {value : NonEmpty T} {stored : Stored}
    (formed : Formed pool.slab pool.links free held chains) (member : held.Perm (index :: held')) :
    Formed (pool.commit lane index value stored).slab (pool.commit lane index value stored).links
      free held' (update chains lane (chains lane ++ [⟨index, value, stored⟩])) := by
  have inside : index ∈ held := member.mem_iff.mpr List.mem_cons_self
  have written : Formed (pool.slab.write index value stored) pool.links free held chains := by
    apply formed.frame
    · rfl
    · rfl
    · intro k outside
      apply setCell_of_ne
      rintro rfl
      exact outside inside
  have has : (pool.slab.write index value stored).Has ⟨index, value, stored⟩ := by
    have cell : (pool.slab.write index value stored).cells index = { pool.slab.cells index with
        value := some value
        entry := some stored
        occupied := true } := setCell_self _
    refine ⟨?_, ?_, ?_⟩
    · rw [cell]
    · rw [cell]
    · rw [cell]
  exact @Formed.push _ _ _ _ _ _ _ _ lane ⟨index, value, stored⟩ written member has

theorem Node.bind_ok {load : NonEmpty T} {limit : Limit} {part : BoundNode T}
    (one : node.claim.entries = 1) (h : node.bind load limit = .ok part) :
    part.index = node.index ∧ part.load = load ∧ part.node = node ∧
      part.claim - part.rest = load.amount ∧ load.amount + part.rest = node.claim := by
  unfold bind at h
  split at h
  · cases h
  · unfold tryBind at h
    dsimp only at h
    by_cases fits : load.resident ≤ node.claim.resident
    · rw [if_pos fits] at h
      cases h
      refine ⟨rfl, rfl, rfl, ?_, ?_⟩
      · apply Amount.ext
        · rw [Amount.sub_entries, one]
          rfl
        · rw [Amount.sub_resident]
          exact Nat.sub_sub_self fits
      · apply Amount.ext
        · rw [Amount.add_entries, one]
          rfl
        · rw [Amount.add_resident]
          exact Nat.add_sub_cancel' fits
    · rw [if_neg fits] at h
      cases h

/-- A bound node is published with its load, and the surplus goes back. -/
theorem BoundNode.publish_spec {part : BoundNode T} (exact : part.claim - part.rest = part.load.amount)
    (formed : Formed pool.slab pool.links free held chains)
    (member : held.Perm (part.index :: held')) :
    Formed (part.publish pool lane).slab (part.publish pool lane).links free held'
        (update chains lane (chains lane ++
          [⟨part.index, part.load, ⟨part.load.len, part.load.resident⟩⟩])) ∧
      (part.publish pool lane).account = pool.account.release lane part.rest := by
  have stored : (part.claim - part.rest).resident = part.load.resident := by
    rw [exact]
    rfl
  have committed := @Pool.commit_formed _ _ _ _ _ lane _ _ _ _ _ part.load
    ⟨part.load.len, part.load.resident⟩ formed member
  unfold publish
  dsimp only
  rw [stored]
  by_cases zero : part.rest = Amount.zero
  · rw [if_neg (by simp [zero]), zero, Account.release_zero]
    exact ⟨committed, rfl⟩
  · rw [if_pos zero]
    exact ⟨committed, rfl⟩

/-! ## Reserved slots -/

namespace Slots

def nodes : Slots → List Node
  | .empty => []
  | .first node => [node]
  | .second node => [node]
  | .pair left right => [left, right]

def indices (slots : Slots) : List Nat := slots.nodes.map Node.index

/-- All credit of the slots. -/
def claim : Slots → Amount
  | .empty => Amount.zero
  | .first node => node.claim
  | .second node => node.claim
  | .pair left right => right.claim + left.claim

end Slots

/-- The reservation holds its nodes and the credit of its bounds. -/
structure Reserved (pool : Pool access T) (lane : Fin n) (bounds : Bounds) (slots : Slots)
    (free : List Nat) (chains : Fin n → List (Placed T)) : Prop where
  formed : Formed pool.slab pool.links free slots.indices chains
  ones : ∀ node ∈ slots.nodes, node.claim.entries = 1
  claim : slots.claim = bounds.amount
  within : bounds.amount ≤ pool.account.held lane

/-- All nodes and all credit are returned. -/
structure Returned (before : Pool access T) (lane : Fin n) (grant : Amount) (free : List Nat)
    (chains : Fin n → List (Placed T)) (pool : Pool access T) : Prop where
  formed : Formed pool.slab pool.links free [] chains
  links : pool.links = before.links
  account : pool.account = before.account.release lane grant

theorem Reserved.rollback {bounds : Bounds} {slots : Slots}
    (reserved : Reserved pool lane bounds slots free chains) :
    Returned pool lane bounds.amount (slots.indices ++ free) chains (slots.rollback pool lane) := by
  have formed := reserved.formed
  have claim := reserved.claim
  cases slots with
  | empty =>
    refine ⟨formed, rfl, ?_⟩
    rw [← claim]
    exact (Account.release_zero _ _).symm
  | first node =>
    refine ⟨@Node.rollback_formed _ _ _ _ _ lane _ _ [] _ node formed (List.Perm.refl _), rfl, ?_⟩
    rw [← claim]
    rfl
  | second node =>
    refine ⟨@Node.rollback_formed _ _ _ _ _ lane _ _ [] _ node formed (List.Perm.refl _), rfl, ?_⟩
    rw [← claim]
    rfl
  | pair left right =>
    have second := @Node.rollback_formed _ _ _ _ _ lane _ _ [left.index] _ right formed
      (List.Perm.swap ..)
    have first := @Node.rollback_formed _ _ _ _ _ lane _ _ [] _ left second (List.Perm.refl _)
    refine ⟨first, rfl, ?_⟩
    have within := reserved.within
    rw [← claim] at within ⊢
    exact Account.release_release _ _ within

/-! ## Publishing -/

/-- The payload that a node carries, with its checked geometry. -/
def Carries (maxBytes : Nat) (value : Value T) (placed : Placed T) : Prop :=
  Inputs.check maxBytes (some value) = .ok (some placed.load) ∧ placed.load.value = value.inner

/-- The payloads are published in their order, and the surplus is returned. -/
structure Published (maxBytes : Nat) (before : Pool access T) (lane : Fin n) (grant : Amount)
    (free : List Nat) (chains : Fin n → List (Placed T)) (values : List (Value T))
    (pool : Pool access T) (rest : List Nat) (ys : List (Placed T)) : Prop where
  formed : Formed pool.slab pool.links rest [] (update chains lane (chains lane ++ ys))
  nodes : free.Perm (nodes ys ++ rest)
  carries : List.Forall₂ (Carries maxBytes) values ys
  fresh : ∀ placed ∈ ys, placed.Fresh
  account : pool.account =
    (before.account.release lane grant).acquire lane (total (ys.map Placed.load))

/-- What a claim has beyond its load, and a spare claim, go back together. -/
theorem Account.publish_surplus {account : Account credit n} {load rest spare claim grant : Amount}
    (part : load + rest = claim) (sum : claim + spare = grant)
    (within : grant ≤ account.held lane) :
    (account.release lane spare).release lane rest =
      (account.release lane grant).acquire lane load := by
  have whole : grant = load + (spare + rest) := by
    rw [← sum, ← part, Amount.add_assoc, Amount.add_comm rest spare]
  rw [whole] at within ⊢
  have inner : spare + rest ≤ account.held lane := by
    rw [Amount.add_comm] at within
    exact Amount.le_of_add_le within
  rw [Account.release_release _ _ inner, Account.acquire_release_sum _ _ within]

namespace Slots

variable {bounds : Bounds} {slots : Slots}

theorem mem_restore (node : Node) (spare : Option Node) (isSecond : Bool) :
    node ∈ (restore node spare isSecond).nodes := by
  cases isSecond with
  | false =>
    cases spare with
    | none => exact List.mem_singleton.mpr rfl
    | some right => exact List.mem_cons_self
  | true =>
    cases spare with
    | none => exact List.mem_singleton.mpr rfl
    | some left => exact List.mem_cons_of_mem _ (List.mem_singleton.mpr rfl)

/-- The spare node is returned before the other one is published. -/
theorem restore_spare {spare : Option Node} {isSecond : Bool}
    (reserved : Reserved pool lane bounds (restore node spare isSecond) free chains) :
    ∃ free' returned, Formed (rollbackSpare pool lane spare).slab
        (rollbackSpare pool lane spare).links free' [node.index] chains ∧
      ((restore node spare isSecond).indices ++ free).Perm (node.index :: free') ∧
      node.claim + returned = bounds.amount ∧
      (rollbackSpare pool lane spare).account = pool.account.release lane returned := by
  have formed := reserved.formed
  have claim := reserved.claim
  cases spare with
  | none =>
    refine ⟨free, Amount.zero, ?_, ?_, ?_, (Account.release_zero _ _).symm⟩
    · cases isSecond <;> exact formed
    · cases isSecond <;> exact List.Perm.refl _
    · rw [← claim, Amount.add_zero]
      cases isSecond <;> rfl
  | some other =>
    cases isSecond with
    | false =>
      refine ⟨other.index :: free, other.claim, ?_, List.Perm.refl _, ?_, rfl⟩
      · exact Node.rollback_formed formed (List.Perm.swap ..)
      · rw [← claim, Amount.add_comm]
        rfl
    | true =>
      refine ⟨other.index :: free, other.claim, ?_, List.Perm.swap .., claim, rfl⟩
      exact Node.rollback_formed formed (List.Perm.refl _)

theorem publishOne_spec {spare : Option Node} {isSecond : Bool}
    (reserved : Reserved pool lane bounds (restore node spare isSecond) free chains)
    (load : NonEmpty T) :
    (∃ cause, publishOne pool lane bounds node spare load isSecond =
      (.error ⟨.changed cause, bounds, if isSecond then none else some (.checked load),
        if isSecond then some (.checked load) else none⟩,
        (restore node spare isSecond).rollback pool lane)) ∨
    ∃ pool' rest placed, publishOne pool lane bounds node spare load isSecond =
        (.ok .published, pool') ∧ placed.load = load ∧ placed.Fresh ∧
      Formed pool'.slab pool'.links rest [] (update chains lane (chains lane ++ [placed])) ∧
      ((restore node spare isSecond).indices ++ free).Perm (placed.node :: rest) ∧
      pool'.account = (pool.account.release lane bounds.amount).acquire lane load.amount ∧
      load.amount ≤ bounds.amount := by
  unfold publishOne
  dsimp only
  cases bound : node.bind load (if isSecond = true then bounds.second else bounds.first) with
  | error cause =>
    left
    cases isSecond with
    | false => exact ⟨.first cause, rfl⟩
    | true => exact ⟨.second cause, rfl⟩
  | ok part =>
    right
    have one := reserved.ones node (mem_restore node spare isSecond)
    obtain ⟨index, loaded, -, exact_, sum⟩ := Node.bind_ok one bound
    obtain ⟨free', returned, formed, nodes, claim, account⟩ := restore_spare reserved
    rw [← loaded] at exact_
    rw [← index] at formed nodes
    obtain ⟨published, refunded⟩ :=
      @BoundNode.publish_spec _ _ _ _ _ lane _ _ [] _ part exact_ formed (List.Perm.refl _)
    refine ⟨_, free', ⟨part.index, part.load, ⟨part.load.len, part.load.resident⟩⟩, rfl, loaded,
      rfl, published, nodes, ?_, ?_⟩
    · rw [refunded, account]
      exact Account.publish_surplus sum claim reserved.within
    · rw [← claim, ← sum, Amount.add_assoc]
      exact Amount.le_add_right ..

theorem publishPair_spec {left right : Node}
    (reserved : Reserved pool lane bounds (.pair left right) free chains) (one two : NonEmpty T) :
    (∃ cause, publishPair pool lane bounds left right one two =
      (.error ⟨.changed cause, bounds, some (.checked one), some (.checked two)⟩,
        (Slots.pair left right).rollback pool lane)) ∨
    ∃ pool' a b, publishPair pool lane bounds left right one two = (.ok .published, pool') ∧
      a.load = one ∧ b.load = two ∧ a.Fresh ∧ b.Fresh ∧
      Formed pool'.slab pool'.links free [] (update chains lane (chains lane ++ [a, b])) ∧
      (Slots.pair left right).indices = [a.node, b.node] ∧
      pool'.account =
        (pool.account.release lane bounds.amount).acquire lane (one.amount + two.amount) ∧
      one.amount + two.amount ≤ bounds.amount := by
  unfold publishPair
  have entry := reserved.ones left List.mem_cons_self
  have entry' := reserved.ones right (List.mem_cons_of_mem _ (List.mem_singleton.mpr rfl))
  cases bound : left.bind one bounds.first with
  | error cause => exact .inl ⟨.first cause, rfl⟩
  | ok a =>
    obtain ⟨index, loaded, node, exact_, sum⟩ := Node.bind_ok entry bound
    dsimp only
    cases bound' : right.bind two bounds.second with
    | error cause =>
      left
      dsimp only
      rw [loaded, node]
      exact ⟨.second cause, rfl⟩
    | ok b =>
      right
      obtain ⟨index', loaded', -, exact', sum'⟩ := Node.bind_ok entry' bound'
      have formed : Formed pool.slab pool.links free [a.index, b.index] chains := by
        rw [index, index']
        exact reserved.formed
      rw [← loaded] at exact_
      rw [← loaded'] at exact'
      obtain ⟨first, refunded⟩ :=
        @BoundNode.publish_spec _ _ _ _ _ lane _ _ [b.index] _ a exact_ formed (List.Perm.refl _)
      obtain ⟨second, refunded'⟩ :=
        @BoundNode.publish_spec _ _ _ _ _ lane _ _ [] _ b exact' first (List.Perm.refl _)
      rw [update_self, update_idem, List.append_assoc] at second
      have whole : bounds.amount = one.amount + two.amount + (a.rest + b.rest) := by
        rw [← reserved.claim]
        have claims : (Slots.pair left right).claim = right.claim + left.claim := rfl
        rw [claims, ← sum, ← sum']
        apply Amount.ext
        · simp only [Amount.add_entries]
          omega
        · simp only [Amount.add_resident]
          omega
      refine ⟨_, ⟨a.index, a.load, ⟨a.load.len, a.load.resident⟩⟩,
        ⟨b.index, b.load, ⟨b.load.len, b.load.resident⟩⟩, rfl, loaded, loaded', rfl, rfl, second,
        ?_, ?_, ?_⟩
      · rw [index, index']
        rfl
      · rw [refunded', refunded]
        have within := reserved.within
        rw [whole] at within ⊢
        have inner : a.rest + b.rest ≤ pool.account.held lane := by
          rw [Amount.add_comm] at within
          exact Amount.le_of_add_le within
        rw [Account.release_release _ _ inner, Account.acquire_release_sum _ _ within]
      · rw [whole]
        exact Amount.le_add_right ..

/-- The loads are on the lane, in their order. -/
structure Sent (pool : Pool access T) (lane : Fin n) (grant : Amount) (nodes : List Nat)
    (chains : Fin n → List (Placed T)) (loads : List (NonEmpty T)) (pool' : Pool access T)
    (rest : List Nat) (ys : List (Placed T)) : Prop where
  loads : ys.map Placed.load = loads
  some : ys ≠ []
  fresh : ∀ placed ∈ ys, placed.Fresh
  formed : Formed pool'.slab pool'.links rest [] (update chains lane (chains lane ++ ys))
  nodes : nodes.Perm (Metadata.nodes ys ++ rest)
  account : pool'.account =
    (pool.account.release lane grant).acquire lane (total (ys.map Placed.load))
  within : total (ys.map Placed.load) ≤ grant

/-- How checked payloads fare. -/
def Settles (pool : Pool access T) (lane : Fin n) (bounds : Bounds) (slots : Slots)
    (free : List Nat) (chains : Fin n → List (Placed T)) (one two : Option (NonEmpty T))
    (result : Except (Publish.Error T) Publish × Pool access T) : Prop :=
  (∃ cause first second, result =
      (.error ⟨.changed cause, bounds, first, second⟩, slots.rollback pool lane) ∧
    first.toList ++ second.toList = (one.toList ++ two.toList).map .checked) ∨
  (result = (.ok .empty, slots.rollback pool lane) ∧ one = none ∧ two = none) ∨
  ∃ pool' rest ys, result = (.ok .published, pool') ∧
    Sent pool lane bounds.amount (slots.indices ++ free) chains (one.toList ++ two.toList) pool'
      rest ys

theorem publishOne_settles {node : Node} {spare : Option Node} {isSecond : Bool}
    (reserved : Reserved pool lane bounds (restore node spare isSecond) free chains)
    (load : NonEmpty T) :
    Settles pool lane bounds (restore node spare isSecond) free chains
      (if isSecond then none else some load) (if isSecond then some load else none)
      (publishOne pool lane bounds node spare load isSecond) := by
  rcases publishOne_spec reserved load with ⟨cause, ran⟩ |
    ⟨pool', rest, placed, ran, loaded, fresh, formed, nodes, account, within⟩
  · left
    refine ⟨cause, _, _, ran, ?_⟩
    cases isSecond <;> rfl
  · right
    right
    refine ⟨pool', rest, [placed], ran, ?_, List.cons_ne_nil _ _, ?_, formed, nodes, ?_, ?_⟩
    · subst loaded
      cases isSecond <;> rfl
    · intro other member
      rw [List.mem_singleton.mp member]
      exact fresh
    · rw [account, List.map_singleton, loaded]
      rfl
    · rw [List.map_singleton, loaded]
      exact within

theorem publishPair_settles {left right : Node}
    (reserved : Reserved pool lane bounds (.pair left right) free chains) (one two : NonEmpty T) :
    Settles pool lane bounds (.pair left right) free chains (some one) (some two)
      (publishPair pool lane bounds left right one two) := by
  rcases publishPair_spec reserved one two with ⟨cause, ran⟩ |
    ⟨pool', a, b, ran, rfl, rfl, fresh, fresh', formed, nodes, account, within⟩
  · exact .inl ⟨cause, _, _, ran, rfl⟩
  · right
    right
    refine ⟨pool', free, [a, b], ran, rfl, List.cons_ne_nil _ _, ?_, formed, ?_, ?_, within⟩
    · intro placed member
      rcases List.mem_cons.mp member with rfl | last
      · exact fresh
      · rw [List.mem_singleton.mp last]
        exact fresh'
    · rw [nodes]
      rfl
    · rw [account]
      rfl

theorem publishValid_settles (reserved : Reserved pool lane bounds slots free chains)
    (one two : Option (NonEmpty T)) :
    Settles pool lane bounds slots free chains one two
      (publishValid pool lane bounds slots one two) := by
  cases one with
  | none =>
    cases two with
    | none =>
      right
      left
      refine ⟨?_, rfl, rfl⟩
      cases slots <;> rfl
    | some load =>
      cases slots with
      | empty | first => exact .inl ⟨_, _, _, rfl, rfl⟩
      | second node =>
        exact @publishOne_settles _ _ _ _ _ _ _ _ _ node none true reserved load
      | pair left right =>
        exact @publishOne_settles _ _ _ _ _ _ _ _ _ right (some left) true reserved load
  | some load =>
    cases two with
    | none =>
      cases slots with
      | empty => exact .inl ⟨_, _, _, rfl, rfl⟩
      | first node =>
        exact @publishOne_settles _ _ _ _ _ _ _ _ _ node none false reserved load
      | second node => exact .inl ⟨_, _, _, rfl, rfl⟩
      | pair left right =>
        exact @publishOne_settles _ _ _ _ _ _ _ _ _ left (some right) false reserved load
    | some other =>
      cases slots with
      | empty | first | second => exact .inl ⟨_, _, _, rfl, rfl⟩
      | pair left right => exact publishPair_settles reserved load other

end Slots

/-! ## Checking -/

variable {value : Option (Value T)}

namespace Inputs

variable {maxBytes : Nat} {bounds : Bounds} {first second : Option (Value T)}

theorem new_values : (Inputs.new bounds first second).first.toList ++
    (Inputs.new bounds first second).second.toList = first.toList ++ second.toList := by
  unfold new
  split
  · rename_i moved
    rw [Option.isNone_iff_eq_none.mp moved.1]
    exact List.append_nil _
  · rfl

theorem tryNonempty_ok {load : Load T} {valid : NonEmpty T}
    (h : load.tryNonempty maxBytes = .ok valid) : valid.value = load.value := by
  unfold Load.tryNonempty at h
  split at h
  · cases h
  · split at h
    · cases h
    · split at h
      · cases h
        rfl
      · cases h

theorem check_ok {valid : Option (NonEmpty T)} (h : check maxBytes value = .ok valid) :
    List.Forall₂ (fun value load => check maxBytes (some value) = .ok (some load) ∧
      load.value = value.inner) value.toList valid.toList := by
  cases value with
  | none =>
    cases h
    exact .nil
  | some value =>
    cases value with
    | checked load =>
      cases h
      exact .cons ⟨rfl, rfl⟩ .nil
    | unchecked load =>
      cases checked : load.tryNonempty maxBytes with
      | error reason =>
        unfold check at h
        dsimp only at h
        rw [checked] at h
        cases h
      | ok valid' =>
        have same := h
        unfold check at h
        dsimp only at h
        rw [checked] at h
        cases h
        exact .cons ⟨same, tryNonempty_ok checked⟩ .nil

theorem inner_of_carried {values : List (Value T)} {loads : List (NonEmpty T)}
    (h : List.Forall₂ (fun value load => check maxBytes (some value) = .ok (some load) ∧
      load.value = value.inner) values loads) :
    loads.map (Value.inner ∘ Value.checked) = values.map Value.inner := by
  induction h with
  | nil => rfl
  | cons same _ ih =>
    rw [List.map_cons, List.map_cons, ih, ← same.2]
    rfl

theorem check_error {load : Load T} {reason : Load.Error}
    (h : check maxBytes value = .error (load, reason)) : value = some (.unchecked load) := by
  cases value with
  | none => cases h
  | some value =>
    cases value with
    | checked load => cases h
    | unchecked load =>
      unfold check at h
      dsimp only at h
      cases checked : load.tryNonempty maxBytes with
      | ok valid =>
        rw [checked] at h
        cases h
      | error reason =>
        rw [checked] at h
        cases h
        rfl

theorem check_inner {valid : Option (NonEmpty T)} (h : check maxBytes value = .ok valid) :
    (valid.map Value.checked).toList.map Value.inner = value.toList.map Value.inner := by
  rw [← inner_of_carried (check_ok h)]
  cases valid <;> rfl

theorem validate_ok {inputs : Inputs T} {valid : Validated T}
    (h : inputs.validate maxBytes bounds = .ok valid) :
    check maxBytes inputs.first = .ok valid.first ∧
      check maxBytes inputs.second = .ok valid.second := by
  unfold validate at h
  split at h
  · cases h
  · rename_i first ran
    split at h
    · cases h
    · rename_i second ran'
      cases h
      exact ⟨ran, ran'⟩

theorem validate_error {inputs : Inputs T} {error : Publish.Error T}
    (h : inputs.validate maxBytes bounds = .error error) :
    error.bounds = bounds ∧ (error.first.toList ++ error.second.toList).map Value.inner =
      (inputs.first.toList ++ inputs.second.toList).map Value.inner := by
  unfold validate at h
  split at h
  · rename_i load reason ran
    cases h
    rw [check_error ran]
    exact ⟨rfl, rfl⟩
  · rename_i first ran
    split at h
    · rename_i load reason ran'
      cases h
      refine ⟨rfl, ?_⟩
      rw [List.map_append, List.map_append, check_inner ran, check_error ran']
    · cases h

end Inputs

/-! ## Reserving -/

namespace Vacant

variable {bounds : Bounds}

theorem amount_of_none (idle : bounds.shape = none) : bounds.amount = Amount.zero := by
  have sum := bounds.sum
  have first := bounds.first.idle
  have second := bounds.second.idle
  unfold Bounds.amount Bounds.entries
  unfold Bounds.shape at idle
  cases active : bounds.first.isActive with
  | true =>
    rw [active] at idle
    cases active' : bounds.second.isActive <;> rw [active'] at idle <;> cases idle
  | false =>
    cases active' : bounds.second.isActive with
    | true =>
      rw [active, active'] at idle
      cases idle
    | false =>
      unfold Limit.isActive at active active'
      rw [sum, first (by simpa using active), second (by simpa using active')]
      rfl

/-- A reservation takes its nodes off the free list, or returns its credit. -/
theorem reserve_spec (formed : Formed pool.slab pool.links free [] chains)
    (within : bounds.amount ≤ pool.account.held lane) :
    (∃ cause, (reserve pool lane bounds).1 = .error cause ∧
      Returned pool lane bounds.amount free chains (reserve pool lane bounds).2) ∨
    ∃ slots free' pool', reserve pool lane bounds = (.ok ⟨bounds, slots⟩, pool') ∧
      free = slots.indices ++ free' ∧ Reserved pool' lane bounds slots free' chains ∧
      pool'.links = pool.links ∧ pool'.account = pool.account := by
  have back : Returned pool lane bounds.amount free chains (pool.release lane bounds.amount) :=
    ⟨formed, rfl, rfl⟩
  unfold reserve
  cases shape : bounds.shape with
  | none =>
    right
    refine ⟨.empty, free, pool, rfl, rfl, ⟨formed, ?_, ?_, within⟩, rfl, rfl⟩
    · exact fun node member => absurd member List.not_mem_nil
    · exact (amount_of_none shape).symm
  | some kind =>
    dsimp only
    unfold tryNew
    cases vacancy : pool.slab.vacancy with
    | none => exact .inl ⟨_, rfl, back⟩
    | some index =>
      dsimp only
      obtain ⟨free', rfl, threads⟩ : ∃ free', free = index :: free' ∧
          Stack.Threads pool.slab.next (pool.slab.next index) free' := by
        have threads := formed.vacant
        unfold Slab.vacancy at vacancy
        rw [vacancy] at threads
        exact threads.pop
      have taken := formed.reserve.2
      have entries : bounds.entries = match kind with
          | .pair _ => 2
          | _ => 1 := by
        unfold Bounds.shape at shape
        unfold Bounds.entries
        cases active : bounds.first.isActive <;> cases active' : bounds.second.isActive <;>
          rw [active, active'] at shape <;> cases shape <;> rfl
      cases kind with
      | first =>
        right
        refine ⟨.first ⟨bounds.amount, index⟩, free', _, rfl, rfl, ⟨taken, ?_, rfl, within⟩,
          rfl, rfl⟩
        intro node member
        rw [List.mem_singleton.mp member]
        exact entries
      | second =>
        right
        refine ⟨.second ⟨bounds.amount, index⟩, free', _, rfl, rfl, ⟨taken, ?_, rfl, within⟩,
          rfl, rfl⟩
        intro node member
        rw [List.mem_singleton.mp member]
        exact entries
      | pair resident =>
        dsimp only at entries ⊢
        cases second : pool.slab.pair index with
        | none => exact .inl ⟨_, rfl, back⟩
        | some next =>
          right
          unfold Slab.pair at second
          rw [second] at threads
          obtain ⟨free'', rfl, -⟩ := threads.pop
          have both := taken.reserve.2
          have first : resident = bounds.first.resident := by
            unfold Bounds.shape at shape
            cases active : bounds.first.isActive <;>
              cases active' : bounds.second.isActive <;>
              rw [active, active'] at shape <;> cases shape
            rfl
          have sum := bounds.sum
          refine ⟨.pair ⟨⟨1, resident⟩, index⟩ ⟨bounds.amount - ⟨1, resident⟩, next⟩, free'',
            { pool with slab := pool.slab.reservePair next }, rfl, rfl,
            ⟨both, ?_, ?_, within⟩, rfl, rfl⟩
          · intro node member
            rcases List.mem_cons.mp member with rfl | last
            · rfl
            · rw [List.mem_singleton.mp last]
              dsimp only
              rw [Amount.sub_entries]
              unfold Bounds.amount
              rw [entries]
              rfl
          · have claims : (Slots.pair ⟨⟨1, resident⟩, index⟩
                ⟨bounds.amount - ⟨1, resident⟩, next⟩).claim =
                bounds.amount - ⟨1, resident⟩ + ⟨1, resident⟩ := rfl
            rw [claims]
            unfold Bounds.amount
            apply Amount.ext
            · rw [Amount.add_entries, Amount.sub_entries]
              dsimp only
              omega
            · rw [Amount.add_resident, Amount.sub_resident]
              dsimp only
              omega

/-- The payloads that are there, in their order. -/
def payloads (first second : Option (Value T)) : List (Value T) := first.toList ++ second.toList

/-- A reservation is published as a whole or not at all. `pool` is the pool that
the reservation was made in, with the credit of the bounds already held: what is
released and not acquired again is returned. -/
theorem tryPublish_atomic (formed : Formed pool.slab pool.links free [] chains)
    (granted : bounds.amount ≤ pool.account.held lane) {vacant : Vacant} {reserved : Pool access T}
    (made : reserve pool lane bounds = (.ok vacant, reserved)) (maxBytes : Nat)
    (first second : Option (Value T)) :
    (∃ error pool', vacant.tryPublish maxBytes reserved lane first second = (.error error, pool') ∧
      Returned pool lane bounds.amount free chains pool' ∧
      (payloads error.first error.second).map Value.inner =
        (payloads first second).map Value.inner) ∨
    (∃ pool', vacant.tryPublish maxBytes reserved lane first second = (.ok .empty, pool') ∧
      first = none ∧ second = none ∧ Returned pool lane bounds.amount free chains pool') ∨
    ∃ pool' rest ys,
      vacant.tryPublish maxBytes reserved lane first second = (.ok .published, pool') ∧ ys ≠ [] ∧
      Published maxBytes pool lane bounds.amount free chains (payloads first second) pool' rest
        ys := by
  rcases @reserve_spec _ _ _ _ _ lane _ _ bounds formed granted with ⟨cause, refused, -⟩ |
    ⟨slots, free', pool', ran, rfl, holds, links, account⟩
  · rw [made] at refused
    cases refused
  · rw [made] at ran
    cases ran
    have rolled := holds.rollback
    have returned : Returned pool lane bounds.amount (slots.indices ++ free') chains
        (slots.rollback reserved lane) := by
      refine ⟨rolled.formed, rolled.links.trans links, ?_⟩
      rw [rolled.account, account]
    unfold Vacant.tryPublish Slots.tryPublish
    dsimp only
    cases checked : (Inputs.new bounds first second).validate maxBytes bounds with
    | error error =>
        left
        obtain ⟨-, values⟩ := Inputs.validate_error checked
        rw [Inputs.new_values] at values
        exact ⟨error, _, rfl, returned, values⟩
    | ok valid =>
        obtain ⟨one, two⟩ := Inputs.validate_ok checked
        have carried := List.rel_append (Inputs.check_ok one) (Inputs.check_ok two)
        dsimp only at carried ⊢
        rw [Inputs.new_values] at carried
        rcases Slots.publishValid_settles holds valid.first valid.second with
          ⟨cause, first', second', ran, values⟩ | ⟨ran, none, none'⟩ |
            ⟨pool', rest, ys, ran, sent⟩
        · left
          refine ⟨_, _, ran, returned, ?_⟩
          unfold payloads
          dsimp only
          rw [values, List.map_map]
          exact Inputs.inner_of_carried carried
        · right
          left
          rw [none, none'] at carried
          have empty : first.toList ++ second.toList = [] := by
            cases values : first.toList ++ second.toList with
            | nil => rfl
            | cons value values' =>
                rw [values] at carried
                cases carried
          obtain ⟨empty, empty'⟩ := List.append_eq_nil_iff.mp empty
          exact ⟨_, ran, Option.toList_eq_nil_iff.mp empty, Option.toList_eq_nil_iff.mp empty',
            returned⟩
        · right
          right
          refine ⟨pool', rest, ys, ran, sent.some, sent.formed, sent.nodes, ?_, sent.fresh, ?_⟩
          · rw [← sent.loads] at carried
            have mapped := List.forall₂_map_right_iff.mp carried
            exact mapped
          · rw [sent.account, account]

end Vacant

/-! ## A pair with one payload -/

/-- Four shared entries and four shared bytes, of which a pair holds some. -/
def pairedPool : Pool (Access.local_ HeldCredit.direct 1) Nat :=
  let pool := Pool.new _ Nat () (Config.ofShared ⟨4, 4⟩)
  { pool with account := pool.account.acquire 0 ⟨2, 4⟩ }

def pairBounds : Bounds where
  first := ⟨.atMost 1, 2, fun h => by cases h⟩
  second := ⟨.atMost 2, 2, fun h => by cases h⟩
  resident := 4
  sum := rfl

theorem tryPublish_atomic_example :
    ∃ vacant reserved pool' rest ys, Vacant.reserve pairedPool 0 pairBounds =
        (.ok vacant, reserved) ∧
      vacant.tryPublish 9 reserved 0 (some (.unchecked ⟨7, 1, 1⟩)) none =
        (.ok .published, pool') ∧
      Published 9 pairedPool 0 ⟨2, 4⟩ (List.range 4) (fun _ => []) [.unchecked ⟨7, 1, 1⟩] pool' rest
        ys := by
  obtain ⟨vacant, reserved, made⟩ : ∃ vacant reserved,
      Vacant.reserve pairedPool 0 pairBounds = (.ok vacant, reserved) := ⟨_, _, rfl⟩
  have output : (vacant.tryPublish 9 reserved 0 (some (.unchecked ⟨7, 1, 1⟩)) none).1 =
      .ok .published := by
    cases made
    rfl
  rcases @Vacant.tryPublish_atomic _ _ _ _ pairedPool 0 _ _ pairBounds (formed_new 4)
      ⟨Nat.le_refl _, Nat.le_refl _⟩ vacant reserved made 9 (some (.unchecked ⟨7, 1, 1⟩)) none with
    ⟨error, pool', ran, -⟩ | ⟨pool', ran, -⟩ | ⟨pool', rest, ys, ran, -, published⟩
  · rw [ran] at output
    cases output
  · rw [ran] at output
    cases output
  · exact ⟨vacant, reserved, pool', rest, ys, made, ran, published⟩

end

end Dope.Egress.Metadata
