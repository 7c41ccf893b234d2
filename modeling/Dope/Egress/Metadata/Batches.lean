import Dope.Egress.Metadata.Arena
import Dope.Egress.Metadata.Draft

/-! # Batches are atomic

While a batch is built, its nodes are held and its chain is seen by no lane. The
chain then goes to the lane as a whole, with the whole credit; or every node is
free again, and the account is as it was before the batch.
-/

namespace Dope.Egress.Metadata

open Wait Function Run

/-! ## Sums of loads -/

section
variable {T : Type}

/-- The credit of a list of loads. -/
def total (loads : List (NonEmpty T)) : Amount :=
  ⟨loads.length, (loads.map NonEmpty.resident).sum⟩

/-- The credit of a list of placed loads. -/
def charged (ys : List (Placed T)) : Amount :=
  ⟨ys.length, (ys.map fun placed => placed.stored.resident).sum⟩

theorem Amount.add_assoc (a b c : Amount) : a + b + c = a + (b + c) := by
  apply Amount.ext
  · exact Nat.add_assoc ..
  · exact Nat.add_assoc ..

theorem Amount.add_comm (a b : Amount) : a + b = b + a := by
  apply Amount.ext
  · exact Nat.add_comm ..
  · exact Nat.add_comm ..

theorem Amount.add_zero (a : Amount) : a + Amount.zero = a := rfl

theorem Amount.le_of_add_le {a b c : Amount} (le : a + b ≤ c) : a ≤ c := by
  rcases le with ⟨entries, resident⟩
  exact ⟨(Nat.le_add_right ..).trans entries, (Nat.le_add_right ..).trans resident⟩

theorem Amount.le_add_right (a b : Amount) : a ≤ a + b :=
  ⟨Nat.le_add_right .., Nat.le_add_right ..⟩

theorem charged_cons (placed : Placed T) (ys : List (Placed T)) :
    charged (placed :: ys) = placed.stored.amount + charged ys := by
  unfold charged Stored.amount
  apply Amount.ext
  · rw [Amount.add_entries, List.length_cons]
    exact Nat.add_comm ..
  · rw [Amount.add_resident, List.map_cons, List.sum_cons]

/-- The load is placed with the credit it was split off with. -/
def Placed.Fresh (placed : Placed T) : Prop :=
  placed.stored = ⟨placed.load.len, placed.load.resident⟩

theorem charged_fresh {ys : List (Placed T)} (fresh : ∀ placed ∈ ys, placed.Fresh) :
    charged ys = total (ys.map Placed.load) := by
  unfold charged total
  apply Amount.ext
  · exact (List.length_map _).symm
  · dsimp only
    rw [List.map_map]
    congr 1
    apply List.map_congr_left
    intro placed member
    rw [fresh placed member]
    rfl

end

namespace Batch.Draft

variable {credit : HeldCredit} {n : Nat} {access : Access credit n} {T R E : Type}
  {pool start : Pool access T} {lane : Fin n} {plan : Amount} {draft : Draft T}
  {free held : List Nat} {chains : Fin n → List (Placed T)} {ys : List (Placed T)}

/-! ## Building -/

/-- What holds while a batch is built: `ys` is on its chain and `free` is left. -/
structure Drafts (start : Pool access T) (chains : Fin n → List (Placed T)) (plan : Amount)
    (pool : Pool access T) (draft : Draft T) (free : List Nat) (ys : List (Placed T)) : Prop where
  formed : Formed pool.slab pool.links free (nodes ys) chains
  chain : Chain pool.slab draft.links ys
  loads : ys.map Placed.load = draft.pushed
  fresh : ∀ placed ∈ ys, placed.Fresh
  credit : charged ys + draft.credit = plan
  links : pool.links = start.links
  account : pool.account = start.account
  wait : pool.wait = start.wait

theorem checkedSub_ok {amount removed rest : Amount}
    (h : Amount.checkedSub amount removed = .ok rest) : removed + rest = amount := by
  unfold Amount.checkedSub at h
  split at h
  · rename_i entries
    split at h
    · rename_i resident
      cases h
      apply Amount.ext
      · exact Nat.add_sub_cancel' entries
      · exact Nat.add_sub_cancel' resident
    · cases h
  · cases h

theorem Drafts.push (drafts : Drafts start chains plan pool draft free ys) (load : NonEmpty T) :
    ∃ answer draft' pool' used free' ys', tryPush pool lane draft load = (answer, draft', pool') ∧
      free = used ++ free' ∧ nodes ys' = nodes ys ++ used ∧
      Drafts start chains plan pool' draft' free' ys' := by
  unfold tryPush
  cases split : Amount.checkedSub draft.credit load.amount with
  | error cause => exact ⟨_, _, _, [], free, ys, rfl, rfl, (List.append_nil _).symm, drafts⟩
  | ok rest =>
    dsimp only
    cases vacancy : pool.slab.vacancy with
    | none => exact ⟨_, _, _, [], free, ys, rfl, rfl, (List.append_nil _).symm, drafts⟩
    | some index =>
      dsimp only
      obtain ⟨free', rfl⟩ : ∃ free', free = index :: free' := by
        have threads := drafts.formed.vacant
        unfold Slab.vacancy at vacancy
        rw [vacancy] at threads
        obtain ⟨free', same, -⟩ := threads.pop
        exact ⟨free', same⟩
      have reserved := drafts.formed.reserve.2
      have held := reserved.shares.nodup .held
      unfold parts at held
      have out : index ∉ nodes ys := by
        intro member
        have apart := (List.nodup_append.mp held).2.2
        exact apart index member index (List.mem_singleton.mpr rfl) rfl
      let placed : Placed T := ⟨index, load, ⟨load.len, load.resident⟩⟩
      let slab := (pool.slab.reserve index).write index load ⟨load.len, load.resident⟩
      have has : slab.Has placed := by
        have cell : slab.cells index = { (pool.slab.reserve index).cells index with
            value := some load
            entry := some ⟨load.len, load.resident⟩
            occupied := true } := setCell_self _
        refine ⟨?_, ?_, ?_⟩
        · rw [cell]
        · rw [cell]
        · rw [cell]
      have other : ∀ k, k ≠ index → slab.cells k = pool.slab.cells k :=
        fun k differ => setCell_of_ne _ differ
      have chain : Chain slab draft.links ys := by
        apply drafts.chain.frame
        intro k member
        apply other
        rintro rfl
        exact out member
      have tail : ∀ k, draft.links.tail = some k → k ∈ nodes ys := by
        intro k found
        have same := drafts.chain.tail
        rw [found] at same
        exact List.mem_of_getLast? same.symm
      have nodup : (nodes ys).Nodup := (List.nodup_append.mp held).1
      have pushed : Chain (slab.append draft.links index).1 (slab.append draft.links index).2
          (ys ++ [placed]) := chain.push nodup out has
      refine ⟨_, _, _, [index], free', ys ++ [placed], rfl, rfl, nodes_append ys [placed],
        ?_, pushed, ?_, ?_, ?_, drafts.links, drafts.account, drafts.wait⟩
      · rw [nodes_append]
        apply reserved.frame
        · exact join_len _
        · exact join_free _
        · intro k outside
          have differ : k ≠ index := by
            rintro rfl
            exact outside (List.mem_append_right _ (List.mem_singleton.mpr rfl))
          refine (join_of_ne differ ?_).trans (other k differ)
          exact fun found => outside (List.mem_append_left _ (tail k found))
      · rw [List.map_append, drafts.loads]
        rfl
      · intro other member
        rcases List.mem_append.mp member with earlier | last
        · exact drafts.fresh other earlier
        · rw [List.mem_singleton.mp last]
          rfl
      · have sum := drafts.credit
        rw [← checkedSub_ok split] at sum
        rw [← sum, ← Amount.add_assoc]
        congr 1
        apply Amount.ext
        · unfold charged
          rw [List.length_append, List.length_singleton]
          rfl
        · unfold charged
          rw [List.map_append, List.sum_append, List.map_singleton, List.sum_singleton]
          rfl

theorem Drafts.build (drafts : Drafts start chains plan pool draft free ys)
    (closure : Build T R E n) :
    ∃ output draft' pool' used free' ys', Draft.build lane closure draft pool =
        (output, draft', pool') ∧
      free = used ++ free' ∧ nodes ys' = nodes ys ++ used ∧
      Drafts start chains plan pool' draft' free' ys' := by
  induction closure generalizing pool draft free ys with
  | done output =>
    exact ⟨output, draft, pool, [], free, ys, rfl, rfl, (List.append_nil _).symm, drafts⟩
  | push load next ih =>
    obtain ⟨answer, mid, pool', used, free', ys', ran, cut, grown, drafts'⟩ :=
      @Drafts.push _ _ _ _ _ _ lane _ _ _ _ _ drafts load
    obtain ⟨output, last, pool'', used', free'', ys'', ran', cut', grown', drafts''⟩ :=
      ih answer drafts'
    refine ⟨output, last, pool'', used ++ used', free'', ys'', ?_, ?_, ?_, drafts''⟩
    · rw [Draft.build, ran]
      exact ran'
    · rw [cut, cut', List.append_assoc]
    · rw [grown', grown, List.append_assoc]

/-! ## Cancelling -/

theorem discard_ok {slab : Slab T} {links : Fin n → Ends} {chain : Ends} {placed : Placed T}
    (formed : Formed slab links free (nodes (placed :: ys)) chains)
    (linked : Chain slab chain (placed :: ys)) :
    ∃ slab' chain', slab.discard chain = .ok (some placed.stored, slab', chain') ∧
      Formed slab' links (placed.node :: free) (nodes ys) chains ∧ Chain slab' chain' ys ∧
      slab'.len = slab.len := by
  have has := linked.has placed List.mem_cons_self
  have nodup : (placed.node :: nodes ys).Nodup := formed.shares.nodup .held
  let cell : Cell T :=
    { slab.cells placed.node with value := none, entry := none, occupied := false }
  refine ⟨(slab.setCell placed.node cell).recycle placed.node,
    chain.pop (slab.next placed.node), ?_, ?_, ?_, rfl⟩
  · unfold Slab.discard
    rw [linked.head_cons]
    dsimp only
    unfold Slab.detach
    dsimp only
    rw [has.value, has.entry]
    rfl
  · have kept : Formed (slab.setCell placed.node cell) links free (nodes (placed :: ys)) chains := by
      apply formed.frame
      · rfl
      · rfl
      · intro k outside
        apply setCell_of_ne
        rintro rfl
        exact outside List.mem_cons_self
    exact kept.recycle (List.Perm.refl _)
  · apply linked.pop.frame
    intro k member
    have differ : k ≠ placed.node := by
      rintro rfl
      exact (List.nodup_cons.mp nodup).1 member
    exact (setCell_of_ne _ differ).trans (setCell_of_ne _ differ)

theorem discard_nil {slab : Slab T} {chain : Ends} (linked : Chain slab chain []) :
    slab.discard chain = .ok (none, slab, chain) := by
  have head : chain.head = none := linked.threads
  unfold Slab.discard
  rw [head]

theorem discardFrom_ok {slab : Slab T} {links : Fin n → Ends} {chain : Ends} {grant : Amount}
    {account : Account credit n} {fuel : Nat} (formed : Formed slab links free (nodes ys) chains)
    (linked : Chain slab chain ys) (within : grant + charged ys ≤ account.held lane)
    (enough : ys.length < fuel) :
    ∃ slab', discardFrom lane fuel grant chain slab account =
        .ok (slab', account.release lane (grant + charged ys)) ∧
      Formed slab' links ((nodes ys).reverse ++ free) [] chains := by
  induction ys generalizing slab chain grant account fuel free with
  | nil =>
    cases fuel with
    | zero => cases enough
    | succ fuel =>
      refine ⟨slab, ?_, formed⟩
      rw [discardFrom, discard_nil linked]
      rfl
  | cons placed ys ih =>
    cases fuel with
    | zero => cases enough
    | succ fuel =>
      obtain ⟨slab', chain', discarded, formed', linked', -⟩ := discard_ok formed linked
      have part : grant ≤ account.held lane := Amount.le_of_add_le within
      have within' : placed.stored.amount + charged ys ≤
          (account.release lane grant).held lane := by
        rw [Account.release_held _ _ part]
        rw [charged_cons] at within
        rcases within with ⟨entries, resident⟩
        rw [Amount.add_entries] at entries
        rw [Amount.add_resident] at resident
        exact ⟨Nat.le_sub_of_add_le' entries, Nat.le_sub_of_add_le' resident⟩
      obtain ⟨slab'', ran, formed''⟩ :=
        ih formed' linked' within' (Nat.lt_of_succ_lt_succ enough)
      refine ⟨slab'', ?_, ?_⟩
      · rw [discardFrom, discarded]
        dsimp only [ok_bind]
        rw [ran, ← charged_cons, Account.release_release _ _ within]
      · have turned : (nodes (placed :: ys)).reverse ++ free =
            (nodes ys).reverse ++ placed.node :: free := by
          unfold nodes
          rw [List.map_cons, List.reverse_cons, List.append_assoc]
          rfl
        rw [turned]
        exact formed''

/-- A cancelled batch leaves its nodes free and its credit returned. -/
theorem Drafts.cancel (drafts : Drafts start chains plan pool draft free ys)
    (within : plan ≤ start.account.held lane) :
    ∃ pool', Draft.cancel pool lane draft = .ok pool' ∧
      Formed pool'.slab pool'.links ((nodes ys).reverse ++ free) [] chains ∧
      pool'.links = start.links ∧ pool'.account = start.account.release lane plan := by
  have sum := drafts.credit
  unfold Draft.cancel
  cases ys with
  | nil =>
    have credit : draft.credit = plan := by
      rw [← sum]
      apply Amount.ext
      · exact (Nat.zero_add _).symm
      · exact (Nat.zero_add _).symm
    rw [discard_nil drafts.chain]
    refine ⟨_, rfl, drafts.formed, drafts.links, ?_⟩
    unfold Pool.release
    dsimp only
    rw [drafts.account, credit]
  | cons placed ys =>
    obtain ⟨slab', chain', discarded, formed', linked', len⟩ :=
      discard_ok drafts.formed drafts.chain
    rw [discarded]
    dsimp only [ok_bind]
    rw [charged_cons] at sum
    have within' : placed.stored.amount + charged ys + draft.credit ≤
        pool.account.held lane := by
      rw [drafts.account, sum]
      exact within
    have few : ys.length < slab'.len + 1 := by
      have le := formed'.shares.length_le .held
      rw [Finset.card_range] at le
      unfold parts at le
      dsimp only at le
      unfold nodes at le
      rw [List.length_map] at le
      omega
    obtain ⟨slab'', ran, formed''⟩ :=
      @discardFrom_ok _ _ _ lane _ _ _ _ _ _ _ pool.account _ formed' linked'
        (Amount.le_of_add_le within') few
    rw [ran]
    refine ⟨_, rfl, ?_, drafts.links, ?_⟩
    · have turned : (nodes (placed :: ys)).reverse ++ free =
          (nodes ys).reverse ++ placed.node :: free := by
        unfold nodes
        rw [List.map_cons, List.reverse_cons, List.append_assoc]
        rfl
      rw [turned]
      exact formed''
    · unfold Pool.release
      dsimp only
      rw [Account.release_release _ _ within', sum, drafts.account]

/-! ## The end of a batch -/

theorem Drafts.append (drafts : Drafts start chains plan pool draft free ys) (some : ys ≠ []) :
    Formed (Draft.append pool lane draft.links).slab (Draft.append pool lane draft.links).links
        free [] (update chains lane (chains lane ++ ys)) ∧
      (Draft.append pool lane draft.links).account = start.account ∧
      ∀ l, l ≠ lane → (Draft.append pool lane draft.links).links l = start.links l := by
  cases ys with
  | nil => exact absurd rfl some
  | cons placed ys =>
    have head := drafts.chain.head_cons
    have spliced := @Formed.splice _ _ _ _ _ _ [] _ lane _ _ _ drafts.formed
      (by rw [List.append_nil]) drafts.chain head
    unfold Draft.append
    rw [head]
    refine ⟨spliced, drafts.account, ?_⟩
    intro l differ
    dsimp only
    rw [update_of_ne differ, drafts.links]

end Batch.Draft

namespace Batch

variable {credit : HeldCredit} {n : Nat} {access : Access credit n} {T R E : Type}

theorem total_pos {plan : Plan} {loads : List (NonEmpty T)} (whole : total loads = plan.amount) :
    loads ≠ [] := by
  rintro rfl
  have pos := plan.pos
  rw [← whole] at pos
  cases pos

/-- A batch is refused as a whole; or its lane gets exactly the pushed loads, in
the order they were pushed, with the whole credit of the batch; or the chains of
all lanes and the account are as they were, and so are the free nodes, of which
those that the batch had used come back on top, the last one first. -/
theorem tryBatch_atomic {pool : Pool access T} {free : List Nat} {chains : Fin n → List (Placed T)}
    (formed : Formed pool.slab pool.links free [] chains) (lane : Fin n) (plan : Plan)
    (closure : Build T R E n) :
    (∃ cause, tryBatch pool lane plan closure = .ok (.error (.admission cause), [], pool)) ∨
    (∃ output pushed pool' free' ys,
      tryBatch pool lane plan closure = .ok (.ok output, pushed, pool') ∧
      free = nodes ys ++ free' ∧ ys.map Placed.load = pushed ∧ (∀ placed ∈ ys, placed.Fresh) ∧
      Formed pool'.slab pool'.links free' [] (update chains lane (chains lane ++ ys)) ∧
      total pushed = plan.amount ∧
      pool.account.demand lane plan.amount ≤ pool.account.shared ∧
      pool'.account = pool.account.acquire lane plan.amount) ∨
    ∃ error pushed pool' used free',
      tryBatch pool lane plan closure = .ok (.error error, pushed, pool') ∧
      (∀ cause, error ≠ .admission cause) ∧
      free = used ++ free' ∧ used.length = pushed.length ∧
      Formed pool'.slab pool'.links (used.reverse ++ free') [] chains ∧
      pool'.links = pool.links ∧ pool'.account = pool.account := by
  unfold tryBatch Draft.tryNew Pool.tryAcquire
  cases acquired : access.tryAcquire pool.wait pool.account lane plan.amount with
  | error cause => exact .inl ⟨cause, rfl⟩
  | ok account =>
      right
      obtain ⟨covered, rfl⟩ := access.acquired _ _ _ _ _ acquired
      dsimp only
      let start : Pool access T := { pool with account := pool.account.acquire lane plan.amount }
      have opened : Draft.Drafts start chains plan.amount start ⟨.empty, plan.amount, []⟩ free [] := by
        refine ⟨formed, .empty _, rfl, ?_, ?_, rfl, rfl, rfl⟩
        · exact fun placed member => absurd member List.not_mem_nil
        · rw [Amount.add_comm]
          exact Amount.add_zero _
      have within : plan.amount ≤ start.account.held lane := by
        have held := Account.acquire_held pool.account lane (a := plan.amount)
        have same : start.account.held lane = pool.account.held lane + plan.amount := held
        rw [same]
        exact ⟨Nat.le_add_left .., Nat.le_add_left ..⟩
      have back : start.account.release lane plan.amount = pool.account :=
        Account.release_acquire _ _ covered
      obtain ⟨output, draft, last, used, free', ys, ran, cut, grown, drafts⟩ :=
        @Draft.Drafts.build _ _ _ _ _ _ _ _ lane _ _ _ _ _ opened closure
      have grown' : nodes ys = used := grown
      have loads := drafts.loads
      have counted : used.length = draft.pushed.length := by
        rw [← grown', ← loads]
        unfold nodes
        rw [List.length_map, List.length_map]
      have cancels : ∃ pool' used free', Draft.cancel last lane draft = .ok pool' ∧
          free = used ++ free' ∧ used.length = draft.pushed.length ∧
          Formed pool'.slab pool'.links (used.reverse ++ free') [] chains ∧
          pool'.links = pool.links ∧ pool'.account = pool.account := by
        obtain ⟨pool', cancelled, formed', links, account⟩ := drafts.cancel within
        rw [grown'] at formed'
        exact ⟨pool', used, free', cancelled, cut, counted, formed', links, account.trans back⟩
      unfold Draft.tryBuild
      have ran' : Draft.build lane closure ⟨.empty, plan.amount, []⟩
          { pool with account := pool.account.acquire lane plan.amount } =
          (output, draft, last) := ran
      rw [ran']
      cases output with
      | error error =>
          right
          have other : ∀ cause, (Error.build error : Error E n) ≠ .admission cause := by
            intro cause same
            cases same
          obtain ⟨pool', used, free', cancelled, settled⟩ := cancels
          dsimp only
          rw [cancelled]
          exact ⟨.build error, draft.pushed, pool', used, free', rfl, other, settled⟩
      | ok output =>
          dsimp only
          by_cases left : draft.credit = Amount.zero
          · left
            rw [if_neg (by simp [left])]
            have whole : total draft.pushed = plan.amount := by
              rw [← drafts.credit, left, Amount.add_zero, charged_fresh drafts.fresh, loads]
            have some : ys ≠ [] := by
              rintro rfl
              exact total_pos whole loads.symm
            obtain ⟨formed', account, -⟩ := @Draft.Drafts.append _ _ _ _ _ _ lane _ _ _ _ _ drafts some
            exact ⟨output, draft.pushed, _, free', ys, rfl, by rw [cut, grown'], loads,
              drafts.fresh, formed', whole, covered, account⟩
          · right
            rw [if_pos left]
            have other : ∀ cause, (Error.mismatch draft.credit : Error E n) ≠ .admission cause := by
              intro cause same
              cases same
            obtain ⟨pool', used, free', cancelled, settled⟩ := cancels
            rw [cancelled]
            exact ⟨.mismatch draft.credit, draft.pushed, pool', used, free', rfl, other, settled⟩

/-! ## Samples -/

/-- One lane, and four shared entries without resident bytes. -/
def samplePool : Pool (Access.local_ HeldCredit.direct 1) Nat :=
  Pool.new _ Nat () (Config.ofShared ⟨4, 0⟩)

/-- Two loads are pushed, and the batch ends as told. -/
def sampleClosure (output : Except Nat Nat) : Build Nat Nat Nat 1 :=
  .push ⟨5, 1, 0, Nat.one_pos⟩ fun _ => .push ⟨6, 1, 0, Nat.one_pos⟩ fun _ => .done output

def samplePlan : Plan := ⟨⟨2, 0⟩, Nat.two_pos⟩

theorem tryBatch_atomic_example :
    ∃ pool' free' ys, tryBatch samplePool 0 samplePlan (sampleClosure (.ok 11)) =
        .ok (.ok 11, [⟨5, 1, 0, Nat.one_pos⟩, ⟨6, 1, 0, Nat.one_pos⟩], pool') ∧
      Formed pool'.slab pool'.links free' [] (update (fun _ => []) 0 ys) ∧
      ys.map Placed.load = [⟨5, 1, 0, Nat.one_pos⟩, ⟨6, 1, 0, Nat.one_pos⟩] := by
  have output : (tryBatch samplePool 0 samplePlan (sampleClosure (.ok 11))).map
      (fun result => (result.1, result.2.1)) =
      .ok (.ok 11, [⟨5, 1, 0, Nat.one_pos⟩, ⟨6, 1, 0, Nat.one_pos⟩]) := rfl
  rcases @tryBatch_atomic _ _ _ _ _ _ samplePool _ _ (formed_new 4) 0 samplePlan
      (sampleClosure (.ok 11)) with ⟨cause, ran⟩ |
          ⟨result, pushed, pool', free', ys, ran, _, loads, _, formed, _⟩ |
      ⟨error, pushed, pool', used, free', ran, _⟩
  · rw [ran] at output
    cases output
  · rw [ran] at output
    cases output
    exact ⟨pool', free', ys, ran, formed, loads⟩
  · rw [ran] at output
    cases output

/-- The nodes of a failed batch are free again, but not in the order they had. -/
theorem tryBatch_turns :
    (tryBatch samplePool 0 samplePlan (sampleClosure (.error 7))).map
        (fun result => (result.1, result.2.2.slab.free, result.2.2.slab.next 1)) =
      .ok (.error (.build 7), some 1, some 0) ∧
    samplePool.slab.free = some 0 ∧ samplePool.slab.next 1 = some 2 := ⟨rfl, rfl, rfl⟩

end Batch

end Dope.Egress.Metadata
