import Mathlib.Algebra.Group.Nat.Defs
import Mathlib.Order.Bounds.Basic
import Dope.Base.Trail
import Dope.Dns.Wire.Order
import Dope.Dns.Wire.Unchecked

/-! # Alias resolution

What the answer section says about a name: the alias records lead from the
queried name over a trail of names to one without an alias, or they disagree on
the way, or the trail is longer than the hop limit. `Chain.resolve` reports
exactly this, whatever the order and the spelling of the records.
-/

namespace Dope.Dns.Wire.Chain

open Run

/-! ## The graph of the aliases -/

/-- Alias records own `text`, and all of them name `target`. -/
structure Points (contents : List Content) (text target : List Bytes) : Prop where
  owned : ∃ content ∈ contents, content.isAlias = true ∧ content.owner = text
  agreed : ∀ content ∈ contents, content.isAlias = true → content.owner = text →
    content.data = .aliased target

/-- No alias record owns `text`. -/
def Final (contents : List Content) (text : List Bytes) : Prop :=
  ∀ content ∈ contents, content.isAlias = true → content.owner ≠ text

/-- Two alias records of `text` have different targets. -/
def Disagree (contents : List Content) (text : List Bytes) : Prop :=
  ∃ first ∈ contents, ∃ second ∈ contents, first.isAlias = true ∧ second.isAlias = true ∧
    first.owner = text ∧ second.owner = text ∧ first.data ≠ second.data

/-- A followed alias record has this lifetime. -/
def Followed.Counts (contents : List Content) (visited : List (List Bytes)) (ttl : Nat) : Prop :=
  ∃ content ∈ contents, content.isAlias = true ∧ content.owner ∈ visited ∧ content.ttl = ttl

/-- A followed alias record or an address of the last name has this lifetime. -/
def Counts (family : Family.Version) (contents : List Content) (visited : List (List Bytes))
    (last : List Bytes) (ttl : Nat) : Prop :=
  Followed.Counts contents visited ttl ∨
    ∃ content ∈ contents, Owned family last content ∧ content.ttl = ttl

theorem points_rightUnique (contents : List Content) : Relator.RightUnique (Points contents) := by
  intro text target target' h h'
  obtain ⟨content, member, aliased, owned⟩ := h.owned
  exact Data.aliased.inj ((h.agreed content member aliased owned).symm.trans
    (h'.agreed content member aliased owned))

variable {text : List Bytes}

theorem Final.stuck {contents : List Content} (h : Final contents text) :
    ∀ target, ¬ Points contents text target := by
  intro target points
  obtain ⟨content, member, aliased, owned⟩ := points.owned
  exact h content member aliased owned

theorem Disagree.stuck {contents : List Content} (h : Disagree contents text) :
    ∀ target, ¬ Points contents text target := by
  intro target points
  obtain ⟨first, member, second, member', aliased, aliased', owned, owned', clash⟩ := h
  exact clash ((points.agreed first member aliased owned).trans
    (points.agreed second member' aliased' owned').symm)

theorem Final.not_disagree {contents : List Content} (h : Final contents text) :
    ¬ Disagree contents text := by
  rintro ⟨first, member, -, -, aliased, -, owned, -⟩
  exact h first member aliased owned

/-! ## What a resolution says -/

/-- The addresses of the last name, or what takes their place. -/
inductive Settles {n : Nat} (family : Family.Version) (contents : List Content)
    (visited : List (List Bytes)) (last : List Bytes) : Reply n → Prop where
  | addresses {values : Addresses n} {ttl : Nat} {hops : Hops} :
      values.values ≠ [] → values.values.Nodup →
      (∀ value, value ∈ values.values ↔ Offers family last contents value) →
      IsLeast {ttl | Counts family contents visited last ttl} ttl →
      hops.count = visited.length →
      Settles family contents visited last (.addresses values ttl hops)
  | capacity {many : List IpAddr} : many.Nodup → many.length = n + 1 →
      (∀ value ∈ many, Offers family last contents value) →
      Settles family contents visited last (.capacity (n + 1))
  | noData : (∀ value, ¬ Offers family last contents value) → visited = [] →
      Settles family contents visited last .noData
  | aliased {name : Expanded} {labels : List Bytes} {ttl : Nat} {hops : Hops} :
      (∀ value, ¬ Offers family last contents value) → visited ≠ [] →
      name.labels = .ok labels → lower labels = last →
      IsLeast {ttl | Followed.Counts contents visited ttl} ttl →
      hops.count = visited.length →
      Settles family contents visited last (.aliased name ttl hops)

/-- The trail from `start` ends within the hop limit, at a name without an alias
or at one whose records disagree, or it goes beyond the limit. -/
inductive Resolves {n : Nat} (family : Family.Version) (contents : List Content)
    (start : List Bytes) : Except Error.Malformed (Reply n) → Prop where
  | final {visited : List (List Bytes)} {last : List Bytes} {reply : Reply n} :
      Trail (Points contents) start visited last → visited.length ≤ maxAliasHops →
      Final contents last → Settles family contents visited last reply →
      Resolves family contents start (.ok reply)
  | conflict {visited : List (List Bytes)} {last : List Bytes} :
      Trail (Points contents) start visited last → visited.length ≤ maxAliasHops →
      Disagree contents last → Resolves family contents start (.error .aliasConflict)
  | beyond {visited : List (List Bytes)} {last : List Bytes} :
      Trail (Points contents) start visited last → visited.length = maxAliasHops + 1 →
      Resolves family contents start (.ok (.malformed (.aliasHops (maxAliasHops + 1) maxAliasHops)))

section
variable {n : Nat} {family : Family.Version} {contents : List Content}
  {visited : List (List Bytes)} {start last : List Bytes}

theorem Hops.eq_of_count {hops hops' : Hops} (h : hops.count = hops'.count) : hops = hops' := by
  cases hops
  cases hops'
  cases h
  rfl

/-- The records of the last name leave one reply, up to order and case. -/
theorem Settles.agree {reply reply' : Reply n} (h : Settles family contents visited last reply)
    (h' : Settles family contents visited last reply') : Reply.Same reply reply' := by
  have head : ∀ {many : List IpAddr}, many.length = n + 1 → ∃ value, value ∈ many :=
    fun size => List.exists_mem_of_length_pos (by omega)
  cases h with
  | @addresses values ttl hops some nodup members least count =>
    obtain ⟨value, held⟩ := List.exists_mem_of_ne_nil _ some
    have offered := (members value).mp held
    cases h' with
    | @addresses values' ttl' hops' _ nodup' members' least' count' =>
      rw [least.unique least', Hops.eq_of_count (count.trans count'.symm)]
      exact .addresses fun value => (members value).trans (members' value).symm
    | capacity distinct size inside =>
      exact absurd (fun value mem => (members value).mpr (inside value mem))
        (not_full values distinct size)
    | noData none => exact absurd offered (none value)
    | aliased none => exact absurd offered (none value)
  | capacity distinct size inside =>
    obtain ⟨value, mem⟩ := head size
    have offered := inside value mem
    cases h' with
    | @addresses values' _ _ _ _ members' =>
      exact absurd (fun value mem => (members' value).mpr (inside value mem))
        (not_full values' distinct size)
    | capacity => exact .other
    | noData none => exact absurd offered (none value)
    | aliased none => exact absurd offered (none value)
  | noData none origin =>
    cases h' with
    | addresses some _ members' =>
      obtain ⟨value, held⟩ := List.exists_mem_of_ne_nil _ some
      exact absurd ((members' value).mp held) (none value)
    | capacity _ size inside =>
      obtain ⟨value, mem⟩ := head size
      exact absurd (inside value mem) (none value)
    | noData => exact .other
    | aliased _ away => exact absurd origin away
  | aliased none away labels spelled least count =>
    cases h' with
    | addresses some _ members' =>
      obtain ⟨value, held⟩ := List.exists_mem_of_ne_nil _ some
      exact absurd ((members' value).mp held) (none value)
    | capacity _ size inside =>
      obtain ⟨value, mem⟩ := head size
      exact absurd (inside value mem) (none value)
    | noData _ origin => exact absurd origin away
    | aliased _ _ labels' spelled' least' count' =>
      rw [least.unique least', Hops.eq_of_count (count.trans count'.symm)]
      exact .aliased labels labels' (spelled.trans spelled'.symm)

theorem Resolves.agree {result result' : Except Error.Malformed (Reply n)}
    (h : Resolves family contents start result) (h' : Resolves family contents start result') :
    Agree Reply.Same result result' := by
  have single := points_rightUnique contents
  have far : ∀ {visited visited' : List (List Bytes)} {last last' : List Bytes},
      Trail (Points contents) start visited last → visited.length ≤ maxAliasHops →
      (∀ target, ¬ Points contents last target) →
      Trail (Points contents) start visited' last' → visited'.length ≠ maxAliasHops + 1 := by
    intro visited visited' last last' trail short stuck longer
    have le := trail.length_le single stuck longer
    omega
  cases h with
  | final trail short ends settles =>
    cases h' with
    | final trail' _ ends' settles' =>
      obtain ⟨rfl, rfl⟩ := trail.unique single ends.stuck trail' ends'.stuck
      exact .ok (settles.agree settles')
    | conflict trail' _ clash =>
      obtain ⟨rfl, rfl⟩ := trail.unique single ends.stuck trail' clash.stuck
      exact absurd clash ends.not_disagree
    | beyond trail' long => exact absurd long (far trail short ends.stuck trail')
  | conflict trail short clash =>
    cases h' with
    | final trail' _ ends _ =>
      obtain ⟨rfl, rfl⟩ := trail.unique single clash.stuck trail' ends.stuck
      exact absurd clash ends.not_disagree
    | conflict => exact .error
    | beyond trail' long => exact absurd long (far trail short clash.stuck trail')
  | beyond trail long =>
    cases h' with
    | final trail' short ends _ => exact absurd long (far trail' short ends.stuck trail)
    | conflict trail' short clash => exact absurd long (far trail' short clash.stuck trail)
    | beyond => exact .ok .other

/-- A loop and a chain above the limit are both too long. -/
theorem resolves_beyond (trail : Trail (Points contents) start visited last)
    (long : last ∈ visited ∨ maxAliasHops < visited.length) :
    Resolves (n := n) family contents start
      (.ok (.malformed (.aliasHops (maxAliasHops + 1) maxAliasHops))) := by
  have reaches : ∃ longer last, maxAliasHops + 1 ≤ longer.length ∧
      Trail (Points contents) start longer last := by
    rcases long with back | long
    · obtain ⟨longer, enough, goes⟩ := trail.loop back (maxAliasHops + 1)
      exact ⟨longer, last, enough, goes⟩
    · exact ⟨visited, last, long, trail⟩
  obtain ⟨longer, last, enough, goes⟩ := reaches
  obtain ⟨place, stops⟩ := goes.take (maxAliasHops + 1)
  exact .beyond stops (List.length_take_of_le enough)

end

/-! ## The walk -/

variable {items : List Record} {followed : Followed}

section
variable {packet : Packet} {family : Family.Version} {name : Host.Name} {chain : Chain}
  {contents : List Content} {visited : List (List Bytes)} {start text : List Bytes}

/-- Where the walk stands: the trail so far, and the least lifetime on it. -/
structure Stands (packet : Packet) (name : Host.Name) (contents : List Content)
    (followed : Followed) (visited : List (List Bytes)) (text : List Bytes) : Prop where
  trail : Trail (Points contents) (lower name.labels) visited text
  spells : followed.owner.Spells packet name text
  origin : followed.owner = .expected ↔ visited = []
  hops : followed.hops.count = visited.length
  below : ∀ ttl, Followed.Counts contents visited ttl → followed.ttl ≤ ttl
  reached : followed.ttl = 2 ^ 32 - 1 ∨ Followed.Counts contents visited followed.ttl

theorem stands_start (packet : Packet) (name : Host.Name) (contents : List Content) :
    Stands packet name contents ⟨.expected, 2 ^ 32 - 1, .zero⟩ [] (lower name.labels) := by
  constructor
  · exact .here
  · rfl
  · simp
  · rfl
  · rintro ttl ⟨content, -, -, member, -⟩
    cases member
  · exact .inl rfl

theorem mem_filter_alias {content : Content} :
    content ∈ contents.filter Content.isAlias ↔ content ∈ contents ∧ content.isAlias = true :=
  List.mem_filter

theorem points_of_sources {target : List Bytes} {ttl : Nat}
    (all : ∀ content ∈ contents.filter Content.isAlias, content.owner = text →
      content.data = .aliased target ∧ ttl ≤ content.ttl)
    (some : ∃ content ∈ contents.filter Content.isAlias, content.owner = text ∧ content.ttl = ttl) :
    Points contents text target := by
  obtain ⟨first, member, owned, -⟩ := some
  obtain ⟨member, aliased⟩ := mem_filter_alias.mp member
  constructor
  · exact ⟨first, member, aliased, owned⟩
  · intro content member aliased owned
    exact (all content (mem_filter_alias.mpr ⟨member, aliased⟩) owned).1

/-- One turn of the loop follows one edge of the trail. -/
theorem Stands.hop {followed : Followed} {edge : Edge} {target : List Bytes} {hops : Hops}
    (h : Stands packet name contents followed visited text)
    (decodes : Decodes packet edge.target target)
    (all : ∀ content ∈ contents.filter Content.isAlias, content.owner = text →
      content.data = .aliased target ∧ edge.ttl ≤ content.ttl)
    (some : ∃ content ∈ contents.filter Content.isAlias,
      content.owner = text ∧ content.ttl = edge.ttl)
    (count : hops.count = followed.hops.count + 1) :
    Stands packet name contents ⟨.wire edge.target, min followed.ttl edge.ttl, hops⟩
      (visited ++ [text]) target := by
  have points := points_of_sources all some
  obtain ⟨first, member, owned, least⟩ := some
  obtain ⟨member, aliased⟩ := mem_filter_alias.mp member
  constructor
  · exact h.trail.snoc points
  · exact decodes
  · simp
  · rw [List.length_append, ← h.hops]
    exact count
  · rintro ttl ⟨content, member, aliased, owner, rfl⟩
    dsimp only
    rcases List.mem_append.mp owner with owner | owner
    · have le := h.below _ ⟨content, member, aliased, owner, rfl⟩
      omega
    · have le := (all content (mem_filter_alias.mpr ⟨member, aliased⟩)
        (List.mem_singleton.mp owner)).2
      omega
  · dsimp only
    have here : Followed.Counts contents (visited ++ [text]) edge.ttl :=
      ⟨first, member, aliased, by simp [owned], least⟩
    by_cases shorter : followed.ttl ≤ edge.ttl
    · rw [Nat.min_eq_left shorter]
      rcases h.reached with top | ⟨content, member, aliased, owner, same⟩
      · exact .inl top
      · exact .inr ⟨content, member, aliased, List.mem_append_left _ owner, same⟩
    · rw [Nat.min_eq_right (by omega)]
      exact .inr here

/-- How the walk ends. -/
inductive Walked (packet : Packet) (name : Host.Name) (contents : List Content) :
    Except Error.Malformed (Except Error.Malformed Followed) → Prop where
  | final {followed : Followed} {visited : List (List Bytes)} {text : List Bytes} :
      Stands packet name contents followed visited text → Final contents text →
      Walked packet name contents (.ok (.ok followed))
  | conflict {visited : List (List Bytes)} {text : List Bytes} :
      Trail (Points contents) (lower name.labels) visited text → visited.length ≤ maxAliasHops →
      Disagree contents text → Walked packet name contents (.error .aliasConflict)
  | beyond {visited : List (List Bytes)} {text : List Bytes} :
      Trail (Points contents) (lower name.labels) visited text →
      visited.length = maxAliasHops + 1 →
      Walked packet name contents (.ok (.error (.aliasHops (maxAliasHops + 1) maxAliasHops)))

theorem follow_walked {fuel : Nat}
    (edges : List.Forall₂ (Edge.Means packet) chain.edges (contents.filter Content.isAlias))
    (h : Stands packet name contents followed visited text)
    (enough : fuel + visited.length = maxAliasHops + 1) :
    Walked packet name contents (follow packet chain name fuel followed) := by
  have short : visited.length ≤ maxAliasHops := by
    rw [← h.hops]
    exact followed.hops.bound
  induction fuel generalizing followed visited text with
  | zero => omega
  | succ fuel ih =>
    unfold follow
    have leads := nextEdge_leads h.spells edges
    generalize nextEdge packet followed.owner name chain.edges none = next at leads
    cases leads with
    | none away =>
      refine .final h ?_
      intro content member aliased
      exact away content (mem_filter_alias.mpr ⟨member, aliased⟩)
    | conflict member member' owned owned' clash =>
      obtain ⟨member, aliased⟩ := mem_filter_alias.mp member
      obtain ⟨member', aliased'⟩ := mem_filter_alias.mp member'
      exact .conflict h.trail short
        ⟨_, member, _, member', aliased, aliased', owned, owned', clash⟩
    | @some edge target decodes all some =>
      have room : followed.hops.count ≤ maxAliasHops := followed.hops.bound
      have count := h.hops
      rw [ok_bind]
      dsimp only
      unfold Hops.advance Hops.add
      by_cases fits : followed.hops.count + 1 ≤ maxAliasHops
      · rw [dif_pos fits]
        have next : Stands packet name contents
            ⟨.wire edge.target, min followed.ttl edge.ttl, ⟨followed.hops.count + 1, fits⟩⟩
            (visited ++ [text]) target := h.hop decodes all some rfl
        refine ih next ?_ ?_
        · rw [List.length_append, List.length_singleton]
          omega
        · rw [← next.hops]
          exact fits
      · rw [dif_neg fits]
        have full : followed.hops.count = maxAliasHops := by omega
        dsimp only
        rw [full]
        refine .beyond (h.trail.snoc (points_of_sources all some)) ?_
        rw [List.length_append, List.length_singleton]
        omega

/-! ## The whole resolution -/

/-- Every step of the trail was read off a record, so its lifetime counts. -/
theorem Stands.counted (h : Stands packet name contents followed visited text)
    (small : ∀ content ∈ contents, content.ttl ≤ 2 ^ 32 - 1) (away : visited ≠ []) :
    Followed.Counts contents visited followed.ttl := by
  rcases h.reached with top | counts
  · obtain ⟨place, mem⟩ := List.exists_mem_of_ne_nil _ away
    obtain ⟨next, points⟩ := h.trail.leaves place mem
    obtain ⟨content, member, aliased, owned⟩ := points.owned
    have counts : Followed.Counts contents visited content.ttl :=
      ⟨content, member, aliased, owned ▸ mem, rfl⟩
    have low := h.below _ counts
    have high := small content member
    have same : followed.ttl = content.ttl := by omega
    rw [same]
    exact counts
  · exact counts

/-- An address of the last name makes the gathered lifetime one that counts. -/
theorem Stands.gathered {least : Nat} {value : IpAddr}
    (h : Stands packet name contents followed visited text)
    (small : ∀ content ∈ contents, content.ttl ≤ 2 ^ 32 - 1)
    (offered : Offers family text contents value) (below : least ≤ followed.ttl)
    (all : ∀ content ∈ contents, Owned family text content → least ≤ content.ttl)
    (reached : least = followed.ttl ∨ ∃ content ∈ contents, Owned family text content ∧
      content.ttl = least) : IsLeast {ttl | Counts family contents visited text ttl} least := by
  constructor
  · rcases reached with reached | own
    · rcases h.reached with top | counts
      · obtain ⟨content, member, owned, -⟩ := offered
        have low := all content member owned
        have high := small content member
        exact .inr ⟨content, member, owned, by omega⟩
      · rw [reached]
        exact .inl counts
    · exact .inr own
  · rintro ttl (counts | ⟨content, member, owned, rfl⟩)
    · exact below.trans (h.below ttl counts)
    · exact all content member owned

theorem resolve_of_edges {n : Nat} {records : Records}
    (edges : List.Forall₂ (Edge.Means packet) chain.edges (contents.filter Content.isAlias))
    (replayed : records.items = .ok items)
    (means : List.Forall₂ (Means packet family) items contents)
    (small : ∀ content ∈ contents, content.ttl ≤ 2 ^ 32 - 1) :
    Resolves family contents (lower name.labels)
      (chain.resolve packet records name family : Except _ (Reply n)) := by
  have walked : Walked packet name contents
      (follow packet chain name (maxAliasHops + 1) ⟨.expected, 2 ^ 32 - 1, .zero⟩) :=
    follow_walked edges (stands_start packet name contents) rfl
  unfold resolve
  generalize follow packet chain name (maxAliasHops + 1) _ = ended at walked ⊢
  cases walked with
  | conflict trail short clash => exact .conflict trail short clash
  | beyond trail long => exact .beyond trail long
  | @final followed visited text h ends =>
    have short : visited.length ≤ maxAliasHops := by
      rw [← h.hops]
      exact followed.hops.bound
    have gathers := gather_gathers (n := n) h.spells means Addresses.new followed.ttl .nil
    rw [replayed, ok_bind]
    simp only [lift, Except.mapError, ok_bind]
    generalize gather packet followed.owner name family items Addresses.new followed.ttl =
      gathered at gathers ⊢
    have fresh : ∀ value, value ∈ (Addresses.new (n := n)).values ∨
        Offers family text contents value ↔ Offers family text contents value := by
      intro value
      simp [Addresses.new]
    cases gathers with
    | full nodup size members =>
      exact .final h.trail short ends
        (.capacity nodup size fun value mem => (fresh value).mp (members value mem))
    | @all found least nodup members below all reached =>
      have offers : ∀ value, value ∈ found.values ↔ Offers family text contents value :=
        fun value => (members value).trans (fresh value)
      rw [ok_bind]
      dsimp only
      by_cases empty : found.values = []
      · rw [if_neg (by simpa using empty)]
        have none : ∀ value, ¬ Offers family text contents value := by
          intro value offered
          have held := (offers value).mpr offered
          rw [empty] at held
          cases held
        cases owner : followed.owner with
        | expected => exact .final h.trail short ends (.noData none (h.origin.mp owner))
        | wire target =>
          have away : visited ≠ [] := by
            intro origin
            have start := h.origin.mpr origin
            rw [owner] at start
            cases start
          have spells := h.spells
          rw [owner] at spells
          obtain ⟨expanded, raw, opened, labels, lowered⟩ := spells
          simp only [opened, ok_bind]
          have counted := h.counted small away
          exact .final h.trail short ends
            (.aliased none away labels lowered ⟨counted, fun ttl => h.below ttl⟩ h.hops)
      · rw [if_pos empty]
        obtain ⟨value, held⟩ := List.exists_mem_of_ne_nil _ empty
        exact .final h.trail short ends (.addresses empty nodup offers
          (h.gathered small ((offers value).mp held) below all reached) h.hops)

end

/-! ## Sections -/

theorem beBytes_lt (bytes : Bytes) : beBytes bytes < 256 ^ bytes.length := by
  have grows : ∀ (bytes : Bytes) (value : Nat),
      bytes.foldl (fun value byte => value * 256 + byte.toNat) value <
        (value + 1) * 256 ^ bytes.length := by
    intro bytes
    induction bytes with
    | nil => simp
    | cons byte bytes ih =>
      intro value
      have small : byte.toNat < 256 := byte.toNat_lt
      have step : (value * 256 + byte.toNat + 1) * 256 ^ bytes.length ≤
          (value + 1) * 256 * 256 ^ bytes.length := Nat.mul_le_mul_right _ (by omega)
      rw [List.foldl_cons, List.length_cons, Nat.pow_succ']
      calc _ < (value * 256 + byte.toNat + 1) * 256 ^ bytes.length := ih _
        _ ≤ _ := by rw [← Nat.mul_assoc]; exact step
  simpa [beBytes] using grows bytes 0

theorem RecordAt.ttl_le {packet : Packet} {position stop : Nat} {record : Record}
    (h : RecordAt packet position record stop) : record.ttl ≤ 2 ^ 32 - 1 := by
  obtain ⟨fixed, -, -, -, ttl, -, -⟩ := h.fields
  have lt := beBytes_lt (slice packet (fixed + 4) 4)
  have len : (slice packet (fixed + 4) 4).length ≤ 4 := by
    simp [slice]
  have le : 256 ^ (slice packet (fixed + 4) 4).length ≤ 256 ^ 4 :=
    Nat.pow_le_pow_right (by decide) len
  rw [ttl]
  unfold Cursor.normalizeTtl
  split <;> omega

theorem Cursor.Reads.replay {packet : Packet} {position stop : Nat}
    (h : Cursor.Reads packet position items stop) :
    Records.replay packet items.length position = .ok items := by
  induction h with
  | done => rfl
  | item read _ ih =>
    rw [List.length_cons, Records.replay, record_validated read, ok_bind]
    dsimp only
    rw [ih]
    rfl

theorem Cursor.Reads.ttl_le {packet : Packet} {position stop : Nat}
    (h : Cursor.Reads packet position items stop) : ∀ record ∈ items, record.ttl ≤ 2 ^ 32 - 1 := by
  induction h with
  | done => simp
  | item read _ ih =>
    intro record mem
    rcases List.mem_cons.mp mem with rfl | mem
    · exact RecordAt.ttl_le (record_ok read)
    · exact ih record mem

/-- Every answer record has names that can be decoded, and `contents` is what the
records say in their order. -/
def Section (packet : Packet) (family : Family.Version) (records : Records)
    (contents : List Content) : Prop :=
  ∃ items, records.items = .ok items ∧ List.Forall₂ (Means packet family) items contents

variable {packet : Packet} {family : Family.Version} {name : Host.Name} {chain : Chain}
  {contents : List Content} {records : Records} {position count stop : Nat}

/-- A section that was read, and what its replay returns. -/
theorem read_ok (answers : Chain.read packet position count = .ok (chain, records, stop))
    (replayed : records.items = .ok items) :
    Cursor.Reads packet position items stop ∧
      items.foldlM (readRecord packet) new = .ok chain := by
  unfold read lift Cursor.records at answers
  cases traversed : Cursor.recordsFrom packet (readRecord packet) count new position with
  | error fault =>
    rw [traversed] at answers
    cases answers
  | ok result =>
    obtain ⟨last, ended⟩ := result
    rw [traversed] at answers
    cases answers
    obtain ⟨items', reads, counted, folded⟩ := Cursor.reads_of_recordsFrom traversed
    have replay := Cursor.Reads.replay reads
    rw [counted] at replay
    have same : items' = items := Except.ok.inj (replay.symm.trans replayed)
    subst same
    exact ⟨reads, folded⟩

theorem forall₂_small (means : List.Forall₂ (Means packet family) items contents)
    (small : ∀ record ∈ items, record.ttl ≤ 2 ^ 32 - 1) :
    ∀ content ∈ contents, content.ttl ≤ 2 ^ 32 - 1 := by
  induction means with
  | nil => simp
  | cons known _ ih =>
    intro content mem
    rcases List.mem_cons.mp mem with rfl | mem
    · rw [← known.ttl]
      exact small _ List.mem_cons_self
    · exact ih (fun record mem => small record (List.mem_cons_of_mem _ mem)) content mem

/-- For every answer section whose alias records fit the table, the resolution of
a name is what the section says about it. A loop is a chain above the limit. -/
theorem resolve_resolves {n : Nat}
    (answers : Chain.read packet position count = .ok (chain, records, stop))
    (room : chain.take = none) (formed : Section packet family records contents) :
    Resolves family contents (lower name.labels)
        (chain.resolve packet records name family : Except _ (Reply n)) ∧
      (∀ result : Except Error.Malformed (Reply n),
        Resolves family contents (lower name.labels) result →
        Agree Reply.Same (chain.resolve packet records name family) result) ∧
      ∀ visited last, Trail (Points contents) (lower name.labels) visited last →
        last ∈ visited ∨ maxAliasHops < visited.length →
        (chain.resolve packet records name family : Except _ (Reply n)) =
          .ok (.malformed (.aliasHops (maxAliasHops + 1) maxAliasHops)) := by
  obtain ⟨items, replayed, means⟩ := formed
  obtain ⟨reads, folded⟩ := read_ok answers replayed
  have within : (contents.filter Content.isAlias).length ≤ maxRecords := by
    have counted := aliases_of_items means folded
    unfold take at room
    split at room
    · cases room
    · change chain.aliases = 0 + _ at counted
      omega
  obtain ⟨-, edges⟩ := read_edges answers replayed means within
  have small := forall₂_small means (Cursor.Reads.ttl_le reads)
  have resolves : Resolves family contents (lower name.labels)
      (chain.resolve packet records name family : Except _ (Reply n)) :=
    resolve_of_edges edges replayed means small
  refine ⟨resolves, fun result other => resolves.agree other, ?_⟩
  intro visited last trail long
  generalize (chain.resolve packet records name family : Except _ (Reply n)) = result at resolves ⊢
  cases resolves.agree (resolves_beyond trail long) with
  | ok same =>
      cases same
      rfl

set_option maxRecDepth 2000 in
open Sample in
theorem resolve_resolves_example :
    ∃ chain records stop, Chain.read forward 19 2 = .ok (chain, records, stop) ∧
      Resolves (n := 4) .four [aliasContent, addressContent] [[97]]
        (chain.resolve forward records Sample.name .four) := by
  have answers : ∃ chain records stop, Chain.read forward 19 2 = .ok (chain, records, stop) ∧
      chain.take = none ∧ Section forward .four records [aliasContent, addressContent] := by
    refine ⟨_, _, _, rfl, rfl, _, rfl, .cons ?_ (.cons ?_ .nil)⟩
    · refine ⟨⟨_, _, rfl, rfl, rfl⟩, rfl, rfl, rfl, ?_, ?_, ?_⟩
      · intro _
        exact ⟨_, _, rfl, ⟨_, _, rfl, rfl, rfl⟩, rfl⟩
      · intro plain
        cases plain
      · intro _ other
        cases other
    · refine ⟨⟨_, _, rfl, rfl, rfl⟩, rfl, rfl, rfl, ?_, ?_, ?_⟩
      · intro aliased
        cases aliased
      · intro _
        rfl
      · intro _ _
        exact ⟨_, rfl⟩
  obtain ⟨chain, records, stop, read, room, formed⟩ := answers
  have start : lower Sample.name.labels = [[97]] := by decide
  have resolves : Resolves (n := 4) .four [aliasContent, addressContent]
      (lower Sample.name.labels) (chain.resolve forward records Sample.name .four) :=
    (resolve_resolves read room formed).1
  rw [start] at resolves
  exact ⟨chain, records, stop, read, resolves⟩

end Dope.Dns.Wire.Chain
