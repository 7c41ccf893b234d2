import Mathlib.Data.List.Perm.Subperm
import Dope.Dns.Wire.Replay
import Dope.Dns.Wire.Response

/-! # The order of the answers

What a response says about its question does not depend on the order of its
answer records. Each loop over the records is described by what the records
contain, not by where they stand, and two sections with the same records then
lead to the same reply.
-/

namespace Dope.Dns.Wire

open Run

/-! ## Texts -/

/-- Labels up to the case of their letters. -/
def lower (labels : List Bytes) : List Bytes := labels.map (·.map toAsciiLowercase)

/-- The name can be decoded, and `text` is what it spells in lower case. -/
def Decodes (packet : Packet) (name : Name) (text : List Bytes) : Prop :=
  ∃ expanded raw, expand packet name = .ok expanded ∧ expanded.labels = .ok raw ∧
    lower raw = text

variable {text : List Bytes} {packet : Packet}

theorem Decodes.traverses {name : Name} (h : Decodes packet name text) :
    ∃ raw, Traverses (labels packet name) raw ∧ lower raw = text := by
  obtain ⟨expanded, raw, opened, replayed, rfl⟩ := h
  obtain ⟨items, traverses, replayed', -⟩ := expanded.labels_ok
  have same : items = raw := Except.ok.inj (replayed'.symm.trans replayed)
  subst same
  unfold expand at opened
  split at opened
  · cases opened
    exact ⟨items, traverses, rfl⟩
  · simp at opened

variable {raw : List Bytes}

theorem Traverses.bound {labels : Labels} (h : Traverses labels raw) :
    raw.length < Host.Name.maxWireLen := by
  have grows : ∀ {labels : Labels} {raw : List Bytes}, Traverses labels raw →
      raw = [] ∨ labels.expandedLen + raw.length + 1 ≤ Host.Name.maxWireLen := by
    intro labels raw traverses
    induction traverses with
    | done => exact .inl rfl
    | step next rest ih =>
      obtain ⟨-, grown, bound, -⟩ := Labels.nextFrom_some next
      rw [List.length_cons]
      rcases ih with rfl | room
      · right
        rw [List.length_nil]
        omega
      · right
        omega
  rcases grows h with rfl | room
  · decide
  · omega

variable {other : List Bytes}

theorem eqNameFrom_traverses {fuel : Nat} {first second : Labels} (left : Traverses first raw)
    (right : Traverses second other) (enough : raw.length < fuel) :
    eqNameFrom fuel first second = .ok (decide (lower raw = lower other)) := by
  induction left generalizing fuel second other with
  | done ended =>
    obtain ⟨fuel, rfl⟩ := Nat.exists_eq_add_of_lt enough
    unfold eqNameFrom
    rw [ended, ok_bind]
    cases right with
    | done ended' =>
      rw [ended']
      rfl
    | step next rest =>
      rw [next]
      simp [lower]
  | @step labels rest label others next traverses ih =>
    obtain ⟨left, rfl⟩ := Nat.exists_eq_add_of_lt enough
    unfold eqNameFrom
    rw [next, ok_bind]
    cases right with
    | done ended' =>
      rw [ended']
      simp [lower]
    | @step labels' rest' label' others' next' traverses' =>
      rw [next', ok_bind]
      dsimp only
      by_cases same : label.map toAsciiLowercase = label'.map toAsciiLowercase
      · rw [if_pos (eqIgnoreAsciiCase_iff.mpr same),
          ih traverses' (by rw [List.length_cons]; omega), Except.ok.injEq, decide_eq_decide]
        simp [lower, same]
      · rw [if_neg (fun equal => same (eqIgnoreAsciiCase_iff.mp equal))]
        simp [lower, same]

theorem eqHostFrom_traverses {labels : Labels} (h : Traverses labels raw) (expected : List Bytes) :
    eqHostFrom labels expected = .ok (decide (lower raw = lower expected)) := by
  induction h generalizing expected with
  | done ended =>
    cases expected with
    | nil =>
      unfold eqHostFrom
      rw [ended]
      rfl
    | cons label rest =>
      unfold eqHostFrom
      rw [ended]
      simp [lower]
  | @step labels rest label others next traverses ih =>
    cases expected with
    | nil =>
      unfold eqHostFrom
      rw [next]
      simp [lower]
    | cons label' rest' =>
      unfold eqHostFrom
      rw [next, ok_bind]
      dsimp only
      by_cases same : label.map toAsciiLowercase = label'.map toAsciiLowercase
      · rw [if_pos (eqIgnoreAsciiCase_iff.mpr same), ih, Except.ok.injEq, decide_eq_decide]
        simp [lower, same]
      · rw [if_neg (fun equal => same (eqIgnoreAsciiCase_iff.mp equal))]
        simp [lower, same]

theorem eqName_decodes {first second : Name} (h : Decodes packet first text)
    (h' : Decodes packet second other) :
    eqName packet first second = .ok (decide (text = other)) := by
  obtain ⟨raw, traverses, rfl⟩ := h.traverses
  obtain ⟨raw', traverses', rfl⟩ := h'.traverses
  exact eqNameFrom_traverses traverses traverses' traverses.bound

/-- The text of the name that is looked for. -/
def Current.Spells (packet : Packet) (name : Host.Name) (current : Current)
    (text : List Bytes) : Prop :=
  match current with
  | .expected => lower name.labels = text
  | .wire target => Decodes packet target text

theorem matches_decodes {name : Host.Name} {current : Current} {actual : Name}
    (spells : current.Spells packet name text) (h : Decodes packet actual other) :
    current.matches packet actual name = .ok (decide (other = text)) := by
  cases current with
  | expected =>
    obtain ⟨raw, traverses, rfl⟩ := h.traverses
    have same : lower name.labels = text := spells
    unfold Current.matches eqHost
    dsimp only
    rw [eqHostFrom_traverses traverses, same]
    rfl
  | wire target =>
    unfold Current.matches
    dsimp only
    rw [eqName_decodes h spells]
    rfl

/-! ## Contents -/

inductive Data where
  | aliased (target : List Bytes)
  | plain (bytes : Bytes)
deriving DecidableEq, Repr

/-- What a record says, wherever it stands. -/
structure Content where
  owner : List Bytes
  kind : Nat
  cls : Nat
  ttl : Nat
  data : Data
deriving DecidableEq, Repr

def Content.isAlias (content : Content) : Bool :=
  content.cls == classIn && content.kind == kindCname

/-- The record has names that can be decoded, and data of the right size where
it is an address of the family. -/
structure Means (packet : Packet) (family : Family.Version) (record : Record)
    (content : Content) : Prop where
  owner : Decodes packet record.owner content.owner
  kind : record.kind = content.kind
  cls : record.cls = content.cls
  ttl : record.ttl = content.ttl
  target : content.isAlias = true → ∃ name target, record.name packet = .ok name ∧
    Decodes packet name target ∧ content.data = .aliased target
  plain : content.isAlias = false → content.data = .plain (record.data.slice packet)
  sized : content.cls = classIn → content.kind = family.kind →
    ∃ value, family.decode (record.data.slice packet) = .ok value

structure Edge.Means (packet : Packet) (edge : Edge) (content : Content) : Prop where
  owner : Decodes packet edge.owner content.owner
  target : ∃ target, Decodes packet edge.target target ∧ content.data = .aliased target
  ttl : edge.ttl = content.ttl

variable {contents : List Content} {items : List Record} {chain : Chain} {n : Nat}
  {owner : Current}

namespace Chain

variable {packet : Packet} {family : Family.Version} {name : Host.Name}

theorem aliases_of_items {last : Chain} (means : List.Forall₂ (Means packet family) items contents)
    (folded : items.foldlM (readRecord packet) chain = .ok last) :
    last.aliases = chain.aliases + (contents.filter Content.isAlias).length := by
  induction means generalizing chain with
  | nil =>
    cases folded
    rfl
  | @cons record content items contents known rest ih =>
    rw [List.foldlM_cons] at folded
    obtain ⟨middle, taken, folded⟩ := bind_ok.mp folded
    have counted := ih folded
    unfold readRecord at taken
    rw [known.cls, known.kind] at taken
    split at taken
    · rename_i skip
      cases taken
      have plain : content.isAlias = false := by
        simpa [Content.isAlias, or_iff_not_imp_left] using skip
      rw [List.filter_cons_of_neg (by simp [plain])]
      exact counted
    · rename_i skip
      obtain ⟨target, -, taken⟩ := bind_ok.mp taken
      cases taken
      have aliased : content.isAlias = true := by
        simpa [Content.isAlias, not_or] using skip
      rw [List.filter_cons_of_pos aliased, List.length_cons]
      dsimp only at counted
      omega

/-- Within the limit of the table every alias record becomes an edge. -/
theorem edges_of_items {last : Chain} (means : List.Forall₂ (Means packet family) items contents)
    (folded : items.foldlM (readRecord packet) chain = .ok last)
    (full : chain.edges.length = chain.aliases) (within : last.aliases ≤ maxRecords) :
    ∃ added, last.edges = chain.edges ++ added ∧
      List.Forall₂ (Edge.Means packet) added (contents.filter Content.isAlias) := by
  induction means generalizing chain with
  | nil =>
    cases folded
    exact ⟨[], by simp, .nil⟩
  | @cons record content items contents known rest ih =>
    rw [List.foldlM_cons] at folded
    obtain ⟨middle, taken, folded⟩ := bind_ok.mp folded
    unfold readRecord at taken
    cases aliased : content.isAlias with
    | false =>
      have skip : record.cls ≠ classIn ∨ record.kind ≠ kindCname := by
        rw [known.cls, known.kind]
        simpa [Content.isAlias, or_iff_not_imp_left] using aliased
      rw [if_pos skip] at taken
      cases taken
      rw [List.filter_cons, aliased]
      exact ih folded full
    | true =>
      have both : content.cls = classIn ∧ content.kind = kindCname := by
        simpa [Content.isAlias] using aliased
      obtain ⟨target, text, read, decodes, data⟩ := known.target aliased
      rw [if_neg (by rw [known.cls, known.kind]; simp [both]), read] at taken
      cases taken
      have grows := aliases_of_items rest folded
      have space : chain.edges.length < maxRecords := by
        dsimp only at grows
        omega
      rw [if_pos space] at folded
      obtain ⟨added, edges, forms⟩ := ih folded (by simp [full])
      refine ⟨⟨record.owner, target, record.ttl⟩ :: added, ?_, ?_⟩
      · rw [edges]
        simp
      · rw [List.filter_cons, aliased]
        exact .cons ⟨known.owner, ⟨text, decodes, data⟩, known.ttl⟩ forms

theorem read_edges {position count stop : Nat} {records : Records}
    (answers : read packet position count = .ok (chain, records, stop))
    (replayed : records.items = .ok items)
    (means : List.Forall₂ (Means packet family) items contents)
    (within : (contents.filter Content.isAlias).length ≤ maxRecords) :
    chain.aliases ≤ maxRecords ∧
      List.Forall₂ (Edge.Means packet) chain.edges (contents.filter Content.isAlias) := by
  unfold read lift Cursor.records at answers
  cases traversed : Cursor.recordsFrom packet (readRecord packet) count new position with
  | error fault =>
    rw [traversed] at answers
    cases answers
  | ok result =>
    obtain ⟨last, ended⟩ := result
    rw [traversed] at answers
    cases answers
    obtain ⟨items', replayed', folded⟩ := recordsFrom_items traversed
    have same : items' = items := Except.ok.inj (replayed'.symm.trans replayed)
    subst same
    have counted := aliases_of_items means folded
    have bound : chain.aliases ≤ maxRecords := by
      rw [counted]
      exact Nat.le_trans (Nat.le_of_eq (Nat.zero_add _)) within
    obtain ⟨added, edges, forms⟩ := edges_of_items means folded rfl bound
    refine ⟨bound, ?_⟩
    rw [edges]
    exact forms

/-! ## The next edge -/

/-- What the records say about the alias of `text`: there is none, they agree on
a target and the shortest lifetime counts, or they disagree. -/
inductive Leads (packet : Packet) (text : List Bytes) (sources : List Content) :
    Except Error.Malformed (Option Edge) → Prop where
  | none : (∀ content ∈ sources, content.owner ≠ text) → Leads packet text sources (.ok none)
  | some {edge : Edge} {target : List Bytes} : Decodes packet edge.target target →
      (∀ content ∈ sources, content.owner = text →
        content.data = .aliased target ∧ edge.ttl ≤ content.ttl) →
      (∃ content ∈ sources, content.owner = text ∧ content.ttl = edge.ttl) →
      Leads packet text sources (.ok (some edge))
  | conflict {first second : Content} : first ∈ sources → second ∈ sources →
      first.owner = text → second.owner = text → first.data ≠ second.data →
      Leads packet text sources (.error .aliasConflict)

/-- With an edge at hand, every later one must agree with it. -/
theorem nextEdge_some {target : List Bytes} {edges : List Edge} {sources : List Content}
    {first : Edge} (spells : owner.Spells packet name text)
    (means : List.Forall₂ (Edge.Means packet) edges sources)
    (decodes : Decodes packet first.target target) :
    (∃ last, nextEdge packet owner name edges (some first) = .ok (some last) ∧
      last.target = first.target ∧ last.ttl ≤ first.ttl ∧
      (∀ content ∈ sources, content.owner = text →
        content.data = .aliased target ∧ last.ttl ≤ content.ttl) ∧
      (last.ttl = first.ttl ∨
        ∃ content ∈ sources, content.owner = text ∧ content.ttl = last.ttl)) ∨
    (nextEdge packet owner name edges (some first) = .error .aliasConflict ∧
      ∃ content ∈ sources, content.owner = text ∧ content.data ≠ .aliased target) := by
  induction means generalizing first with
  | nil => exact .inl ⟨first, rfl, rfl, Nat.le_refl _, by simp, .inl rfl⟩
  | @cons edge content edges sources known rest ih =>
    unfold nextEdge
    rw [matches_decodes spells known.owner, ok_bind]
    by_cases same : content.owner = text
    · obtain ⟨other, reads, data⟩ := known.target
      simp only [same, decide_true, if_true, eqName_decodes decodes reads, lift,
        Except.mapError, ok_bind]
      by_cases agree : target = other
      · subst agree
        rw [decide_eq_true rfl, if_pos rfl]
        have narrowed : Decodes packet
            ({ first with ttl := min first.ttl edge.ttl } : Edge).target target := decodes
        rcases ih narrowed with ⟨last, ran, target', below, all, reached⟩ | ⟨ran, clash⟩
        · refine .inl ⟨last, ran, target', ?_, ?_, ?_⟩
          · dsimp only at below
            omega
          · intro other member owned
            rcases List.mem_cons.mp member with rfl | member
            · have ttl := known.ttl
              dsimp only at below
              exact ⟨data, by omega⟩
            · exact all other member owned
          · have ttl := known.ttl
            dsimp only at reached
            rcases reached with reached | ⟨other, member, owned, reached⟩
            · by_cases shorter : first.ttl ≤ edge.ttl
              · exact .inl (by omega)
              · exact .inr ⟨content, List.mem_cons_self, same, by omega⟩
            · exact .inr ⟨other, List.mem_cons_of_mem _ member, owned, reached⟩
        · obtain ⟨other, member, owned, clash⟩ := clash
          exact .inr ⟨ran, other, List.mem_cons_of_mem _ member, owned, clash⟩
      · rw [decide_eq_false agree, if_neg (by simp)]
        refine .inr ⟨rfl, content, List.mem_cons_self, same, ?_⟩
        rw [data]
        intro equal
        exact agree (Data.aliased.inj equal).symm
    · rw [decide_eq_false same, if_neg (by simp)]
      rcases ih decodes with ⟨last, ran, target', below, all, reached⟩ | ⟨ran, clash⟩
      · refine .inl ⟨last, ran, target', below, ?_, ?_⟩
        · intro other member owned
          rcases List.mem_cons.mp member with rfl | member
          · exact absurd owned same
          · exact all other member owned
        · rcases reached with reached | ⟨other, member, owned, reached⟩
          · exact .inl reached
          · exact .inr ⟨other, List.mem_cons_of_mem _ member, owned, reached⟩
      · obtain ⟨other, member, owned, clash⟩ := clash
        exact .inr ⟨ran, other, List.mem_cons_of_mem _ member, owned, clash⟩

theorem nextEdge_leads {edges : List Edge} {sources : List Content}
    (spells : owner.Spells packet name text)
    (means : List.Forall₂ (Edge.Means packet) edges sources) :
    Leads packet text sources (nextEdge packet owner name edges none) := by
  induction means with
  | nil => exact .none (by simp)
  | @cons edge content edges sources known rest ih =>
    unfold nextEdge
    rw [matches_decodes spells known.owner, ok_bind]
    by_cases same : content.owner = text
    · rw [decide_eq_true same, if_pos rfl]
      obtain ⟨target, decodes, data⟩ := known.target
      have ttl := known.ttl
      rcases nextEdge_some spells rest decodes with
        ⟨last, ran, target', below, all, reached⟩ | ⟨ran, other, member, owned, clash⟩
      · rw [ran]
        refine .some (target' ▸ decodes) ?_ ?_
        · intro other member owned
          rcases List.mem_cons.mp member with rfl | member
          · exact ⟨data, by omega⟩
          · exact all other member owned
        · rcases reached with reached | ⟨other, member, owned, reached⟩
          · exact ⟨content, List.mem_cons_self, same, by omega⟩
          · exact ⟨other, List.mem_cons_of_mem _ member, owned, reached⟩
      · rw [ran]
        refine .conflict List.mem_cons_self (List.mem_cons_of_mem _ member) same owned ?_
        rw [data]
        exact clash.symm
    · rw [decide_eq_false same, if_neg (by simp)]
      generalize nextEdge packet owner name edges none = result at ih
      cases ih with
      | none away =>
        refine .none ?_
        intro other member
        rcases List.mem_cons.mp member with rfl | member
        · exact same
        · exact away other member
      | some decodes all reached =>
        refine .some decodes ?_ ?_
        · intro other member owned
          rcases List.mem_cons.mp member with rfl | member
          · exact absurd owned same
          · exact all other member owned
        · obtain ⟨other, member, owned, reached⟩ := reached
          exact ⟨other, List.mem_cons_of_mem _ member, owned, reached⟩
      | conflict first second owned owned' clash =>
        exact .conflict (List.mem_cons_of_mem _ first) (List.mem_cons_of_mem _ second)
          owned owned' clash

/-! ## Two sections -/

section
variable {packet' : Packet} {sources sources' : List Content}

/-- Two edges with one target and one lifetime. -/
structure SameEdge (packet packet' : Packet) (edge edge' : Edge) : Prop where
  target : ∃ target, Decodes packet edge.target target ∧ Decodes packet' edge'.target target
  ttl : edge.ttl = edge'.ttl

theorem Leads.agree {result result' : Except Error.Malformed (Option Edge)}
    (same : ∀ content, content ∈ sources ↔ content ∈ sources')
    (first : Leads packet text sources result) (second : Leads packet' text sources' result') :
    Agree (Option.Rel (SameEdge packet packet')) result result' := by
  cases first with
  | none away =>
    cases second with
    | none => exact .ok .none
    | some _ _ reached =>
      obtain ⟨content, member, owned, -⟩ := reached
      exact absurd owned (away content ((same content).mpr member))
    | conflict member _ owned =>
      exact absurd owned (away _ ((same _).mpr member))
  | some decodes all reached =>
    obtain ⟨content, member, owned, exact_⟩ := reached
    cases second with
    | none away => exact absurd owned (away content ((same content).mp member))
    | some decodes' all' reached' =>
      obtain ⟨content', member', owned', exact'⟩ := reached'
      obtain ⟨data, below⟩ := all content' ((same content').mpr member') owned'
      obtain ⟨data', below'⟩ := all' content ((same content).mp member) owned
      have target := Data.aliased.inj
        ((all content member owned).1.symm.trans data')
      subst target
      exact .ok (.some ⟨⟨_, decodes, decodes'⟩, by omega⟩)
    | conflict left right owned' owned'' clash =>
      obtain ⟨data, -⟩ := all _ ((same _).mpr left) owned'
      obtain ⟨data', -⟩ := all _ ((same _).mpr right) owned''
      exact absurd (data.trans data'.symm) clash
  | conflict left right owned owned' clash =>
    cases second with
    | none away => exact absurd owned (away _ ((same _).mp left))
    | some _ all _ =>
      obtain ⟨data, -⟩ := all _ ((same _).mp left) owned
      obtain ⟨data', -⟩ := all _ ((same _).mp right) owned'
      exact absurd (data.trans data'.symm) clash
    | conflict => exact .error

/-- Two chains that were followed to the same name. -/
structure SameEnd (packet packet' : Packet) (name : Host.Name) (followed followed' : Followed) :
    Prop where
  owner : ∃ text, followed.owner.Spells packet name text ∧
    followed'.owner.Spells packet' name text
  origin : followed.owner = .expected ↔ followed'.owner = .expected
  ttl : followed.ttl = followed'.ttl
  hops : followed.hops = followed'.hops

theorem follow_agree {chain' : Chain} (same : ∀ content, content ∈ sources ↔ content ∈ sources')
    (means : List.Forall₂ (Edge.Means packet) chain.edges sources)
    (means' : List.Forall₂ (Edge.Means packet') chain'.edges sources') (fuel : Nat)
    {followed followed' : Followed} (start : SameEnd packet packet' name followed followed') :
    Agree (Agree (SameEnd packet packet' name)) (follow packet chain name fuel followed)
      (follow packet' chain' name fuel followed') := by
  induction fuel generalizing followed followed' with
  | zero =>
    unfold follow
    rw [start.hops]
    exact .ok .error
  | succ fuel ih =>
    obtain ⟨text, spells, spells'⟩ := start.owner
    unfold follow
    refine ((nextEdge_leads spells means).agree same (nextEdge_leads spells' means')).bind ?_
    intro next next' related
    cases related with
    | none => exact .ok (.ok start)
    | @some edge edge' equal =>
      dsimp only
      rw [start.hops]
      cases followed'.hops.advance with
      | error actual => exact .ok .error
      | ok hops =>
        refine ih ⟨equal.target, ?_, ?_, rfl⟩
        · simp
        · dsimp only
          rw [start.ttl, equal.ttl]

end

/-! ## Addresses -/

/-- The record is an address of the family that `text` owns. -/
def Owned (family : Family.Version) (text : List Bytes) (content : Content) : Prop :=
  content.cls = classIn ∧ content.kind = family.kind ∧ content.owner = text

/-- One of the records gives the address. -/
def Offers (family : Family.Version) (text : List Bytes) (contents : List Content)
    (value : IpAddr) : Prop :=
  ∃ content ∈ contents, Owned family text content ∧
    ∃ bytes, content.data = .plain bytes ∧ family.decode bytes = .ok value

/-- What the records give to a gathering that holds `values` and `ttl`: all their
addresses and the shortest lifetime, or more addresses than there is room
for. -/
inductive Gathers {n : Nat} (family : Family.Version) (text : List Bytes)
    (contents : List Content) (values : List IpAddr) (ttl : Nat) :
    Except Error.Malformed (Except Nat (Addresses n × Nat)) → Prop where
  | all {found : Addresses n} {least : Nat} : found.values.Nodup →
      (∀ value, value ∈ found.values ↔ value ∈ values ∨ Offers family text contents value) →
      least ≤ ttl → (∀ content ∈ contents, Owned family text content → least ≤ content.ttl) →
      (least = ttl ∨ ∃ content ∈ contents, Owned family text content ∧ content.ttl = least) →
      Gathers family text contents values ttl (.ok (.ok (found, least)))
  | full {many : List IpAddr} : many.Nodup → many.length = n + 1 →
      (∀ value ∈ many, value ∈ values ∨ Offers family text contents value) →
      Gathers family text contents values ttl (.ok (.error (n + 1)))

theorem offers_cons {content : Content} {value : IpAddr} (h : Offers family text contents value) :
    Offers family text (content :: contents) value := by
  obtain ⟨other, member, owned, bytes⟩ := h
  exact ⟨other, List.mem_cons_of_mem _ member, owned, bytes⟩

/-- A record that is not an owned address changes nothing. -/
theorem Gathers.skip {content : Content} {values : List IpAddr} {ttl : Nat}
    {result : Except Error.Malformed (Except Nat (Addresses n × Nat))}
    (other : ¬ Owned family text content) (h : Gathers family text contents values ttl result) :
    Gathers family text (content :: contents) values ttl result := by
  cases h with
  | all nodup members below all reached =>
    refine .all nodup ?_ below ?_ ?_
    · intro value
      rw [members value]
      refine or_congr_right ⟨offers_cons, ?_⟩
      rintro ⟨content', member, owned, bytes⟩
      rcases List.mem_cons.mp member with rfl | member
      · exact absurd owned other
      · exact ⟨content', member, owned, bytes⟩
    · intro content' member owned
      rcases List.mem_cons.mp member with rfl | member
      · exact absurd owned other
      · exact all content' member owned
    · rcases reached with reached | ⟨content', member, owned, reached⟩
      · exact .inl reached
      · exact .inr ⟨content', List.mem_cons_of_mem _ member, owned, reached⟩
  | full nodup size members =>
    refine .full nodup size ?_
    intro value member
    exact (members value member).imp_right offers_cons

theorem Gathers.take {n : Nat} {text : List Bytes} {content : Content} {contents : List Content}
    {values grown : List IpAddr} {ttl : Nat} {bytes : Bytes} {value : IpAddr}
    {result : Except Error.Malformed (Except Nat (Addresses n × Nat))}
    (owned : Owned family text content) (data : content.data = .plain bytes)
    (decoded : family.decode bytes = .ok value)
    (grows : ∀ other, other ∈ grown ↔ other ∈ values ∨ other = value)
    (h : Gathers family text contents grown (min ttl content.ttl) result) :
    Gathers family text (content :: contents) values ttl result := by
  have offers : Offers family text (content :: contents) value :=
    ⟨content, List.mem_cons_self, owned, bytes, data, decoded⟩
  have spread : ∀ other, other ∈ grown ∨ Offers family text contents other ↔
      other ∈ values ∨ Offers family text (content :: contents) other := by
    intro other
    rw [grows other]
    constructor
    · rintro ((held | rfl) | later)
      · exact .inl held
      · exact .inr offers
      · exact .inr (offers_cons later)
    · rintro (held | ⟨content', member, owned', bytes', data', decoded'⟩)
      · exact .inl (.inl held)
      · rcases List.mem_cons.mp member with rfl | member
        · have same : bytes' = bytes := Data.plain.inj (data'.symm.trans data)
          subst same
          exact .inl (.inr (Except.ok.inj (decoded'.symm.trans decoded)))
        · exact .inr ⟨content', member, owned', bytes', data', decoded'⟩
  cases h with
  | all nodup members below all reached =>
    refine .all nodup ?_ (by omega) ?_ ?_
    · intro other
      rw [members other]
      exact spread other
    · intro content' member owned'
      rcases List.mem_cons.mp member with rfl | member
      · omega
      · exact all content' member owned'
    · rcases reached with reached | ⟨content', member, owned', reached⟩
      · by_cases shorter : ttl ≤ content.ttl
        · exact .inl (by omega)
        · exact .inr ⟨content, List.mem_cons_self, owned, by omega⟩
      · exact .inr ⟨content', List.mem_cons_of_mem _ member, owned', reached⟩
  | full nodup size members =>
    refine .full nodup size ?_
    intro other member
    exact (spread other).mp (members other member)

theorem kind_ne_cname (family : Family.Version) : family.kind ≠ kindCname := by
  cases family <;> decide

theorem gather_gathers (spells : owner.Spells packet name text)
    (means : List.Forall₂ (Means packet family) items contents) (values : Addresses n) (ttl : Nat)
    (nodup : values.values.Nodup) :
    Gathers family text contents values.values ttl
      (gather packet owner name family items values ttl) := by
  induction means generalizing values ttl with
  | nil =>
    refine .all nodup ?_ (Nat.le_refl _) (by simp) (.inl rfl)
    intro value
    simp [Offers]
  | @cons record content items contents known rest ih =>
    unfold gather
    rw [matches_decodes spells known.owner, ok_bind]
    by_cases owned : Owned family text content
    · obtain ⟨cls, kind, same⟩ := owned
      have plain : content.isAlias = false := by
        simp [Content.isAlias, kind, kind_ne_cname family]
      obtain ⟨value, decoded⟩ := known.sized cls kind
      rw [if_pos (by rw [known.cls, known.kind]; simp [cls, kind, same]), decoded]
      simp only [Except.mapError, ok_bind]
      have data := known.plain plain
      unfold Addresses.insert
      by_cases present : value ∈ values.values
      · rw [if_pos present, known.ttl]
        refine Gathers.take ⟨cls, kind, same⟩ data decoded ?_ (ih values _ nodup)
        intro other
        constructor
        · exact .inl
        · rintro (held | rfl)
          · exact held
          · exact present
      · rw [if_neg present]
        by_cases room : values.values.length < n
        · rw [dif_pos room, known.ttl]
          refine Gathers.take ⟨cls, kind, same⟩ data decoded ?_ (ih ⟨_, _⟩ _ ?_)
          · intro other
            simp
          · exact List.nodup_append.mpr ⟨nodup, by simp, by
              rintro held member other single rfl
              exact present ((List.mem_singleton.mp single) ▸ member)⟩
        · rw [dif_neg room]
          have bound := values.bound
          have exact_ : values.values.length + 1 = n + 1 := by omega
          dsimp only
          rw [exact_]
          refine .full (List.nodup_cons.mpr ⟨present, nodup⟩) exact_ ?_
          intro other member
          rcases List.mem_cons.mp member with rfl | member
          · exact .inr ⟨content, List.mem_cons_self, ⟨cls, kind, same⟩, _, data, decoded⟩
          · exact .inl member
    · rw [if_neg]
      · exact (ih values ttl nodup).skip owned
      · rw [known.cls, known.kind]
        simpa [Owned] using owned

section
variable {packet' : Packet} {contents contents' : List Content}

theorem offers_congr {value : IpAddr} (same : ∀ content, content ∈ contents ↔ content ∈ contents') :
    Offers family text contents value ↔ Offers family text contents' value := by
  constructor
  · rintro ⟨content, member, rest⟩
    exact ⟨content, (same content).mp member, rest⟩
  · rintro ⟨content, member, rest⟩
    exact ⟨content, (same content).mpr member, rest⟩

/-- Two gatherings of the same addresses. -/
def SameFound {n : Nat} (found found' : Addresses n × Nat) : Prop :=
  (∀ value, value ∈ found.1.values ↔ value ∈ found'.1.values) ∧ found.2 = found'.2

/-- All the addresses fit or they do not, whatever the order. -/
theorem not_full (found : Addresses n) {many : List IpAddr} (nodup : many.Nodup)
    (size : many.length = n + 1) : ¬ many ⊆ found.values := by
  intro inside
  have fits := (List.subperm_of_subset nodup inside).length_le
  have bound := found.bound
  omega

theorem Gathers.agree {values : List IpAddr} {ttl : Nat}
    {result result' : Except Error.Malformed (Except Nat (Addresses n × Nat))}
    (same : ∀ content, content ∈ contents ↔ content ∈ contents')
    (first : Gathers family text contents values ttl result)
    (second : Gathers family text contents' values ttl result') :
    Agree (Agree SameFound) result result' := by
  cases first with
  | @all found _ nodup members below all reached =>
    cases second with
    | all nodup' members' below' all' reached' =>
      refine .ok (.ok ⟨?_, ?_⟩)
      · intro value
        rw [members value, members' value, offers_congr same]
      · apply Nat.le_antisymm
        · rcases reached' with reached' | ⟨content, member, owned, reached'⟩
          · omega
          · have short := all content ((same content).mpr member) owned
            omega
        · rcases reached with reached | ⟨content, member, owned, reached⟩
          · omega
          · have short := all' content ((same content).mp member) owned
            omega
    | full nodup' size' members' =>
      refine absurd ?_ (not_full found nodup' size')
      intro value member
      exact (members value).mpr ((members' value member).imp_right (offers_congr same).mpr)
  | full nodup size members =>
    cases second with
    | @all found _ nodup' members' below' all' reached' =>
      refine absurd ?_ (not_full found nodup size)
      intro value member
      exact (members' value).mpr ((members value member).imp_right (offers_congr same).mp)
    | full => exact .ok .error

end

end Chain

/-! ## Replies -/

/-- Replies of one kind that agree on the addresses as a set, on the name up to
the case of its letters, and on everything else. -/
inductive Reply.Same {n : Nat} : Reply n → Reply n → Prop where
  | addresses {values values' : Addresses n} {ttl : Nat} {hops : Hops} :
      (∀ value, value ∈ values.values ↔ value ∈ values'.values) →
      Same (.addresses values ttl hops) (.addresses values' ttl hops)
  | aliased {name name' : Expanded} {ttl : Nat} {hops : Hops} {labels labels' : List Bytes} :
      name.labels = .ok labels → name'.labels = .ok labels' → lower labels = lower labels' →
      Same (.aliased name ttl hops) (.aliased name' ttl hops)
  | other {reply : Reply n} : Same reply reply

namespace Chain

variable {packet packet' : Packet} {family : Family.Version} {name : Host.Name}
  {chain chain' : Chain} {records records' : Records} {items items' : List Record}
  {contents contents' : List Content}

theorem resolve_agree (perm : contents.Perm contents')
    (edges : List.Forall₂ (Edge.Means packet) chain.edges (contents.filter Content.isAlias))
    (edges' : List.Forall₂ (Edge.Means packet') chain'.edges (contents'.filter Content.isAlias))
    (read : records.items = .ok items) (read' : records'.items = .ok items')
    (means : List.Forall₂ (Means packet family) items contents)
    (means' : List.Forall₂ (Means packet' family) items' contents') :
    Agree Reply.Same (chain.resolve packet records name family : Except _ (Reply n))
      (chain'.resolve packet' records' name family) := by
  have begins : SameEnd packet packet' name ⟨.expected, 2 ^ 32 - 1, .zero⟩
      ⟨.expected, 2 ^ 32 - 1, .zero⟩ := ⟨⟨_, rfl, rfl⟩, Iff.rfl, rfl, rfl⟩
  unfold resolve
  refine (follow_agree (fun content => (perm.filter _).mem_iff) edges edges' _ begins).bind ?_
  intro ended ended' agreed
  cases agreed with
  | error => exact .ok .other
  | @ok followed followed' same =>
    obtain ⟨text, spells, spells'⟩ := same.owner
    have gathers := gather_gathers (n := n) spells means Addresses.new followed.ttl .nil
    have gathers' := gather_gathers (n := n) spells' means' Addresses.new followed.ttl .nil
    rw [read, read']
    simp only [lift, Except.mapError, ok_bind]
    rw [← same.ttl, ← same.hops]
    refine (gathers.agree (fun content => perm.mem_iff) gathers').bind ?_
    intro gathered gathered' agreed
    cases agreed with
    | error => exact .ok .other
    | @ok found found' equal =>
      obtain ⟨values, ttl⟩ := found
      obtain ⟨values', ttl'⟩ := found'
      obtain ⟨members, short⟩ := equal
      dsimp only at members short ⊢
      subst short
      have none : values.values = [] ↔ values'.values = [] := by
        simp only [List.eq_nil_iff_forall_not_mem, members]
      by_cases empty : values.values = []
      · rw [if_neg (by simpa using empty), if_neg (by simpa using none.mp empty)]
        have origin := same.origin
        cases owner : followed.owner with
        | expected =>
          rw [origin.mp owner]
          exact .ok .other
        | wire target =>
          cases owner' : followed'.owner with
          | expected => simp [origin.mpr owner'] at owner
          | wire target' =>
            rw [owner] at spells
            rw [owner'] at spells'
            obtain ⟨expanded, raw, opened, labels, rfl⟩ := spells
            obtain ⟨expanded', raw', opened', labels', lowered⟩ := spells'
            simp only [opened, opened', ok_bind]
            exact .ok (.aliased labels labels' lowered.symm)
      · rw [if_pos empty, if_pos (fun other => empty (none.mpr other))]
        exact .ok (.addresses members)

end Chain

namespace Decoder

/-- A message up to its classification: the flags, the answers and the
extension record. -/
def sections (packet : Packet) (name : Host.Name) (family : Family.Version)
    (seed : Option Cookies.Client) :
    Except Error.Malformed (Nat × Chain × Records × Extension) := do
  let (flags, position) ← lift (Cursor.u16 .checked packet 2)
  if flags &&& 0x8000 = 0 ∨ flags &&& 0x7800 ≠ 0 then .error (.flags flags)
  else
    let (query, position) ← lift (Cursor.u16 .checked packet position)
    let (answer, position) ← lift (Cursor.u16 .checked packet position)
    let (auth, position) ← lift (Cursor.u16 .checked packet position)
    let (extra, _) ← lift (Cursor.u16 .checked packet position)
    if query ≠ 1 then .error (.questionCount query 1)
    else
      let position ← readQuestion packet name family
      let (chain, records, position) ← Chain.read packet position answer
      let (extension, position) ← readSection packet seed false auth position ⟨0, false, none⟩
      let (extension, position) ← readSection packet seed true extra position extension
      if position ≠ packet.bytes.length then
        .error (.trailing position (packet.bytes.length - position))
      else .ok (flags, chain, records, extension)

variable {packet packet' : Packet} {name : Host.Name} {family : Family.Version}
  {seed : Option Cookies.Client} {flags : Nat} {extension : Extension} {chain chain' : Chain}
  {records records' : Records}

theorem sections_ok (h : sections packet name family seed = .ok (flags, chain, records, extension)) :
    (∃ position count stop, Chain.read packet position count = .ok (chain, records, stop)) ∧
      ∀ n, (read packet name family seed : Except _ (Envelope n)) =
        (classify packet chain records name family flags (extension.code * 16 + flags % 16) >>=
          fun reply => .ok ⟨reply, extension.code * 16 + flags % 16, extension.cookie⟩) := by
  unfold sections at h
  obtain ⟨⟨flags, position⟩, first, h⟩ := bind_ok.mp h
  dsimp only at h
  split at h
  · simp at h
  · rename_i response
    obtain ⟨⟨query, position⟩, second, h⟩ := bind_ok.mp h
    obtain ⟨⟨answer, position⟩, third, h⟩ := bind_ok.mp h
    obtain ⟨⟨auth, position⟩, fourth, h⟩ := bind_ok.mp h
    obtain ⟨⟨extra, position⟩, fifth, h⟩ := bind_ok.mp h
    dsimp only at h
    split at h
    · simp at h
    · rename_i single
      obtain ⟨start, asked, h⟩ := bind_ok.mp h
      obtain ⟨⟨chain, records, position⟩, answers, h⟩ := bind_ok.mp h
      obtain ⟨⟨middle, position⟩, authority, h⟩ := bind_ok.mp h
      obtain ⟨⟨extension, position⟩, additional, h⟩ := bind_ok.mp h
      dsimp only at h
      split at h
      · simp at h
      · rename_i whole
        cases h
        refine ⟨⟨_, _, _, answers⟩, ?_⟩
        intro n
        unfold read
        simp only [first, second, third, fourth, fifth, asked, answers, authority, additional,
          ok_bind, if_neg response, if_neg single, if_neg whole]

theorem classify_agree {items' : List Record} {contents' : List Content}
    {position position' count count' stop stop' : Nat} (perm : contents.Perm contents')
    (within : (contents.filter Content.isAlias).length ≤ maxRecords)
    (answers : Chain.read packet position count = .ok (chain, records, stop))
    (answers' : Chain.read packet' position' count' = .ok (chain', records', stop'))
    (replayed : records.items = .ok items) (replayed' : records'.items = .ok items')
    (means : List.Forall₂ (Means packet family) items contents)
    (means' : List.Forall₂ (Means packet' family) items' contents') (flags code : Nat) :
    Agree Reply.Same (classify packet chain records name family flags code : Except _ (Reply n))
      (classify packet' chain' records' name family flags code) := by
  have within' : (contents'.filter Content.isAlias).length ≤ maxRecords := by
    rw [← (perm.filter _).length_eq]
    exact within
  obtain ⟨count, edges⟩ := Chain.read_edges answers replayed means within
  obtain ⟨count', edges'⟩ := Chain.read_edges answers' replayed' means' within'
  have kept : chain.take = none := by
    unfold Chain.take
    rw [if_neg (by omega)]
  have kept' : chain'.take = none := by
    unfold Chain.take
    rw [if_neg (by omega)]
  unfold classify
  rw [kept, kept']
  split
  · exact .ok .other
  · dsimp only
    split
    · exact Chain.resolve_agree perm edges edges' replayed replayed' means means'
    · split
      · exact .ok .other
      · split
        · exact .ok .other
        · exact .ok .other

/-- A message whose answer records, in their order, say `contents`. -/
def Answers (packet : Packet) (name : Host.Name) (family : Family.Version)
    (seed : Option Cookies.Client) (flags : Nat) (extension : Extension)
    (contents : List Content) : Prop :=
  ∃ chain records items, sections packet name family seed = .ok (flags, chain, records, extension) ∧
    records.items = .ok items ∧ List.Forall₂ (Means packet family) items contents

end Decoder

structure Envelope.Same {n : Nat} (envelope envelope' : Envelope n) : Prop where
  reply : Reply.Same envelope.reply envelope'.reply
  responseCode : envelope.responseCode = envelope'.responseCode
  serverCookie : envelope.serverCookie = envelope'.serverCookie

/-- The order of the answers does not matter. -/
theorem answers_permute {n : Nat} {packet packet' : Packet} {name : Host.Name}
    {family : Family.Version} {seed : Option Cookies.Client} {flags : Nat} {extension : Extension}
    {contents contents' : List Content} (perm : contents.Perm contents')
    (within : (contents.filter Content.isAlias).length ≤ maxRecords)
    (first : Decoder.Answers packet name family seed flags extension contents)
    (second : Decoder.Answers packet' name family seed flags extension contents') :
    Agree Envelope.Same (Decoder.read packet name family seed : Except _ (Envelope n))
      (Decoder.read packet' name family seed) := by
  obtain ⟨chain, records, items, opened, replayed, means⟩ := first
  obtain ⟨chain', records', items', opened', replayed', means'⟩ := second
  obtain ⟨⟨_, _, _, answers⟩, same⟩ := Decoder.sections_ok opened
  obtain ⟨⟨_, _, _, answers'⟩, same'⟩ := Decoder.sections_ok opened'
  rw [same n, same' n]
  refine (Decoder.classify_agree perm within answers answers' replayed replayed' means means'
    flags _).bind ?_
  intro reply reply' equal
  exact .ok ⟨equal, rfl, rfl⟩

namespace Sample

def aliasRecord : Bytes := [0xc0, 12, 0, 5, 0, 1, 0, 0, 0, 16, 0, 3, 1, 98, 0]

def addressRecord : Bytes := [1, 98, 0, 0, 1, 0, 1, 0, 0, 0, 32, 0, 4, 10, 0, 0, 1]

def opening : Bytes := [0, 7, 0x81, 0x80, 0, 1, 0, 2, 0, 0, 0, 0, 1, 97, 0, 0, 1, 0, 1]

def forward : Packet := ⟨opening ++ aliasRecord ++ addressRecord, by decide⟩

def backward : Packet := ⟨opening ++ addressRecord ++ aliasRecord, by decide⟩

def aliasContent : Content := ⟨[[97]], 5, 1, 16, .aliased [[98]]⟩

def addressContent : Content := ⟨[[98]], 1, 1, 32, .plain [10, 0, 0, 1]⟩

def name : Host.Name := ⟨[97]⟩

end Sample

set_option maxRecDepth 2000 in
open Sample in
theorem answers_permute_example :
    Agree Envelope.Same (Decoder.read forward Sample.name .four none : Except _ (Envelope 4))
      (Decoder.read backward Sample.name .four none) := by
  have first : Decoder.Answers forward Sample.name .four none 0x8180 ⟨0, false, none⟩
      [aliasContent, addressContent] := by
    refine ⟨_, _, _, rfl, rfl, .cons ?_ (.cons ?_ .nil)⟩
    · refine ⟨⟨_, _, rfl, rfl, rfl⟩, rfl, rfl, rfl, ?_, ?_, ?_⟩
      · intro _
        exact ⟨_, _, rfl, ⟨_, _, rfl, rfl, rfl⟩, rfl⟩
      · intro plain
        cases plain
      · intro _ other
        cases other
    · refine ⟨⟨_, _, rfl, rfl, rfl⟩, rfl, rfl, rfl, ?_, ?_, ?_⟩
      · intro aliased
        cases aliased
      · intro _
        rfl
      · intro _ _
        exact ⟨_, rfl⟩
  have second : Decoder.Answers backward Sample.name .four none 0x8180 ⟨0, false, none⟩
      [addressContent, aliasContent] := by
    refine ⟨_, _, _, rfl, rfl, .cons ?_ (.cons ?_ .nil)⟩
    · refine ⟨⟨_, _, rfl, rfl, rfl⟩, rfl, rfl, rfl, ?_, ?_, ?_⟩
      · intro aliased
        cases aliased
      · intro _
        rfl
      · intro _ _
        exact ⟨_, rfl⟩
    · refine ⟨⟨_, _, rfl, rfl, rfl⟩, rfl, rfl, rfl, ?_, ?_, ?_⟩
      · intro _
        exact ⟨_, _, rfl, ⟨_, _, rfl, rfl, rfl⟩, rfl⟩
      · intro plain
        cases plain
      · intro _ other
        cases other
  exact answers_permute (.swap _ _ _) (by decide) first second

end Dope.Dns.Wire
