import Mathlib.Algebra.Group.Nat.Defs
import Dope.Dns.Wire.Cookies

/-! # Responses

Model of `wire/response`, with the answer types of `query`. A response is read
once from front to back: header, question, answers with their alias records,
the other two sections with the extension record, and only then classified.
-/

namespace Dope.Dns

/-! ## Families and addresses -/

inductive IpAddr where
  | v4 (octets : Bytes)
  | v6 (octets : Bytes)
deriving DecidableEq, Repr

structure SocketAddr where
  ip : IpAddr
  port : Nat
  flowinfo : Nat
  scope : Nat
deriving DecidableEq, Repr

namespace Family

inductive Version where
  | four
  | six
deriving DecidableEq, Repr

structure Error where
  version : Version
  actual : Nat
  expected : Nat
deriving DecidableEq, Repr

namespace Version

def all : List Version := [.four, .six]

def kind : Version → Nat
  | .four => 1
  | .six => 28

def decode (version : Version) (data : Bytes) : Except Error IpAddr :=
  match version with
  | .four => if data.length = 4 then .ok (.v4 data) else .error ⟨.four, data.length, 4⟩
  | .six => if data.length = 16 then .ok (.v6 data) else .error ⟨.six, data.length, 16⟩

end Version

end Family

inductive Error.Malformed where
  | packet (error : Error.Packet)
  | flags (actual : Nat)
  | questionCount (actual expected : Nat)
  | questionName (mismatch : Host.Mismatch)
  | questionKind (actual expected : Nat)
  | questionClass (actual expected : Nat)
  | optDuplicate (offset : Nat)
  | optName (mismatch : Host.Mismatch)
  | cookie (error : Error.Cookie)
  | address (error : Family.Error)
  | trailing (offset actual : Nat)
  | aliasRecords (actual maximum : Nat)
  | aliasHops (actual maximum : Nat)
  | aliasConflict
  | name (error : Host.Error)
deriving DecidableEq, Repr

/-! ## Answers -/

/-- At most `n` distinct addresses. -/
structure Addresses (n : Nat) where
  values : List IpAddr
  bound : values.length ≤ n
deriving DecidableEq, Repr

inductive Addresses.Insert (n : Nat) where
  | added (addresses : Addresses n)
  | present
  | full
deriving DecidableEq, Repr

namespace Addresses

def new {n : Nat} : Addresses n := ⟨[], Nat.zero_le n⟩

def insert {n : Nat} (addresses : Addresses n) (value : IpAddr) : Insert n :=
  if value ∈ addresses.values then .present
  else if h : addresses.values.length < n then
    .added ⟨addresses.values ++ [value], by simp only [List.length_append]; exact h⟩
  else .full

end Addresses

def maxAliasHops : Nat := 16

structure Hops where
  count : Nat
  bound : count ≤ maxAliasHops
deriving DecidableEq, Repr

namespace Hops

def zero : Hops := ⟨0, Nat.zero_le _⟩

/-- The sum, or the sum that is too large. -/
def add (hops added : Hops) : Except Nat Hops :=
  if h : hops.count + added.count ≤ maxAliasHops then .ok ⟨hops.count + added.count, h⟩
  else .error (hops.count + added.count)

def advance (hops : Hops) : Except Nat Hops := hops.add ⟨1, by decide⟩

end Hops

inductive Reply (n : Nat) where
  | addresses (values : Addresses n) (ttl : Nat) (aliasHops : Hops)
  | aliased (name : Wire.Expanded) (ttl : Nat) (hops : Hops)
  | noData
  | truncated
  | nameError
  | refused
  | server (code : Nat)
  | capacity (actual : Nat)
  | malformed (error : Error.Malformed)

namespace Wire

open Cookies (Client)

def lift {α : Type} (value : Except Error.Packet α) : Except Error.Malformed α :=
  value.mapError .packet

def kindCname : Nat := 5

def classIn : Nat := 1

/-! ## Alias chains -/

structure Edge where
  owner : Name
  target : Name
  ttl : Nat
deriving DecidableEq, Repr

inductive Current where
  | expected
  | wire (name : Name)
deriving DecidableEq, Repr

def Current.matches (packet : Packet) (current : Current) (actual : Name)
    (expected : Host.Name) : Except Error.Malformed Bool :=
  match current with
  | .expected => lift (eqHost packet actual expected)
  | .wire name => lift (eqName packet actual name)

def maxRecords : Nat := 32

structure Chain where
  edges : List Edge
  aliases : Nat

namespace Chain

def new : Chain := ⟨[], 0⟩

/-- Alias records beyond the table are counted and not kept. -/
def readRecord (packet : Packet) (chain : Chain) (record : Record) :
    Except Error.Packet Chain :=
  if record.cls ≠ classIn ∨ record.kind ≠ kindCname then .ok chain
  else do
    let target ← record.name packet
    .ok ⟨if chain.edges.length < maxRecords then
        chain.edges ++ [⟨record.owner, target, record.ttl⟩]
      else chain.edges, chain.aliases + 1⟩

def read (packet : Packet) (position count : Nat) :
    Except Error.Malformed (Chain × Records × Nat) :=
  lift (Cursor.records packet position count (readRecord packet) new)

def take (chain : Chain) : Option Error.Malformed :=
  if maxRecords < chain.aliases then some (.aliasRecords chain.aliases maxRecords) else none

/-- The edge out of `owner`. Several edges must agree on the target, and the
shortest of their lifetimes counts. -/
def nextEdge (packet : Packet) (owner : Current) (name : Host.Name) :
    List Edge → Option Edge → Except Error.Malformed (Option Edge)
  | [], next => .ok next
  | edge :: rest, next => do
      if ← owner.matches packet edge.owner name then
        match next with
        | none => nextEdge packet owner name rest (some edge)
        | some first =>
            if ← lift (eqName packet first.target edge.target) then
              nextEdge packet owner name rest
                (some { first with ttl := min first.ttl edge.ttl })
            else .error .aliasConflict
      else nextEdge packet owner name rest next

structure Followed where
  owner : Current
  ttl : Nat
  hops : Hops

/-- Every turn of the loop takes a hop, and the hop limit ends it. The chain is
followed to its end, or the limit is reported. -/
def follow (packet : Packet) (chain : Chain) (name : Host.Name) :
    Nat → Followed → Except Error.Malformed (Except Error.Malformed Followed)
  | 0, followed => .ok (.error (.aliasHops followed.hops.count maxAliasHops))
  | fuel + 1, followed => do
      match ← nextEdge packet followed.owner name chain.edges none with
      | none => .ok (.ok followed)
      | some edge =>
          match followed.hops.advance with
          | .error actual => .ok (.error (.aliasHops actual maxAliasHops))
          | .ok hops =>
              follow packet chain name fuel
                ⟨.wire edge.target, min followed.ttl edge.ttl, hops⟩

/-- Gather the addresses of `owner`, or the count that did not fit. -/
def gather {n : Nat} (packet : Packet) (owner : Current) (name : Host.Name)
    (family : Family.Version) :
    List Record → Addresses n → Nat → Except Error.Malformed (Except Nat (Addresses n × Nat))
  | [], values, ttl => .ok (.ok (values, ttl))
  | record :: rest, values, ttl => do
      let same ← owner.matches packet record.owner name
      if record.cls = classIn ∧ record.kind = family.kind ∧ same then
        let value ← (family.decode (record.data.slice packet)).mapError .address
        match values.insert value with
        | .added values => gather packet owner name family rest values (min ttl record.ttl)
        | .present => gather packet owner name family rest values (min ttl record.ttl)
        | .full => .ok (.error (values.values.length + 1))
      else gather packet owner name family rest values ttl

def resolve {n : Nat} (chain : Chain) (packet : Packet) (records : Records) (name : Host.Name)
    (family : Family.Version) : Except Error.Malformed (Reply n) := do
  match ← follow packet chain name (maxAliasHops + 1) ⟨.expected, 2 ^ 32 - 1, .zero⟩ with
  | .error error => .ok (.malformed error)
  | .ok followed =>
      let items ← lift records.items
      match ← gather packet followed.owner name family items Addresses.new followed.ttl with
      | .error actual => .ok (.capacity actual)
      | .ok (values, ttl) =>
          if values.values ≠ [] then .ok (.addresses values ttl followed.hops)
          else
            match followed.owner with
            | .expected => .ok .noData
            | .wire target => do
                let expanded ← lift (expand packet target)
                .ok (.aliased expanded followed.ttl followed.hops)

end Chain

/-! ## Messages -/

inductive Datagram (n : Nat) where
  | authenticated (reply : Reply n) (serverCookie : Cookies.Server)
  | badCookie (serverCookie : Cookies.Server)
  | streamRequired

structure Envelope (n : Nat) where
  reply : Reply n
  responseCode : Nat
  serverCookie : Option Cookies.Server

structure Decoder where
  packet : Packet
  transaction : Nat

/-- The extension record of a message. -/
structure Extension where
  code : Nat
  seen : Bool
  cookie : Option Cookies.Server

namespace Decoder

def headerBytes : Nat := 12

def badCookieCode : Nat := 23

def tryNew (bytes : Bytes) : Except Error.Packet Decoder := do
  let packet ← Packet.tryNew bytes
  if bytes.length < 2 then .error (.truncated 0 2 bytes.length)
  else .ok ⟨packet, beBytes (bytes.take 2)⟩

/-- An extension record is read once, and only at the root name. -/
def readOpt (packet : Packet) (seed : Option Client) (offset : Nat) (record : Record)
    (extension : Extension) : Except Error.Malformed Extension := do
  if extension.seen then .error (.optDuplicate offset)
  else
    match ← lift (compareRoot packet record.owner) with
    | some mismatch => .error (.optName mismatch)
    | none =>
        match seed with
        | none => .ok ⟨record.ttl / 2 ^ 24, true, extension.cookie⟩
        | some seed =>
            let cookie ← (Cookies.Server.fromOptions (record.data.slice packet) seed).mapError
              .cookie
            .ok ⟨record.ttl / 2 ^ 24, true, cookie⟩

/-- Read the records of one section; `additional` is the one that may hold the
extension record. -/
def readSection (packet : Packet) (seed : Option Client) (additional : Bool) :
    Nat → Nat → Extension → Except Error.Malformed (Extension × Nat)
  | 0, position, extension => .ok (extension, position)
  | left + 1, position, extension => do
      let (record, next) ← lift (Cursor.record .checked packet position)
      if additional ∧ record.kind = kindOpt then
        let extension ← readOpt packet seed position record extension
        readSection packet seed additional left next extension
      else readSection packet seed additional left next extension

/-- The question must be the one that was asked. Returns the offset after it. -/
def readQuestion (packet : Packet) (name : Host.Name) (family : Family.Version) :
    Except Error.Malformed Nat := do
  let (question, position) ← lift (Cursor.name .checked packet headerBytes)
  let (kind, position) ← lift (Cursor.u16 .checked packet position)
  let (cls, position) ← lift (Cursor.u16 .checked packet position)
  match ← lift (compareHost packet question name) with
  | some mismatch => .error (.questionName mismatch)
  | none =>
      if kind ≠ family.kind then .error (.questionKind kind family.kind)
      else if cls ≠ classIn then .error (.questionClass cls classIn)
      else .ok position

def classify {n : Nat} (packet : Packet) (chain : Chain) (records : Records)
    (name : Host.Name) (family : Family.Version) (flags code : Nat) :
    Except Error.Malformed (Reply n) :=
  if flags &&& 0x0200 ≠ 0 then .ok .truncated
  else
    match chain.take with
    | some error => .ok (.malformed error)
    | none =>
        if code = 0 then chain.resolve packet records name family
        else if code = 3 then .ok .nameError
        else if code = 5 then .ok .refused
        else .ok (.server code)

def read {n : Nat} (packet : Packet) (name : Host.Name) (family : Family.Version)
    (seed : Option Client) : Except Error.Malformed (Envelope n) := do
  let (flags, position) ← lift (Cursor.u16 .checked packet 2)
  if flags &&& 0x8000 = 0 ∨ flags &&& 0x7800 ≠ 0 then .error (.flags flags)
  else
    let (query, position) ← lift (Cursor.u16 .checked packet position)
    let (answer, position) ← lift (Cursor.u16 .checked packet position)
    let (auth, position) ← lift (Cursor.u16 .checked packet position)
    let (extra, _) ← lift (Cursor.u16 .checked packet position)
    if query ≠ 1 then .error (.questionCount query 1)
    else
      let position ← readQuestion packet name family
      let (chain, records, position) ← Chain.read packet position answer
      let (extension, position) ← readSection packet seed false auth position ⟨0, false, none⟩
      let (extension, position) ← readSection packet seed true extra position extension
      if position ≠ packet.bytes.length then
        .error (.trailing position (packet.bytes.length - position))
      else
        let code := extension.code * 16 + flags % 16
        let reply ← classify packet chain records name family flags code
        .ok ⟨reply, code, extension.cookie⟩

/-- A reply on the stream transport. -/
def decode {n : Nat} (decoder : Decoder) (name : Host.Name) (family : Family.Version) :
    Except Error.Malformed (Reply n) := do
  let body ← read (n := n) decoder.packet name family none
  .ok body.reply

def udp {n : Nat} (decoder : Decoder) (name : Host.Name) (family : Family.Version)
    (seed : Client) : Except Error.Malformed (Datagram n) := do
  let body ← read decoder.packet name family (some seed)
  match body.serverCookie with
  | none => .ok .streamRequired
  | some cookie =>
      if body.responseCode = badCookieCode then .ok (.badCookie cookie)
      else .ok (.authenticated body.reply cookie)

end Decoder

end Wire

end Dope.Dns
