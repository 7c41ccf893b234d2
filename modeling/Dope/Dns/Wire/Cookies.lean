import Dope.Dns.Wire.Packet

/-! # Cookies

Model of `wire/cookies.rs`: the client value of a request, the server value of
a reply, and the reader of an option list. Only the first cookie option of a
list counts, and it must repeat the client value.
-/

namespace Dope.Dns

inductive Error.Cookie where
  | capacity
  | packet (error : Error.Packet)
  | clientLength (actual required : Nat)
  | client (actual expected : Nat)
  | serverLength (actual minimum maximum : Nat)
deriving DecidableEq, Repr

namespace Wire.Cookies

open Run

def clientBytes : Nat := 8

def minServerBytes : Nat := 8

def maxServerBytes : Nat := 32

def optionCode : Nat := 10

structure Client where
  value : Nat
deriving DecidableEq, Repr

structure Server where
  bytes : Bytes
  minimum : minServerBytes ≤ bytes.length
  maximum : bytes.length ≤ maxServerBytes
deriving DecidableEq, Repr

/-- The server value of a cookie option that repeats `expected`. -/
def Server.fromOption (data : Bytes) (expected : Client) : Except Error.Cookie Server :=
  if data.length < clientBytes then .error (.clientLength data.length clientBytes)
  else if beBytes (data.take clientBytes) ≠ expected.value then
    .error (.client (beBytes (data.take clientBytes)) expected.value)
  else if short : (data.drop clientBytes).length < minServerBytes then
    .error (.serverLength (data.drop clientBytes).length minServerBytes maxServerBytes)
  else if long : maxServerBytes < (data.drop clientBytes).length then .error .capacity
  else .ok ⟨data.drop clientBytes, Nat.le_of_not_lt short, Nat.le_of_not_lt long⟩

def lift {α : Type} (value : Except Error.Packet α) : Except Error.Cookie α :=
  value.mapError .packet

/-- An option takes at least four bytes, so the length of the list is fuel
enough for the loop to end by its own condition. -/
def Server.fromOptionsAt (packet : Packet) (expected : Client) :
    Nat → Nat → Option Server → Except Error.Cookie (Option Server)
  | 0, _, cookie => .ok cookie
  | fuel + 1, position, cookie =>
      if position < packet.bytes.length then do
        let (code, position) ← lift (Cursor.u16 .checked packet position)
        let (length, position) ← lift (Cursor.u16 .checked packet position)
        let read ← lift (Wire.bytes packet position length)
        if code ≠ optionCode ∨ cookie.isSome then
          fromOptionsAt packet expected fuel read.stop cookie
        else
          let server ← Server.fromOption read.bytes expected
          fromOptionsAt packet expected fuel read.stop (some server)
      else .ok cookie

def Server.fromOptions (options : Bytes) (expected : Client) :
    Except Error.Cookie (Option Server) := do
  let packet ← lift (Packet.tryNew options)
  fromOptionsAt packet expected options.length 0 none

/-! ## What an option list carries -/

/-- `data` belongs to the first option with the given code. -/
inductive FirstOption (code : Nat) (data : Bytes) : Bytes → Prop where
  | here {head rest : Bytes} : head.length = 4 → beBytes (head.take 2) = code →
      beBytes (head.drop 2) = data.length → FirstOption code data (head ++ data ++ rest)
  | there {head other rest : Bytes} : head.length = 4 → beBytes (head.take 2) ≠ code →
      beBytes (head.drop 2) = other.length → FirstOption code data rest →
      FirstOption code data (head ++ other ++ rest)

/-- The option list carries the client value. -/
def Carries (client : Client) (options : Bytes) : Prop :=
  ∃ data, FirstOption optionCode data options ∧ clientBytes ≤ data.length ∧
    beBytes (data.take clientBytes) = client.value

theorem lift_ok {α : Type} {value : Except Error.Packet α} {result : α} :
    lift value = .ok result ↔ value = .ok result := by
  cases value with
  | error | ok => simp [lift, Except.mapError]

variable {expected : Client} {server : Server}

theorem fromOption_carries {data : Bytes} (h : Server.fromOption data expected = .ok server) :
    clientBytes ≤ data.length ∧ beBytes (data.take clientBytes) = expected.value := by
  unfold Server.fromOption at h
  split at h
  · simp at h
  · rename_i long
    split at h
    · simp at h
    · rename_i same
      exact ⟨Nat.le_of_not_lt long, Decidable.not_not.mp same⟩

/-- An option at `position` splits the rest of the list. -/
theorem drop_option (packet : Packet) (position length : Nat) :
    packet.bytes.drop position =
      slice packet position 4 ++ slice packet (position + 4) length ++
        packet.bytes.drop (position + 4 + length) := by
  unfold slice
  rw [List.append_assoc, ← List.drop_drop (i := length), List.take_append_drop,
    ← List.drop_drop, List.take_append_drop]

theorem fromOptionsAt_carries {packet : Packet} {fuel position : Nat}
    (h : Server.fromOptionsAt packet expected fuel position none = .ok (some server)) :
    Carries expected (packet.bytes.drop position) := by
  induction fuel generalizing position with
  | zero => simp [Server.fromOptionsAt] at h
  | succ fuel ih =>
    unfold Server.fromOptionsAt at h
    split at h
    · obtain ⟨code, readCode, h⟩ := bind_ok.mp h
      obtain ⟨-, rfl⟩ := u16_ok (lift_ok.mp readCode)
      obtain ⟨length, readLength, h⟩ := bind_ok.mp h
      obtain ⟨-, rfl⟩ := u16_ok (lift_ok.mp readLength)
      obtain ⟨read, readData, h⟩ := bind_ok.mp h
      obtain ⟨inside, rfl⟩ := bytes_ok (lift_ok.mp readData)
      dsimp only at h inside
      have split := drop_option packet position (beBytes (slice packet (position + 2) 2))
      have headLength : (slice packet position 4).length = 4 := by
        simp only [slice, List.length_take, List.length_drop]
        omega
      have headCode : (slice packet position 4).take 2 = slice packet position 2 := by
        simp [slice, List.take_take]
      have headData : (slice packet position 4).drop 2 = slice packet (position + 2) 2 := by
        simp [slice, List.drop_take, List.drop_drop]
      have dataLength : (slice packet (position + 4)
          (beBytes (slice packet (position + 2) 2))).length =
          beBytes (slice packet (position + 2) 2) := by
        generalize beBytes (slice packet (position + 2) 2) = size at inside ⊢
        simp only [slice, List.length_take, List.length_drop]
        omega
      split at h
      · rename_i skipped
        obtain ⟨data, first, long, same⟩ := ih h
        refine ⟨data, ?_, long, same⟩
        rw [split]
        refine .there headLength ?_ ?_ first
        · rw [headCode]
          simpa using skipped
        · rw [headData, dataLength]
      · rename_i skipped
        obtain ⟨found, read, -⟩ := bind_ok.mp h
        obtain ⟨long, same⟩ := fromOption_carries read
        refine ⟨_, ?_, long, same⟩
        rw [split]
        refine .here headLength ?_ ?_
        · rw [headCode]
          simpa using skipped
        · rw [headData, dataLength]
    · simp at h

/-- A server value is accepted only from options that carry the client value. -/
theorem fromOptions_carries {options : Bytes}
    (h : Server.fromOptions options expected = .ok (some server)) : Carries expected options := by
  unfold Server.fromOptions at h
  obtain ⟨packet, opened, h⟩ := bind_ok.mp h
  have same : packet.bytes = options := by
    have opened := lift_ok.mp opened
    unfold Packet.tryNew at opened
    split at opened
    · cases opened
      rfl
    · simp at opened
  have carried := fromOptionsAt_carries h
  rw [same, List.drop_zero] at carried
  exact carried

end Wire.Cookies

end Dope.Dns
