/-
# `Dolda.Network.Stream` — the bytes of a connection

`tokio`'s `TcpStream` as the code of `src/mailbox_network.rs` and `src/network.rs`
uses it.  On the side that is read there are the bytes still to come, and what
the connection ends with: a read that wants more bytes than come gets that error,
and what did come is gone.  On the side that is written there are the bytes
written, and how many more the connection takes before it fails, if it fails.
-/
import Dolda.Lib.Memory

namespace Dolda.Network

/-- The first `n` bytes of a stream and the rest; `none` if the stream is shorter. -/
def readExact (n : Nat) (stream : List UInt8) : Option (List UInt8 × List UInt8) :=
  if n ≤ stream.length then some (stream.take n, stream.drop n) else none

/-- What is read is the front, as long as asked for. -/
theorem readExact_eq_some_iff {n : Nat} {stream front rest : List UInt8} :
    readExact n stream = some (front, rest) ↔ front.length = n ∧ stream = front ++ rest := by
  simp only [readExact]
  constructor
  · intro h
    split at h
    · rename_i hle
      cases h
      exact ⟨List.length_take_of_le hle, (List.take_append_drop n stream).symm⟩
    · cases h
  · rintro ⟨rfl, rfl⟩
    rw [if_pos (by rw [List.length_append]; omega), List.take_left, List.drop_left]

theorem readExact_append {n : Nat} {front : List UInt8} (h : front.length = n)
    (rest : List UInt8) : readExact n (front ++ rest) = some (front, rest) :=
  readExact_eq_some_iff.mpr ⟨h, rfl⟩

/-- The kinds of `std::io::Error`, of which the code tells one apart. -/
inductive ErrorKind where
  | unexpectedEof
  | other
deriving DecidableEq, Repr

structure IoError where
  kind : ErrorKind
  message : String
deriving DecidableEq, Repr

structure TcpStream where
  /-- The bytes still to come. -/
  incoming : List UInt8
  /-- What a read gets that runs out of them. -/
  incomingEnd : IoError
  /-- The bytes written. -/
  outgoing : List UInt8
  /-- How many more bytes can be written, and what a write gets that runs out of
  room; `none` if there is no end of it. -/
  outgoingEnd : Option (Nat × IoError)
deriving DecidableEq, Repr

namespace TcpStream

def readExact (n : Nat) : EStateM IoError TcpStream (List UInt8) := fun s =>
  match Network.readExact n s.incoming with
  | none => .error s.incomingEnd { s with incoming := [] }
  | some (front, rest) => .ok front { s with incoming := rest }

def writeAll (bytes : List UInt8) : EStateM IoError TcpStream Unit := fun s =>
  match s.outgoingEnd with
  | none => .ok () { s with outgoing := s.outgoing ++ bytes }
  | some (room, e) =>
      let s' := { s with outgoing := s.outgoing ++ bytes.take room
                         outgoingEnd := some (room - bytes.length, e) }
      if bytes.length ≤ room then .ok () s' else .error e s'

section
variable {stream stream' : TcpStream}

/-- What a read takes is the front of what is still to come, and nothing else
changes. -/
theorem readExact_ok {n : Nat} {front : List UInt8} (h : readExact n stream = .ok front stream') :
    front.length = n ∧ stream.incoming = front ++ stream'.incoming ∧
      stream' = { stream with incoming := stream'.incoming } := by
  simp only [readExact] at h
  split at h
  · cases h
  · rename_i front' rest hread
    cases h
    obtain ⟨hlen, happ⟩ := readExact_eq_some_iff.mp hread
    exact ⟨hlen, happ, rfl⟩

/-- A read that fails takes what there is, which is too short. -/
theorem readExact_error {n : Nat} {e : IoError} (h : readExact n stream = .error e stream') :
    stream.incoming.length < n ∧ e = stream.incomingEnd ∧
      stream' = { stream with incoming := [] } := by
  simp only [readExact, Network.readExact] at h
  by_cases hle : n ≤ stream.incoming.length
  · rw [if_pos hle] at h
    cases h
  · rw [if_neg hle] at h
    cases h
    exact ⟨Nat.lt_of_not_le hle, rfl, rfl⟩

theorem writeAll_ok {bytes : List UInt8} (h : writeAll bytes stream = .ok () stream') :
    stream'.incoming = stream.incoming ∧ stream'.incomingEnd = stream.incomingEnd ∧
      stream'.outgoing = stream.outgoing ++ bytes ∧
      stream'.outgoingEnd.map Prod.snd = stream.outgoingEnd.map Prod.snd := by
  simp only [writeAll] at h
  split at h
  · rename_i hend
    cases h
    exact ⟨rfl, rfl, rfl, rfl⟩
  · rename_i room e hend
    split at h
    · rename_i hroom
      cases h
      exact ⟨rfl, rfl, by rw [List.take_of_length_le hroom], by rw [hend]; rfl⟩
    · cases h

/-- A write that fails has written a part. -/
theorem writeAll_error {bytes : List UInt8} {e : IoError}
    (h : writeAll bytes stream = .error e stream') :
    stream.outgoingEnd.map Prod.snd = some e ∧
      ∃ part, part <+: bytes ∧ stream'.outgoing = stream.outgoing ++ part := by
  simp only [writeAll] at h
  split at h
  · cases h
  · rename_i room e' hend
    split at h
    · cases h
    · cases h
      exact ⟨by rw [hend]; rfl, bytes.take room, List.take_prefix room bytes, rfl⟩

end

end TcpStream

end Dolda.Network
