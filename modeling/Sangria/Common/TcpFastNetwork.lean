import Sangria.Common.Types

/-!
# Messages over TCP

`TcpFastNetwork` writes a payload to a new connection and waits for the response;
the receiving side takes what one `read` returns for the message, and hands it to
the listener that is registered for the address of the sender, or else to the
default handler.
-/

namespace Sangria

universe u v

variable {α : Type u} [DecidableEq α] {ε : Type v}

def TcpFastNetwork.bufferSize : Nat := 65535

open TcpFastNetwork (bufferSize)

/-- What the reads of a connection return when nothing else is sent: the payload in
parts that are not empty and fit into the buffer. -/
structure Fragments (payload : Bytes) (reads : List Bytes) : Prop where
  whole : reads.flatten = payload
  nonempty : [] ∉ reads
  fits : ∀ part ∈ reads, part.length ≤ bufferSize

theorem fragments_iff {payload : Bytes} {reads : List Bytes} : Fragments payload reads ↔
    reads.flatten = payload ∧ ∀ part ∈ reads, part ≠ [] ∧ part.length ≤ bufferSize := by
  constructor
  · intro fragments
    refine ⟨fragments.whole, fun part listed => ⟨?_, fragments.fits part listed⟩⟩
    rintro rfl
    exact fragments.nonempty listed
  · rintro ⟨whole, parts⟩
    exact ⟨whole, fun listed => (parts [] listed).1 rfl, fun part listed => (parts part listed).2⟩

instance (payload : Bytes) (reads : List Bytes) : Decidable (Fragments payload reads) :=
  decidable_of_iff' _ fragments_iff

/-- The receivers with the messages that were sent to them. -/
structure TcpFastNetwork (α : Type u) where
  connections : HashMap α (List Bytes)
  defaultHandler : Option (List Bytes)

namespace TcpFastNetwork

variable {network : TcpFastNetwork α} {addr : α}

/-- The messages of the handler that is responsible for the address. -/
def received (network : TcpFastNetwork α) (addr : α) : Option (List Bytes) :=
  match network.connections.find addr with
  | some messages => some messages
  | none => network.defaultHandler

def hand (network : TcpFastNetwork α) (addr : α) (message : Bytes) : TcpFastNetwork α :=
  match network.connections.find addr with
  | some messages =>
    { network with connections := network.connections.insert addr (messages ++ [message]) }
  | none =>
    { network with defaultHandler := network.defaultHandler.map fun messages =>
        messages ++ [message] }

/-- `handle_connection` until it waits for the response; it waits for the first read
while there is nothing to read. -/
def handleConnection (network : TcpFastNetwork α) (addr : α) :
    List Bytes → Option (TcpFastNetwork α)
  | [] => none
  | message :: _ => some (network.hand addr message)

theorem received_hand {earlier : List Bytes} (handled : network.received addr = some earlier)
    (message : Bytes) :
    (network.hand addr message).received addr = some (earlier ++ [message]) := by
  unfold received at handled
  unfold hand
  cases found : network.connections.find addr with
  | some messages =>
    simp only [found] at handled ⊢
    cases handled
    simp [received, FiniteMap.find_insert_self]
  | none =>
    simp only [found] at handled ⊢
    simp [received, found, handled]

theorem eq_of_flatten_eq {first : Bytes} {rest : List Bytes} (nonempty : [] ∉ rest)
    (same : first = (first :: rest).flatten) : rest = [] := by
  cases rest with
  | nil => rfl
  | cons second rest =>
    rw [List.flatten_cons] at same
    have none := List.self_eq_append_right.mp same
    rw [List.flatten_cons, List.append_eq_nil_iff] at none
    exact absurd (none.1 ▸ List.mem_cons_self) nonempty

/-- The payload is handed over exactly when the first read returns all of it, and an
envelope is then decoded from its own bytes. -/
theorem handled_whole_iff (network : TcpFastNetwork α) (addr : α) (earlier : List Bytes)
    (payload : Bytes) (reads : List Bytes) (handled : network.received addr = some earlier)
    (fragments : Fragments payload reads) :
    ((∃ next, network.handleConnection addr reads = some next ∧
        next.received addr = some (earlier ++ [payload])) ↔ reads.length = 1) ∧
      ∀ (encode : ε → Bytes) (decode : Bytes → Option ε) (envelope : ε),
        (∀ envelope, decode (encode envelope) = some envelope) → encode envelope = payload →
        reads.length = 1 → ∃ message next, network.handleConnection addr reads = some next ∧
          next.received addr = some (earlier ++ [message]) ∧ decode message = some envelope := by
  obtain ⟨rfl, nonempty, _⟩ := fragments
  constructor
  · match reads with
    | [] => simp [handleConnection]
    | first :: rest =>
      simp only [handleConnection, Option.some.injEq, exists_eq_left', received_hand handled]
      simp only [List.append_cancel_left_eq, List.cons.injEq, and_true, List.length_cons,
        Nat.add_eq_right, List.length_eq_zero_iff]
      constructor
      · exact eq_of_flatten_eq fun present => nonempty (List.mem_cons_of_mem _ present)
      · rintro rfl
        simp
  · intro encode decode envelope lawful encoded one
    obtain ⟨message, rfl⟩ := List.length_eq_one_iff.mp one
    refine ⟨message, _, rfl, received_hand handled message, ?_⟩
    rw [← lawful envelope, encoded]
    simp

theorem handled_whole_registered : ∃ next : TcpFastNetwork Nat,
    handleConnection ⟨∅, some []⟩ 4 [[1, 2]] = some next ∧
      next.received 4 = some ([] ++ [[1, 2]]) := by
  obtain ⟨next, ran, handed⟩ := (@handled_whole_iff Nat _ Bytes ⟨∅, some []⟩ 4 [] [1, 2] [[1, 2]]
    rfl (by decide)).1.mpr rfl
  exact ⟨next, ran, handed⟩

/-- Two bytes that arrive one by one, and any payload that is longer than the buffer. -/
theorem handled_truncated :
    (Fragments [1, 2] [[1], [2]] ∧
      ((TcpFastNetwork.mk (∅ : HashMap Nat _) (some [])).handleConnection 4 [[1], [2]]).map
        (received · 4) = some (some [[1]])) ∧
    ∀ reads, Fragments (List.replicate (bufferSize + 1) 0) reads → ∀ next,
      (TcpFastNetwork.mk (∅ : HashMap Nat _) (some [])).handleConnection 4 reads = some next →
        next.received 4 ≠ some [List.replicate (bufferSize + 1) 0] := by
  refine ⟨⟨by decide, by decide⟩, ?_⟩
  intro reads fragments next ran
  match reads with
  | [] => cases ran
  | message :: rest =>
    cases ran
    have short := fragments.fits message List.mem_cons_self
    rw [@received_hand Nat _ _ 4 [] rfl]
    intro same
    simp only [List.nil_append, Option.some.injEq, List.cons.injEq, and_true] at same
    rw [same, List.length_replicate] at short
    omega

end TcpFastNetwork

end Sangria
