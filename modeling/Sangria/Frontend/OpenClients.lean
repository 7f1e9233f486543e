import Sangria.Coordinator.Transaction
import Sangria.Lib.TransitionSystem

/-!
# The open clients of the frontend

The handlers of the frontend over the table of transactions and the counters of
the keyspaces.  A handler takes the lock of the table, of the counters and of a
transaction in separate sections, and any number of handlers run at a time; a
label runs one of them through its next section.  Of a transaction the frontend
sees its keyspace, its state and whether a call returned an error.
-/

namespace Sangria.Frontend

open FiniteMap
open TransitionSystem
open Coordinator (State)

structure StatsPerKeyspace where
  numOpenClients : Nat
  history : List Nat

def maxSamples : Nat := 100

/-- What `commit` pushes to the history, from which the oldest sample goes. -/
def StatsPerKeyspace.sample (stats : StatsPerKeyspace) : StatsPerKeyspace :=
  let history := stats.history ++ [stats.numOpenClients]
  { stats with history := if maxSamples < history.length then history.tail else history }

structure OpenTransaction where
  keyspace : Keyspace
  state : State

inductive Operation where
  | get
  | put
  | delete
  | abort
  | commit
  deriving DecidableEq

/-- What a call of the transaction may return, with the state it leaves. -/
def Operation.returns (operation : Operation) (before : State) (ok : Bool) (after : State) : Bool :=
  match operation, before, ok with
  | .abort, .aborted, ok => ok && after == .aborted
  | .abort, .running, _ => after == .aborted
  | .commit, .running, true => after == .committed || after == .preparing
  | .commit, .running, false => after != .running
  | _, .running, true => after == .running
  | _, .running, false => after == .running || after == .aborted
  | _, before, ok => !ok && after == before

/-- Where a request stands, by what it does next; the operations are those that are
left, of which `read_modify_write` has several. -/
inductive Phase where
  | starting (keyspace : Keyspace) (operations : List Operation)
  | counting (id : Uuid) (keyspace : Keyspace) (operations : List Operation)
  | looking (id : Uuid) (operations : List Operation)
  | calling (id : Uuid) (operation : Operation) (operations : List Operation)
  | sampling (id : Uuid) (keyspace : Keyspace) (operations : List Operation)
  | committing (id : Uuid) (keyspace : Keyspace) (operations : List Operation)
  | removing (id : Uuid) (committed : Option Keyspace) (operations : List Operation)
  | discounting (id : Uuid) (keyspace : Keyspace) (operations : List Operation)
  | returned (ok : Bool)
  | panicked
  | underflowed

/-- `transactions` are what the entries of the table point to, also after they were removed. -/
structure Server where
  transactions : HashMap Uuid OpenTransaction
  transactionTable : Finset Uuid
  statsPerKeyspace : HashMap Keyspace StatsPerKeyspace
  requests : HashMap Nat Phase

namespace Server

/-- A request has no keyspace or id when it is missing or malformed. -/
inductive Label where
  | startTransaction (request : Nat) (keyspace : Option Keyspace)
  | readModifyWrite (request : Nat) (keyspace : Option Keyspace) (keys : Nat)
  | operate (request : Nat) (operation : Operation) (id : Option Uuid)
  | insert (request : Nat) (id : Uuid)
  | run (request : Nat)
  | call (request : Nat) (ok : Bool) (after : State)

variable (server : Server)

def put (request : Nat) (phase : Phase) : Server :=
  { server with requests := server.requests.insert request phase }

def begin (request : Nat) (phase : Option Phase) : Option Server :=
  if server.requests.find request = none then
    some (server.put request (phase.getD (.returned false)))
  else none

def insertTransaction (request : Nat) (id : Uuid) : Option Server :=
  match server.requests.find request with
  | some (.starting keyspace operations) =>
    if server.transactions.find id = none then
      some
        { server.put request (.counting id keyspace operations) with
          transactions := server.transactions.insert id ⟨keyspace, .running⟩
          transactionTable := insert id server.transactionTable }
    else none
  | _ => none

def count (keyspace : Keyspace) : HashMap Keyspace StatsPerKeyspace :=
  let stats := (server.statsPerKeyspace.find keyspace).getD ⟨0, []⟩
  server.statsPerKeyspace.insert keyspace { stats with numOpenClients := stats.numOpenClients + 1 }

def run (request : Nat) : Phase → Option Server
  | .counting id keyspace operations =>
    some { server.put request (.looking id operations) with
      statsPerKeyspace := server.count keyspace }
  | .looking _ [] => some (server.put request (.returned true))
  | .looking id (operation :: operations) =>
    some (server.put request
      (if id ∈ server.transactionTable then .calling id operation operations
        else .returned false))
  | .calling id .commit operations =>
    (server.transactions.find id).map fun transaction =>
      server.put request (.sampling id transaction.keyspace operations)
  | .sampling id keyspace operations =>
    match server.statsPerKeyspace.find keyspace with
    | none => some (server.put request .panicked)
    | some stats =>
      some { server.put request (.committing id keyspace operations) with
        statsPerKeyspace := server.statsPerKeyspace.insert keyspace stats.sample }
  | .removing id committed operations =>
    some { server.put request (match committed with
        | none => .looking id operations
        | some keyspace => .discounting id keyspace operations) with
      transactionTable := server.transactionTable.erase id }
  | .discounting id keyspace operations =>
    match server.statsPerKeyspace.find keyspace with
    | none => some (server.put request .panicked)
    | some stats =>
      if stats.numOpenClients = 0 then some (server.put request .underflowed)
      else some { server.put request (.looking id operations) with
        statsPerKeyspace := server.statsPerKeyspace.insert keyspace
          { stats with numOpenClients := stats.numOpenClients - 1 } }
  | _ => none

def answer (request : Nat) (id : Uuid) (operation : Operation) (ok : Bool) (after : State)
    (returned : Phase) : Option Server :=
  (server.transactions.find id).bind fun transaction =>
    if operation.returns transaction.state ok after then
      some { server.put request (if ok then returned else .returned false) with
        transactions := server.transactions.insert id { transaction with state := after } }
    else none

def call (request : Nat) (ok : Bool) (after : State) : Phase → Option Server
  | .calling _ .commit _ => none
  | .calling id .abort operations =>
    server.answer request id .abort ok after (.removing id none operations)
  | .calling id operation operations =>
    server.answer request id operation ok after (.looking id operations)
  | .committing id keyspace operations =>
    server.answer request id .commit ok after (.removing id (some keyspace) operations)
  | _ => none

def step : Label → Option Server
  | .startTransaction request keyspace =>
    server.begin request (keyspace.map fun keyspace => .starting keyspace [])
  | .readModifyWrite request keyspace keys =>
    server.begin request (keyspace.map fun keyspace => .starting keyspace
      (List.replicate keys .get ++ List.replicate keys .put ++ [.commit]))
  | .operate request operation id =>
    server.begin request (id.map fun id => .looking id [operation])
  | .insert request id => server.insertTransaction request id
  | .run request => (server.requests.find request).bind (server.run request)
  | .call request ok after => (server.requests.find request).bind (server.call request ok after)

def new : Server := ⟨∅, ∅, ∅, ∅⟩

/-! ## The accounts -/

def keyspaceOf (id : Uuid) : Option Keyspace :=
  (server.transactions.find id).map OpenTransaction.keyspace

def openClients (keyspace : Keyspace) : Nat :=
  (server.statsPerKeyspace.find keyspace).elim 0 StatsPerKeyspace.numOpenClients

end Server

def Phase.isDone : Phase → Bool
  | .returned _ | .panicked | .underflowed => true
  | _ => false

def Phase.counts (id : Uuid) : Phase → Bool
  | .counting counted _ _ => counted == id
  | _ => false

/-- The operation for which the request looks up a transaction. -/
def Phase.looksUp : Phase → Option (Uuid × Operation)
  | .looking id (operation :: _) => some (id, operation)
  | _ => none

namespace Server

variable (server : Server)

def Quiet : Prop :=
  ∀ request ∈ server.requests.keys, ∀ phase ∈ server.requests.find request, phase.isDone = true

instance : Decidable server.Quiet :=
  inferInstanceAs (Decidable (∀ request ∈ server.requests.keys, _))

/-- When no request is in progress the counters are right, and none underflowed. -/
structure Accounted : Prop where
  counted : server.Quiet → ∀ keyspace, server.openClients keyspace =
    (server.transactionTable.filter fun id => server.keyspaceOf id = some keyspace).card
  positive : ∀ request, server.requests.find request ≠ some .underflowed

/-- No `abort` finds its transaction, and no `commit` finds one that is not counted yet. -/
def Countable : Label → Prop
  | .run request => ∀ phase ∈ server.requests.find request, ∀ found ∈ phase.looksUp,
    (found.2 = .abort → found.1 ∉ server.transactionTable) ∧
      (found.2 = .commit → ∀ other ∈ server.requests.keys,
        ∀ phase ∈ server.requests.find other, phase.counts found.1 = false)
  | _ => True

instance (label : Label) : Decidable (server.Countable label) :=
  match label with
  | .run request => inferInstanceAs (Decidable (∀ phase ∈ server.requests.find request, _))
  | .startTransaction .. | .readModifyWrite .. | .operate .. | .insert .. | .call .. =>
    instDecidableTrue

/-! ## The invariant -/

def Running (id : Uuid) : Prop :=
  ∃ transaction, server.transactions.find id = some transaction ∧ transaction.state = .running

end Server

/-- How a transaction is accounted for, and which request is going to change that. -/
inductive Account where
  | unknown
  | entering (request : Nat)
  | counted
  | removing (request : Nat)
  | leaving (request : Nat)
  | closed

namespace Account

def isListed : Account → Bool
  | .entering _ | .counted | .removing _ => true
  | _ => false

def isCounted : Account → Bool
  | .counted | .removing _ | .leaving _ => true
  | _ => false

def holder : Account → Option Nat
  | .entering request | .removing request | .leaving request => some request
  | _ => none

/-- It is known, and no request is going to count it. -/
def isSettled : Account → Bool
  | .unknown | .entering _ => false
  | _ => true

end Account

namespace Phase

/-- The transaction that the request is going to count, to remove or to discount. -/
def holds : Phase → Option Uuid
  | .counting id _ _ | .removing id _ _ | .discounting id _ _ => some id
  | _ => none

def Fits (server : Server) (account : Uuid → Account) (request : Nat) : Phase → Prop
  | .counting id keyspace _ => account id = .entering request ∧
      server.keyspaceOf id = some keyspace
  | .calling id operation _ => operation ≠ .abort ∧
      (operation = .commit → (account id).isSettled = true)
  | .sampling id keyspace _ | .committing id keyspace _ =>
    server.keyspaceOf id = some keyspace ∧ (account id).isSettled = true
  | .removing id committed _ => account id = .removing request ∧ committed ≠ none ∧
      server.keyspaceOf id = committed
  | .discounting id keyspace _ => account id = .leaving request ∧
      server.keyspaceOf id = some keyspace
  | .underflowed => False
  | _ => True

variable {server next : Server} {account account' : Uuid → Account} {request : Nat} {phase : Phase}

theorem holder_of_holds {id : Uuid} (fits : phase.Fits server account request)
    (holds : phase.holds = some id) : (account id).holder = some request := by
  cases phase <;> simp_all [Phase.holds, Phase.Fits, Account.holder]

theorem holds_of_isDone (done : phase.isDone = true) : phase.holds = none := by
  cases phase <;> first | rfl | cases done

theorem Fits.transfer (fits : phase.Fits server account request)
    (keyspaces : ∀ id keyspace, server.keyspaceOf id = some keyspace →
      next.keyspaceOf id = some keyspace)
    (settled : ∀ id, (account id).isSettled = true → (account' id).isSettled = true)
    (held : ∀ id, phase.holds = some id → account' id = account id) :
    phase.Fits next account' request := by
  cases phase with
  | starting | looking | returned | panicked => trivial
  | underflowed => exact fits
  | calling => exact ⟨fits.1, fun commit => settled _ (fits.2 commit)⟩
  | sampling | committing => exact ⟨keyspaces _ _ fits.1, settled _ fits.2⟩
  | counting | discounting => exact ⟨(held _ rfl).trans fits.1, keyspaces _ _ fits.2⟩
  | removing _ committed =>
    obtain ⟨keyspace, rfl⟩ := Option.ne_none_iff_exists'.mp fits.2.1
    exact ⟨(held _ rfl).trans fits.1, fits.2.1, keyspaces _ _ fits.2.2⟩

end Phase

namespace Server

variable {server next : Server} {account account' : Uuid → Account} {counted counted' : Finset Uuid}
variable {request : Nat} {phase : Phase}
variable {id : Uuid} {keyspace : Keyspace} {operations : List Operation}

structure Counted (server : Server) (account : Uuid → Account) (counted : Finset Uuid) : Prop where
  number : ∀ keyspace, server.openClients keyspace =
    (counted.filter fun id => server.keyspaceOf id = some keyspace).card
  member : ∀ id, id ∈ counted ↔ (account id).isCounted = true
  listed : ∀ id, id ∈ server.transactionTable ↔ (account id).isListed = true
  known : ∀ id, account id = .unknown ↔ server.keyspaceOf id = none
  running : ∀ id, server.Running id →
    account id = .counted ∨ ∃ request, account id = .entering request
  held : ∀ id request, (account id).holder = some request → ∃ phase,
    server.requests.find request = some phase ∧ phase.holds = some id
  fits : ∀ request phase, server.requests.find request = some phase →
    phase.Fits server account request

namespace Counted

theorem running_of_returns {operation : Operation} {before : State} {ok : Bool}
    (returns : operation.returns before ok .running = true) : before = .running := by
  cases operation <;> cases before <;> cases ok <;> first | rfl | cases returns

theorem running_of_commit {before after : State}
    (returns : Operation.commit.returns before true after = true) :
    before = .running ∧ after ≠ .running := by
  cases before <;> cases after <;> simp_all [Operation.returns]

theorem keyspaceOf_answered {transaction : OpenTransaction} {after : State}
    (found : server.transactions.find id = some transaction)
    (transactions : next.transactions =
      server.transactions.insert id { transaction with state := after }) :
    next.keyspaceOf = server.keyspaceOf := by
  funext other
  simp only [keyspaceOf, transactions, find_insert]
  split
  next same =>
    rw [same, found]
    rfl
  next => rfl

section

variable (invariant : server.Counted account counted)

include invariant

/-- A request goes on and changes one account, which no other request holds. -/
theorem change {other : Account} (id : Uuid)
    (before : ∀ before ∈ server.requests.find request, ∀ held, before.holds = some held → held = id)
    (requests : next.requests = server.requests.insert request phase)
    (mine : ∀ holder, (account id).holder = some holder → holder = request)
    (settled : (account id).isSettled = true → other.isSettled = true)
    (keyspaces : ∀ id keyspace, server.keyspaceOf id = some keyspace →
      next.keyspaceOf id = some keyspace)
    (elsewhere : ∀ held, held ≠ id → (held ∈ counted' ↔ held ∈ counted) ∧
      (held ∈ next.transactionTable ↔ held ∈ server.transactionTable) ∧
      (next.keyspaceOf held = none ↔ server.keyspaceOf held = none) ∧
      (next.Running held → server.Running held))
    (number : ∀ keyspace, next.openClients keyspace =
      (counted'.filter fun id => next.keyspaceOf id = some keyspace).card)
    (member : id ∈ counted' ↔ other.isCounted = true)
    (listed : id ∈ next.transactionTable ↔ other.isListed = true)
    (known : other = .unknown ↔ next.keyspaceOf id = none)
    (running : next.Running id → other = .counted ∨ ∃ request, other = .entering request)
    (held : ∀ holder, other.holder = some holder → holder = request ∧ phase.holds = some id)
    (fits : phase.Fits next (Function.update account id other) request) :
    next.Counted (Function.update account id other) counted' := by
  have same : Function.update account id other id = other := Function.update_self ..
  have apart : ∀ held, held ≠ id → Function.update account id other held = account held :=
    fun held differs => Function.update_of_ne differs ..
  refine ⟨number, ?_, ?_, ?_, ?_, ?_, ?_⟩
  · grind [invariant.member]
  · grind [invariant.listed]
  · grind [invariant.known]
  · grind [invariant.running]
  · intro other holder holds
    have := invariant.held other holder
    grind [find_insert]
  · intro other found present
    rw [requests] at present
    rcases eq_or_find_of_insert present with ⟨rfl, rfl⟩ | ⟨differs, old⟩
    · exact fits
    · have oldFits := invariant.fits other found old
      refine oldFits.transfer keyspaces ?_ ?_
      · grind
      · intro held holds
        have holder := Phase.holder_of_holds oldFits holds
        refine apart held ?_
        rintro rfl
        exact differs (mine _ holder)

/-- A request that holds no transaction goes on, and the accounts stay. -/
theorem put (free : ∀ before ∈ server.requests.find request, before.holds = none)
    (keyspaces : next.keyspaceOf = server.keyspaceOf)
    (running : ∀ id, next.Running id → server.Running id)
    (table : next.transactionTable = server.transactionTable)
    (clients : next.openClients = server.openClients)
    (requests : next.requests = server.requests.insert request phase)
    (fits : phase.Fits next account request) : next.Counted account counted := by
  refine ⟨?_, invariant.member, ?_, ?_, fun id live => invariant.running id (running id live),
    ?_, ?_⟩
  · rw [clients, keyspaces]
    exact invariant.number
  · rw [table]
    exact invariant.listed
  · rw [keyspaces]
    exact invariant.known
  · intro id holder holds
    obtain ⟨found, present, held⟩ := invariant.held id holder holds
    refine ⟨found, ?_, held⟩
    rw [requests, find_insert_of_ne _ ?_, present]
    rintro rfl
    rw [free found present] at held
    cases held
  · intro other found present
    rw [requests] at present
    rcases eq_or_find_of_insert present with ⟨rfl, rfl⟩ | ⟨_, old⟩
    · exact fits
    · exact (invariant.fits other found old).transfer (fun _ _ owner => keyspaces ▸ owner)
        (fun _ settled => settled) fun _ _ => rfl

theorem inserted (starting : server.requests.find request = some (.starting keyspace operations))
    (unused : server.transactions.find id = none) :
    Counted
      { server.put request (.counting id keyspace operations) with
        transactions := server.transactions.insert id ⟨keyspace, .running⟩
        transactionTable := insert id server.transactionTable }
      (Function.update account id (.entering request)) counted := by
  have fresh : server.keyspaceOf id = none := by
    rw [keyspaceOf, unused]
    rfl
  have unknown := (invariant.known id).mpr fresh
  have uncounted : id ∉ counted := by
    rw [invariant.member, unknown]
    simp [Account.isCounted]
  have apart : ∀ held, held ≠ id →
      find (server.transactions.insert id ⟨keyspace, .running⟩) held =
        server.transactions.find held := fun held differs => find_insert_of_ne _ differs
  refine invariant.change id ?_ rfl ?_ ?_ ?_ ?_ ?_ ?_ ?_ ?_ ?_ ?_ ?_
  · rw [starting]
    rintro _ ⟨⟩ _ ⟨⟩
  · simp [unknown, Account.holder]
  · simp [unknown, Account.isSettled]
  · intro other owner known
    refine known ▸ ?_
    have differs : other ≠ id := by
      rintro rfl
      cases known.symm.trans fresh
    simp only [keyspaceOf, apart other differs]
  · intro other differs
    simp only [keyspaceOf, Running, apart other differs, Finset.mem_insert, differs, false_or]
    exact ⟨trivial, trivial, trivial, fun running => running⟩
  · intro keyspace'
    refine (invariant.number keyspace').trans ?_
    congr 1
    apply Finset.filter_congr
    intro other present
    simp only [keyspaceOf, apart other (ne_of_mem_of_not_mem present uncounted)]
  · simp [uncounted, Account.isCounted]
  · simp [Account.isListed]
  · simp [keyspaceOf, find_insert_self]
  · exact fun _ => .inr ⟨request, rfl⟩
  · rintro _ ⟨⟩
    exact ⟨rfl, rfl⟩
  · exact ⟨Function.update_self .., by simp [keyspaceOf, find_insert_self]⟩

theorem proceed (free : ∀ before ∈ server.requests.find request, before.holds = none)
    (fits : phase.Fits server account request) :
    (server.put request phase).Counted account counted :=
  invariant.put free rfl (fun _ running => running) rfl rfl rfl fits

theorem sampled {stats : StatsPerKeyspace}
    (sampling : server.requests.find request = some (.sampling id keyspace operations))
    (found : server.statsPerKeyspace.find keyspace = some stats) :
    Counted { server.put request (.committing id keyspace operations) with
      statsPerKeyspace := server.statsPerKeyspace.insert keyspace stats.sample }
      account counted := by
  refine invariant.put ?_ rfl (fun _ running => running) rfl ?_ rfl (invariant.fits _ _ sampling :)
  · rw [sampling]
    rintro _ ⟨⟩
    rfl
  · funext keyspace'
    simp only [openClients, find_insert]
    split
    next same =>
      rw [same, found]
      rfl
    next => rfl

/-- A request changes the account of the transaction that it holds. -/
theorem moves {before : Phase} {other : Account}
    (present : server.requests.find request = some before) (holds : before.holds = some id)
    (requests : next.requests = server.requests.insert request phase)
    (transactions : next.transactions = server.transactions)
    (settled : other.isSettled = true) (known : other ≠ .unknown)
    (stops : server.Running id → other = .counted)
    (elsewhere : ∀ held, held ≠ id → (held ∈ counted' ↔ held ∈ counted) ∧
      (held ∈ next.transactionTable ↔ held ∈ server.transactionTable))
    (number : ∀ keyspace, next.openClients keyspace =
      (counted'.filter fun id => server.keyspaceOf id = some keyspace).card)
    (member : id ∈ counted' ↔ other.isCounted = true)
    (listed : id ∈ next.transactionTable ↔ other.isListed = true)
    (held : ∀ holder, other.holder = some holder → holder = request ∧ phase.holds = some id)
    (fits : phase.Fits next (Function.update account id other) request) :
    next.Counted (Function.update account id other) counted' := by
  have keyspaces : next.keyspaceOf = server.keyspaceOf := by
    funext id
    rw [keyspaceOf, keyspaceOf, transactions]
  have holder := Phase.holder_of_holds (invariant.fits request before present) holds
  have owned : server.keyspaceOf id ≠ none := by
    intro none
    rw [(invariant.known id).mpr none] at holder
    cases holder
  refine invariant.change id ?_ requests ?_ (fun _ => settled)
    (fun _ _ owner => keyspaces ▸ owner) ?_ (keyspaces ▸ number) member listed ?_ ?_
    held fits
  · rw [present]
    rintro _ ⟨⟩ other here
    exact Option.some.inj (here.symm.trans holds)
  · rw [holder]
    rintro _ ⟨⟩
    rfl
  · intro other differs
    refine ⟨(elsewhere other differs).1, (elsewhere other differs).2, by rw [keyspaces], ?_⟩
    rw [Running, Running, transactions]
    exact fun running => running
  · rw [keyspaces]
    exact ⟨fun unknown => absurd unknown known, fun none => absurd none owned⟩
  · rw [Running, transactions]
    exact fun running => .inl (stops running)

theorem counts (counting : server.requests.find request = some (.counting id keyspace operations)) :
    Counted { server.put request (.looking id operations) with
      statsPerKeyspace := server.count keyspace }
      (Function.update account id .counted) (insert id counted) := by
  obtain ⟨entering, owner⟩ := invariant.fits _ _ counting
  have uncounted : id ∉ counted := by
    rw [invariant.member, entering]
    simp [Account.isCounted]
  refine invariant.moves counting rfl rfl rfl rfl (by simp) (fun _ => rfl) ?_ ?_
    (by simp [Account.isCounted]) ?_ (fun _ holds => by cases holds) trivial
  · intro other differs
    exact ⟨by rw [Finset.mem_insert, or_iff_right differs], Iff.rfl⟩
  · intro keyspace'
    have old := invariant.number keyspace'
    rw [Finset.filter_insert]
    simp only [openClients, Server.count, find_insert] at old ⊢
    by_cases same : keyspace' = keyspace
    · subst same
      rw [if_pos rfl, if_pos owner, Finset.card_insert_of_notMem (by simp [uncounted]), ← old]
      cases server.statsPerKeyspace.find keyspace' <;> rfl
    · rw [if_neg same, if_neg (by simp [owner, Ne.symm same]), ← old]
  · refine (invariant.listed id).trans ?_
    rw [entering]
    rfl

theorem removes (removing : server.requests.find request =
      some (.removing id (some keyspace) operations)) :
    Counted { server.put request (.discounting id keyspace operations) with
      transactionTable := server.transactionTable.erase id }
      (Function.update account id (.leaving request)) counted := by
  obtain ⟨own, _, owner⟩ := invariant.fits _ _ removing
  refine invariant.moves removing rfl rfl rfl rfl (by simp) ?_ ?_ invariant.number ?_
    (by simp [Account.isListed]) ?_ ⟨Function.update_self .., owner⟩
  · intro running
    have live := invariant.running id running
    simp [own] at live
  · intro other differs
    exact ⟨Iff.rfl, by rw [Finset.mem_erase, and_iff_right differs]⟩
  · rw [invariant.member, own]
    rfl
  · rintro _ ⟨⟩
    exact ⟨rfl, rfl⟩

theorem discounts {stats : StatsPerKeyspace}
    (discounting : server.requests.find request = some (.discounting id keyspace operations))
    (found : server.statsPerKeyspace.find keyspace = some stats) :
    Counted { server.put request (.looking id operations) with
      statsPerKeyspace := server.statsPerKeyspace.insert keyspace
        { stats with numOpenClients := stats.numOpenClients - 1 } }
      (Function.update account id .closed) (counted.erase id) := by
  obtain ⟨own, owner⟩ := invariant.fits _ _ discounting
  have known : id ∈ counted := by
    rw [invariant.member, own]
    rfl
  refine invariant.moves discounting rfl rfl rfl rfl (by simp) ?_ ?_ ?_
    (by simp [Account.isCounted]) ?_ (fun _ holds => by cases holds) trivial
  · intro running
    have live := invariant.running id running
    simp [own] at live
  · intro other differs
    exact ⟨by rw [Finset.mem_erase, and_iff_right differs], Iff.rfl⟩
  · intro keyspace'
    have old := invariant.number keyspace'
    rw [Finset.filter_erase]
    simp only [openClients, find_insert] at old ⊢
    by_cases same : keyspace' = keyspace
    · subst same
      rw [found] at old
      rw [if_pos rfl, Finset.card_erase_of_mem (Finset.mem_filter.mpr ⟨known, owner⟩), ← old]
      rfl
    · rw [if_neg same, Finset.erase_eq_of_notMem (by simp [owner, Ne.symm same]), ← old]
  · refine (invariant.listed id).trans ?_
    rw [own]
    rfl

theorem positive
    (discounting : server.requests.find request = some (.discounting id keyspace operations)) :
    0 < server.openClients keyspace := by
  obtain ⟨own, owner⟩ := invariant.fits _ _ discounting
  rw [invariant.number]
  refine Finset.card_pos.mpr ⟨id, Finset.mem_filter.mpr ⟨?_, owner⟩⟩
  rw [invariant.member, own]
  rfl

theorem answered {operation : Operation} {ok : Bool}
    {after : State} {returned : Phase}
    (free : ∀ before ∈ server.requests.find request, before.holds = none)
    (taken : server.answer request id operation ok after returned = some next)
    (fits : ok = true → returned.Fits next account request) : next.Counted account counted := by
  obtain ⟨transaction, found, answer⟩ := Option.bind_eq_some_iff.mp taken
  split at answer
  next returns =>
    cases answer
    refine invariant.put free (keyspaceOf_answered found rfl) ?_ rfl rfl rfl ?_
    · rintro other ⟨changed, known, running⟩
      rcases eq_or_find_of_insert known with ⟨rfl, rfl⟩ | ⟨_, old⟩
      · change after = _ at running
        exact ⟨transaction, found, running_of_returns (running ▸ returns)⟩
      · exact ⟨changed, old, running⟩
    · cases ok with
      | true => exact fits rfl
      | false => trivial
  next => cases answer

/-- The commit returned, so that the transaction was running, and therefore counted. -/
theorem committed {after : State}
    (committing : server.requests.find request = some (.committing id keyspace operations))
    (taken : server.answer request id .commit true after
      (.removing id (some keyspace) operations) = some next) :
    next.Counted (Function.update account id (.removing request)) counted := by
  obtain ⟨owner, settled⟩ := invariant.fits _ _ committing
  obtain ⟨transaction, found, answer⟩ := Option.bind_eq_some_iff.mp taken
  split at answer
  next returns =>
    obtain ⟨ran, stops⟩ := running_of_commit returns
    have known : account id = .counted := by
      rcases invariant.running id ⟨transaction, found, ran⟩ with known | ⟨other, entering⟩
      · exact known
      · rw [entering] at settled
        cases settled
    have keyspaces : next.keyspaceOf = server.keyspaceOf := by
      cases answer
      exact keyspaceOf_answered found rfl
    cases answer
    refine invariant.change id ?_ rfl ?_ (fun _ => rfl) (fun _ _ owner => keyspaces ▸ owner) ?_ ?_
      ?_ ?_ ?_ ?_ ?_ ⟨Function.update_self .., by simp, keyspaces ▸ owner⟩
    · rw [committing]
      rintro _ ⟨⟩ _ ⟨⟩
    · rw [known]
      rintro _ ⟨⟩
    · intro other differs
      refine ⟨Iff.rfl, Iff.rfl, by rw [keyspaces], ?_⟩
      rintro ⟨changed, here, running⟩
      rw [find_insert_of_ne _ differs] at here
      exact ⟨changed, here, running⟩
    · rw [keyspaces]
      exact invariant.number
    · rw [invariant.member, known]
      rfl
    · refine (invariant.listed id).trans ?_
      rw [known]
      rfl
    · rw [keyspaces, owner]
      simp
    · rintro ⟨changed, here, still⟩
      simp only [find_insert_self] at here
      cases here
      exact absurd still stops
    · rintro _ ⟨⟩
      exact ⟨rfl, rfl⟩
  next => cases answer

/-- A listed transaction that no request is going to count is settled. -/
theorem settled_of_listed (inside : id ∈ server.transactionTable)
    (uncounted : ∀ request phase, server.requests.find request = some phase →
      phase.counts id = false) : (account id).isSettled = true := by
  have listed := (invariant.listed id).mp inside
  cases own : account id with
  | unknown => simp [own, Account.isListed] at listed
  | entering request =>
    obtain ⟨phase, present, holds⟩ := invariant.held id request (by rw [own]; rfl)
    have fits := invariant.fits request phase present
    have counts := uncounted request phase present
    cases phase <;> simp_all [Phase.holds, Phase.Fits, Phase.counts]
  | counted | removing | leaving | closed => rfl

theorem called {ok : Bool} {after : State}
    (present : server.requests.find request = some phase)
    (taken : server.call request ok after phase = some next) :
    ∃ account, next.Counted account counted := by
  unfold Server.call at taken
  split at taken
  next => cases taken
  next => exact absurd rfl (invariant.fits _ _ present).1
  next =>
    refine ⟨account, invariant.answered ?_ taken fun _ => trivial⟩
    rw [present]
    rintro _ ⟨⟩
    rfl
  next =>
    cases ok with
    | true => exact ⟨_, invariant.committed present taken⟩
    | false =>
      refine ⟨account, invariant.answered ?_ taken fun ok => by cases ok⟩
      rw [present]
      rintro _ ⟨⟩
      rfl
  next => cases taken

theorem ran (countable : server.Countable (.run request))
    (present : server.requests.find request = some phase)
    (taken : server.run request phase = some next) :
    ∃ account counted, next.Counted account counted := by
  have free (idle : phase.holds = none) :
      ∀ before ∈ server.requests.find request, before.holds = none := by
    rw [present]
    rintro _ ⟨⟩
    exact idle
  unfold Server.run at taken
  split at taken
  next =>
    cases taken
    exact ⟨_, _, invariant.counts present⟩
  next =>
    cases taken
    exact ⟨account, counted, invariant.proceed (free rfl) trivial⟩
  next id operation operations =>
    cases taken
    refine ⟨account, counted, ?_⟩
    split
    next inside =>
      have found := countable _ present (id, operation) rfl
      refine invariant.proceed (free rfl) ⟨fun abort => found.1 abort inside, fun commit => ?_⟩
      refine invariant.settled_of_listed inside fun other phase known => ?_
      exact found.2 commit other (mem_keys.mpr ⟨phase, known⟩) phase known
    next => exact invariant.proceed (free rfl) trivial
  next =>
    obtain ⟨transaction, found, rfl⟩ := Option.map_eq_some_iff.mp taken
    refine ⟨account, counted, invariant.proceed (free rfl) ⟨?_, (invariant.fits _ _ present).2 rfl⟩⟩
    rw [keyspaceOf, found]
    rfl
  next =>
    split at taken
    next =>
      cases taken
      exact ⟨account, counted, invariant.proceed (free rfl) trivial⟩
    next found =>
      cases taken
      exact ⟨account, counted, invariant.sampled present found⟩
  next id committed operations =>
    cases taken
    cases committed with
    | none => exact absurd rfl (invariant.fits _ _ present).2.1
    | some keyspace => exact ⟨_, counted, invariant.removes present⟩
  next id keyspace operations =>
    have positive := invariant.positive present
    rw [openClients] at positive
    split at taken
    next missing => simp [missing] at positive
    next found =>
      rw [found] at positive
      split at taken
      next zero => exact absurd zero (Nat.pos_iff_ne_zero.mp positive)
      next =>
        cases taken
        exact ⟨_, _, invariant.discounts present found⟩
  next => cases taken

theorem begun {first : Option Phase}
    (taken : server.begin request first = some next)
    (harmless : ∀ phase ∈ first, phase.Fits server account request) :
    next.Counted account counted := by
  unfold Server.begin at taken
  split at taken
  next unused =>
    cases taken
    have free : ∀ before ∈ server.requests.find request, before.holds = none := by
      rw [unused]
      rintro _ ⟨⟩
    cases first with
    | none => exact invariant.proceed free trivial
    | some phase => exact invariant.proceed free (harmless phase rfl)
  next => cases taken

/-- A request that holds a transaction is in progress, so no account is between two others. -/
theorem accounted : server.Accounted := by
  refine ⟨?_, fun request present => invariant.fits request _ present⟩
  intro quiet keyspace
  have idle : ∀ id, (account id).holder = none := by
    intro id
    by_contra held
    obtain ⟨request, holds⟩ := Option.ne_none_iff_exists'.mp held
    obtain ⟨phase, present, holding⟩ := invariant.held id request holds
    have done := quiet request (mem_keys.mpr ⟨phase, present⟩) phase present
    rw [Phase.holds_of_isDone done] at holding
    cases holding
  have same : counted = server.transactionTable := by
    ext id
    rw [invariant.member, invariant.listed]
    have none := idle id
    cases own : account id <;> simp_all [Account.isCounted, Account.isListed, Account.holder]
  rw [invariant.number, same]

end

theorem step (server next : Server) (label : Label)
    (invariant : ∃ account counted, server.Counted account counted)
    (countable : server.Countable label) (taken : server.step label = some next) :
    ∃ account counted, next.Counted account counted := by
  obtain ⟨account, counted, invariant⟩ := invariant
  cases label with
  | startTransaction | readModifyWrite | operate =>
    refine ⟨account, counted, invariant.begun taken ?_⟩
    intro phase first
    obtain ⟨_, _, rfl⟩ := Option.map_eq_some_iff.mp first
    trivial
  | insert request id =>
    simp only [Server.step, insertTransaction] at taken
    split at taken
    next starting =>
      split at taken
      next unused =>
        cases taken
        exact ⟨_, counted, invariant.inserted starting unused⟩
      next => cases taken
    next => cases taken
  | run =>
    obtain ⟨phase, present, ran⟩ := Option.bind_eq_some_iff.mp taken
    exact invariant.ran countable present ran
  | call =>
    obtain ⟨phase, present, called⟩ := Option.bind_eq_some_iff.mp taken
    obtain ⟨account, kept⟩ := invariant.called present called
    exact ⟨account, counted, kept⟩

end Counted

/-- In a run without such aborts and commits the counters are right. -/
theorem open_clients_accounted (server : Server)
    (reached : Reachable step Countable (· = new) server) : server.Accounted := by
  have counted : ∃ account counted, server.Counted account counted := by
    refine @Reachable.invariant _ _ step Countable (· = new)
      (fun server => ∃ account counted, server.Counted account counted) ?_ Counted.step _ reached
    rintro _ rfl
    refine ⟨fun _ => .unknown, ∅, fun _ => rfl, ?_, ?_, fun _ => ⟨fun _ => rfl, fun _ => rfl⟩,
      ?_, ?_, ?_⟩
    · simp [Account.isCounted]
    · simp [Account.isListed, new]
    · rintro id ⟨transaction, found, _⟩
      cases found
    · rintro id request ⟨⟩
    · intro request phase present
      cases present
  obtain ⟨_, _, invariant⟩ := counted
  exact invariant.accounted

def exampleKeyspace : Keyspace := ⟨"s", "k"⟩

def starts (request : Nat) (id : Uuid) : List Label :=
  [.startTransaction request (some exampleKeyspace), .insert request id, .run request, .run request]

/-- Two commits of one transaction, of which the second one fails, while another one stays open. -/
theorem open_clients_accounted_commits : ∃ server : Server,
    Reachable step Countable (· = new) server ∧ server.Quiet ∧
    server.openClients exampleKeyspace = 1 ∧ server.Accounted := by
  obtain ⟨server, reached, passed⟩ := @exists_reachable_of_run _ _ step Countable (· = new) _ _ rfl
    (starts 0 1 ++ starts 1 2 ++
      [.operate 2 .commit (some 1), .operate 3 .commit (some 1), .run 2, .run 3, .run 2, .run 3,
        .run 2, .run 3, .call 2 true .preparing, .call 3 false .preparing, .run 2, .run 2, .run 2])
    (fun server => decide (server.Quiet ∧ server.openClients exampleKeyspace = 1))
    (by decide +kernel)
  obtain ⟨quiet, one⟩ := of_decide_eq_true passed
  exact ⟨server, reached, quiet, one, open_clients_accounted server reached⟩

/-- An aborted transaction stays counted. -/
theorem aborted_stays_counted : ∃ server : Server,
    Reachable step (fun _ _ => True) (· = new) server ∧ server.Quiet ∧
      server.transactionTable = ∅ ∧ server.openClients exampleKeyspace = 1 := by
  obtain ⟨server, reached, passed⟩ := @exists_reachable_of_run _ _ step (fun _ _ => True) (· = new)
    _ _ rfl (starts 0 1 ++
      [.operate 1 .abort (some 1), .run 1, .call 1 true .aborted, .run 1, .run 1])
    (fun server => decide (server.Quiet ∧ server.transactionTable = ∅ ∧
      server.openClients exampleKeyspace = 1)) (by decide +kernel)
  exact ⟨server, reached, of_decide_eq_true passed⟩

end Server

end Sangria.Frontend
