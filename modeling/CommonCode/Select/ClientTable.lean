import CommonCode.Select.Registration

/-!
# The client table

The entries of `client`, `client_port` and `client_ip` over whole runs of the
servers, with restarts of the outer loop.  Other than `allset`, the table
survives a restart: its connections stay open, so their descriptors are not
given away, and the slots in use are the first ones.

The history that the table has to agree with is recorded beside the state: for
every descriptor what `accept` reported when it last returned it.
-/

namespace CommonCode.Select

open CommonCode.Lib.Transition

/-! ## The history -/

/-- The connection that the round accepts. -/
def State.accepts (state : State) (input : Round) : Option Peer :=
  match input.ready with
  | none => none
  | some ready => if state.sockfd ∈ ready then input.accepted else none

/-- A state and the last report about each descriptor. -/
structure Logged where
  state : State
  reported : Int → Option Peer

/-- A round, with the report of a connection that it accepts. -/
def LoggedStep (program : Program) (before : Logged) (input : Round)
    (after : Logged) : Prop :=
  Step program before.state input after.state ∧
    after.reported =
      match before.state.accepts input with
      | none => before.reported
      | some peer => Function.update before.reported peer.fd (some peer)

/-- The first start of the inner loop. -/
def Logged.start (sockfd : Int) (descriptors : Finset Int) : Logged where
  state := State.start sockfd descriptors
  reported := fun _ => none

/-! ## The invariant -/

/--
The connections in the table are open and different from each other and from
the listening socket; their ports and addresses are those of the last report.
The slots that have been used are exactly those up to `maxi`.
-/
structure ClientTable (logged : Logged) : Prop where
  listening :
    3 ≤ logged.state.sockfd ∧ logged.state.sockfd ∈ logged.state.descriptors
  distinct :
    ∀ i j, 0 < logged.state.client i →
      logged.state.client i = logged.state.client j → i = j
  connected :
    ∀ i, 0 < logged.state.client i →
      logged.state.client i ∈ logged.state.descriptors ∧
        logged.state.client i ≠ logged.state.sockfd
  reported :
    ∀ i, 0 < logged.state.client i →
      logged.reported (logged.state.client i) =
        some ⟨logged.state.client i, logged.state.clientPort i,
          logged.state.clientIp i⟩
  assigned :
    ∀ i : Fin slots, (i.val : Int) ≤ logged.state.maxi →
      logged.state.client i ≠ 0
  unused :
    ∀ i : Fin slots, logged.state.maxi < (i.val : Int) →
      logged.state.client i = 0

theorem clientTable_start {sockfd : Int} (positive : 3 ≤ sockfd)
    (descriptors : Finset Int) :
    ClientTable (Logged.start sockfd descriptors) where
  listening := (tracked_start positive descriptors).listening
  distinct := (tracked_start positive descriptors).distinct
  connected := (tracked_start positive descriptors).connected
  reported i nonzero := absurd nonzero (lt_irrefl 0)
  assigned i below := by
    have first : (i.val : Int) ≤ -1 := below
    omega
  unused i _ := rfl

/-! ## What one branch preserves -/

section Branches

variable {state : State} {reported : Int → Option Peer}

/-- The table is as in a state that watches all its connections. -/
theorem ClientTable.tracked (table : ClientTable ⟨state, reported⟩) :
    Tracked
      { state with allset := insert state.sockfd state.connections } where
  registered := rfl
  listening := table.listening
  distinct := table.distinct
  connected := table.connected

theorem ClientTable.opened (table : ClientTable ⟨state, reported⟩)
    {descriptors : Finset Int} (more : state.descriptors ⊆ descriptors) :
    ClientTable ⟨{ state with descriptors := descriptors }, reported⟩ where
  listening := (table.tracked.opened more).listening
  distinct := table.distinct
  connected := (table.tracked.opened more).connected
  reported := table.reported
  assigned := table.assigned
  unused := table.unused

/-- A report about a descriptor that no slot holds. -/
theorem ClientTable.report (table : ClientTable ⟨state, reported⟩)
    {peer : Peer}
    (new : ∀ j, 0 < state.client j → state.client j ≠ peer.fd) :
    ClientTable
      ⟨state, Function.update reported peer.fd (some peer)⟩ where
  listening := table.listening
  distinct := table.distinct
  connected := table.connected
  reported i nonzero := by
    have apart : state.client i ≠ peer.fd := new i nonzero
    exact (Function.update_of_ne apart ..).trans (table.reported i nonzero)
  assigned := table.assigned
  unused := table.unused

/-- The free slot is the first one. -/
theorem client_pos_of_lt_freeSlot {i j : Fin slots}
    (free : state.freeSlot = some i) (before : j < i) :
    0 < state.client j := by
  rw [State.freeSlot, List.find?_eq_some_iff_getElem] at free
  rcases free with ⟨-, position, inside, found, earlier⟩
  have place : i.val = position := by
    rw [← found, List.getElem_finRange]
    rfl
  have held := earlier j.val (by rw [← place]; exact before)
  rw [List.getElem_finRange] at held
  simpa using held

/-- A new connection in the first free slot. -/
theorem ClientTable.register (table : ClientTable ⟨state, reported⟩)
    {peer : Peer} {i : Fin slots} (large : 3 ≤ peer.fd)
    (new : ∀ j, 0 < state.client j → state.client j ≠ peer.fd)
    (apart : peer.fd ≠ state.sockfd)
    (opened : peer.fd ∈ state.descriptors)
    (free : state.freeSlot = some i) :
    ClientTable
      ⟨state.register peer i,
        Function.update reported peer.fd (some peer)⟩ := by
  have tracked : Tracked _ := table.tracked.register (by omega) new apart
    opened (freeSlot_eq_some free)
  refine ⟨tracked.listening, tracked.distinct, tracked.connected,
    ?_, ?_, ?_⟩
  · intro j nonzero
    by_cases same : j = i
    · subst same
      simp [State.register]
    · have held : (state.register peer i).client j = state.client j :=
        register_client_of_ne same
      have positive : 0 < state.client j := held ▸ nonzero
      have kept : Function.update reported peer.fd (some peer)
          (state.client j) = reported (state.client j) :=
        Function.update_of_ne (new j positive) ..
      simp only [kept, State.register, Function.update_of_ne same]
      exact table.reported j positive
  · intro j below
    by_cases same : j = i
    · subst same
      have entry : (state.register peer j).client j = peer.fd :=
        register_client_self
      dsimp only
      omega
    · have held : (state.register peer i).client j = state.client j :=
        register_client_of_ne same
      dsimp only
      rw [held]
      rcases lt_or_ge j i with before | after
      · have positive := client_pos_of_lt_freeSlot free before
        omega
      · apply table.assigned j
        have bound : (i.val : Int) ≤ j.val := by exact_mod_cast after
        have strict : (i.val : Int) ≠ j.val := fun equal =>
          same (Fin.ext (by exact_mod_cast equal.symm))
        dsimp only [State.register] at below ⊢
        split at below <;> omega
  · intro j above
    have bounds : state.maxi < (j.val : Int) ∧ (i.val : Int) < j.val := by
      dsimp only [State.register] at above
      split at above <;> omega
    have other : j ≠ i := by
      rintro rfl
      omega
    have held : (state.register peer i).client j = state.client j :=
      register_client_of_ne other
    exact held.trans (table.unused j bounds.1)

/-- A connection that is closed. -/
theorem ClientTable.disconnect (table : ClientTable ⟨state, reported⟩)
    {i : Fin slots} (positive : 0 < state.client i)
    (used : (i.val : Int) ≤ state.maxi) :
    ClientTable ⟨state.disconnect i, reported⟩ := by
  have tracked : Tracked _ := table.tracked.disconnect positive
  refine ⟨tracked.listening, tracked.distinct, tracked.connected,
    ?_, ?_, ?_⟩
  · intro j nonzero
    have other := ne_of_disconnect_client_pos nonzero
    have held : (state.disconnect i).client j = state.client j :=
      disconnect_client_of_ne other
    simp only [State.disconnect, Function.update_of_ne other]
    exact table.reported j (held ▸ nonzero)
  · intro j below
    by_cases same : j = i
    · subst same
      have entry : (state.disconnect j).client j = -1 :=
        disconnect_client_self
      dsimp only
      omega
    · have held : (state.disconnect i).client j = state.client j :=
        disconnect_client_of_ne same
      exact held ▸ table.assigned j below
  · intro j above
    have other : j ≠ i := by
      rintro rfl
      have bound : state.maxi < (j.val : Int) := above
      omega
    have held : (state.disconnect i).client j = state.client j :=
      disconnect_client_of_ne other
    exact held.trans (table.unused j above)

theorem mem_visited {i : Fin slots} :
    i ∈ state.visited ↔ (i.val : Int) ≤ state.maxi := by
  simp [State.visited]

/-- The loop over the slots. -/
theorem ClientTable.receiveAll (table : ClientTable ⟨state, reported⟩)
    {ready : Finset Int} {received : Fin slots → Received} {nready : Int}
    {after : State}
    (result :
      receiveAll ready received state.visited nready state = some after) :
    ClientTable ⟨after, reported⟩ := by
  have kept : ClientTable ⟨after, reported⟩ ∧ after.maxi = state.maxi := by
    refine @receiveAll_preserves
      (fun other => ClientTable ⟨other, reported⟩ ∧ other.maxi = state.maxi)
      ready received state.visited ?_ ?_ nready state after result
      ⟨table, rfl⟩
    · rintro i visited other ⟨table, same⟩ nonnegative -
      have used : (i.val : Int) ≤ other.maxi := by
        rw [same]
        exact mem_visited.mp visited
      have nonzero : other.client i ≠ 0 := table.assigned i used
      exact ⟨table.disconnect (by omega) used, same⟩
    · rintro other more ⟨table, same⟩
      exact ⟨table.opened Finset.subset_union_left, same⟩
  exact kept.1

/-- The way through the outer loop. -/
theorem ClientTable.restart (table : ClientTable ⟨state, reported⟩)
    {listening : Option Int}
    (free : ∀ fd, listening = some fd →
      3 ≤ fd ∧ fd ∉ state.descriptors.erase state.sockfd)
    {after : State} (result : state.restart listening = some after) :
    ClientTable ⟨after, reported⟩ := by
  rw [State.restart, Option.map_eq_some_iff] at result
  rcases result with ⟨sockfd, found, rfl⟩
  rcases free sockfd found with ⟨large, fresh⟩
  refine ⟨⟨large, Finset.mem_insert_self ..⟩, table.distinct, ?_,
    table.reported, table.assigned, table.unused⟩
  intro i nonzero
  have old := table.connected i nonzero
  have held : state.client i ∈ state.descriptors.erase state.sockfd :=
    Finset.mem_erase.mpr ⟨old.2, old.1⟩
  refine ⟨Finset.mem_insert_of_mem held, ?_⟩
  intro same
  have value : state.client i = sockfd := same
  exact fresh (value ▸ held)

end Branches

/-! ## Rounds -/

section Rounds

variable {program : Program} {state : State} {reported : Int → Option Peer}
variable {input : Round} {peer : Peer}

/-- An accepted descriptor is in no slot. -/
theorem ClientTable.new (table : ClientTable ⟨state, reported⟩)
    (permitted : Permitted program state input)
    (accept : input.accepted = some peer) (j : Fin slots)
    (nonzero : 0 < state.client j) : state.client j ≠ peer.fd := by
  rcases permitted.accepted peer accept with ⟨-, fresh⟩
  exact fun same => fresh (same ▸ (table.connected j nonzero).1)

/-- An accepted connection for which there is a slot. -/
theorem ClientTable.accept (table : ClientTable ⟨state, reported⟩)
    (permitted : Permitted program state input)
    (accept : input.accepted = some peer) {i : Fin slots}
    (slot : state.freeSlot = some i) :
    ClientTable
      ⟨State.register
        { state with descriptors := insert peer.fd state.descriptors } peer i,
        Function.update reported peer.fd (some peer)⟩ := by
  rcases permitted.accepted peer accept with ⟨large, fresh⟩
  have apart : peer.fd ≠ state.sockfd := fun same =>
    fresh (same ▸ table.listening.2)
  have opened :=
    table.opened (Finset.subset_insert peer.fd state.descriptors)
  exact opened.register large (table.new permitted accept) apart
    (Finset.mem_insert_self ..) slot

end Rounds

/-- One round. -/
theorem ClientTable.step {program : Program} {before after : Logged}
    {input : Round} (taken : LoggedStep program before input after)
    (table : ClientTable before) : ClientTable after := by
  rcases before with ⟨before, reported⟩
  rcases after with ⟨after, reports⟩
  rcases taken with ⟨⟨permitted, result⟩, record⟩
  dsimp only at permitted result record
  have free (fd : Int) (found : input.listening = some fd) :
      3 ≤ fd ∧ fd ∉ before.descriptors.erase before.sockfd :=
    ⟨(permitted.listening fd found).1, (permitted.listening fd found).2.1⟩
  rw [State.round] at result
  rw [State.accepts] at record
  cases selected : input.ready with
  | none =>
      rw [selected] at result record
      rw [record]
      exact table.restart free result
  | some ready =>
      rw [selected] at result record
      dsimp only at result record
      by_cases inside : before.sockfd ∈ ready
      · rw [if_pos inside] at result record
        cases accept : input.accepted with
        | none =>
            rw [accept] at result record
            rw [record]
            exact table.restart free result
        | some peer =>
            rw [accept] at result record
            dsimp only at result record
            rw [record]
            cases slot : before.freeSlot with
            | none =>
                have full : State.freeSlot
                    { before with
                      descriptors := insert peer.fd before.descriptors } =
                    none := slot
                have opened := table.opened
                  (Finset.subset_insert peer.fd before.descriptors)
                rw [full] at result
                refine (opened.report
                  (table.new permitted accept)).restart ?_ result
                intro fd found
                refine ⟨(free fd found).1, ?_⟩
                have other :=
                  (permitted.listening fd found).2.2 peer accept
                rw [Finset.mem_erase, Finset.mem_insert]
                rintro ⟨distinct, same | old⟩
                · exact other same
                · exact (free fd found).2
                    (Finset.mem_erase.mpr ⟨distinct, old⟩)
            | some i =>
                have first : State.freeSlot
                    { before with
                      descriptors := insert peer.fd before.descriptors } =
                    some i := slot
                rw [first] at result
                have registered := table.accept permitted accept slot
                dsimp only at result
                split at result
                · cases result
                  exact registered
                · exact registered.receiveAll result
      · rw [if_neg inside] at result record
        rw [record]
        exact table.receiveAll result

/-! ## Tested descriptors -/

/-- The descriptors that the loop over the slots tests and reads. -/
def tested (ready : Finset Int) (received : Fin slots → Received) :
    List (Fin slots) → Int → State → List Int
  | [], _, _ => []
  | i :: rest, nready, state =>
      if state.client i < 0 then tested ready received rest nready state
      else if state.client i ∈ ready then
        state.client i ::
          match received i with
          | .failed => []
          | .closed =>
              if nready - 1 = 0 then []
              else
                tested ready received rest (nready - 1) (state.disconnect i)
          | .data outcome opened =>
              let state :=
                { state with descriptors := state.descriptors ∪ opened }
              match outcome with
              | .done =>
                  if nready - 1 = 0 then []
                  else tested ready received rest (nready - 1) state
              | .next => tested ready received rest nready state
              | .leave => []
              | .exit => []
      else state.client i :: tested ready received rest nready state

/-- The descriptors that a round tests and reads in the table. -/
def State.tested (state : State) (input : Round) : List Int :=
  match input.ready with
  | none => []
  | some ready =>
      if state.sockfd ∈ ready then
        match input.accepted, state.freeSlot with
        | some peer, some i =>
            let state :=
              State.register
                { state with
                  descriptors := insert peer.fd state.descriptors } peer i
            let nready := (ready.card : Int) - 1
            if nready = 0 then []
            else
              Select.tested ready input.received state.visited nready state
        | _, _ => []
      else
        Select.tested ready input.received state.visited ready.card state

theorem zero_notMem_tested {ready : Finset Int}
    {received : Fin slots → Received} {rest : List (Fin slots)}
    {nready : Int} {state : State}
    (assigned : ∀ i ∈ rest, state.client i ≠ 0) :
    0 ∉ tested ready received rest nready state := by
  induction rest generalizing nready state with
  | nil => exact List.not_mem_nil
  | cons i rest induction =>
      have first := assigned i (List.mem_cons_self ..)
      have later : ∀ j ∈ rest, state.client j ≠ 0 := fun j member =>
        assigned j (List.mem_cons_of_mem _ member)
      have closed : ∀ j ∈ rest, (state.disconnect i).client j ≠ 0 := by
        intro j member
        by_cases same : j = i
        · rw [same, disconnect_client_self]
          omega
        · rw [disconnect_client_of_ne same]
          exact later j member
      rw [tested]
      split
      · exact induction later
      · split
        · rw [List.mem_cons, not_or]
          refine ⟨first.symm, ?_⟩
          cases received i with
          | failed => exact List.not_mem_nil
          | closed =>
              dsimp only
              split
              · exact List.not_mem_nil
              · exact induction closed
          | data outcome opened =>
              cases outcome with
              | done =>
                  dsimp only
                  split
                  · exact List.not_mem_nil
                  · exact induction later
              | next => exact induction later
              | leave => exact List.not_mem_nil
              | exit => exact List.not_mem_nil
        · rw [List.mem_cons, not_or]
          exact ⟨first.symm, induction later⟩

/-- A round never tests or reads the descriptor of an unused slot. -/
theorem ClientTable.zero_notMem_tested {program : Program} {logged : Logged}
    {input : Round} (table : ClientTable logged)
    (permitted : Permitted program logged.state input) :
    0 ∉ logged.state.tested input := by
  rcases logged with ⟨state, reported⟩
  rw [State.tested]
  cases selected : input.ready with
  | none => exact List.not_mem_nil
  | some ready =>
      dsimp only
      split
      · cases accept : input.accepted with
        | none => exact List.not_mem_nil
        | some peer =>
            cases slot : state.freeSlot with
            | none => exact List.not_mem_nil
            | some i =>
                have registered := table.accept permitted accept slot
                dsimp only
                split
                · exact List.not_mem_nil
                · exact Select.zero_notMem_tested fun i visited =>
                    registered.assigned i (mem_visited.mp visited)
      · exact Select.zero_notMem_tested fun i visited =>
          table.assigned i (mem_visited.mp visited)

/-! ## Runs -/

/--
For every run of the three servers, with any restarts: the table invariant
holds in every state that is reached, and no round from there tests or reads
descriptor 0 in the table.
-/
theorem clientTable_of_run (program : Program) {sockfd : Int}
    (positive : 3 ≤ sockfd) (descriptors : Finset Int)
    {rounds : List Round} {last : Logged}
    (run : Run (LoggedStep program) (Logged.start sockfd descriptors) rounds
      last) :
    ClientTable last ∧
      ∀ input, Permitted program last.state input →
        0 ∉ last.state.tested input := by
  have table : ClientTable last :=
    run.invariant ClientTable.step (clientTable_start positive descriptors)
  exact ⟨table, fun input permitted => table.zero_notMem_tested permitted⟩

/-- A connection is accepted, and `select` fails. -/
theorem clientTable_of_run_restart :
    ∃ last,
      Run (LoggedStep .httpAnlyse) (Logged.start 3 {0, 1, 2})
        [connect, selectFails] last ∧
      ClientTable last ∧
      ∀ input, Permitted .httpAnlyse last.state input →
        0 ∉ last.state.tested input := by
  let reported : Int → Option Peer :=
    Function.update (fun _ => none) 4
      (some ⟨4, 50000, List.replicate 16 0⟩)
  let restarted : State :=
    State.listenOn
      { connected with
        descriptors := connected.descriptors.erase connected.sockfd } 3
  have accepted : LoggedStep .httpAnlyse (Logged.start 3 {0, 1, 2}) connect
      ⟨connected, reported⟩ :=
    ⟨connect_step .httpAnlyse, rfl⟩
  have failed : LoggedStep .httpAnlyse ⟨connected, reported⟩ selectFails
      ⟨restarted, reported⟩ :=
    ⟨selectFails_step .httpAnlyse rfl, rfl⟩
  have run := Run.cons accepted (Run.cons failed (Run.nil _))
  exact ⟨_, run, clientTable_of_run .httpAnlyse (by decide) {0, 1, 2} run⟩

end CommonCode.Select
