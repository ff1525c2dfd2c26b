import CommonCode.Select.Loop

/-!
# The watched set and the client table

`allset` should consist of the listening socket and the connections in the
client table.  Every branch of the inner loop keeps it so; the way through the
outer loop rebuilds `allset` from the listening socket alone and keeps the
table, so there it holds only if the table has no connections.
-/

namespace CommonCode.Select

open CommonCode.Lib.Transition

/-! ## The invariant -/

/-- The connections that hold a slot: the positive entries of `client`. -/
def State.connections (state : State) : Finset Int :=
  (Finset.univ.image state.client).filter fun fd => 0 < fd

/-- `allset` is the listening socket together with the connections. -/
def State.Registered (state : State) : Prop :=
  state.allset = insert state.sockfd state.connections

theorem mem_connections {state : State} {fd : Int} :
    fd ∈ state.connections ↔ 0 < fd ∧ ∃ i, state.client i = fd := by
  simp [State.connections, and_comm]

/-- The registration together with what keeps it. -/
structure Tracked (state : State) : Prop where
  registered : state.Registered
  listening : 3 ≤ state.sockfd ∧ state.sockfd ∈ state.descriptors
  distinct :
    ∀ i j, 0 < state.client i → state.client i = state.client j → i = j
  connected :
    ∀ i, 0 < state.client i →
      state.client i ∈ state.descriptors ∧ state.client i ≠ state.sockfd

theorem tracked_start {sockfd : Int} (positive : 3 ≤ sockfd)
    (descriptors : Finset Int) :
    Tracked (State.start sockfd descriptors) where
  registered := by
    have none : (State.start sockfd descriptors).connections = ∅ := by
      ext fd
      rw [mem_connections]
      simp only [State.start, State.listenOn, Finset.notMem_empty, iff_false]
      rintro ⟨nonzero, i, rfl⟩
      exact absurd nonzero (lt_irrefl 0)
    rw [State.Registered, none]
    rfl
  listening := ⟨positive, Finset.mem_insert_self ..⟩
  distinct i j nonzero _ := absurd nonzero (lt_irrefl 0)
  connected i nonzero := absurd nonzero (lt_irrefl 0)

/-- Only positive descriptors are watched. -/
theorem Tracked.pos_of_mem {state : State} (tracked : Tracked state)
    {fd : Int} (watched : fd ∈ state.allset) : 0 < fd := by
  rw [tracked.registered, Finset.mem_insert, mem_connections] at watched
  rcases watched with rfl | ⟨positive, -⟩
  · have bound := tracked.listening.1
    omega
  · exact positive

/-! ## What one branch preserves -/

/-- Opening further descriptors changes nothing. -/
theorem Tracked.opened {state : State} (tracked : Tracked state)
    {descriptors : Finset Int} (more : state.descriptors ⊆ descriptors) :
    Tracked { state with descriptors := descriptors } where
  registered := tracked.registered
  listening := ⟨tracked.listening.1, more tracked.listening.2⟩
  distinct := tracked.distinct
  connected i positive :=
    ⟨more (tracked.connected i positive).1, (tracked.connected i positive).2⟩

theorem freeSlot_eq_some {state : State} {i : Fin slots}
    (free : state.freeSlot = some i) : state.client i ≤ 0 := by
  have found := List.find?_some free
  simpa using found

section Slots

variable {state : State} {peer : Peer} {i j : Fin slots}

@[simp]
theorem register_client_self : (state.register peer i).client i = peer.fd :=
  Function.update_self ..

theorem register_client_of_ne (apart : j ≠ i) :
    (state.register peer i).client j = state.client j :=
  Function.update_of_ne apart ..

@[simp]
theorem disconnect_client_self : (state.disconnect i).client i = -1 :=
  Function.update_self ..

theorem disconnect_client_of_ne (apart : j ≠ i) :
    (state.disconnect i).client j = state.client j :=
  Function.update_of_ne apart ..

/-- A slot that holds a connection after a disconnection is another one. -/
theorem ne_of_disconnect_client_pos
    (positive : 0 < (state.disconnect i).client j) : j ≠ i := by
  rintro rfl
  rw [disconnect_client_self] at positive
  omega

theorem connections_register (positive : 0 < peer.fd)
    (free : state.client i ≤ 0) :
    (state.register peer i).connections =
      insert peer.fd state.connections := by
  ext fd
  rw [Finset.mem_insert, mem_connections, mem_connections]
  constructor
  · rintro ⟨nonzero, j, rfl⟩
    by_cases same : j = i
    · rw [same, register_client_self]
      exact Or.inl rfl
    · rw [register_client_of_ne same] at nonzero ⊢
      exact Or.inr ⟨nonzero, j, rfl⟩
  · rintro (rfl | ⟨nonzero, j, rfl⟩)
    · exact ⟨positive, i, register_client_self⟩
    · have apart : j ≠ i := by
        rintro rfl
        exact absurd nonzero (not_lt.mpr free)
      exact ⟨nonzero, j, register_client_of_ne apart⟩

theorem connections_disconnect (tracked : Tracked state)
    (positive : 0 < state.client i) :
    (state.disconnect i).connections =
      state.connections.erase (state.client i) := by
  ext fd
  rw [Finset.mem_erase, mem_connections, mem_connections]
  constructor
  · rintro ⟨nonzero, j, rfl⟩
    have other := ne_of_disconnect_client_pos nonzero
    rw [disconnect_client_of_ne other] at nonzero ⊢
    exact
      ⟨fun equal => other (tracked.distinct j i nonzero equal), nonzero, j,
        rfl⟩
  · rintro ⟨apart, nonzero, j, rfl⟩
    have other : j ≠ i := by
      rintro rfl
      exact apart rfl
    exact ⟨nonzero, j, disconnect_client_of_ne other⟩

/-- A new connection in a free slot. -/
theorem Tracked.register (tracked : Tracked state)
    (positive : 0 < peer.fd)
    (new : ∀ j, 0 < state.client j → state.client j ≠ peer.fd)
    (apart : peer.fd ≠ state.sockfd)
    (opened : peer.fd ∈ state.descriptors)
    (free : state.client i ≤ 0) :
    Tracked (state.register peer i) where
  registered := by
    rw [State.Registered, connections_register positive free]
    change insert peer.fd state.allset = insert state.sockfd _
    rw [tracked.registered, Finset.insert_comm]
  listening := tracked.listening
  distinct j k nonzero equal := by
    by_cases first : j = i
    · by_cases second : k = i
      · rw [first, second]
      · rw [first, register_client_self, register_client_of_ne second]
          at equal
        exact absurd equal.symm (new k (equal ▸ positive))
    · rw [register_client_of_ne first] at nonzero equal
      by_cases second : k = i
      · rw [second, register_client_self] at equal
        exact absurd equal (new j nonzero)
      · rw [register_client_of_ne second] at equal
        exact tracked.distinct j k nonzero equal
  connected j nonzero := by
    by_cases same : j = i
    · rw [same, register_client_self]
      exact ⟨opened, apart⟩
    · rw [register_client_of_ne same] at nonzero ⊢
      exact tracked.connected j nonzero

/-- A connection that is closed. -/
theorem Tracked.disconnect (tracked : Tracked state)
    (positive : 0 < state.client i) :
    Tracked (state.disconnect i) where
  registered := by
    have apart : state.sockfd ≠ state.client i :=
      (tracked.connected i positive).2.symm
    rw [State.Registered, connections_disconnect tracked positive]
    change state.allset.erase (state.client i) = insert state.sockfd _
    rw [tracked.registered, Finset.erase_insert_of_ne apart]
  listening :=
    ⟨tracked.listening.1,
      Finset.mem_erase.mpr
        ⟨(tracked.connected i positive).2.symm, tracked.listening.2⟩⟩
  distinct j k nonzero equal := by
    have first := ne_of_disconnect_client_pos nonzero
    have second := ne_of_disconnect_client_pos (equal ▸ nonzero)
    rw [disconnect_client_of_ne first] at nonzero equal
    rw [disconnect_client_of_ne second] at equal
    exact tracked.distinct j k nonzero equal
  connected j nonzero := by
    have other := ne_of_disconnect_client_pos nonzero
    rw [disconnect_client_of_ne other] at nonzero ⊢
    obtain ⟨opened, apart⟩ := tracked.connected j nonzero
    refine ⟨Finset.mem_erase.mpr ⟨?_, opened⟩, apart⟩
    exact fun equal => other (tracked.distinct j i nonzero equal)

end Slots

/--
The loop over the slots keeps what closing a ready connection and opening
further descriptors keep.
-/
theorem receiveAll_preserves {Kept : State → Prop} {ready : Finset Int}
    {received : Fin slots → Received} {rest : List (Fin slots)}
    (disconnect : ∀ i ∈ rest, ∀ state, Kept state → ¬ state.client i < 0 →
      state.client i ∈ ready → Kept (state.disconnect i))
    (opened : ∀ state more, Kept state →
      Kept { state with descriptors := state.descriptors ∪ more })
    {nready : Int} {before after : State}
    (result : receiveAll ready received rest nready before = some after)
    (kept : Kept before) :
    Kept after := by
  induction rest generalizing nready before with
  | nil =>
      cases result
      exact kept
  | cons i rest induction =>
      have later := @induction fun j member =>
        disconnect j (List.mem_cons_of_mem _ member)
      rw [Select.receiveAll] at result
      split at result
      · exact later result kept
      · next nonnegative =>
          split at result
          · next inside =>
              cases event : received i with
              | failed =>
                  simp only [event] at result
                  cases result
              | closed =>
                  simp only [event] at result
                  have closed := disconnect i (List.mem_cons_self ..) before
                    kept nonnegative inside
                  split at result
                  · cases result
                    exact closed
                  · exact later result closed
              | data outcome more =>
                  simp only [event] at result
                  have larger := opened before more kept
                  cases outcome with
                  | done =>
                      simp only at result
                      split at result
                      · cases result
                        exact larger
                      · exact later result larger
                  | next => exact later result larger
                  | leave =>
                      cases result
                      exact larger
                  | exit => cases result
          · exact later result kept

/-- The loop over the slots, from any point on. -/
theorem Tracked.receiveAll {ready : Finset Int}
    {received : Fin slots → Received}
    (positive : ∀ fd ∈ ready, 0 < fd) {rest : List (Fin slots)}
    {nready : Int} {before after : State} (tracked : Tracked before)
    (result : receiveAll ready received rest nready before = some after) :
    Tracked after := by
  refine receiveAll_preserves ?_ ?_ result tracked
  · intro i _ state kept _ inside
    exact kept.disconnect (positive _ inside)
  · intro state more kept
    exact kept.opened Finset.subset_union_left

/-! ## Restarts -/

/-- The round leaves the inner loop. -/
def Restarts (state : State) (input : Round) : Prop :=
  input.ready = none ∨
    ∃ ready, input.ready = some ready ∧ state.sockfd ∈ ready ∧
      (input.accepted = none ∨ state.freeSlot = none)

/-- If the round leaves the inner loop, no connection holds a slot. -/
def IdleRestart (state : State) (input : Round) : Prop :=
  Restarts state input → ∀ i, state.client i ≤ 0

/-- A round that leaves the inner loop keeps the table and nothing else. -/
theorem round_of_restarts {before after : State} {input : Round}
    (restarts : Restarts before input)
    (result : before.round input = some after) :
    ∃ sockfd, input.listening = some sockfd ∧
      after.sockfd = sockfd ∧ after.client = before.client ∧
      after.allset = {sockfd} ∧ sockfd ∈ after.descriptors := by
  have restarted (state : State)
      (result : state.restart input.listening = some after) :
      ∃ sockfd, input.listening = some sockfd ∧
        after.sockfd = sockfd ∧ after.client = state.client ∧
        after.allset = {sockfd} ∧ sockfd ∈ after.descriptors := by
    rw [State.restart, Option.map_eq_some_iff] at result
    obtain ⟨sockfd, listening, rfl⟩ := result
    exact ⟨sockfd, listening, rfl, rfl, rfl, Finset.mem_insert_self ..⟩
  rw [State.round] at result
  rcases restarts with failed | ⟨ready, selected, inside, failed⟩
  · rw [failed] at result
    exact restarted before result
  · rw [selected] at result
    simp only [if_pos inside] at result
    cases accept : input.accepted with
    | none =>
        rw [accept] at result
        exact restarted before result
    | some peer =>
        rw [accept] at result
        rcases failed with none | full
        · rw [accept] at none
          cases none
        · have stillFull :
              State.freeSlot
                { before with
                  descriptors := insert peer.fd before.descriptors } =
                none := full
          simp only [stillFull] at result
          obtain ⟨sockfd, listening, restart⟩ := restarted _ result
          exact ⟨sockfd, listening, restart⟩

/-- A round that stays in the inner loop keeps the invariant. -/
theorem Tracked.round {program : Program} {before after : State}
    {input : Round} (tracked : Tracked before)
    (permitted : Permitted program before input)
    (stays : ¬ Restarts before input)
    (result : before.round input = some after) :
    Tracked after := by
  rw [State.round] at result
  cases selected : input.ready with
  | none => exact absurd (Or.inl selected) stays
  | some ready =>
      have positive : ∀ fd ∈ ready, 0 < fd := fun fd member =>
        tracked.pos_of_mem (permitted.ready ready selected member)
      rw [selected] at result
      dsimp only at result
      by_cases inside : before.sockfd ∈ ready
      · rw [if_pos inside] at result
        cases accept : input.accepted with
        | none =>
            exact absurd (Or.inr ⟨ready, selected, inside, Or.inl accept⟩)
              stays
        | some peer =>
            obtain ⟨large, fresh⟩ := permitted.accepted peer accept
            cases free : before.freeSlot with
            | none =>
                exact absurd
                  (Or.inr ⟨ready, selected, inside, Or.inr free⟩) stays
            | some i =>
                have opened :=
                  tracked.opened (Finset.subset_insert peer.fd _)
                have registered : Tracked (State.register
                    { before with
                      descriptors := insert peer.fd before.descriptors }
                    peer i) := by
                  refine opened.register (by omega) ?_ ?_
                    (Finset.mem_insert_self ..) (freeSlot_eq_some free)
                  · intro j nonzero same
                    exact fresh (same ▸ (tracked.connected j nonzero).1)
                  · intro same
                    exact fresh (same ▸ tracked.listening.2)
                have stillFree :
                    State.freeSlot
                      { before with
                        descriptors := insert peer.fd before.descriptors } =
                      some i := free
                rw [accept] at result
                simp only [stillFree] at result
                split at result
                · cases result
                  exact registered
                · exact registered.receiveAll positive result
      · rw [if_neg inside] at result
        exact tracked.receiveAll positive result

/-- A restart of a server without connections. -/
theorem tracked_of_idle {program : Program} {before after : State}
    {input : Round} (permitted : Permitted program before input)
    (restarts : Restarts before input)
    (idle : ∀ i, before.client i ≤ 0)
    (result : before.round input = some after) :
    Tracked after := by
  obtain ⟨sockfd, listening, socket, client, allset, opened⟩ :=
    round_of_restarts restarts result
  have empty (i : Fin slots) : ¬ 0 < after.client i := by
    rw [client]
    exact not_lt.mpr (idle i)
  have none : after.connections = ∅ := by
    ext fd
    rw [mem_connections]
    simp only [Finset.notMem_empty, iff_false]
    rintro ⟨nonzero, i, rfl⟩
    exact empty i nonzero
  refine ⟨?_, ?_, ?_, ?_⟩
  · rw [State.Registered, allset, none, socket]
    rfl
  · rw [socket]
    exact ⟨(permitted.listening sockfd listening).1, opened⟩
  · intro i j nonzero
    exact absurd nonzero (empty i)
  · intro i nonzero
    exact absurd nonzero (empty i)

/-- A restart with a connection in the table stops watching it. -/
theorem not_registered_of_restart {program : Program}
    {before after : State} {input : Round} (tracked : Tracked before)
    (permitted : Permitted program before input)
    (restarts : Restarts before input)
    {i : Fin slots} (connection : 0 < before.client i)
    (result : before.round input = some after) :
    ¬ after.Registered := by
  obtain ⟨sockfd, listening, socket, client, allset, -⟩ :=
    round_of_restarts restarts result
  obtain ⟨-, fresh, -⟩ := permitted.listening sockfd listening
  obtain ⟨opened, apart⟩ := tracked.connected i connection
  intro registered
  have held : before.client i ∈ after.connections :=
    mem_connections.mpr ⟨connection, i, by rw [client]⟩
  have watched : before.client i ∈ after.allset := by
    rw [registered]
    exact Finset.mem_insert_of_mem held
  rw [allset, Finset.mem_singleton] at watched
  exact fresh (watched ▸ Finset.mem_erase.mpr ⟨apart, opened⟩)

/-! ## Runs -/

/--
For every run of the three servers: each time the loop is about to call
`select`, `allset` consists of the listening socket and the positive entries of
`client`, exactly if the inner loop is left only while no connection holds a
slot.
-/
theorem registered_throughout_iff
    (program : Program) {sockfd : Int} (positive : 3 ≤ sockfd)
    (descriptors : Finset Int) {rounds : List Round} {last : State}
    (run :
      Run (Step program) (State.start sockfd descriptors) rounds last) :
    (∀ count state,
      Run (Step program) (State.start sockfd descriptors)
          (rounds.take count) state →
        state.Registered) ↔
      Run (Under IdleRestart (Step program))
        (State.start sockfd descriptors) rounds last := by
  refine run.forall_iff_under ?_ Tracked.registered ?_ ?_
    (tracked_start positive descriptors)
  · rintro before input after other ⟨-, first⟩ ⟨-, second⟩
    rw [first] at second
    exact Option.some.inj second
  · rintro before input after tracked ⟨permitted, result⟩ idle
    by_cases restarts : Restarts before input
    · exact tracked_of_idle permitted restarts (idle restarts) result
    · exact tracked.round permitted restarts result
  · rintro before input after tracked ⟨permitted, result⟩ busy
    obtain ⟨restarts, held⟩ := Classical.not_imp.mp busy
    obtain ⟨i, connection⟩ := not_forall.mp held
    exact not_registered_of_restart tracked permitted restarts
      (not_le.mp connection) result

/-- A connection with descriptor 4 is accepted. -/
def connect : Round where
  ready := some {3}
  accepted := some ⟨4, 50000, List.replicate 16 0⟩
  received _ := .failed
  listening := none

/-- The connection with descriptor 4 is closed by its peer. -/
def hangUp : Round where
  ready := some {4}
  accepted := none
  received _ := .closed
  listening := none

/-- `select` fails and the new listening socket gets descriptor 3 again. -/
def selectFails : Round where
  ready := none
  accepted := none
  received _ := .failed
  listening := some 3

/-- The state of a server that accepted one connection. -/
def connected : State :=
  State.register
    { State.start 3 {0, 1, 2} with descriptors := {4, 3, 0, 1, 2} }
    ⟨4, 50000, List.replicate 16 0⟩ 0

theorem connect_step (program : Program) :
    Step program (State.start 3 {0, 1, 2}) connect connected := by
  refine ⟨⟨?_, ?_, ?_, ?_⟩, ?_⟩
  · rintro ready ⟨⟩
    decide
  · rintro peer ⟨⟩
    decide
  · rintro fd ⟨⟩
  · rintro i outcome opened ⟨⟩
  · rfl

theorem hangUp_step (program : Program) :
    Step program connected hangUp (connected.disconnect 0) := by
  refine ⟨⟨?_, ?_, ?_, ?_⟩, ?_⟩
  · rintro ready ⟨⟩
    decide
  · rintro peer ⟨⟩
  · rintro fd ⟨⟩
  · rintro i outcome opened ⟨⟩
  · rfl

/-- `select` may fail at any time; descriptor 3 is free again. -/
theorem selectFails_step (program : Program) {state : State}
    (socket : state.sockfd = 3) :
    Step program state selectFails
      (State.listenOn
        { state with descriptors := state.descriptors.erase state.sockfd }
        3) := by
  refine ⟨⟨?_, ?_, ?_, ?_⟩, ?_⟩
  · rintro ready ⟨⟩
  · rintro peer ⟨⟩
  · rintro fd ⟨⟩
    rw [socket]
    refine ⟨le_rfl, Finset.notMem_erase _ _, ?_⟩
    rintro peer ⟨⟩
  · rintro i outcome opened ⟨⟩
  · rfl

/-- A restart after the last connection was closed is harmless. -/
theorem registered_throughout_iff_idle :
    ∃ last,
      Run (Step .tcpServer) (State.start 3 {0, 1, 2})
        [connect, hangUp, selectFails] last ∧
      ∀ count state,
        Run (Step .tcpServer) (State.start 3 {0, 1, 2})
            ([connect, hangUp, selectFails].take count) state →
          state.Registered := by
  have idle : ∀ i, (connected.disconnect 0).client i ≤ 0 := by decide
  have stays : ¬ Restarts connected hangUp := by
    rintro (⟨⟨⟩⟩ | ⟨ready, ⟨⟩, inside, -⟩)
    exact absurd inside (by decide)
  have under :
      Run (Under IdleRestart (Step .tcpServer)) (State.start 3 {0, 1, 2})
        [connect, hangUp, selectFails] _ :=
    Run.cons ⟨fun _ => by decide, connect_step .tcpServer⟩
      (Run.cons
        ⟨fun restarts => absurd restarts stays, hangUp_step .tcpServer⟩
        (Run.cons ⟨fun _ => idle, selectFails_step .tcpServer rfl⟩
          (Run.nil _)))
  have run :=
    Run.cons (connect_step .tcpServer)
      (Run.cons (hangUp_step .tcpServer)
        (Run.cons (selectFails_step .tcpServer rfl) (Run.nil _)))
  exact
    ⟨_, run,
      (registered_throughout_iff .tcpServer (by decide) {0, 1, 2} run).mpr
        under⟩

/-- A restart while a connection holds a slot loses it. -/
def LosesConnection (program : Program) : Prop :=
  ∃ last,
    Run (Step program) (State.start 3 {0, 1, 2}) [connect, selectFails] last ∧
    last.client 0 = 4 ∧ last.allset = {3} ∧ ¬ last.Registered

theorem restart_loses_connection :
    LosesConnection .tcpServer ∧ LosesConnection .tcpSelect ∧
      LosesConnection .httpAnlyse := by
  have loses (program : Program) : LosesConnection program := by
    refine
      ⟨_, Run.cons (connect_step program)
        (Run.cons (selectFails_step program rfl) (Run.nil _)), rfl, rfl, ?_⟩
    have stays : ¬ Restarts (State.start 3 {0, 1, 2}) connect := by
      rintro (⟨⟨⟩⟩ | ⟨ready, ⟨⟩, -, ⟨⟨⟩⟩ | full⟩)
      exact absurd full (by decide)
    have tracked : Tracked connected :=
      (tracked_start (by decide) {0, 1, 2}).round (connect_step program).1
        stays (connect_step program).2
    have fails := selectFails_step program (show connected.sockfd = 3 from rfl)
    exact not_registered_of_restart tracked fails.1 (Or.inl rfl)
      (show 0 < connected.client 0 by decide) fails.2
  exact ⟨loses _, loses _, loses _⟩

end CommonCode.Select
