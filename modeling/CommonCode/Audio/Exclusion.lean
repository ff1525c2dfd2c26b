import CommonCode.Audio.Pipeline

/-!
# Exclusive use of the two buffers

Only the decoder sets a flag and, after the start, only the player clears one.
So a flag that the decoder has seen to be clear stays clear until the decoder
sets it, and a flag that the player has seen to be set stays set until the
player clears it.  The decoder sets a flag only after it has seen the other one
clear, and copies only into a buffer whose flag it has seen clear.
-/

namespace CommonCode.Audio

open CommonCode.Lib.Bits
open CommonCode.Lib.Transition

/-! ## Flags -/

/-- The flags that the decoder has seen to be clear. -/
def Decoder.clears : Decoder → Side → Bool
  | .clearFirst, _ => true
  | .setSecond, _ => true
  | .testOther side, other => other = side
  | .fits side, other => other = side
  | .locate side, other => other = side
  | .copy side _, other => other = side
  | .copying side _, other => other = side
  | .loadSum side, other => other = side
  | .storeSum side _, other => other = side
  | .wait side, other => other = side
  | .enable _, _ => true
  | .loadLen side, other => other = side.other
  | .storeLen side _, other => other = side.other
  | .resetPos side, other => other = side.other
  | .refill side, other => other = side.other
  | .refilling side, other => other = side.other
  | .setPos side, other => other = side.other
  | _, _ => false

/-- The flag that the player has seen to be set. -/
def Player.holds : Player → Option Side
  | .readLen side => some side
  | .write side _ => some side
  | .writing side => some side
  | .clear side => some side
  | _ => none

/-- What the threads have seen of the flags is still true. -/
structure Guarded (state : State) : Prop where
  flags : state.en .one = true → state.en .two = false
  held : ∀ side, state.player.holds = some side → state.en side = true
  clear : ∀ side, state.decoder.clears side = true → state.en side = false

theorem guarded_start (frames : List (List Byte)) :
    Guarded (State.start frames) where
  flags set := by cases set
  held _ holds := by cases holds
  clear _ _ := rfl

section Flags

variable {before after : State}

/-- A step of the decoder that sets no flag. -/
theorem Guarded.of_en_eq (guarded : Guarded before)
    (en : after.en = before.en) (player : after.player = before.player)
    (clear : ∀ side, after.decoder.clears side = true →
      before.en side = false) :
    Guarded after where
  flags := by
    rw [en]
    exact guarded.flags
  held := by
    rw [en, player]
    exact guarded.held
  clear := by
    rw [en]
    exact clear

/-- A step of the decoder that sets a flag while both are clear. -/
theorem Guarded.of_en_update (guarded : Guarded before) {side : Side}
    (unset : ∀ side, before.en side = false)
    (en : after.en = Function.update before.en side true)
    (player : after.player = before.player)
    (clear : ∀ other, after.decoder.clears other = true →
      other = side.other) :
    Guarded after where
  flags := by
    rw [en]
    intro set
    cases side with
    | one => exact unset .two
    | two => exact absurd ((unset .one).symm.trans set) (by rintro ⟨⟩)
  held other holds := by
    rw [player] at holds
    exact absurd (guarded.held other holds) (by rw [unset]; rintro ⟨⟩)
  clear other known := by
    rw [clear other known, en, Function.update_of_ne side.other_ne]
    exact unset side.other

theorem Guarded.decode (guarded : Guarded before)
    (taken : before.decode = some after) : Guarded after := by
  have clear := guarded.clear
  rw [State.decode] at taken
  cases point : before.decoder with
  | clearFirst =>
      rw [point] at taken clear
      cases taken
      have same : Function.update before.en .one false = before.en :=
        Function.update_eq_self_iff.mpr (clear .one rfl).symm
      exact guarded.of_en_eq same rfl clear
  | setSecond =>
      rw [point] at taken clear
      cases taken
      exact guarded.of_en_update (fun side => clear side rfl) rfl rfl
        (by rintro _ ⟨⟩)
  | next =>
      rw [point] at taken
      dsimp only at taken
      split at taken
      · cases taken
        exact guarded.of_en_eq rfl rfl (by rintro _ ⟨⟩)
      · cases taken
        exact guarded.of_en_eq rfl rfl (by rintro _ ⟨⟩)
  | testOwn side =>
      rw [point] at taken
      dsimp only at taken
      split at taken
      · next unset =>
        cases taken
        refine guarded.of_en_eq rfl rfl fun other known => ?_
        rw [of_decide_eq_true known]
        exact unset
      · cases taken
        refine guarded.of_en_eq rfl rfl fun other known => ?_
        cases side <;> cases known
  | testOther side =>
      rw [point] at taken clear
      dsimp only at taken
      split at taken
      · cases taken
        exact guarded.of_en_eq rfl rfl clear
      · cases taken
        refine guarded.of_en_eq rfl rfl fun other known => ?_
        cases side <;> cases known
  | fits side =>
      rw [point] at taken clear
      dsimp only at taken
      split at taken
      · cases taken
        exact guarded.of_en_eq rfl rfl clear
      · cases taken
        exact guarded.of_en_eq rfl rfl clear
  | locate side =>
      rw [point] at taken clear
      cases taken
      exact guarded.of_en_eq rfl rfl clear
  | copy side offset =>
      rw [point] at taken clear
      cases taken
      exact guarded.of_en_eq rfl rfl clear
  | copying side offset =>
      rw [point] at taken clear
      cases taken
      exact guarded.of_en_eq rfl rfl clear
  | loadSum side =>
      rw [point] at taken clear
      cases taken
      exact guarded.of_en_eq rfl rfl clear
  | storeSum side pos =>
      rw [point] at taken clear
      cases taken
      exact guarded.of_en_eq rfl rfl (by rintro _ ⟨⟩)
  | wait side =>
      rw [point] at taken clear
      dsimp only at taken
      split at taken
      · cases taken
        exact guarded
      · next unset =>
        cases taken
        refine guarded.of_en_eq rfl rfl fun other _ => ?_
        by_cases same : other = side
        · exact clear other (decide_eq_true same)
        · rw [Side.eq_other_of_ne same]
          exact Bool.eq_false_of_not_eq_true unset
  | enable side =>
      rw [point] at taken clear
      cases taken
      exact guarded.of_en_update (fun side => clear side rfl) rfl rfl
        fun other known => of_decide_eq_true known
  | loadLen side =>
      rw [point] at taken clear
      cases taken
      exact guarded.of_en_eq rfl rfl clear
  | storeLen side pos =>
      rw [point] at taken clear
      cases taken
      exact guarded.of_en_eq rfl rfl clear
  | resetPos side =>
      rw [point] at taken clear
      cases taken
      exact guarded.of_en_eq rfl rfl clear
  | refill side =>
      rw [point] at taken clear
      cases taken
      exact guarded.of_en_eq rfl rfl clear
  | refilling side =>
      rw [point] at taken clear
      cases taken
      exact guarded.of_en_eq rfl rfl clear
  | setPos side =>
      rw [point] at taken clear
      cases taken
      exact guarded.of_en_eq rfl rfl (by rintro _ ⟨⟩)
  | finish =>
      rw [point] at taken
      cases taken
      exact guarded.of_en_eq rfl rfl (by rintro _ ⟨⟩)
  | done =>
      rw [point] at taken
      cases taken

theorem Guarded.play (guarded : Guarded before)
    (taken : before.play = some after) : Guarded after := by
  rcases guarded with ⟨flags, held, clear⟩
  rw [State.play] at taken
  cases point : before.player with
  | poll side =>
      rw [point] at taken
      dsimp only at taken
      split at taken
      · next set =>
        cases taken
        refine ⟨flags, fun other holds => ?_, clear⟩
        cases holds
        exact set
      · cases taken
        refine ⟨flags, fun other holds => ?_, clear⟩
        cases side <;> cases holds
  | readLen side =>
      rw [point] at taken held
      cases taken
      exact ⟨flags, held, clear⟩
  | write side len =>
      rw [point] at taken held
      cases taken
      exact ⟨flags, held, clear⟩
  | writing side =>
      rw [point] at taken held
      cases taken
      exact ⟨flags, held, clear⟩
  | clear side =>
      rw [point] at taken
      cases taken
      have unset (other : Side) (known : before.en other = false) :
          Function.update before.en side false other = false := by
        by_cases same : other = side
        · rw [same, Function.update_self]
        · rwa [Function.update_of_ne same]
      refine ⟨fun set => ?_, by rintro _ ⟨⟩, fun other known => ?_⟩
      · cases side with
        | one => exact absurd set (by rintro ⟨⟩)
        | two => exact rfl
      · exact unset other (clear other known)
  | check =>
      rw [point] at taken
      dsimp only at taken
      split at taken
      · cases taken
        exact ⟨flags, by rintro _ ⟨⟩, clear⟩
      · cases taken
        exact ⟨flags, by rintro _ ⟨⟩, clear⟩
  | left =>
      rw [point] at taken
      cases taken

theorem Guarded.step {thread : Thread} (guarded : Guarded before)
    (taken : Step before thread after) : Guarded after := by
  cases thread with
  | decoder => exact guarded.decode taken
  | player => exact guarded.play taken

end Flags

/-! ## Positions -/

/-- What the decoder has found out about the room in the buffer. -/
def Decoder.Room (pos : Side → Nat) (size : Nat) : Decoder → Prop
  | .locate side => pos side + size ≤ maxAudioFrameSize
  | .copy side offset =>
      offset = pos side ∧ offset + size ≤ maxAudioFrameSize
  | .copying side offset =>
      offset = pos side ∧ offset + size ≤ maxAudioFrameSize
  | .loadSum side => pos side + size ≤ maxAudioFrameSize
  | .storeSum side offset =>
      offset = pos side ∧ offset + size ≤ maxAudioFrameSize
  | .storeLen side offset => offset = pos side
  | _ => True

/-- Frames and positions are inside the buffers. -/
structure Bounded (state : State) : Prop where
  frames : Playable state.frames
  frame : state.audioBuf.length ≤ maxAudioFrameSize
  pos : ∀ side, state.pos side ≤ maxAudioFrameSize
  room : state.decoder.Room state.pos state.audioBuf.length

theorem bounded_start {frames : List (List Byte)} (playable : Playable frames) :
    Bounded (State.start frames) where
  frames := playable
  frame := Nat.zero_le _
  pos _ := Nat.zero_le _
  room := trivial

section Positions

variable {before after : State}

/-- A position that stays inside the buffer. -/
theorem pos_update {pos : Side → Nat} {side : Side} {value : Nat}
    (inside : ∀ side, pos side ≤ maxAudioFrameSize)
    (bound : value ≤ maxAudioFrameSize) (other : Side) :
    Function.update pos side value other ≤ maxAudioFrameSize := by
  by_cases same : other = side
  · rw [same, Function.update_self]
    exact bound
  · rw [Function.update_of_ne same]
    exact inside other

theorem Bounded.decode (bounded : Bounded before)
    (taken : before.decode = some after) : Bounded after := by
  rcases bounded with ⟨frames, frame, pos, room⟩
  rw [State.decode] at taken
  cases point : before.decoder with
  | clearFirst =>
      rw [point] at taken
      cases taken
      exact ⟨frames, frame, pos, trivial⟩
  | setSecond =>
      rw [point] at taken
      cases taken
      exact ⟨frames, frame, pos, trivial⟩
  | next =>
      rw [point] at taken
      dsimp only at taken
      split at taken
      · cases taken
        exact ⟨frames, frame, pos, trivial⟩
      · next first rest remaining =>
        cases taken
        rw [remaining] at frames
        have bound := (frames first (List.mem_cons_self ..)).2
        exact
          ⟨fun frame member => frames frame (List.mem_cons_of_mem _ member),
            bound, pos, trivial⟩
  | testOwn side =>
      rw [point] at taken
      dsimp only at taken
      split at taken
      · cases taken
        exact ⟨frames, frame, pos, trivial⟩
      · cases taken
        refine ⟨frames, frame, pos, ?_⟩
        cases side <;> exact trivial
  | testOther side =>
      rw [point] at taken
      dsimp only at taken
      split at taken
      · cases taken
        exact ⟨frames, frame, pos, trivial⟩
      · cases taken
        refine ⟨frames, frame, pos, ?_⟩
        cases side <;> exact trivial
  | fits side =>
      rw [point] at taken
      dsimp only at taken
      split at taken
      · cases taken
        exact ⟨frames, frame, pos, trivial⟩
      · next enough =>
        cases taken
        exact ⟨frames, frame, pos, Nat.not_lt.mp enough⟩
  | locate side =>
      rw [point] at taken room
      cases taken
      exact ⟨frames, frame, pos, rfl, room⟩
  | copy side offset =>
      rw [point] at taken room
      cases taken
      exact ⟨frames, frame, pos, room⟩
  | copying side offset =>
      rw [point] at taken room
      cases taken
      rcases room with ⟨rfl, bound⟩
      exact ⟨frames, frame, pos, bound⟩
  | loadSum side =>
      rw [point] at taken room
      cases taken
      exact ⟨frames, frame, pos, rfl, room⟩
  | storeSum side offset =>
      rw [point] at taken room
      cases taken
      exact ⟨frames, frame, pos_update pos room.2, trivial⟩
  | wait side =>
      rw [point] at taken
      dsimp only at taken
      split at taken
      · cases taken
        exact ⟨frames, frame, pos, room⟩
      · cases taken
        exact ⟨frames, frame, pos, trivial⟩
  | enable side =>
      rw [point] at taken
      cases taken
      exact ⟨frames, frame, pos, trivial⟩
  | loadLen side =>
      rw [point] at taken
      cases taken
      exact ⟨frames, frame, pos, rfl⟩
  | storeLen side offset =>
      rw [point] at taken
      cases taken
      exact ⟨frames, frame, pos, trivial⟩
  | resetPos side =>
      rw [point] at taken
      cases taken
      exact ⟨frames, frame, pos_update pos (Nat.zero_le _), trivial⟩
  | refill side =>
      rw [point] at taken
      cases taken
      exact ⟨frames, frame, pos, trivial⟩
  | refilling side =>
      rw [point] at taken
      cases taken
      exact ⟨frames, frame, pos, trivial⟩
  | setPos side =>
      rw [point] at taken
      cases taken
      exact ⟨frames, frame, pos_update pos frame, trivial⟩
  | finish =>
      rw [point] at taken
      cases taken
      exact ⟨frames, frame, pos, trivial⟩
  | done =>
      rw [point] at taken
      cases taken

/-- The player has no part in the frames and the positions. -/
theorem play_frame (taken : before.play = some after) :
    after.frames = before.frames ∧ after.audioBuf = before.audioBuf ∧
      after.pos = before.pos ∧ after.decoder = before.decoder := by
  rw [State.play] at taken
  split at taken
  all_goals try split at taken
  all_goals
    cases taken
    try exact ⟨rfl, rfl, rfl, rfl⟩

theorem Bounded.step {thread : Thread} (bounded : Bounded before)
    (taken : Step before thread after) : Bounded after := by
  cases thread with
  | decoder => exact bounded.decode taken
  | player =>
      rcases play_frame taken with ⟨frames, audioBuf, pos, decoder⟩
      rcases bounded with ⟨playable, frame, inside, room⟩
      refine ⟨?_, ?_, ?_, ?_⟩
      · rwa [frames]
      · rwa [audioBuf]
      · rwa [pos]
      · rwa [decoder, pos, audioBuf]

end Positions

/-! ## Runs -/

/-- The part of a buffer into which the decoder is copying. -/
def Decoder.target (size : Nat) : Decoder → Option (Side × Nat × Nat)
  | .copying side offset => some (side, offset, size)
  | .refilling side => some (side.other, 0, size)
  | _ => none

/--
In every reachable state at most one flag is set, the decoder is not copying
into the buffer that `pcm_write` is reading, what it copies ends inside the
buffer, and both positions are inside the buffers.
-/
theorem buffers_exclusive {frames : List (List Byte)}
    (playable : Playable frames) {threads : List Thread} {state : State}
    (run : Run Step (State.start frames) threads state) :
    ¬ (state.en .one = true ∧ state.en .two = true) ∧
      (∀ side offset size,
        state.decoder.target state.audioBuf.length =
            some (side, offset, size) →
          state.player ≠ .writing side ∧
            offset + size ≤ maxAudioFrameSize) ∧
      ∀ side, state.pos side ≤ maxAudioFrameSize := by
  have guarded : Guarded state :=
    run.invariant (fun taken guarded => guarded.step taken)
      (guarded_start frames)
  have bounded : Bounded state :=
    run.invariant (fun taken bounded => bounded.step taken)
      (bounded_start playable)
  have apart (side : Side) (clears : state.decoder.clears side = true) :
      state.player ≠ .writing side := by
    intro writing
    have set : state.en side = true := by
      refine guarded.held side ?_
      rw [writing]
      rfl
    rw [guarded.clear side clears] at set
    cases set
  refine ⟨?_, ?_, bounded.pos⟩
  · rintro ⟨first, second⟩
    rw [guarded.flags first] at second
    cases second
  · intro side offset size target
    have room := bounded.room
    cases point : state.decoder with
    | copying filled start =>
        rw [point] at target room apart
        cases target
        exact ⟨apart side (decide_eq_true rfl), room.2⟩
    | refilling filled =>
        rw [point] at target apart
        cases target
        refine ⟨apart filled.other (decide_eq_true rfl), ?_⟩
        rw [Nat.zero_add]
        exact bounded.frame
    | _ =>
        rw [point] at target
        cases target

/-- The decoder fills the first buffer while the second one is being played. -/
theorem buffers_exclusive_first_frame :
    ∃ state, Run Step (State.start [[1, 2]])
        (List.replicate 2 .decoder ++ List.replicate 3 .player ++
          List.replicate 6 .decoder) state ∧
      state.decoder = .copying .one 0 ∧ state.player = .writing .two ∧
      ¬ (state.en .one = true ∧ state.en .two = true) := by
  have playable : Playable [[1, 2]] := by
    unfold Playable
    decide
  have reached : ∃ state, Run Step (State.start [[1, 2]])
        (List.replicate 2 .decoder ++ List.replicate 3 .player ++
          List.replicate 6 .decoder) state ∧
      state.decoder = .copying .one 0 ∧ state.player = .writing .two :=
    ⟨_, run_of_execute id rfl, rfl, rfl⟩
  rcases reached with ⟨state, run, decoder, player⟩
  exact ⟨state, run, decoder, player, (buffers_exclusive playable run).1⟩

end CommonCode.Audio
