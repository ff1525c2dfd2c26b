import CommonCode.Audio.Exclusion

/-!
# The way of the frames through the buffers

The decoder fills one buffer while the flag of the other one is set, and looks
for that flag before it places a frame.  The frames pass through unharmed only
if the player does not get ahead of the decoder: it may clear the flag only
once the decoder waits for it, and read the length of a buffer only after the
decoder has stored it.  What is in the buffer that is being filled at the end
is never played.
-/

namespace CommonCode.Audio

open CommonCode.Lib.Bits
open CommonCode.Lib.CString
open CommonCode.Lib.Transition

/-! ## The property -/

/-- The decoder is not at work on a frame. -/
def Decoder.atRest : Decoder → Bool
  | .clearFirst => true
  | .setSecond => true
  | .next => true
  | .finish => true
  | .done => true
  | _ => false

/--
What has been handed to `pcm_write` is the beginning of what was decoded, every
frame that the decoder is done with has been copied, and everything has been
handed over when the player has left its loop.
-/
structure State.Lossless (state : State) : Prop where
  played : state.played <+: state.decoded.flatten
  copied : state.decoder.atRest = true → state.copied = state.decoded
  complete : state.player = .left → state.played = state.decoded.flatten

/-! ## The condition -/

/-- The decoder tests the flags again before it waits for one. -/
def State.Tests (state : State) : Prop :=
  match state.decoder with
  | .clearFirst => False
  | .setSecond => False
  | .testOwn _ => True
  | .testOther _ => True
  | .fits side =>
      state.pos side + state.audioBuf.length ≤ maxAudioFrameSize ∧
        state.frames ≠ []
  | .wait _ => False
  | .enable _ => False
  | .finish => False
  | .done => False
  | _ => state.frames ≠ []

/-- The flag of the buffer is set, and its length is still to be stored. -/
def Decoder.stores : Decoder → Side → Bool
  | .loadLen filled, side => side = filled
  | .storeLen filled _, side => side = filled
  | _, _ => false

/--
The player clears a flag only when the decoder does not test the flags again
before it waits, it reads a length only when that is the right one, and it
leaves its loop only if nothing has been decoded.
-/
def Timely (state : State) : Thread → Prop
  | .decoder => True
  | .player =>
      match state.player with
      | .readLen side =>
          state.decoder.stores side = true → state.len side = state.pos side
      | .clear _ => ¬ state.Tests
      | .check => state.convertOver = true → state.decoded = []
      | _ => True

/-! ## The side that is being filled -/

/-- The side that is being filled after a step of the decoder. -/
def Decoder.fillsNext (side : Side) : Decoder → Side
  | .enable _ => side.other
  | _ => side

/-- The program points that the decoder can be at while it fills a side. -/
def Decoder.Fills (side : Side) : Decoder → Prop
  | .clearFirst => side = .one
  | .setSecond => side = .one
  | .next => True
  | .testOwn tested => tested = .two → side = .two
  | .testOther tested => tested = side
  | .fits filled => filled = side
  | .locate filled => filled = side
  | .copy filled _ => filled = side
  | .copying filled _ => filled = side
  | .loadSum filled => filled = side
  | .storeSum filled _ => filled = side
  | .wait filled => filled = side
  | .enable filled => filled = side
  | .loadLen filled => filled = side.other
  | .storeLen filled _ => filled = side.other
  | .resetPos filled => filled = side.other
  | .refill filled => filled = side.other
  | .refilling filled => filled = side.other
  | .setPos filled => filled = side.other
  | .finish => True
  | .done => True

/--
The flag of the side that is being filled is clear, and that of the other one
is set as long as the decoder still tests for it.
-/
structure Filling (side : Side) (state : State) : Prop where
  point : state.decoder.Fills side
  unset : state.en side = false
  tested : state.Tests → state.en side.other = true

section Filling

variable {before after : State} {side : Side}

theorem Filling.decode (guarded : Guarded before)
    (filling : Filling side before) (taken : before.decode = some after) :
    Filling (before.decoder.fillsNext side) after := by
  rcases before with ⟨en, len, pos, buf, audioBuf, convertOver, frames,
    decoder, player, decoded, copied, played⟩
  rcases filling with ⟨point, unset, tested⟩
  have clear := guarded.clear
  rw [State.decode] at taken
  cases decoder with
  | clearFirst =>
      cases taken
      cases point
      exact ⟨rfl, rfl, by rintro ⟨⟩⟩
  | setSecond =>
      cases taken
      cases point
      exact ⟨trivial, unset, fun _ => rfl⟩
  | next =>
      dsimp only at taken
      split at taken
      · cases taken
        exact ⟨trivial, unset, by rintro ⟨⟩⟩
      · cases taken
        exact ⟨by rintro ⟨⟩, unset, fun _ => tested (List.cons_ne_nil _ _)⟩
  | testOwn own =>
      have set : en side.other = true := tested trivial
      dsimp only at taken
      split at taken
      · next seen =>
        cases taken
        have same : own = side := by
          refine Classical.byContradiction fun apart => ?_
          rw [Side.eq_other_of_ne apart, set] at seen
          cases seen
        exact ⟨same, unset, fun _ => set⟩
      · next seen =>
        cases taken
        cases own with
        | one =>
            have second : side = .two := by
              cases side with
              | one => exact absurd unset seen
              | two => rfl
            exact ⟨fun _ => second, unset, fun _ => set⟩
        | two =>
            rw [point rfl] at unset
            exact absurd unset seen
  | testOther own =>
      have set : en side.other = true := tested trivial
      cases point
      dsimp only at taken
      split at taken
      · cases taken
        exact ⟨rfl, unset, fun _ => set⟩
      · next seen => exact absurd set seen
  | fits filled =>
      dsimp only at taken
      split at taken
      · cases taken
        exact ⟨point, unset, by rintro ⟨⟩⟩
      · next enough =>
        cases taken
        exact
          ⟨point, unset, fun more => tested ⟨Nat.not_lt.mp enough, more⟩⟩
  | locate filled =>
      cases taken
      exact ⟨point, unset, tested⟩
  | copy filled offset =>
      cases taken
      exact ⟨point, unset, tested⟩
  | copying filled offset =>
      cases taken
      exact ⟨point, unset, tested⟩
  | loadSum filled =>
      cases taken
      exact ⟨point, unset, tested⟩
  | storeSum filled offset =>
      cases taken
      exact ⟨trivial, unset, tested⟩
  | wait filled =>
      dsimp only at taken
      split at taken
      · cases taken
        exact ⟨point, unset, tested⟩
      · cases taken
        exact ⟨point, unset, by rintro ⟨⟩⟩
  | enable filled =>
      cases taken
      cases point
      refine ⟨?_, ?_, ?_⟩
      · exact (Side.other_other side).symm
      · exact (Function.update_of_ne side.other_ne ..).trans
          (clear side.other rfl)
      · intro _
        rw [Decoder.fillsNext, Side.other_other]
        exact Function.update_self ..
  | loadLen filled =>
      cases taken
      exact ⟨point, unset, tested⟩
  | storeLen filled offset =>
      cases taken
      exact ⟨point, unset, tested⟩
  | resetPos filled =>
      cases taken
      exact ⟨point, unset, tested⟩
  | refill filled =>
      cases taken
      exact ⟨point, unset, tested⟩
  | refilling filled =>
      cases taken
      exact ⟨point, unset, tested⟩
  | setPos filled =>
      cases taken
      exact ⟨trivial, unset, tested⟩
  | finish =>
      cases taken
      exact ⟨trivial, unset, by rintro ⟨⟩⟩
  | done => cases taken

theorem Filling.play (filling : Filling side before)
    (taken : before.play = some after) (timely : Timely before .player) :
    Filling side after := by
  rcases before with ⟨en, len, pos, buf, audioBuf, convertOver, frames,
    decoder, player, decoded, copied, played⟩
  rcases filling with ⟨point, unset, tested⟩
  rw [State.play] at taken
  cases player with
  | poll polled =>
      dsimp only at taken
      split at taken
      · cases taken
        exact ⟨point, unset, tested⟩
      · cases taken
        exact ⟨point, unset, tested⟩
  | readLen held =>
      cases taken
      exact ⟨point, unset, tested⟩
  | write held len =>
      cases taken
      exact ⟨point, unset, tested⟩
  | writing held =>
      cases taken
      exact ⟨point, unset, tested⟩
  | clear held =>
      cases taken
      refine ⟨point, ?_, fun tests => absurd tests timely⟩
      by_cases same : side = held
      · rw [same]
        exact Function.update_self ..
      · exact (Function.update_of_ne same ..).trans unset
  | check =>
      dsimp only at taken
      split at taken
      · cases taken
        exact ⟨point, unset, tested⟩
      · cases taken
        exact ⟨point, unset, tested⟩
  | left => cases taken

end Filling

/-! ## The bytes in the buffers -/

/-- The player has handed the buffer to `pcm_write`. -/
def Player.handed : Player → Side → Bool
  | .writing held, side => side = held
  | .clear held, side => side = held
  | _, _ => false

/-- How much of an enabled buffer is to be played. -/
def State.ready (state : State) (side : Side) : Nat :=
  match state.decoder with
  | .loadLen _ => state.pos side
  | .storeLen _ _ => state.pos side
  | _ => state.len side

/-- What is to be played next. -/
def State.queued (state : State) (side : Side) : List Byte :=
  if state.en side = true ∧ state.player.handed side = false then
    (state.buf side).take (state.ready side)
  else []

/-- What the decoder has copied into the buffer that it is filling. -/
def State.filled (state : State) (side : Side) : List Byte :=
  match state.decoder with
  | .loadSum _ =>
      (state.buf side).take (state.pos side + state.audioBuf.length)
  | .storeSum _ _ =>
      (state.buf side).take (state.pos side + state.audioBuf.length)
  | .loadLen _ => []
  | .storeLen _ _ => []
  | .resetPos _ => []
  | .refill _ => []
  | .refilling _ => []
  | .setPos _ => (state.buf side).take state.audioBuf.length
  | _ => (state.buf side).take (state.pos side)

/-- The frame that has been decoded and not copied yet. -/
def State.carried (state : State) : List (List Byte) :=
  match state.decoder with
  | .testOwn _ => [state.audioBuf]
  | .testOther _ => [state.audioBuf]
  | .fits _ => [state.audioBuf]
  | .locate _ => [state.audioBuf]
  | .copy _ _ => [state.audioBuf]
  | .copying _ _ => [state.audioBuf]
  | .wait _ => [state.audioBuf]
  | .enable _ => [state.audioBuf]
  | .loadLen _ => [state.audioBuf]
  | .storeLen _ _ => [state.audioBuf]
  | .resetPos _ => [state.audioBuf]
  | .refill _ => [state.audioBuf]
  | .refilling _ => [state.audioBuf]
  | _ => []

/-- Before the first flag is set. -/
def Decoder.starts : Decoder → Bool
  | .clearFirst => true
  | .setSecond => true
  | _ => false

/--
The frames are those that have been copied and the one that the decoder is at
work on; the bytes of the copied frames have been played, are to be played
next, or are in the buffer that is being filled.
-/
structure Flowing (side : Side) (state : State) : Prop where
  memory : ∀ side, (state.buf side).length = maxAudioFrameSize
  fresh : state.decoder.starts = true → state.len .two = 0
  frames : state.decoded = state.copied ++ state.carried
  read :
    ∀ held len, state.player = .write held len → len = state.ready held
  stream :
    state.played ++ state.queued side.other ++ state.filled side =
      state.copied.flatten

theorem flowing_start (frames : List (List Byte)) :
    Flowing .one (State.start frames) where
  memory _ := List.length_replicate
  fresh _ := rfl
  frames := rfl
  read _ _ writes := by cases writes
  stream := rfl

section Flowing

variable {before after : State} {side : Side}

theorem queued_of_unset {state : State} (unset : state.en side = false) :
    state.queued side = [] := by
  rw [State.queued, if_neg]
  rintro ⟨set, -⟩
  rw [unset] at set
  cases set

/-- The start of a buffer after a copy at its end. -/
theorem take_store {memory bytes : List Byte} {offset : Nat}
    (bound : offset ≤ memory.length) :
    (store memory offset bytes).take (offset + bytes.length) =
      memory.take offset ++ bytes := by
  rw [store, List.take_left' (by
    rw [List.length_append, List.length_take_of_le bound])]

/-- Copies do not change the size of the buffers. -/
theorem length_update_store {buf : Side → List Byte} {filled : Side}
    {offset : Nat} {bytes : List Byte}
    (memory : ∀ side, (buf side).length = maxAudioFrameSize)
    (bound : offset + bytes.length ≤ maxAudioFrameSize) (side : Side) :
    (Function.update buf filled (store (buf filled) offset bytes)
      side).length = maxAudioFrameSize := by
  by_cases same : side = filled
  · rw [same, Function.update_self, length_store (by rwa [memory]), memory]
  · rw [Function.update_of_ne same, memory]

theorem Flowing.decode (guarded : Guarded before) (bounded : Bounded before)
    (filling : Filling side before) (flowing : Flowing side before)
    (taken : before.decode = some after) :
    Flowing (before.decoder.fillsNext side) after := by
  rcases before with ⟨en, len, pos, buf, audioBuf, convertOver, remaining,
    decoder, player, decoded, copied, played⟩
  rcases flowing with ⟨memory, fresh, frames, read, stream⟩
  have clear := guarded.clear
  have room := bounded.room
  have point := filling.point
  rw [State.decode] at taken
  cases decoder with
  | clearFirst =>
      cases taken
      have same : Function.update en .one false = en :=
        Function.update_eq_self_iff.mpr (clear .one rfl).symm
      refine ⟨memory, fresh, frames, read, ?_⟩
      rw [same]
      exact stream
  | setSecond =>
      cases taken
      cases point
      refine ⟨memory, by rintro ⟨⟩, frames, read, ?_⟩
      have empty : len .two = 0 := fresh rfl
      rw [queued_of_unset (clear (Side.other .one) rfl)] at stream
      change played ++ (if _ then (buf .two).take (len .two) else []) ++ _ = _
      rw [empty, List.take_zero, ite_self]
      exact stream
  | next =>
      dsimp only at taken
      split at taken
      · cases taken
        exact ⟨memory, by rintro ⟨⟩, frames, read, stream⟩
      · cases taken
        refine ⟨memory, by rintro ⟨⟩, ?_, read, stream⟩
        exact congrArg (· ++ _) (frames.trans (List.append_nil _))
  | testOwn own =>
      dsimp only at taken
      split at taken
      · cases taken
        exact ⟨memory, by rintro ⟨⟩, frames, read, stream⟩
      · next seen =>
        cases taken
        cases own with
        | one => exact ⟨memory, by rintro ⟨⟩, frames, read, stream⟩
        | two =>
            have unset := filling.unset
            rw [point rfl] at unset
            exact absurd unset seen
  | testOther own =>
      cases point
      dsimp only at taken
      split at taken
      · cases taken
        exact ⟨memory, by rintro ⟨⟩, frames, read, stream⟩
      · next seen => exact absurd (filling.tested trivial) seen
  | fits filled =>
      dsimp only at taken
      split at taken
      · cases taken
        exact ⟨memory, by rintro ⟨⟩, frames, read, stream⟩
      · cases taken
        exact ⟨memory, by rintro ⟨⟩, frames, read, stream⟩
  | locate filled =>
      cases taken
      exact ⟨memory, by rintro ⟨⟩, frames, read, stream⟩
  | copy filled offset =>
      cases taken
      exact ⟨memory, by rintro ⟨⟩, frames, read, stream⟩
  | copying filled offset =>
      cases taken
      cases point
      have start : offset = pos side := room.1
      have bound : offset + audioBuf.length ≤ maxAudioFrameSize := room.2
      subst start
      have inside : pos side ≤ (buf side).length := by
        rw [memory]
        exact bounded.pos side
      refine ⟨length_update_store memory bound, by rintro ⟨⟩, ?_, read, ?_⟩
      · exact frames.trans (List.append_nil _).symm
      · change played ++
            (if en side.other = true ∧ player.handed side.other = false then
              (Function.update buf side _ side.other).take (len side.other)
              else []) ++
            (Function.update buf side _ side).take
              (pos side + audioBuf.length) =
          (copied ++ [audioBuf]).flatten
        rw [Function.update_of_ne side.other_ne, Function.update_self,
          take_store inside, ← List.append_assoc, List.flatten_append,
          List.flatten_singleton]
        exact congrArg (· ++ audioBuf) stream
  | loadSum filled =>
      cases taken
      exact ⟨memory, by rintro ⟨⟩, frames, read, stream⟩
  | storeSum filled offset =>
      cases taken
      cases point
      have start : offset = pos side := room.1
      subst start
      refine ⟨memory, by rintro ⟨⟩, frames, read, ?_⟩
      change played ++ _ ++
          (buf side).take
            (Function.update pos side (pos side + audioBuf.length) side) =
        copied.flatten
      rw [Function.update_self]
      exact stream
  | wait filled =>
      dsimp only at taken
      split at taken
      · cases taken
        exact ⟨memory, by rintro ⟨⟩, frames, read, stream⟩
      · cases taken
        exact ⟨memory, by rintro ⟨⟩, frames, read, stream⟩
  | enable filled =>
      cases taken
      cases point
      have unused (held : Side) (holds : player.holds = some held) : False := by
        have set : en held = true := guarded.held held holds
        exact absurd ((clear held rfl).symm.trans set) (by rintro ⟨⟩)
      have waiting : player.handed side = false := by
        cases player with
        | writing held => exact (unused held rfl).elim
        | clear held => exact (unused held rfl).elim
        | _ => rfl
      rw [queued_of_unset (clear side.other rfl)] at stream
      refine ⟨memory, by rintro ⟨⟩, frames, ?_, ?_⟩
      · rintro held len rfl
        exact (unused held rfl).elim
      · rw [Decoder.fillsNext, Side.other_other]
        change played ++
            (if Function.update en side true side = true ∧
                player.handed side = false then
              (buf side).take (pos side) else []) ++ [] = copied.flatten
        rw [if_pos ⟨Function.update_self .., waiting⟩, List.append_nil]
        rw [List.append_nil] at stream
        exact stream
  | loadLen filled =>
      cases taken
      exact ⟨memory, by rintro ⟨⟩, frames, read, stream⟩
  | storeLen filled offset =>
      cases taken
      cases point
      have start : offset = pos side.other := room
      subst start
      refine ⟨memory, by rintro ⟨⟩, frames, ?_, ?_⟩
      · rintro held length rfl
        have other : held = side.other := by
          refine Side.eq_other_of_ne ?_
          rintro rfl
          have set : en held = true := guarded.held held rfl
          exact absurd (filling.unset.symm.trans set) (by rintro ⟨⟩)
        have value : length = pos held := read held length rfl
        change length = Function.update len side.other _ held
        rw [value, other, Function.update_self]
      · change played ++
            (if _ then
              (buf side.other).take
                (Function.update len side.other _ side.other) else []) ++
            _ = _
        rw [Function.update_self]
        exact stream
  | resetPos filled =>
      cases taken
      exact ⟨memory, by rintro ⟨⟩, frames, read, stream⟩
  | refill filled =>
      cases taken
      exact ⟨memory, by rintro ⟨⟩, frames, read, stream⟩
  | refilling filled =>
      cases taken
      cases point
      have inside : 0 + audioBuf.length ≤ maxAudioFrameSize := by
        rw [Nat.zero_add]
        exact bounded.frame
      refine ⟨length_update_store memory inside, by rintro ⟨⟩, ?_, read, ?_⟩
      · exact frames.trans (List.append_nil _).symm
      · change played ++
            (if _ then
              (Function.update buf side.other.other _ side.other).take
                (len side.other) else []) ++
            (Function.update buf side.other.other
              (store (buf side.other.other) 0 audioBuf) side).take
              audioBuf.length =
          (copied ++ [audioBuf]).flatten
        have start : (store (buf side) 0 audioBuf).take audioBuf.length =
            audioBuf := by
          have first :
              (store (buf side) 0 audioBuf).take (0 + audioBuf.length) = _ :=
            take_store (Nat.zero_le _)
          rwa [Nat.zero_add, List.take_zero, List.nil_append] at first
        rw [Side.other_other, Function.update_of_ne side.other_ne,
          Function.update_self, start, List.flatten_append,
          List.flatten_singleton, ← stream]
        exact congrArg (· ++ audioBuf) (List.append_nil _).symm
  | setPos filled =>
      cases taken
      cases point
      refine ⟨memory, by rintro ⟨⟩, frames, read, ?_⟩
      change played ++ _ ++
          (buf side).take
            (Function.update pos side.other.other audioBuf.length side) =
        copied.flatten
      rw [Side.other_other, Function.update_self]
      exact stream
  | finish =>
      cases taken
      exact ⟨memory, by rintro ⟨⟩, frames, read, stream⟩
  | done => cases taken

theorem Flowing.play (guarded : Guarded before)
    (filling : Filling side before) (flowing : Flowing side before)
    (taken : before.play = some after) (timely : Timely before .player) :
    Flowing side after := by
  rcases before with ⟨en, len, pos, buf, audioBuf, convertOver, remaining,
    decoder, player, decoded, copied, played⟩
  rcases flowing with ⟨memory, fresh, frames, read, stream⟩
  have other {held : Side} (holds : player.holds = some held) :
      held = side.other := by
    refine Side.eq_other_of_ne ?_
    rintro rfl
    have set : en held = true := guarded.held held holds
    exact absurd (filling.unset.symm.trans set) (by rintro ⟨⟩)
  rw [State.play] at taken
  cases player with
  | poll polled =>
      dsimp only at taken
      split at taken
      · cases taken
        exact ⟨memory, fresh, frames, by rintro _ _ ⟨⟩, stream⟩
      · cases taken
        cases polled with
        | one => exact ⟨memory, fresh, frames, by rintro _ _ ⟨⟩, stream⟩
        | two => exact ⟨memory, fresh, frames, by rintro _ _ ⟨⟩, stream⟩
  | readLen held =>
      cases taken
      refine ⟨memory, fresh, frames, ?_, stream⟩
      rintro _ _ ⟨⟩
      have stored (stores : decoder.stores held = true) :
          len held = pos held := timely stores
      have matching := filling.point
      cases decoder with
      | loadLen filled =>
          cases matching
          exact stored (decide_eq_true (other rfl))
      | storeLen filled offset =>
          cases matching
          exact stored (decide_eq_true (other rfl))
      | _ => rfl
  | write held length =>
      cases taken
      cases other rfl
      have set : en side.other = true := guarded.held side.other rfl
      have value := read side.other length rfl
      refine ⟨memory, fresh, frames, by rintro _ _ ⟨⟩, ?_⟩
      rw [State.queued, if_pos ⟨set, rfl⟩, ← value] at stream
      rw [State.queued, if_neg (by
        rintro ⟨-, waiting⟩
        exact absurd waiting (by simp [Player.handed])), List.append_nil]
      exact stream
  | writing held =>
      cases taken
      exact ⟨memory, fresh, frames, by rintro _ _ ⟨⟩, stream⟩
  | clear held =>
      cases taken
      cases other rfl
      refine ⟨memory, fresh, frames, by rintro _ _ ⟨⟩, ?_⟩
      rw [State.queued, if_neg (by
        rintro ⟨-, waiting⟩
        exact absurd waiting (by simp [Player.handed]))] at stream
      rw [queued_of_unset (Function.update_self ..)]
      exact stream
  | check =>
      dsimp only at taken
      split at taken
      · cases taken
        exact ⟨memory, fresh, frames, by rintro _ _ ⟨⟩, stream⟩
      · cases taken
        exact ⟨memory, fresh, frames, by rintro _ _ ⟨⟩, stream⟩
  | left => cases taken

end Flowing

/-! ## The end -/

/--
After `convert_over` the decoder does nothing more; the player leaves only if
nothing has been decoded.
-/
structure Ending (state : State) : Prop where
  announced : state.convertOver = true → state.decoder = .done
  left : state.player = .left → state.decoder = .done ∧ state.decoded = []

theorem ending_start (frames : List (List Byte)) :
    Ending (State.start frames) where
  announced set := by cases set
  left gone := by cases gone

section Ending

variable {before after : State}

/-- A step of the decoder does not move the player, and announces its end. -/
theorem decode_end (taken : before.decode = some after) :
    before.decoder ≠ .done ∧ after.player = before.player ∧
      (after.convertOver = true →
        before.convertOver = true ∨ after.decoder = .done) := by
  rcases before with ⟨en, len, pos, buf, audioBuf, convertOver, remaining,
    decoder, player, decoded, copied, played⟩
  rw [State.decode] at taken
  cases decoder with
  | finish =>
      cases taken
      exact ⟨by rintro ⟨⟩, rfl, fun _ => Or.inr rfl⟩
  | next =>
      dsimp only at taken
      split at taken <;> cases taken <;> exact ⟨by rintro ⟨⟩, rfl, Or.inl⟩
  | testOwn own =>
      dsimp only at taken
      split at taken <;> cases taken <;> exact ⟨by rintro ⟨⟩, rfl, Or.inl⟩
  | testOther own =>
      dsimp only at taken
      split at taken <;> cases taken <;> exact ⟨by rintro ⟨⟩, rfl, Or.inl⟩
  | fits filled =>
      dsimp only at taken
      split at taken <;> cases taken <;> exact ⟨by rintro ⟨⟩, rfl, Or.inl⟩
  | wait filled =>
      dsimp only at taken
      split at taken <;> cases taken <;> exact ⟨by rintro ⟨⟩, rfl, Or.inl⟩
  | done => cases taken
  | _ =>
      cases taken
      exact ⟨by rintro ⟨⟩, rfl, Or.inl⟩

theorem Ending.decode (ending : Ending before)
    (taken : before.decode = some after) : Ending after := by
  rcases decode_end taken with ⟨running, player, ends⟩
  constructor
  · intro set
    rcases ends set with already | done
    · exact absurd (ending.announced already) running
    · exact done
  · intro gone
    rw [player] at gone
    exact absurd (ending.left gone).1 running

theorem Ending.play (ending : Ending before)
    (taken : before.play = some after) (timely : Timely before .player) :
    Ending after := by
  rcases before with ⟨en, len, pos, buf, audioBuf, convertOver, remaining,
    decoder, player, decoded, copied, played⟩
  rcases ending with ⟨announced, -⟩
  rw [State.play] at taken
  cases player with
  | poll polled =>
      dsimp only at taken
      split at taken
      · cases taken
        exact ⟨announced, by rintro ⟨⟩⟩
      · cases taken
        cases polled with
        | one => exact ⟨announced, by rintro ⟨⟩⟩
        | two => exact ⟨announced, by rintro ⟨⟩⟩
  | readLen held =>
      cases taken
      exact ⟨announced, by rintro ⟨⟩⟩
  | write held length =>
      cases taken
      exact ⟨announced, by rintro ⟨⟩⟩
  | writing held =>
      cases taken
      exact ⟨announced, by rintro ⟨⟩⟩
  | clear held =>
      cases taken
      exact ⟨announced, by rintro ⟨⟩⟩
  | check =>
      dsimp only at taken
      split at taken
      · cases taken
        exact ⟨announced, by rintro ⟨⟩⟩
      · next set =>
        cases taken
        have ended : convertOver = true := Bool.eq_true_of_not_eq_false set
        exact ⟨announced, fun _ => ⟨announced ended, timely ended⟩⟩
  | left => cases taken

end Ending

/-! ## Runs -/

/-- Everything that timely steps keep. -/
structure Tracked (state : State) : Prop where
  guarded : Guarded state
  bounded : Bounded state
  flow : ∃ side, Filling side state ∧ Flowing side state
  ending : Ending state

theorem tracked_start {frames : List (List Byte)} (playable : Playable frames) :
    Tracked (State.start frames) where
  guarded := guarded_start frames
  bounded := bounded_start playable
  flow := ⟨.one, ⟨rfl, rfl, by rintro ⟨⟩⟩, flowing_start frames⟩
  ending := ending_start frames

theorem Tracked.step {before after : State} {thread : Thread}
    (tracked : Tracked before) (taken : Step before thread after)
    (timely : Timely before thread) : Tracked after := by
  rcases tracked with ⟨guarded, bounded, ⟨side, filling, flowing⟩, ending⟩
  have safe := guarded.step taken
  have inside := bounded.step taken
  cases thread with
  | decoder =>
      exact
        ⟨safe, inside,
          ⟨_, filling.decode guarded taken,
            flowing.decode guarded bounded filling taken⟩,
          ending.decode taken⟩
  | player =>
      exact
        ⟨safe, inside,
          ⟨side, filling.play taken timely,
            flowing.play guarded filling taken timely⟩,
          ending.play taken timely⟩

theorem Tracked.lossless {state : State} (tracked : Tracked state) :
    state.Lossless := by
  rcases tracked with ⟨-, -, ⟨side, -, flowing⟩, ending⟩
  have prefixed : state.played <+: state.decoded.flatten := by
    rw [flowing.frames, List.flatten_append, ← flowing.stream,
      List.append_assoc, List.append_assoc]
    exact List.prefix_append ..
  refine ⟨prefixed, ?_, ?_⟩
  · intro rest
    have frames := flowing.frames
    have none : state.carried = [] := by
      unfold State.carried
      unfold Decoder.atRest at rest
      split at rest
      all_goals simp_all
    rw [none, List.append_nil] at frames
    exact frames.symm
  · intro gone
    rw [(ending.left gone).2] at prefixed ⊢
    exact List.prefix_nil.mp prefixed

/--
In every run in which the player clears a flag only when the decoder does not
test the flags again before it waits, reads only lengths that have been stored,
and leaves its loop only if nothing has been decoded, nothing is lost.
-/
theorem lossless_of_timely {frames : List (List Byte)}
    (playable : Playable frames) {threads : List Thread} {state : State}
    (run : Run (Under Timely Step) (State.start frames) threads state) :
    state.Lossless := by
  have tracked : Tracked state :=
    run.invariant (fun taken tracked => tracked.step taken.2 taken.1)
      (tracked_start playable)
  exact tracked.lossless

/--
Two frames are decoded up to the wait for the second buffer, which is played;
the third one is decoded up to the wait for the first buffer, which is played;
and after the end of the file the second buffer is played again.
-/
def handOvers : List Thread :=
  List.replicate 15 .decoder ++ List.replicate 6 .player ++
    List.replicate 13 .decoder ++ List.replicate 7 .player ++
    List.replicate 9 .decoder ++ List.replicate 4 .player

/-- Frames of the size of a buffer are handed over one by one. -/
theorem exists_handOvers {f g h : List Byte}
    (first : f.length = maxAudioFrameSize)
    (second : g.length = maxAudioFrameSize)
    (third : h.length = maxAudioFrameSize) :
    ∃ state, Run (Under Timely Step) (State.start [f, g, h]) handOvers state ∧
      state.copied = [f, g, h] ∧ state.played = f ++ g := by
  have large : 0 < maxAudioFrameSize := by decide
  have room : ¬ 0 + f.length > maxAudioFrameSize := by omega
  have full : 0 + f.length + g.length > maxAudioFrameSize := by omega
  have again : g.length + h.length > maxAudioFrameSize := by omega
  refine ⟨?state, ?run, ?facts⟩
  case run =>
    simp only [handOvers, List.replicate, List.cons_append, List.nil_append]
    rw [State.start]
    iterate 5 (refine Run.cons ⟨trivial, rfl⟩ ?_; dsimp only)
    refine Run.cons ⟨trivial, if_neg room⟩ ?_
    dsimp only
    iterate 8 (refine Run.cons ⟨trivial, rfl⟩ ?_; dsimp only [State.copyInto])
    refine Run.cons ⟨trivial, if_pos full⟩ ?_
    dsimp only
    refine Run.cons ⟨trivial, rfl⟩ ?_
    refine Run.cons ⟨by rintro ⟨⟩, rfl⟩ ?_
    dsimp only
    iterate 2 (refine Run.cons ⟨trivial, rfl⟩ ?_; dsimp only)
    refine Run.cons ⟨id, rfl⟩ ?_
    refine Run.cons ⟨by rintro ⟨⟩, rfl⟩ ?_
    dsimp only
    iterate 12 (refine Run.cons ⟨trivial, rfl⟩ ?_; dsimp only [State.copyInto])
    refine Run.cons ⟨trivial, if_pos again⟩ ?_
    dsimp only
    iterate 2 (refine Run.cons ⟨trivial, rfl⟩ ?_; dsimp only)
    refine Run.cons ⟨by rintro ⟨⟩, rfl⟩ ?_
    dsimp only
    iterate 2 (refine Run.cons ⟨trivial, rfl⟩ ?_; dsimp only)
    refine Run.cons ⟨id, rfl⟩ ?_
    refine Run.cons ⟨by rintro ⟨⟩, rfl⟩ ?_
    dsimp only
    iterate 9 (refine Run.cons ⟨trivial, rfl⟩ ?_; dsimp only [State.copyInto])
    refine Run.cons ⟨trivial, rfl⟩ ?_
    refine Run.cons ⟨by rintro ⟨⟩, rfl⟩ ?_
    dsimp only
    iterate 2 (refine Run.cons ⟨trivial, rfl⟩ ?_; dsimp only)
    exact Run.nil _
  refine ⟨rfl, ?_⟩
  have whole {memory bytes : List Byte} {count : Nat}
      (size : count = bytes.length) :
      (store memory 0 bytes).take count = bytes := by
    rw [size, store, List.take_zero, List.nil_append]
    exact List.take_left
  change [] ++ [] ++ (store _ 0 f).take (0 + f.length) ++
    (store _ 0 g).take g.length = f ++ g
  rw [whole (Nat.zero_add _), whole rfl, List.nil_append, List.nil_append]

/-- Three frames of the size of a buffer. -/
def fullFrames : List (List Byte) :=
  [List.replicate maxAudioFrameSize 1, List.replicate maxAudioFrameSize 2,
    List.replicate maxAudioFrameSize 3]

theorem playable_fullFrames : Playable fullFrames := by
  intro frame member
  have size : frame.length = maxAudioFrameSize := by
    rcases List.mem_cons.mp member with rfl | member
    · exact List.length_replicate
    rcases List.mem_cons.mp member with rfl | member
    · exact List.length_replicate
    rw [List.mem_singleton.mp member]
    exact List.length_replicate
  rw [size]
  exact ⟨by decide, le_rfl⟩

theorem lossless_of_timely_hand_overs :
    ∃ state,
      Run (Under Timely Step) (State.start fullFrames) handOvers state ∧
        state.Lossless ∧ state.copied = fullFrames ∧
        state.played =
          List.replicate maxAudioFrameSize 1 ++
            List.replicate maxAudioFrameSize 2 := by
  rcases exists_handOvers List.length_replicate List.length_replicate
    List.length_replicate with ⟨state, run, copied, played⟩
  exact ⟨state, run, lossless_of_timely playable_fullFrames run, copied,
    played⟩

theorem playable_singleton (byte : Byte) : Playable [[byte]] := by
  intro frame member
  rw [List.mem_singleton.mp member]
  exact ⟨Nat.le_refl 1, Nat.le_of_ble_eq_true rfl⟩

/-- The player clears the only flag before the decoder gets its first frame. -/
def early : List Thread :=
  List.replicate 2 .decoder ++ List.replicate 5 .player ++
    List.replicate 5 .decoder

/-- Then the decoder finds no flag set, and the frame is not copied. -/
theorem not_lossless_early :
    ¬ ∀ frames threads state, Playable frames →
      Run Step (State.start frames) threads state → state.Lossless := by
  intro always
  have reached : ∃ state, Run Step (State.start [[1]]) early state ∧
      state.decoder = .next ∧ state.copied = [] ∧ state.decoded = [[1]] :=
    ⟨_, run_of_execute id rfl, rfl, rfl, rfl⟩
  rcases reached with ⟨state, run, decoder, copied, decoded⟩
  have lossless := always [[1]] early state (playable_singleton 1) run
  have same := lossless.copied (by rw [decoder]; rfl)
  rw [copied, decoded] at same
  cases same

end CommonCode.Audio
