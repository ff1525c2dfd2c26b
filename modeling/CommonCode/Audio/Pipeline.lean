import CommonCode.Lib.CString
import CommonCode.Lib.Transition
import Mathlib.Logic.Function.Basic

/-!
# The double buffer of the audio player

`sample/ffmpeg_alsa.c` decodes a file in `main` and plays it in the thread
`pcm_play`.  The decoder fills one of two buffers while the other one is
played; `buf1_en` and `buf2_en` say which buffer may be played, `buf1_len` and
`buf2_len` how much of it, and `buf1_pos` and `buf2_pos` how far it is filled.

Each thread has a program point, and a step is one access to one of these
variables, or the start or the end of a `memcpy` or a `pcm_write`.  The two
halves of the code that differ only in the buffers are one, with the buffer
that is being filled as a parameter.  A frame is what `swr_convert` leaves in
`audio_buf`, with a length of `dst_bufsize`; packets without a frame, frames
without converted samples and frames of formats that are not planar do not reach
this code.
-/

namespace CommonCode.Audio

open CommonCode.Lib.Bits
open CommonCode.Lib.CString
open CommonCode.Lib.Transition

/-- `MAX_AUDIO_FRAME_SIZE`. -/
abbrev maxAudioFrameSize : Nat := 40960

/-- The two buffers. -/
inductive Side where
  | one
  | two
deriving DecidableEq

def Side.other : Side → Side
  | .one => .two
  | .two => .one

@[simp]
theorem Side.other_other (side : Side) : side.other.other = side := by
  cases side <;> rfl

@[simp]
theorem Side.other_ne (side : Side) : side.other ≠ side := by
  cases side <;> rintro ⟨⟩

theorem Side.eq_other_of_ne {side other : Side} (apart : other ≠ side) :
    other = side.other := by
  cases side <;> cases other <;> first | rfl | exact absurd rfl apart

/-! ## Program points -/

/--
The points of `main` from `pthread_create` on.  The argument `side` is the
buffer that the branch fills; in the points from `enable` to `setPos` it is the
one that has just been filled.  The numbers are values that have been read.
-/
inductive Decoder where
  | clearFirst
  | setSecond
  | next
  | testOwn (side : Side)
  | testOther (side : Side)
  | fits (side : Side)
  | locate (side : Side)
  | copy (side : Side) (offset : Nat)
  | copying (side : Side) (offset : Nat)
  | loadSum (side : Side)
  | storeSum (side : Side) (pos : Nat)
  | wait (side : Side)
  | enable (side : Side)
  | loadLen (side : Side)
  | storeLen (side : Side) (pos : Nat)
  | resetPos (side : Side)
  | refill (side : Side)
  | refilling (side : Side)
  | setPos (side : Side)
  | finish
  | done
deriving DecidableEq

/-- The points of `pcm_play` from its loop on. -/
inductive Player where
  | poll (side : Side)
  | readLen (side : Side)
  | write (side : Side) (len : Nat)
  | writing (side : Side)
  | clear (side : Side)
  | check
  | left
deriving DecidableEq

/--
The shared variables, the program points, the frames that are still to come,
and three records: the frames decoded and the frames copied into a buffer so
far, and the bytes handed to `pcm_write`.
-/
structure State where
  en : Side → Bool
  len : Side → Nat
  pos : Side → Nat
  buf : Side → List Byte
  audioBuf : List Byte
  convertOver : Bool
  frames : List (List Byte)
  decoder : Decoder
  player : Player
  decoded : List (List Byte)
  copied : List (List Byte)
  played : List Byte

/-- Right after `pthread_create`. -/
def State.start (frames : List (List Byte)) : State where
  en _ := false
  len _ := 0
  pos _ := 0
  buf _ := List.replicate maxAudioFrameSize 0
  audioBuf := []
  convertOver := false
  frames := frames
  decoder := .clearFirst
  player := .poll .two
  decoded := []
  copied := []
  played := []

/-! ## Steps -/

/-- `memcpy(buf + offset, audio_buf, dst_bufsize)`. -/
def State.copyInto (state : State) (side : Side) (offset : Nat) : State :=
  { state with
    buf :=
      Function.update state.buf side
        (store (state.buf side) offset state.audioBuf)
    copied := state.copied ++ [state.audioBuf] }

/-- The point after a test of the flags for a side has failed. -/
def Side.elseBranch : Side → Decoder
  | .one => .testOwn .two
  | .two => .next

/-- A step of the decoder; `none` after its end. -/
def State.decode (state : State) : Option State :=
  match state.decoder with
  | .clearFirst =>
      some
        { state with
          en := Function.update state.en .one false
          decoder := .setSecond }
  | .setSecond =>
      some
        { state with
          en := Function.update state.en .two true
          decoder := .next }
  | .next =>
      match state.frames with
      | [] => some { state with decoder := .finish }
      | frame :: frames =>
          some
            { state with
              audioBuf := frame
              frames := frames
              decoded := state.decoded ++ [frame]
              decoder := .testOwn .one }
  | .testOwn side =>
      if state.en side = false then
        some { state with decoder := .testOther side }
      else some { state with decoder := side.elseBranch }
  | .testOther side =>
      if state.en side.other = true then
        some { state with decoder := .fits side }
      else some { state with decoder := side.elseBranch }
  | .fits side =>
      if state.pos side + state.audioBuf.length > maxAudioFrameSize then
        some { state with decoder := .wait side }
      else some { state with decoder := .locate side }
  | .locate side =>
      some { state with decoder := .copy side (state.pos side) }
  | .copy side offset =>
      some { state with decoder := .copying side offset }
  | .copying side offset =>
      some { state.copyInto side offset with decoder := .loadSum side }
  | .loadSum side =>
      some { state with decoder := .storeSum side (state.pos side) }
  | .storeSum side pos =>
      some
        { state with
          pos :=
            Function.update state.pos side (pos + state.audioBuf.length)
          decoder := .next }
  | .wait side =>
      if state.en side.other = true then some state
      else some { state with decoder := .enable side }
  | .enable side =>
      some
        { state with
          en := Function.update state.en side true
          decoder := .loadLen side }
  | .loadLen side =>
      some { state with decoder := .storeLen side (state.pos side) }
  | .storeLen side pos =>
      some
        { state with
          len := Function.update state.len side pos
          decoder := .resetPos side }
  | .resetPos side =>
      some
        { state with
          pos := Function.update state.pos side 0
          decoder := .refill side }
  | .refill side => some { state with decoder := .refilling side }
  | .refilling side =>
      some { state.copyInto side.other 0 with decoder := .setPos side }
  | .setPos side =>
      some
        { state with
          pos := Function.update state.pos side.other state.audioBuf.length
          decoder := .next }
  | .finish => some { state with convertOver := true, decoder := .done }
  | .done => none

/-- The point after a buffer turned out not to be enabled. -/
def Side.pollNext : Side → Player
  | .two => .poll .one
  | .one => .check

/-- A step of the player; `none` after its end. -/
def State.play (state : State) : Option State :=
  match state.player with
  | .poll side =>
      if state.en side = true then
        some { state with player := .readLen side }
      else some { state with player := side.pollNext }
  | .readLen side =>
      some { state with player := .write side (state.len side) }
  | .write side len =>
      some
        { state with
          played := state.played ++ (state.buf side).take len
          player := .writing side }
  | .writing side => some { state with player := .clear side }
  | .clear side =>
      some
        { state with
          en := Function.update state.en side false
          player := .check }
  | .check =>
      if state.convertOver = false then
        some { state with player := .poll .two }
      else some { state with player := .left }
  | .left => none

/-- The thread that makes a step. -/
inductive Thread where
  | decoder
  | player
deriving DecidableEq

def State.next (state : State) : Thread → Option State
  | .decoder => state.decode
  | .player => state.play

/-- One step of one of the threads. -/
def Step (before : State) (thread : Thread) (after : State) : Prop :=
  before.next thread = some after

/-- The frames that the pipeline is made for. -/
def Playable (frames : List (List Byte)) : Prop :=
  ∀ frame ∈ frames, 1 ≤ frame.length ∧ frame.length ≤ maxAudioFrameSize

end CommonCode.Audio
