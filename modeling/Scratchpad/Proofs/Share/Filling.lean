import Scratchpad.Proofs.Zlib.Suffixes
import Scratchpad.Share.Codec

/-! The room in which a payload is decoded. A decoder is called again and again, each time with the
input that is left and with a buffer that grows whenever it is full. Of the decoder only the rules
are used that every call of it keeps, so what is shown holds for all that a payload may bring about:
the buffer stays within the limit and close to what is needed, and there is an end.
-/

namespace Scratchpad

------------------------------------------------------------------------------------------
-- Decoders
------------------------------------------------------------------------------------------

/-- How a call of a decoder ends: with the end of the stream, for want of room, or in any other way,
which has a name.
-/
inductive DecoderStatus where
  | done
  | full
  | failed (name : String)
deriving DecidableEq

/-- What a call of a decoder gives: how it ended, how many bytes were read and written, the buffer,
and the decoder as it is left.
-/
structure DecoderReply (δ : Type) where
  status : DecoderStatus
  consumed : Nat
  written : Nat
  buffer : List UInt8
  decoder : δ

/-- The rules for a call with a buffer that is written from a position on. How much was read is left
open, as more than there was counts as all of it.
-/
structure DecoderReply.Keeps {δ : Type} (reply : DecoderReply δ) (buffer : List UInt8)
    (position : Nat) : Prop where
  written_le : position + reply.written ≤ buffer.length
  length_eq : reply.buffer.length = buffer.length
  untouched : reply.buffer.take position = buffer.take position
  full : reply.status = .full → position + reply.written = buffer.length

/-- A decoder that can be called again where it has stopped. Every call keeps the rules. -/
structure Decoder (δ : Type) where
  start : δ
  call : δ → List UInt8 → List UInt8 → Nat → DecoderReply δ
  keeps
    : ∀ decoder input buffer position,
        position ≤ buffer.length
        → (call decoder input buffer position).Keeps buffer position

------------------------------------------------------------------------------------------
-- The loop
------------------------------------------------------------------------------------------

/-- A decoder between two calls, with the input that is left and the buffer, of which the bytes
before a position are written.
-/
structure Filling (δ : Type) where
  decoder : δ
  input : List UInt8
  buffer : List UInt8
  position : Nat

/-- What a turn of the loop leads to. -/
inductive Filling.Turn (δ : Type) where
  | again (next : Filling δ)
  | ends (answer : Except TokenError (Array UInt8))

namespace Filling

/-- Twice a number that fits in a word, or the largest that fits. -/
def doubled (number : Nat) : Nat :=
  min (2 * number) (2 ^ 64 - 1)

/-- The length of the buffer for a payload at first. -/
def firstLength (limit : UInt64) (payload : List UInt8) : Nat :=
  min (doubled payload.length) limit.toNat

/-- The length that a buffer grows to. -/
def grownLength (limit : UInt64) (length : Nat) : Nat :=
  min (max (doubled length) 64) limit.toNat

/-- The first bytes of a buffer, with zeros behind them if there are not enough. -/
def resized (buffer : List UInt8) (length : Nat) : List UInt8 :=
  buffer.take length ++ List.replicate (length - buffer.length) 0

variable {δ : Type}

/-- The bytes that have been written. -/
def written (filling : Filling δ) : List UInt8 :=
  filling.buffer.take filling.position

/-- The loop before its first turn. -/
def start (decoder : Decoder δ) (limit : UInt64) (payload : List UInt8) : Filling δ :=
  ⟨decoder.start, payload, List.replicate (firstLength limit payload) 0, 0⟩

/-- Calls the decoder. -/
def reply (decoder : Decoder δ) (filling : Filling δ) : DecoderReply δ :=
  decoder.call filling.decoder filling.input filling.buffer filling.position

/-- The loop behind the call in a turn: what was read is no longer ahead, and what was written is
passed.
-/
def called (decoder : Decoder δ) (filling : Filling δ) : Filling δ :=
  let reply := filling.reply decoder
  ⟨reply.decoder, filling.input.drop reply.consumed, reply.buffer,
    filling.position + reply.written⟩

/-- The loop with a larger buffer. -/
def grown (limit : UInt64) (filling : Filling δ) : Filling δ :=
  { filling with buffer := resized filling.buffer (grownLength limit filling.buffer.length) }

/-- One turn: a call, and what follows from the way in which it ends. -/
def turn (decoder : Decoder δ) (limit : UInt64) (filling : Filling δ) : Turn δ :=
  let after := filling.called decoder
  match (filling.reply decoder).status with
  | .done =>
    if after.input = [] then
      .ends (.ok after.written.toArray)
    else
      .ends (.error (.corrupt s!"{after.input.length} trailing bytes after stream"))
  | .full =>
    if limit.toNat ≤ after.buffer.length then
      .ends (.error (.tooLarge limit.toNat))
    else
      .again (after.grown limit)
  | .failed name => .ends (.error (.corrupt name))

/-- The loop before each of its turns over a payload. -/
inductive Reached (decoder : Decoder δ) (limit : UInt64) (payload : List UInt8) : Filling δ → Prop
  | start : Reached decoder limit payload (start decoder limit payload)
  | again {filling next} (before : Reached decoder limit payload filling)
    (turned : filling.turn decoder limit = .again next)
    : Reached decoder limit payload next

/-- After finitely many turns the loop ends with an answer. -/
inductive Ends (decoder : Decoder δ) (limit : UInt64)
    : Filling δ → Except TokenError (Array UInt8) → Prop
  | now {filling answer} (turned : filling.turn decoder limit = .ends answer)
    : Ends decoder limit filling answer
  | later {filling next answer} (turned : filling.turn decoder limit = .again next)
    (ends : Ends decoder limit next answer)
    : Ends decoder limit filling answer

------------------------------------------------------------------------------------------
-- What every turn keeps
------------------------------------------------------------------------------------------

/-- The buffer is within the limit, and no larger than the payload or what was written asks for;
what is left of the input is a suffix of the payload.
-/
structure Sound (limit : UInt64) (payload : List UInt8) (filling : Filling δ) : Prop where
  position_le : filling.position ≤ filling.buffer.length
  length_le : filling.buffer.length ≤ limit.toNat
  length_le_need
    : filling.buffer.length ≤ max (max (2 * payload.length) 64) (2 * filling.position)
  suffix : filling.input <:+ payload

/-- What growing does to the loop: the buffer becomes longer, which brings it nearer to the limit,
and all that stands in it stays; nothing else is changed.
-/
structure Extends (limit : UInt64) (filling next : Filling δ) : Prop where
  length_lt : filling.buffer.length < next.buffer.length
  room_lt : limit.toNat - next.buffer.length < limit.toNat - filling.buffer.length
  buffer : filling.buffer <+: next.buffer
  position_eq : next.position = filling.position
  input_eq : next.input = filling.input
  decoder_eq : next.decoder = filling.decoder

variable {decoder : Decoder δ} {limit : UInt64} {payload : List UInt8} {filling next : Filling δ}

/-- A buffer below the limit grows, also an empty one and one that is too long to be doubled. -/
theorem lt_grownLength {length : Nat} (below : length < limit.toNat)
    : length < grownLength limit length := by
  have word := limit.toNat_lt
  simp only [grownLength, doubled]
  omega

example : grownLength 0xFFFFFFFFFFFFFFFF 0x8000000000000000 = 0xFFFFFFFFFFFFFFFF := by decide

theorem grownLength_le (limit : UInt64) (length : Nat)
    : grownLength limit length ≤ limit.toNat :=
  Nat.min_le_right _ _

theorem grownLength_le_need (limit : UInt64) (length : Nat)
    : grownLength limit length ≤ max 64 (2 * length) := by
  simp only [grownLength, doubled]
  omega

theorem length_resized (buffer : List UInt8) (length : Nat)
    : (resized buffer length).length = length := by
  rw [resized, List.length_append, List.length_take, List.length_replicate]
  omega

/-- A buffer that does not become shorter keeps its bytes. -/
theorem prefix_resized {buffer : List UInt8} {length : Nat} (longer : buffer.length ≤ length)
    : buffer <+: resized buffer length := by
  rw [resized, List.take_of_length_le longer]
  exact List.prefix_append _ _

/-- A turn goes on exactly if the buffer is full and below the limit, and then the buffer grows. -/
theorem turn_eq_again_iff
    : filling.turn decoder limit = .again next
      ↔ (filling.reply decoder).status = .full
        ∧ (filling.called decoder).buffer.length < limit.toNat
        ∧ next = (filling.called decoder).grown limit := by
  rw [turn]
  cases status : (filling.reply decoder).status with
  | done =>
      by_cases empty : (filling.called decoder).input = [] <;> simp [empty]
  | full =>
      by_cases reached : limit.toNat ≤ (filling.called decoder).buffer.length
      · simp [reached, Nat.not_lt.mpr reached]
      · simp [reached, Nat.lt_of_not_le reached, eq_comm]
  | failed name => simp

theorem start_sound (decoder : Decoder δ) (limit : UInt64) (payload : List UInt8)
    : (start decoder limit payload).Sound limit payload := by
  have length : (start decoder limit payload).buffer.length = firstLength limit payload :=
    List.length_replicate
  constructor
  case position_le => exact Nat.zero_le _
  case length_le => exact length ▸ Nat.min_le_right _ _
  case length_le_need =>
    rw [length, firstLength, doubled]
    omega
  case suffix => exact List.suffix_rfl

theorem reply_keeps (decoder : Decoder δ) (within : filling.position ≤ filling.buffer.length)
    : (filling.reply decoder).Keeps filling.buffer filling.position :=
  decoder.keeps filling.decoder filling.input filling.buffer filling.position within

theorem length_called (decoder : Decoder δ) (within : filling.position ≤ filling.buffer.length)
    : (filling.called decoder).buffer.length = filling.buffer.length :=
  (reply_keeps decoder within).length_eq

/-- A call keeps the bounds, and what was written before it. -/
theorem called_sound (decoder : Decoder δ) (sound : filling.Sound limit payload)
    : (filling.called decoder).Sound limit payload
      ∧ filling.written <+: (filling.called decoder).written := by
  have keeps := reply_keeps decoder sound.position_le
  have length := length_called decoder sound.position_le
  have position
      : (filling.called decoder).position = filling.position + (filling.reply decoder).written :=
    rfl
  refine ⟨?_, ?_⟩
  · constructor
    case position_le =>
      rw [length]
      exact keeps.written_le
    case length_le => exact length ▸ sound.length_le
    case length_le_need =>
      have need := sound.length_le_need
      omega
    case suffix => exact (List.drop_suffix _ _).trans sound.suffix
  · have untouched : filling.written = (filling.called decoder).buffer.take filling.position :=
      keeps.untouched.symm
    rw [untouched, written, position]
    exact List.take_prefix_take_left (Nat.le_add_right _ _)

/-- In a turn that goes on the buffer is full behind the call. -/
theorem position_called (sound : filling.Sound limit payload)
    (turned : filling.turn decoder limit = .again next)
    : (filling.called decoder).position = (filling.called decoder).buffer.length := by
  have full := (reply_keeps decoder sound.position_le).full (turn_eq_again_iff.mp turned).1
  exact full.trans (length_called decoder sound.position_le).symm

/-- Growing at the end of a turn extends the loop as the call has left it. -/
theorem extends_of_again (turned : filling.turn decoder limit = .again next)
    : (filling.called decoder).Extends limit next := by
  obtain ⟨-, below, rfl⟩ := turn_eq_again_iff.mp turned
  have longer := lt_grownLength below
  have length := length_resized (filling.called decoder).buffer
    (grownLength limit (filling.called decoder).buffer.length)
  constructor
  case length_lt => exact Nat.lt_of_lt_of_eq longer length.symm
  case room_lt =>
    simp only [grown, length]
    omega
  case buffer => exact prefix_resized (Nat.le_of_lt longer)
  case position_eq => rfl
  case input_eq => rfl
  case decoder_eq => rfl

theorem turn_sound (sound : filling.Sound limit payload)
    (turned : filling.turn decoder limit = .again next)
    : next.Sound limit payload := by
  obtain ⟨after, -⟩ := called_sound decoder sound
  have extended := extends_of_again turned
  have full := position_called sound turned
  obtain ⟨-, -, same⟩ := turn_eq_again_iff.mp turned
  have length : next.buffer.length = grownLength limit (filling.called decoder).buffer.length := by
    rw [same]
    exact length_resized _ _
  constructor
  case position_le =>
    have longer := extended.length_lt
    rw [extended.position_eq, full]
    exact Nat.le_of_lt longer
  case length_le => exact length ▸ grownLength_le _ _
  case length_le_need =>
    have need := grownLength_le_need limit (filling.called decoder).buffer.length
    rw [length, extended.position_eq, full]
    omega
  case suffix => exact extended.input_eq ▸ after.suffix

/-- The bounds hold before every turn, by induction over the turns. -/
theorem Reached.sound (reached : Reached decoder limit payload filling)
    : filling.Sound limit payload := by
  induction reached with
  | start => exact start_sound decoder limit payload
  | again before turned ih => exact turn_sound ih turned

/-- Growing changes nothing of what is written. -/
theorem Extends.written_eq (extended : filling.Extends limit next)
    (within : filling.position ≤ filling.buffer.length)
    : next.written = filling.written := by
  obtain ⟨more, grown⟩ := extended.buffer
  rw [written, written, extended.position_eq, ← grown, List.take_append_of_le_length within]

/-- A turn leaves all that was written before it at the front of what is written behind it. -/
theorem written_prefix_of_again (sound : filling.Sound limit payload)
    (turned : filling.turn decoder limit = .again next)
    : filling.written <+: next.written := by
  obtain ⟨after, kept⟩ := called_sound decoder sound
  rwa [(extends_of_again turned).written_eq after.position_le]

------------------------------------------------------------------------------------------
-- The end
------------------------------------------------------------------------------------------

/-- There is an end, by induction on the room that is left below the limit. -/
theorem Sound.exists_ends (decoder : Decoder δ) (sound : filling.Sound limit payload)
    : ∃ answer, Ends decoder limit filling answer := by
  induction room : limit.toNat - filling.buffer.length using Nat.strongRecOn
    generalizing filling with
  | ind _ ih =>
    cases turned : filling.turn decoder limit with
    | ends answer => exact ⟨answer, .now turned⟩
    | again next =>
        have less := (extends_of_again turned).room_lt
        rw [length_called decoder sound.position_le, room] at less
        obtain ⟨answer, ends⟩ := ih _ less (turn_sound sound turned) rfl
        exact ⟨answer, .later turned ends⟩

/-- A turn that goes on leaves the end as it is. -/
theorem Ends.of_again {answer : Except TokenError (Array UInt8)}
    (ends : Ends decoder limit filling answer)
    (turned : filling.turn decoder limit = .again next)
    : Ends decoder limit next answer := by
  cases ends with
  | now other => cases turned.symm.trans other
  | later other ends =>
      obtain rfl := Turn.again.inj (turned.symm.trans other)
      exact ends

theorem Ends.unique {first second : Except TokenError (Array UInt8)}
    (ends : Ends decoder limit filling first) (again : Ends decoder limit filling second)
    : first = second := by
  induction ends with
  | now turned =>
      cases again with
      | now other => exact Turn.ends.inj (turned.symm.trans other)
      | later other _ => cases turned.symm.trans other
  | later turned _ ih => exact ih (again.of_again turned)

/-- The loop has the same end before each of its turns, by induction over the turns. -/
theorem Reached.ends {answer : Except TokenError (Array UInt8)}
    (reached : Reached decoder limit payload filling)
    (ends : Ends decoder limit (Filling.start decoder limit payload) answer)
    : Ends decoder limit filling answer := by
  induction reached with
  | start => exact ends
  | again before turned ih => exact ih.of_again turned

/-- The bytes of an answer are those that were written in the end: they fit in the limit, and what
was written before any turn is at their front.
-/
theorem Ends.bytes {answer : Except TokenError (Array UInt8)}
    (ends : Ends decoder limit filling answer) (sound : filling.Sound limit payload)
    {bytes : Array UInt8} (ok : answer = .ok bytes)
    : bytes.size ≤ limit.toNat ∧ filling.written <+: bytes.toList := by
  induction ends with
  | @now filling answer turned =>
      obtain ⟨after, kept⟩ := called_sound decoder sound
      subst ok
      rw [turn] at turned
      split at turned
      · split at turned
        · obtain rfl := Except.ok.inj (Turn.ends.inj turned)
          refine ⟨?_, kept⟩
          rw [List.size_toArray]
          exact (List.length_take_le' _ _).trans after.length_le
        · cases turned
      · split at turned <;> cases turned
      · cases turned
  | later turned _ ih =>
      obtain ⟨fits, front⟩ := ih (turn_sound sound turned) ok
      exact ⟨fits, (written_prefix_of_again sound turned).trans front⟩

end Filling

------------------------------------------------------------------------------------------
-- Inflaters as decoders
------------------------------------------------------------------------------------------

namespace Zlib

/-- What an inflater keeps from call to call: where it stands, and the bits that are left of the
last byte it has read.
-/
structure Suspension where
  phase : Phase
  pending : List Bool

namespace Suspension

/-- The inflater that goes on with some input behind what was written. -/
def resume (suspension : Suspension) (input written : List UInt8) : Inflater :=
  ⟨suspension.phase, ⟨suspension.pending, input⟩, written.toArray⟩

/-- The reply to a call after which `rest` is left of the input and `out` has been written at the
front of the buffer.
-/
def progress (status : DecoderStatus) (input rest buffer : List UInt8) (position : Nat)
    (out : Array UInt8) (left : Suspension) : DecoderReply Suspension :=
  ⟨status, input.length - rest.length, out.size - position, out.toList ++ buffer.drop out.size,
    left⟩

/-- The reply to a call, by the way in which the run of the inflater came to its end. Of a flawed
stream nothing is handed on.
-/
def replyTo (suspension : Suspension) (input buffer : List UInt8) (position : Nat)
    : Inflater.Halt → DecoderReply Suspension
  | .full inflater =>
    progress .full input inflater.reader.rest buffer position inflater.out
      ⟨inflater.phase, inflater.reader.pending⟩
  | .done out rest => progress .done input rest buffer position out suspension
  | .flawed flaw => ⟨.failed flaw.name, 0, 0, buffer, suspension⟩

/-- Calls an inflater with the whole buffer as its room. -/
def call (suspension : Suspension) (input buffer : List UInt8) (position : Nat)
    : DecoderReply Suspension :=
  let inflater := suspension.resume input (buffer.take position)
  suspension.replyTo input buffer position (inflater.run buffer.length)

variable {input rest buffer : List UInt8} {position : Nat} {out : Array UInt8}

/-- What stands in the room for the first bytes is at the front of all that is written. -/
theorem position_le_size (within : position ≤ buffer.length)
    (front : buffer.take position <+: out.toList)
    : position ≤ out.size := by
  have shorter := front.length_le
  rwa [List.length_take, Nat.min_eq_left within, Array.length_toList] at shorter

/-- Progress keeps the rules if it writes behind what was written and stays within the buffer. -/
theorem progress_keeps {status : DecoderStatus} {left : Suspension}
    (within : position ≤ buffer.length) (front : buffer.take position <+: out.toList)
    (fits : out.size ≤ buffer.length) (full : status = .full → out.size = buffer.length)
    : (progress status input rest buffer position out left).Keeps buffer position := by
  have behind := position_le_size within front
  have size : position + (out.size - position) = out.size := Nat.add_sub_cancel' behind
  constructor
  case written_le => exact size.trans_le fits
  case length_eq =>
    simp only [progress, List.length_append, List.length_drop, Array.length_toList]
    omega
  case untouched =>
    obtain ⟨more, same⟩ := front
    simp only [progress, ← same, List.append_assoc]
    exact List.take_left' (by rw [List.length_take, Nat.min_eq_left within])
  case full => exact fun isFull => size.trans (full isFull)

/-- Every call of an inflater keeps the rules. -/
theorem call_keeps (suspension : Suspension) (input buffer : List UInt8) (position : Nat)
    (within : position ≤ buffer.length)
    : (suspension.call input buffer position).Keeps buffer position := by
  let inflater := suspension.resume input (buffer.take position)
  have fits : inflater.out.size ≤ buffer.length := by
    change (buffer.take position).toArray.size ≤ _
    rw [List.size_toArray]
    exact List.length_take_le' _ _
  have part := inflater.run_partOf buffer.length fits
  have leaves := inflater.run_leaves buffer.length
  rw [call]
  cases halted : inflater.run buffer.length with
  | full suspended =>
      rw [halted] at part leaves
      obtain ⟨-, filled, -⟩ := part
      exact progress_keeps within leaves.2 (Nat.le_of_eq filled) (fun _ => filled)
  | done out rest =>
      rw [halted] at part leaves
      exact progress_keeps within leaves.2 part.1 (fun isFull => by cases isFull)
  | flawed flaw =>
      exact ⟨within, rfl, rfl, fun isFull => by cases isFull⟩

end Suspension

/-- The decoder that the inflater is. -/
def decoder : Decoder Suspension where
  start := ⟨.header, []⟩
  call := Suspension.call
  keeps := Suspension.call_keeps

end Zlib

------------------------------------------------------------------------------------------
-- The loop over an inflater
------------------------------------------------------------------------------------------

/-- The answer of a codec to what comes of a payload. -/
def Codec.answerOf (limit : Nat)
    : Except Zlib.InflateError (Array UInt8) → Except TokenError (Array UInt8)
  | .ok bytes => .ok bytes
  | .error .tooLarge => .error (.tooLarge limit)
  | .error (.flawed flaw) => .error (.corrupt flaw.name)
  | .error (.trailing count) => .error (.corrupt s!"{count} trailing bytes after stream")

theorem Codec.inflate_eq_answerOf (limit : Nat) (payload : List UInt8)
    : inflate limit payload = answerOf limit (Zlib.inflate limit payload) := rfl

namespace Filling

open Zlib (Suspension Inflater)

variable {limit : UInt64} {filling : Filling Suspension}

theorem grownLength_eq (limit : UInt64) (length : Nat)
    : grownLength limit length = Zlib.grownCapacity limit.toNat length := by
  have word := limit.toNat_lt
  simp only [grownLength, doubled, Zlib.grownCapacity]
  omega

theorem firstLength_eq (limit : UInt64) (payload : List UInt8)
    : firstLength limit payload = min (2 * payload.length) limit.toNat := by
  have word := limit.toNat_lt
  simp only [firstLength, doubled]
  omega

/-- The inflater that goes on in the next turn. -/
def inflater (filling : Filling Suspension) : Inflater :=
  filling.decoder.resume filling.input filling.written

theorem reply_of_run {halt : Inflater.Halt}
    (halted : filling.inflater.run filling.buffer.length = halt)
    : filling.reply Zlib.decoder
      = filling.decoder.replyTo filling.input filling.buffer filling.position halt := by
  rw [← halted]
  rfl

/-- Behind a call that made progress, the rest of the input is ahead, and all output is written. -/
theorem called_of_progress {status : DecoderStatus} {rest : List UInt8} {out : Array UInt8}
    {left : Suspension} (within : filling.position ≤ filling.buffer.length)
    (replied : filling.reply Zlib.decoder
      = Suspension.progress status filling.input rest filling.buffer filling.position out left)
    (suffix : rest <:+ filling.input) (front : filling.written <+: out.toList)
    : (filling.called Zlib.decoder).decoder = left
      ∧ (filling.called Zlib.decoder).input = rest
      ∧ (filling.called Zlib.decoder).written = out.toList := by
  have behind := Suspension.position_le_size within front
  rw [called, replied]
  refine ⟨rfl, (List.suffix_iff_eq_drop.mp suffix).symm, ?_⟩
  exact List.take_left' (Array.length_toList.trans (Nat.add_sub_cancel' behind).symm)

/-- A stream that has ended is answered with all that was written, if nothing follows it. -/
theorem turn_of_done {out : Array UInt8} {rest : List UInt8}
    (within : filling.position ≤ filling.buffer.length)
    (halted : filling.inflater.run filling.buffer.length = .done out rest)
    : filling.turn Zlib.decoder limit
      = .ends (if rest = [] then .ok out
          else .error (.corrupt s!"{rest.length} trailing bytes after stream")) := by
  have replied := reply_of_run halted
  have leaves := filling.inflater.run_leaves filling.buffer.length
  rw [halted] at leaves
  obtain ⟨-, ahead, written⟩ := called_of_progress within replied leaves.1 leaves.2
  have status : (filling.reply Zlib.decoder).status = .done := by rw [replied]; rfl
  rw [turn, status]
  simp only [ahead, written, Array.toArray_toList]
  split <;> rfl

theorem turn_of_flawed {flaw : Zlib.Flaw}
    (halted : filling.inflater.run filling.buffer.length = .flawed flaw)
    : filling.turn Zlib.decoder limit = .ends (.error (.corrupt flaw.name)) := by
  have status : (filling.reply Zlib.decoder).status = .failed flaw.name := by
    rw [reply_of_run halted]
    rfl
  rw [turn, status]

/-- The buffer is not made longer than the limit for a byte without room. -/
theorem turn_of_full_at_limit {suspended : Inflater}
    (within : filling.position ≤ filling.buffer.length)
    (halted : filling.inflater.run filling.buffer.length = .full suspended)
    (reached : limit.toNat ≤ filling.buffer.length)
    : filling.turn Zlib.decoder limit = .ends (.error (.tooLarge limit.toNat)) := by
  have status : (filling.reply Zlib.decoder).status = .full := by
    rw [reply_of_run halted]
    rfl
  rw [turn, status]
  exact if_pos (reached.trans_eq (length_called Zlib.decoder within).symm)

/-- Below the limit the inflater goes on where it was suspended, with more room. -/
theorem turn_of_full {suspended : Inflater}
    (within : filling.position ≤ filling.buffer.length)
    (halted : filling.inflater.run filling.buffer.length = .full suspended)
    (below : filling.buffer.length < limit.toNat)
    : ∃ next, filling.turn Zlib.decoder limit = .again next
        ∧ next.inflater = suspended
        ∧ next.buffer.length = Zlib.grownCapacity limit.toNat filling.buffer.length := by
  have replied := reply_of_run halted
  have leaves := filling.inflater.run_leaves filling.buffer.length
  rw [halted] at leaves
  have status : (filling.reply Zlib.decoder).status = .full := by rw [replied]; rfl
  have length := length_called Zlib.decoder within
  have turned
      : filling.turn Zlib.decoder limit = .again ((filling.called Zlib.decoder).grown limit) :=
    turn_eq_again_iff.mpr ⟨status, length ▸ below, rfl⟩
  refine ⟨_, turned, ?_, ?_⟩
  · obtain ⟨left, ahead, written⟩ := called_of_progress within replied leaves.1 leaves.2
    have extended := extends_of_again turned
    have passed
        : (filling.called Zlib.decoder).position ≤ (filling.called Zlib.decoder).buffer.length :=
      (reply_keeps Zlib.decoder within).written_le.trans_eq length.symm
    rw [inflater, extended.decoder_eq, extended.input_eq, extended.written_eq passed, left, ahead,
      written]
    rfl
  · rw [← grownLength_eq, ← length]
    exact length_resized _ _

/-- The loop ends with what comes of running the inflater with more and more room; by induction over
the growth, with an inflater that stands where the loop does.
-/
theorem ends_inflateFrom {payload : List UInt8} (sound : filling.Sound limit payload)
    : Ends Zlib.decoder limit filling
        (Codec.answerOf limit.toNat
          (Zlib.inflateFrom limit.toNat filling.buffer.length filling.inflater)) := by
  generalize length : filling.buffer.length = capacity
  generalize resumed : filling.inflater = inflater
  fun_induction Zlib.inflateFrom limit.toNat capacity inflater generalizing filling with
  | case1 capacity inflater out halted =>
      subst length resumed
      exact .now (turn_of_done sound.position_le halted)
  | case2 capacity inflater out rest nonempty halted =>
      subst length resumed
      have turned : filling.turn Zlib.decoder limit = _ := turn_of_done sound.position_le halted
      rw [if_neg nonempty] at turned
      exact .now turned
  | case3 capacity inflater flaw halted =>
      subst length resumed
      exact .now (turn_of_flawed halted)
  | case4 capacity inflater suspended halted room _ ih =>
      subst length resumed
      obtain ⟨next, turned, continued, grown⟩ := turn_of_full sound.position_le halted room
      exact .later turned (ih (turn_sound sound turned) grown continued)
  | case5 capacity inflater suspended halted full =>
      subst length resumed
      exact .now (turn_of_full_at_limit sound.position_le halted (Nat.le_of_not_lt full))

/-- The room in which a payload is decoded stays within bounds, and the loop has an end, whatever
the decoder makes of the payload as long as it keeps the rules. Before every turn, and behind the
call in it, what is written stands within the buffer, the buffer is no longer than the limit and
than the payload or the output asks for, and the input is a suffix of the payload. A turn that goes
on has filled the buffer and makes it longer, with all that stands in it. The loop comes to one
answer; if that is some bytes, they fit in the limit and start with what was written before each of
the turns. Over an inflater this is the answer of a codec with the limit.
-/
theorem ends_within_limit {δ : Type} (decoder : Decoder δ) (limit : UInt64) (payload : List UInt8)
    : (∀ filling, Reached decoder limit payload filling →
        filling.Sound limit payload
        ∧ (filling.called decoder).Sound limit payload
        ∧ filling.written <+: (filling.called decoder).written
        ∧ ∀ next, filling.turn decoder limit = .again next →
            (filling.called decoder).position = filling.buffer.length
            ∧ (filling.called decoder).Extends limit next
            ∧ limit.toNat - next.buffer.length < limit.toNat - filling.buffer.length)
      ∧ (∃! answer, Ends decoder limit (start decoder limit payload) answer)
      ∧ (∀ bytes, Ends decoder limit (start decoder limit payload) (.ok bytes) →
        bytes.size ≤ limit.toNat
        ∧ ∀ filling, Reached decoder limit payload filling → filling.written <+: bytes.toList)
      ∧ Ends Zlib.decoder limit (start Zlib.decoder limit payload)
          (Codec.inflate limit.toNat payload) := by
  refine ⟨?_, ?_, ?_, ?_⟩
  · intro filling reached
    have sound := reached.sound
    have length := length_called decoder sound.position_le
    obtain ⟨after, kept⟩ := called_sound decoder sound
    refine ⟨sound, after, kept, ?_⟩
    intro next turned
    have extended := extends_of_again turned
    exact ⟨(position_called sound turned).trans length, extended, length ▸ extended.room_lt⟩
  · obtain ⟨answer, ends⟩ := (start_sound decoder limit payload).exists_ends decoder
    exact ⟨answer, ends, fun other again => again.unique ends⟩
  · intro bytes ends
    refine ⟨(ends.bytes (start_sound decoder limit payload) rfl).1, ?_⟩
    intro filling reached
    exact ((reached.ends ends).bytes reached.sound rfl).2
  · have ends := ends_inflateFrom (start_sound Zlib.decoder limit payload)
    have length : (start Zlib.decoder limit payload).buffer.length
        = min (2 * payload.length) limit.toNat :=
      List.length_replicate.trans (firstLength_eq limit payload)
    rw [length] at ends
    rw [Codec.inflate_eq_answerOf]
    exact ends

end Filling

end Scratchpad
