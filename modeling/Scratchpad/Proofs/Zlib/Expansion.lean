import Mathlib
import Scratchpad.Zlib.Inflater

/-! Decoding into an output that never fills, and what a limit makes of it.
The main statement is that suspending at a full buffer, growing it and going on gives the same
answer as one decoder without a bound whose output is measured against the limit at the end.
-/

namespace Scratchpad.Zlib

/-- How a decoder comes to its end when there is always room to write. -/
inductive Ending where
  /-- The checksum was right, and these bytes follow it. -/
  | complete (rest : List UInt8)
  /-- What comes next is no part of a stream. -/
  | flawed (flaw : Flaw)
  /-- The input ends where the next byte of a stored block is due. -/
  | starved
deriving DecidableEq

/-- All that a decoder writes before it ends, and how it ends. -/
structure Expansion where
  written : Array UInt8
  ending : Ending
deriving DecidableEq

/-- The output is too large for a limit if more was written, or if a stored block still owes
bytes when the limit is reached: room is asked for before the input is looked at.
-/
def Expansion.Exceeds (expansion : Expansion) (limit : Nat) : Prop :=
  limit < expansion.written.size
  ∨ (expansion.written.size = limit ∧ expansion.ending = .starved)

instance (expansion : Expansion) (limit : Nat) : Decidable (expansion.Exceeds limit) :=
  inferInstanceAs (Decidable (_ ∨ _))

/-- What a limit makes of an expansion: size is judged before all else. -/
def Expansion.within (expansion : Expansion) (limit : Nat)
    : Except InflateError (Array UInt8) :=
  if expansion.Exceeds limit then
    .error .tooLarge
  else
    match expansion.ending with
    | .complete [] => .ok expansion.written
    | .complete rest => .error (.trailing rest.length)
    | .flawed flaw => .error (.flawed flaw)
    | .starved => .error (.flawed .truncated)

namespace Inflater

/-- Goes on to the end of the stream with room for every byte. -/
def expand (inflater : Inflater) : Expansion :=
  match _stepped : inflater.step with
  | .more next => next.expand
  | .done out rest => ⟨out, .complete rest⟩
  | .flawed flaw =>
    ⟨inflater.out, if inflater.phase.writes then .starved else .flawed flaw⟩
termination_by inflater.remaining
decreasing_by exact remaining_step ‹_›

end Inflater

/-- The expansion of a payload from its first byte on. -/
def expand (payload : List UInt8) : Expansion :=
  (Inflater.ofPayload payload).expand

namespace Inflater

------------------------------------------------------------------------------------------
-- What one step writes
------------------------------------------------------------------------------------------

/-- A step that only reads: it writes nothing, and the stream does not end with it. -/
def Step.Reads (out : Array UInt8) : Step → Prop
  | .more next => next.out = out
  | .done _ _ => False
  | .flawed _ => True

theorem readHeader_reads (reader : BitReader) (out : Array UInt8)
    : (readHeader reader out).Reads out := by
  simp only [readHeader]
  repeat' split
  all_goals trivial

theorem readStored_reads (last : Bool) (reader : BitReader) (out : Array UInt8)
    : (readStored last reader out).Reads out := by
  simp only [readStored]
  repeat' split
  all_goals trivial

theorem readBlock_reads (reader : BitReader) (out : Array UInt8)
    : (readBlock reader out).Reads out := by
  simp only [readBlock]
  split
  · trivial
  · split
    · trivial
    · exact readStored_reads _ _ out
    · trivial
    · split <;> trivial
    · trivial

theorem readDistance_reads (context : BlockContext) (length : Nat) (reader : BitReader)
    (out : Array UInt8)
    : (readDistance context length reader out).Reads out := by
  simp only [readDistance]
  repeat' split
  all_goals trivial

theorem readSymbol_reads (context : BlockContext) (reader : BitReader) (out : Array UInt8)
    : (readSymbol context reader out).Reads out := by
  simp only [readSymbol]
  split
  · trivial
  · split
    · trivial
    · split
      · trivial
      · split
        · trivial
        · split
          · trivial
          · exact readDistance_reads context _ _ out

/-- All that a step can do: in a phase that writes it appends one byte, or fails for want of one;
in any other phase it leaves the output alone, and only there can the stream end.
-/
def Step.Follows (inflater : Inflater) : Step → Prop
  | .more next =>
      if inflater.phase.writes then
        ∃ byte, next.out = inflater.out.push byte
      else
        next.out = inflater.out
  | .done out _ => inflater.phase.writes = false ∧ out = inflater.out
  | .flawed flaw => inflater.phase.writes = true → flaw = .truncated

theorem Step.Reads.follows {inflater : Inflater} {step : Step}
    (reads : step.Reads inflater.out) (idle : inflater.phase.writes = false)
    : step.Follows inflater := by
  cases step with
  | more next => simpa [Step.Follows, idle] using (show next.out = _ from reads)
  | done out rest => exact reads.elim
  | flawed flaw => simp [Step.Follows, idle]

/-- Every step does what its phase allows, by cases on the phase. -/
theorem step_follows (inflater : Inflater)
    : inflater.step.Follows inflater := by
  obtain ⟨phase, reader, out⟩ := inflater
  cases phase with
  | header => exact (readHeader_reads reader out).follows rfl
  | block => exact (readBlock_reads reader out).follows rfl
  | stored left last =>
      cases left with
      | zero => simp [step, Step.Follows, Phase.writes]
      | succ left =>
          simp only [step]
          split
          · simp [Step.Follows]
          · simp only [Step.Follows, Phase.writes]
            exact ⟨_, rfl⟩
  | symbol context => exact (readSymbol_reads context reader out).follows rfl
  | literal byte context => exact ⟨byte, rfl⟩
  | matching left distance context =>
      obtain ⟨left, bound⟩ := left
      cases left with
      | zero => simp [step, Step.Follows, Phase.writes]
      | succ left => exact ⟨_, rfl⟩
  | trailer =>
      simp only [step, readTrailer]
      repeat' split
      · simp [Step.Follows, Phase.writes]
      · exact ⟨rfl, rfl⟩
      · simp [Step.Follows, Phase.writes]

------------------------------------------------------------------------------------------
-- A decoder without a bound
------------------------------------------------------------------------------------------

theorem expand_of_more {inflater next : Inflater} (stepped : inflater.step = .more next)
    : inflater.expand = next.expand := by
  rw [expand]
  split
  · rename_i other same
    rw [Step.more.inj (stepped.symm.trans same)]
  · rename_i same
    simp [stepped] at same
  · rename_i same
    simp [stepped] at same

theorem expand_of_done {inflater : Inflater} {out : Array UInt8} {rest : List UInt8}
    (stepped : inflater.step = .done out rest)
    : inflater.expand = ⟨out, .complete rest⟩ := by
  rw [expand]
  split
  · rename_i same
    simp [stepped] at same
  · rename_i same
    obtain ⟨rfl, rfl⟩ := Step.done.inj (stepped.symm.trans same)
    rfl
  · rename_i same
    simp [stepped] at same

theorem expand_of_flawed {inflater : Inflater} {flaw : Flaw}
    (stepped : inflater.step = .flawed flaw)
    : inflater.expand
      = ⟨inflater.out, if inflater.phase.writes then .starved else .flawed flaw⟩ := by
  rw [expand]
  split
  · rename_i same
    simp [stepped] at same
  · rename_i same
    simp [stepped] at same
  · rename_i same
    rw [Step.flawed.inj (stepped.symm.trans same)]

/-- What is written stays written, by induction over the steps. -/
theorem size_le_expand (inflater : Inflater)
    : inflater.out.size ≤ inflater.expand.written.size := by
  fun_induction expand inflater with
  | case1 inflater next stepped ih =>
      have follows := inflater.step_follows
      rw [stepped] at follows
      simp only [Step.Follows] at follows
      split at follows
      · obtain ⟨byte, pushed⟩ := follows
        rw [pushed, Array.size_push] at ih
        omega
      · rwa [follows] at ih
  | case2 inflater out rest stepped =>
      have follows := inflater.step_follows
      rw [stepped] at follows
      obtain ⟨-, rfl⟩ := follows
      exact Nat.le_refl _
  | case3 inflater flaw stepped => exact Nat.le_refl _

/-- Where a byte is due it is written, unless the input ends inside a stored block. -/
theorem expand_of_writes {inflater : Inflater} (writes : inflater.phase.writes = true)
    : inflater.out.size < inflater.expand.written.size
      ∨ inflater.expand = ⟨inflater.out, .starved⟩ := by
  have follows := inflater.step_follows
  cases stepped : inflater.step with
  | more next =>
      simp only [stepped, Step.Follows, writes, if_true] at follows
      obtain ⟨byte, pushed⟩ := follows
      have := next.size_le_expand
      rw [pushed, Array.size_push] at this
      rw [expand_of_more stepped]
      exact .inl (by omega)
  | done out rest =>
      rw [stepped] at follows
      simp [follows.1] at writes
  | flawed flaw => exact .inr (by rw [expand_of_flawed stepped, if_pos writes])

------------------------------------------------------------------------------------------
-- A decoder with room for some bytes
------------------------------------------------------------------------------------------

/-- How a run that had room for `capacity` bytes is a part of an expansion. -/
def Halt.PartOf (expansion : Expansion) (capacity : Nat) : Halt → Prop
  | .full suspended =>
      suspended.phase.writes = true
      ∧ suspended.out.size = capacity
      ∧ suspended.expand = expansion
  | .done out rest => out.size ≤ capacity ∧ expansion = ⟨out, .complete rest⟩
  | .flawed flaw =>
      (expansion.written.size ≤ capacity ∧ expansion.ending = .flawed flaw)
      ∨ (expansion.written.size < capacity ∧ expansion.ending = .starved
        ∧ flaw = .truncated)

/-- A run stops where the expansion ends or where a byte finds no room, by induction over the
steps; the output never outgrows the room.
-/
theorem run_partOf (capacity : Nat) (inflater : Inflater)
    (fits : inflater.out.size ≤ capacity)
    : (inflater.run capacity).PartOf inflater.expand capacity := by
  fun_induction run capacity inflater with
  | case1 inflater blocked =>
      simp only [Bool.and_eq_true, decide_eq_true_eq] at blocked
      exact ⟨blocked.1, Nat.le_antisymm fits blocked.2, rfl⟩
  | case2 inflater free next stepped ih =>
      rw [expand_of_more stepped]
      apply ih
      have follows := inflater.step_follows
      rw [stepped] at follows
      simp only [Step.Follows] at follows
      split at follows
      · rename_i writes
        obtain ⟨byte, pushed⟩ := follows
        simp only [writes, Bool.true_and, decide_eq_true_eq] at free
        rw [pushed, Array.size_push]
        omega
      · rwa [follows]
  | case3 inflater free out rest stepped =>
      have follows := inflater.step_follows
      rw [stepped] at follows
      obtain ⟨-, rfl⟩ := follows
      exact ⟨fits, expand_of_done stepped⟩
  | case4 inflater free flaw stepped =>
      have follows := inflater.step_follows
      rw [stepped] at follows
      rw [expand_of_flawed stepped]
      cases writes : inflater.phase.writes with
      | false => exact .inl ⟨fits, by simp⟩
      | true =>
          simp only [writes, Bool.true_and, decide_eq_true_eq] at free
          exact .inr ⟨by simpa using free, by simp, follows writes⟩

end Inflater

------------------------------------------------------------------------------------------
-- Growing room
------------------------------------------------------------------------------------------

namespace Expansion

theorem within_of_exceeds {expansion : Expansion} {limit : Nat}
    (exceeds : expansion.Exceeds limit)
    : expansion.within limit = .error .tooLarge := if_pos exceeds

/-- A stream that has ended within the limit is not too large. -/
theorem not_exceeds_of_complete {out : Array UInt8} {rest : List UInt8} {limit : Nat}
    (fits : out.size ≤ limit)
    : ¬ Exceeds ⟨out, .complete rest⟩ limit := by
  rintro (larger | ⟨-, starved⟩)
  · exact absurd fits (Nat.not_le.mpr larger)
  · cases starved

/-- A run that came to its end within the limit has the answer of the whole expansion. -/
theorem within_of_complete {expansion : Expansion} {limit : Nat} {out : Array UInt8}
    {rest : List UInt8} (expanded : expansion = ⟨out, .complete rest⟩)
    (fits : out.size ≤ limit)
    : expansion.within limit
      = if rest = [] then .ok out else .error (.trailing rest.length) := by
  subst expanded
  rw [within, if_neg (not_exceeds_of_complete fits)]
  cases rest <;> simp

end Expansion

/-- However the room grows, the answer is that of a decoder without a bound, cut at the limit; by
induction over the growth, with room for what is already written.
-/
theorem inflateFrom_eq_within (limit capacity : Nat) (inflater : Inflater)
    (fits : inflater.out.size ≤ capacity) (below : capacity ≤ limit)
    : inflateFrom limit capacity inflater = inflater.expand.within limit := by
  fun_induction inflateFrom limit capacity inflater with
  | case1 capacity inflater out halted =>
      have part := inflater.run_partOf capacity fits
      rw [halted] at part
      obtain ⟨small, expanded⟩ := part
      rw [Expansion.within_of_complete expanded (by omega), if_pos rfl]
  | case2 capacity inflater out rest nonempty halted =>
      have part := inflater.run_partOf capacity fits
      rw [halted] at part
      obtain ⟨small, expanded⟩ := part
      rw [Expansion.within_of_complete expanded (by omega), if_neg nonempty]
  | case3 capacity inflater flaw halted =>
      have part := inflater.run_partOf capacity fits
      rw [halted] at part
      rcases part with ⟨small, ended⟩ | ⟨small, ended, rfl⟩
      all_goals
        have inside : ¬ inflater.expand.Exceeds limit := by
          simp only [Expansion.Exceeds, ended, reduceCtorEq, and_false, or_false]
          omega
        simp only [Expansion.within, if_neg inside, ended]
  | case4 capacity inflater suspended halted room _ ih =>
      have part := inflater.run_partOf capacity fits
      rw [halted] at part
      obtain ⟨-, filled, same⟩ := part
      rw [← same]
      apply ih
      · have := lt_grownCapacity room
        omega
      · exact Nat.min_le_right _ _
  | case5 capacity inflater suspended halted full =>
      have part := inflater.run_partOf capacity fits
      rw [halted] at part
      obtain ⟨writes, filled, same⟩ := part
      rw [Expansion.within_of_exceeds]
      rw [← same]
      rcases Inflater.expand_of_writes writes with more | starved
      · exact .inl (by omega)
      · rw [starved]
        exact .inr ⟨by simp only; omega, rfl⟩

/-- The bytes of a payload within a limit are those of its expansion, cut at the limit. -/
theorem inflate_eq_within (limit : Nat) (payload : List UInt8)
    : inflate limit payload = (expand payload).within limit :=
  inflateFrom_eq_within limit _ _ (Nat.zero_le _) (Nat.min_le_right _ _)

end Scratchpad.Zlib
