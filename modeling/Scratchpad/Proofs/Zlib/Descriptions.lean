import Scratchpad.Proofs.Zlib.Codewords

/-! A block's own description of its codes is read back as the codes that it was made for. The
writer checks its runs and its own code before it writes, and these checks are what carries over.
-/

namespace Scratchpad.Zlib.BlockCodes

open BitReader (ofBits)

------------------------------------------------------------------------------------------
-- Runs
------------------------------------------------------------------------------------------

/-- A run is read back from its bits. A repetition needs a length before it. -/
theorem LengthRun.read_bits {code : PrefixCode} {count : Nat} {run : LengthRun}
    {bits : List Bool} (given : run.bits? (code.table count) = some bits) (started : Bool)
    (allowed : (∃ times, run = .again times) → started = true) (more : List Bool)
    : LengthRun.read code started (ofBits (bits ++ more)) = .ok (run, ofBits more) := by
  rw [LengthRun.bits?] at given
  split at given
  · rename_i writable
    obtain ⟨word, found, rfl⟩ := Option.map_eq_some_iff.mp given
    rw [List.append_assoc]
    have symbolRead := PrefixCode.read_codeword found
    simp only [LengthRun.read, symbolRead, bind, Except.bind, pure, Except.pure]
    cases run with
    | single length =>
        simp only [LengthRun.writable, decide_eq_true_eq] at writable
        simp [LengthRun.symbol, LengthRun.extraBits, writable]
    | again times =>
        simp only [LengthRun.writable, Bool.and_eq_true, decide_eq_true_eq] at writable
        have extra : times - 3 < 2 ^ 2 := by omega
        have whole : 3 + (times - 3) = times := by omega
        simp [LengthRun.symbol, LengthRun.extraBits, allowed ⟨times, rfl⟩,
          BitReader.number?_ofBits extra, whole]
    | zeros times =>
        simp only [LengthRun.writable, Bool.and_eq_true, decide_eq_true_eq] at writable
        by_cases few : times ≤ 10
        · have extra : times - 3 < 2 ^ 3 := by omega
          have whole : 3 + (times - 3) = times := by omega
          simp [LengthRun.symbol, LengthRun.extraBits, few, BitReader.number?_ofBits extra, whole]
        · have extra : times - 11 < 2 ^ 7 := by omega
          have whole : 11 + (times - 11) = times := by omega
          simp [LengthRun.symbol, LengthRun.extraBits, few, BitReader.number?_ofBits extra, whole]
  · contradiction

/-- A run that can be written stands for at least one length. -/
theorem LengthRun.length_lt_of_bits {table : Array (List Bool)} {run : LengthRun}
    {bits : List Bool} (given : run.bits? table = some bits) (latestFirst : List Nat)
    : latestFirst.length < (run.extend latestFirst).length := by
  rw [LengthRun.bits?] at given
  split at given
  · rename_i writable
    cases run with
    | single length => simp [LengthRun.extend]
    | again times | zeros times =>
        simp only [LengthRun.writable, Bool.and_eq_true, decide_eq_true_eq] at writable
        simp only [LengthRun.extend, List.length_append, List.length_replicate]
        omega
  · contradiction

/-- Runs only add lengths, by induction over them. -/
theorem length_le_extend_all (runs : List LengthRun) (latestFirst : List Nat)
    : latestFirst.length
      ≤ (runs.foldl (fun latestFirst run => run.extend latestFirst) latestFirst).length := by
  induction runs generalizing latestFirst with
  | nil => exact Nat.le_refl _
  | cons run rest ih =>
      refine Nat.le_trans ?_ (ih (run.extend latestFirst))
      cases run <;> simp [LengthRun.extend]

/-- The bits of runs stand behind those already written, and the lengths that the runs stand for
are read back from them; by induction over the runs. The first run can only repeat a length if
there is one.
-/
theorem readLengths_runBits {code : PrefixCode} {count : Nat} {runs : List LengthRun}
    {reversed bits : List Bool} (given : runBits? (code.table count) reversed runs = some bits)
    : ∃ own, bits = reversed.reverse ++ own
      ∧ ∀ (latestFirst all : List Nat) (more : List Bool),
        (latestFirst = [] → ∀ times, runs.head? ≠ some (.again times))
        → runs.foldl (fun latestFirst run => run.extend latestFirst) latestFirst = all
        → readLengths code all.length latestFirst (ofBits (own ++ more))
          = .ok (all.reverse, ofBits more) := by
  induction runs generalizing reversed bits with
  | nil =>
      obtain rfl := Option.some.inj given
      refine ⟨[], by simp, fun latestFirst all more _ same => ?_⟩
      obtain rfl : latestFirst = all := same
      rw [readLengths]
      simp
  | cons run rest ih =>
      simp only [runBits?] at given
      split at given
      · contradiction
      · rename_i own found
        obtain ⟨tail, rfl, readTail⟩ := ih given
        refine ⟨own ++ tail, by simp [List.reverseAux_eq], ?_⟩
        intro latestFirst all more first same
        have added := run.length_lt_of_bits found latestFirst
        have below := length_le_extend_all rest (run.extend latestFirst)
        rw [← List.foldl_cons, same] at below
        have started : (∃ times, run = .again times) → (!latestFirst.isEmpty) = true := by
          rintro ⟨times, rfl⟩
          cases latestFirst with
          | nil => exact (first rfl times rfl).elim
          | cons => rfl
        have runRead := LengthRun.read_bits found (!latestFirst.isEmpty) started (tail ++ more)
        have next := readTail (run.extend latestFirst) all more
          (fun empty => by simp [empty] at added) same
        rw [readLengths, if_neg (by omega), List.append_assoc]
        split
        · rename_i failed
          rw [runRead] at failed
          contradiction
        · rename_i other reader succeeded
          rw [runRead] at succeeded
          obtain ⟨rfl, rfl⟩ := by simpa using succeeded
          exact next

------------------------------------------------------------------------------------------
-- Lists of lengths
------------------------------------------------------------------------------------------

/-- The runs for equal lengths begin with no repetition: a length stands before it. -/
theorem head?_runsOf (length count times : Nat)
    : (runsOf length count).head? ≠ some (.again times) := by
  rw [runsOf]
  split
  · intro leads
    have listed := List.mem_of_head? leads
    rw [splitRun, List.mem_append] at listed
    rcases listed with whole | left
    · exact absurd (List.eq_of_mem_replicate whole) (by simp)
    · split at left
      · exact absurd (List.eq_of_mem_replicate left) (by simp)
      · simp at left
  · simp

theorem head?_runs (lengths : List Nat) (times : Nat)
    : (runs lengths).head? ≠ some (.again times) := by
  rw [runs]
  generalize lengths.splitBy (· == ·) = groups
  induction groups with
  | nil => simp
  | cons group rest ih =>
      rw [List.flatMap_cons, List.head?_append]
      cases leads : (runsOf (group.headD 0) group.length).head? with
      | none => simpa using ih
      | some run =>
          have := head?_runsOf (group.headD 0) group.length times
          rw [leads] at this
          simpa using this

/-- Numbers below eight are read back from three bits each, by induction over them. -/
theorem readTriples_bits {numbers : List Nat} (small : ∀ number ∈ numbers, number < 8)
    (more : List Bool)
    : readTriples numbers.length (ofBits (numbers.flatMap (bitsOfNat 3) ++ more))
      = .ok (numbers, ofBits more) := by
  induction numbers with
  | nil => rfl
  | cons number rest ih =>
      have fits : number < 2 ^ 3 := small number (by simp)
      have tail := ih (fun other listed => small other (by simp [listed]))
      simp only [List.length_cons, List.flatMap_cons, List.append_assoc, readTriples,
        BitReader.number?_ofBits fits, tail]
      rfl

theorem le_length_trimmed {least : Nat} {lengths : List Nat} (enough : least ≤ lengths.length)
    : least ≤ (trimmed least lengths).length := by
  simp only [trimmed, List.length_append, List.length_take]
  omega

------------------------------------------------------------------------------------------
-- Descriptions
------------------------------------------------------------------------------------------

/-- What a written description consists of, and what was checked before it was written. -/
structure Described.Written (described : Described) (bits : List Bool) (inOrder : List Nat)
    (code : PrefixCode) (body : List Bool)
    : Prop where
  literals : 257 ≤ described.literals ∧ described.literals ≤ maxLiterals
  distances
    : 1 ≤ described.lengths.length - described.literals
      ∧ described.lengths.length - described.literals ≤ maxDistances
  listed : 4 ≤ inOrder.length ∧ inOrder.length ≤ 19
  small : ∀ length ∈ inOrder, length < 8
  own : PrefixCode.ofCompleteLengths? (descriptionLengths inOrder) = some code
  runs : runBits? (code.table 19) [] (runs described.lengths) = some body
  expanded : expand (BlockCodes.runs described.lengths) = described.lengths
  whole
    : bits
      = bitsOfNat 5 (described.literals - 257)
        ++ bitsOfNat 5 (described.lengths.length - described.literals - 1)
        ++ bitsOfNat 4 (inOrder.length - 4)
        ++ inOrder.flatMap (bitsOfNat 3)
        ++ body

theorem Described.written {described : Described} {bits : List Bool}
    (given : described.bits? = some bits)
    : ∃ inOrder code body, described.Written bits inOrder code body := by
  simp only [Described.bits?] at given
  split at given
  · rename_i checked
    simp only [Bool.and_eq_true, decide_eq_true_eq, List.all_eq_true, beq_iff_eq] at checked
    obtain ⟨⟨counted, same⟩, expanded⟩ := checked
    obtain ⟨code, own, given⟩ := Option.bind_eq_some_iff.mp given
    obtain ⟨body, runs, given⟩ := Option.bind_eq_some_iff.mp given
    obtain ⟨⟨⟨⟨⟨leastLiterals, mostLiterals⟩, leastDistances⟩, mostDistances⟩, most⟩, small⟩ :=
      counted
    exact ⟨_, code, body, {
      literals := ⟨leastLiterals, mostLiterals⟩
      distances := ⟨leastDistances, mostDistances⟩
      listed := ⟨le_length_trimmed (by simp [descriptionOrder]), most⟩
      small := small
      own := by rw [same, own]
      runs := runs
      expanded := expanded
      whole := (Option.some.inj given).symm
    }⟩
  · contradiction

/-- A description that was written is read back as the codes that it describes. -/
theorem read_description {described : Described} {bits : List Bool}
    (given : described.bits? = some bits) (more : List Bool)
    : BlockCodes.read (ofBits (bits ++ more)) = .ok (described.codes, ofBits more) := by
  obtain ⟨inOrder, code, body, written⟩ := Described.written given
  obtain ⟨own, rfl, readBody⟩ := readLengths_runBits written.runs
  have literals := written.literals
  have distances := written.distances
  have listed := written.listed
  simp only [maxLiterals, maxDistances] at literals distances
  have fitsLiterals : described.literals - 257 < 2 ^ 5 := by omega
  have fitsDistances : described.lengths.length - described.literals - 1 < 2 ^ 5 := by omega
  have fitsListed : inOrder.length - 4 < 2 ^ 4 := by omega
  have literalsBack : 257 + (described.literals - 257) = described.literals := by omega
  have distancesBack
      : 1 + (described.lengths.length - described.literals - 1)
        = described.lengths.length - described.literals := by omega
  have listedBack : 4 + (inOrder.length - 4) = inOrder.length := by omega
  have total
      : described.literals + (described.lengths.length - described.literals)
        = described.lengths.length := by omega
  have allowed
      : ¬ (maxLiterals < described.literals
        ∨ maxDistances < described.lengths.length - described.literals) := by
    simp only [maxLiterals, maxDistances]
    omega
  have runsRead := readBody [] described.lengths.reverse more
    (fun _ => head?_runs described.lengths)
    (by rw [← List.reverse_reverse (List.foldl _ _ _)]; exact congrArg _ written.expanded)
  rw [List.length_reverse, List.reverse_reverse] at runsRead
  rw [written.whole]
  simp only [BlockCodes.read, List.append_assoc, BitReader.number?_ofBits fitsLiterals,
    BitReader.number?_ofBits fitsDistances, BitReader.number?_ofBits fitsListed,
    literalsBack, distancesBack, listedBack, if_neg allowed,
    readTriples_bits written.small, written.own, total,
    runsRead, described.gives, bind, Except.bind, pure, Except.pure]

end Scratchpad.Zlib.BlockCodes
