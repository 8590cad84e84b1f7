import Mathlib.Data.List.SplitBy
import Scratchpad.Proofs.Zlib.CodeTrees
import Scratchpad.Proofs.Zlib.Descriptions

/-! Every pair of codes can be described. The runs that are gathered from a list of lengths stand
for just that list, all of them have a form to be written in, and among the runs for a block there
are always two with different symbols, so that the code of the description is complete.
-/

namespace Scratchpad.Zlib

------------------------------------------------------------------------------------------
-- Counting symbols
------------------------------------------------------------------------------------------

section Tally

variable {α : Type} (symbol? : α → Option Nat)

/-- Adds one to the weight of every symbol that something has. -/
def tally (weights : Array Nat) (items : List α) : Array Nat :=
  items.foldl (fun weights item =>
    match symbol? item with
    | none => weights
    | some symbol => weights.modify symbol (· + 1)) weights

theorem size_tally (weights : Array Nat) (items : List α)
    : (tally symbol? weights items).size = weights.size := by
  induction items generalizing weights with
  | nil => rfl
  | cons item rest ih =>
      rw [tally, List.foldl_cons]
      refine (ih _).trans ?_
      split
      · rfl
      · exact Array.size_modify

/-- The weight of a symbol says how often it was seen, by induction over what was counted. -/
theorem getD_tally {weights : Array Nat} {symbol : Nat} (inside : symbol < weights.size)
    (items : List α)
    : (tally symbol? weights items).getD symbol 0
      = weights.getD symbol 0 + items.countP fun item => symbol? item == some symbol := by
  induction items generalizing weights with
  | nil => rfl
  | cons item rest ih =>
      rw [tally, List.foldl_cons, List.countP_cons]
      cases found : symbol? item with
      | none => exact ih inside
      | some other =>
          refine (ih (by rwa [Array.size_modify])).trans ?_
          rw [CodewordLengths.getD_modify inside]
          by_cases same : other = symbol
          · rw [if_pos same, same, if_pos (beq_self_eq_true _), Nat.add_right_comm, Nat.add_assoc]
          · have different : (some other == some symbol) = false := by simpa using same
            rw [if_neg same, different, if_neg Bool.false_ne_true]
            rfl

/-- A symbol has a weight if it had one before or was seen. -/
theorem getD_tally_ne_zero_iff {weights : Array Nat} {symbol : Nat}
    (inside : symbol < weights.size) (items : List α)
    : (tally symbol? weights items).toList.getD symbol 0 ≠ 0
      ↔ weights.getD symbol 0 ≠ 0 ∨ ∃ item ∈ items, symbol? item = some symbol := by
  rw [List.getD_eq_getElem?_getD, Array.getElem?_toList, ← Array.getD_eq_getD_getElem?,
    getD_tally symbol? inside, Ne, Nat.add_eq_zero_iff, not_and_or, ← Ne, ← Ne,
    ← Nat.pos_iff_ne_zero (n := List.countP _ _), List.countP_pos_iff]
  simp

end Tally

namespace BlockCodes

------------------------------------------------------------------------------------------
-- Runs
------------------------------------------------------------------------------------------

/-- A list of lengths, latest first, behind that of some runs. -/
def extendAll (latestFirst : List Nat) (runs : List LengthRun) : List Nat :=
  runs.foldl (fun latestFirst run => run.extend latestFirst) latestFirst

theorem extendAll_append (latestFirst : List Nat) (front back : List LengthRun)
    : extendAll latestFirst (front ++ back) = extendAll (extendAll latestFirst front) back :=
  List.foldl_append

theorem extendAll_singles (latestFirst : List Nat) (count length : Nat)
    : extendAll latestFirst (List.replicate count (.single length))
      = List.replicate count length ++ latestFirst := by
  induction count with
  | zero => rfl
  | succ count ih =>
      rw [List.replicate_succ', extendAll_append, ih]
      rfl

section SplitRun

variable {largest length : Nat} {run : Nat → LengthRun}

/-- Split runs are single lengths or have a size that can be written. -/
theorem mem_splitRun (least : 3 ≤ largest) {count : Nat} {given : LengthRun}
    (listed : given ∈ splitRun largest length count run)
    : given = .single length ∨ ∃ size, 3 ≤ size ∧ size ≤ largest ∧ given = run size := by
  rcases List.mem_append.mp listed with whole | left
  · exact .inr ⟨largest, least, Nat.le_refl _, List.eq_of_mem_replicate whole⟩
  · split at left
    · exact .inl (List.eq_of_mem_replicate left)
    · rename_i enough
      have smaller := Nat.mod_lt count (by omega : 0 < largest)
      exact .inr ⟨count % largest, by omega, by omega, List.mem_singleton.mp left⟩

/-- Split runs stand for as many lengths as were split, if one run stands for as many as it says. It
may need something before it, which the lengths it adds keep.
-/
theorem extendAll_splitRun (ready : List Nat → Prop)
    (adds
      : ∀ latestFirst, ready latestFirst → ∀ size,
          (run size).extend latestFirst = List.replicate size length ++ latestFirst)
    (stays : ∀ latestFirst, ready latestFirst → ready (length :: latestFirst))
    {latestFirst : List Nat} (begins : ready latestFirst) (count : Nat)
    : extendAll latestFirst (splitRun largest length count run)
      = List.replicate count length ++ latestFirst := by
  have remains (more : Nat) : ready (List.replicate more length ++ latestFirst) := by
    induction more with
    | zero => exact begins
    | succ more ih => exact stays _ ih
  have whole (times : Nat)
      : extendAll latestFirst (List.replicate times (run largest))
        = List.replicate (times * largest) length ++ latestFirst := by
    induction times with
    | zero =>
        rw [Nat.zero_mul]
        rfl
    | succ times ih =>
        rw [List.replicate_succ', extendAll_append, ih]
        refine (adds _ (remains _) largest).trans ?_
        rw [← List.append_assoc, List.replicate_append_replicate, Nat.succ_mul, Nat.add_comm]
  have both : count % largest + count / largest * largest = count := by
    rw [Nat.add_comm, Nat.mul_comm]
    exact Nat.div_add_mod count largest
  rw [splitRun, extendAll_append, whole]
  conv_rhs => rw [← both, ← List.replicate_append_replicate, List.append_assoc]
  split
  · exact extendAll_singles _ _ _
  · exact adds _ (remains _) _

end SplitRun

/-- Runs for a length that stands some times in a row stand for it that often. -/
theorem extendAll_runsOf (length : Nat) {count : Nat} (some : count ≠ 0) (latestFirst : List Nat)
    : extendAll latestFirst (runsOf length count)
      = List.replicate count length ++ latestFirst := by
  rw [runsOf]
  split
  · rename_i unused
    rw [unused]
    exact extendAll_splitRun (fun _ => True) (fun _ _ _ => rfl) (fun _ _ => trivial)
      trivial count
  · obtain ⟨more, rfl⟩ := Nat.exists_eq_succ_of_ne_zero some
    have again
        : extendAll (length :: latestFirst) (splitRun 6 length more .again)
          = List.replicate more length ++ length :: latestFirst :=
      extendAll_splitRun (fun latestFirst => latestFirst.headD 0 = length)
        (fun _ ready _ => by rw [← ready]; rfl) (fun _ _ => rfl) rfl more
    refine again.trans ?_
    rw [Nat.succ_eq_add_one, List.replicate_succ', List.append_assoc]
    rfl

/-- A list is split into stretches of equal lengths. -/
theorem eq_replicate_of_mem_splitBy {lengths equal : List Nat}
    (listed : equal ∈ lengths.splitBy (· == ·))
    : equal = List.replicate equal.length (equal.headD 0) ∧ equal.length ≠ 0 := by
  have chain : equal.IsChain (· = ·) :=
    (List.isChain_of_mem_splitBy listed).imp fun _ _ same => eq_of_beq same
  cases equal with
  | nil => exact absurd rfl (List.ne_nil_of_mem_splitBy listed)
  | cons first rest =>
      refine ⟨List.eq_replicate_iff.mpr ⟨rfl, fun other member => ?_⟩, Nat.succ_ne_zero _⟩
      rcases List.mem_cons.mp member with rfl | later
      · rfl
      · exact (List.rel_of_pairwise_cons (List.isChain_iff_pairwise.mp chain) later).symm

/-- The runs for lengths stand for them, by induction over the stretches. -/
theorem expand_runs (lengths : List Nat)
    : expand (runs lengths) = lengths := by
  have stretches {groups : List (List Nat)}
      (equal
        : ∀ group ∈ groups,
            group = List.replicate group.length (group.headD 0) ∧ group.length ≠ 0)
      (latestFirst : List Nat)
      : extendAll latestFirst (groups.flatMap fun group => runsOf (group.headD 0) group.length)
        = groups.flatten.reverse ++ latestFirst := by
    induction groups generalizing latestFirst with
    | nil => rfl
    | cons group rest ih =>
        obtain ⟨same, some⟩ := equal group List.mem_cons_self
        rw [List.flatMap_cons, extendAll_append, extendAll_runsOf _ some,
          ih fun other listed => equal other (List.mem_cons_of_mem group listed),
          List.flatten_cons, List.reverse_append, List.append_assoc]
        have back : group.reverse = List.replicate group.length (group.headD 0) := by
          conv_lhs => rw [same, List.reverse_replicate]
        rw [back]
  have extended := stretches (fun group => @eq_replicate_of_mem_splitBy lengths group) []
  rw [List.append_nil, List.flatten_splitBy] at extended
  exact (congrArg List.reverse extended).trans lengths.reverse_reverse

/-- The runs for lengths are those for the stretches of equal ones. -/
theorem mem_runs_iff {lengths : List Nat} {run : LengthRun}
    : run ∈ runs lengths
      ↔ ∃ equal ∈ lengths.splitBy (· == ·), run ∈ runsOf (equal.headD 0) equal.length :=
  List.mem_flatMap

/-- All runs for the lengths of codewords have a form to be written in. -/
theorem writable_of_mem_runs {lengths : List Nat} (small : ∀ length ∈ lengths, length < 16)
    {run : LengthRun} (listed : run ∈ runs lengths)
    : run.writable = true := by
  obtain ⟨equal, stretch, member⟩ := mem_runs_iff.mp listed
  have first : equal.headD 0 < 16 := by
    refine small _ ?_
    rw [← List.flatten_splitBy (· == ·) lengths]
    refine List.mem_flatten.mpr ⟨equal, stretch, ?_⟩
    cases equal with
    | nil => exact absurd rfl (List.ne_nil_of_mem_splitBy stretch)
    | cons first rest => exact List.mem_cons_self
  rw [runsOf] at member
  split at member
  · rcases mem_splitRun (by decide) member with rfl | ⟨size, least, most, rfl⟩
    · rfl
    · simp only [LengthRun.writable, least, most, decide_true, Bool.and_self]
  · rcases List.mem_cons.mp member with rfl | member
    · simp only [LengthRun.writable, first, decide_true]
    · rcases mem_splitRun (by decide) member with rfl | ⟨size, least, most, rfl⟩
      · simp only [LengthRun.writable, first, decide_true]
      · simp only [LengthRun.writable, least, most, decide_true, Bool.and_self]

theorem LengthRun.symbol_lt {run : LengthRun} (writable : run.writable = true)
    : run.symbol < 19 := by
  cases run with
  | single length => exact Nat.lt_trans (of_decide_eq_true writable) (by decide)
  | again count => exact (by decide : 16 < 19)
  | zeros count =>
      rw [symbol]
      split <;> decide

/-- A used length is told by a run of its own, since a repetition needs it to stand before. -/
theorem single_mem_runs {lengths : List Nat} {length : Nat} (listed : length ∈ lengths)
    (used : length ≠ 0)
    : LengthRun.single length ∈ runs lengths := by
  rw [← List.flatten_splitBy (· == ·) lengths] at listed
  obtain ⟨equal, stretch, member⟩ := List.mem_flatten.mp listed
  obtain ⟨same, -⟩ := eq_replicate_of_mem_splitBy stretch
  have first : length = equal.headD 0 := List.eq_of_mem_replicate (same ▸ member)
  refine mem_runs_iff.mpr ⟨equal, stretch, ?_⟩
  rw [runsOf, ← first, if_neg used]
  exact List.mem_cons_self

/-- Lengths that are told one by one as the same length are equal. -/
theorem eq_replicate_of_singles {lengths : List Nat} {length : Nat}
    (singles : ∀ run ∈ runs lengths, run = .single length)
    : lengths = List.replicate lengths.length length := by
  refine List.eq_replicate_iff.mpr ⟨rfl, fun other listed => ?_⟩
  rw [← expand_runs lengths, List.eq_replicate_of_mem singles] at listed
  have member : other ∈ extendAll [] (List.replicate (runs lengths).length (.single length)) :=
    List.mem_reverse.mp listed
  rw [extendAll_singles, List.append_nil] at member
  exact List.eq_of_mem_replicate member

/-- Many equal lengths are told by repetitions. -/
theorem again_mem_runs {length count : Nat} (used : length ≠ 0) (many : 7 ≤ count)
    : LengthRun.again 6 ∈ runs (List.replicate count length) := by
  obtain ⟨more, rfl⟩ := Nat.exists_eq_succ_of_ne_zero (by omega : count ≠ 0)
  have chain : (List.replicate (more + 1) length).IsChain fun left right => left == right :=
    List.isChain_replicate_of_rel _ (beq_self_eq_true length)
  have stretch : (List.replicate (more + 1) length).splitBy (· == ·)
      = [List.replicate (more + 1) length] :=
    List.splitBy_of_isChain (List.cons_ne_nil _ _) chain
  have often : more / 6 ≠ 0 := by omega
  rw [runs, stretch, List.flatMap_singleton, List.length_replicate, List.replicate_succ,
    List.headD_cons, runsOf, if_neg used]
  exact List.mem_cons_of_mem _ (List.mem_append_left _ (List.mem_replicate.mpr ⟨often, rfl⟩))

/-- Runs for many lengths do not all have the symbol of the same used length: the lengths would be
equal, and most of them would be told by repetitions.
-/
theorem exists_symbol_ne {lengths : List Nat} {length : Nat} (used : length ≠ 0)
    (small : length < 16) (many : 7 ≤ lengths.length)
    : ∃ run ∈ runs lengths, run.symbol ≠ length := by
  by_contra none
  push Not at none
  have singles : ∀ run ∈ runs lengths, run = .single length := by
    intro run listed
    have symbol := none run listed
    cases run with
    | single other => exact congrArg LengthRun.single symbol
    | again count =>
        rw [LengthRun.symbol] at symbol
        omega
    | zeros count =>
        rw [LengthRun.symbol] at symbol
        split at symbol <;> omega
  have repeated := again_mem_runs used many
  rw [← eq_replicate_of_singles singles] at repeated
  cases singles _ repeated

------------------------------------------------------------------------------------------
-- The code of a description
------------------------------------------------------------------------------------------

/-- What is trimmed off are unused symbols. -/
theorem exists_eq_trimmed_append (least : Nat) (lengths : List Nat)
    : ∃ count, lengths = trimmed least lengths ++ List.replicate count 0 := by
  have zeros : ∀ length ∈ (lengths.drop least).reverse.takeWhile (· == 0), length = 0 :=
    fun length listed => eq_of_beq (List.mem_takeWhile_imp (p := (· == 0)) listed)
  refine ⟨((lengths.drop least).reverse.takeWhile (· == 0)).length, ?_⟩
  rw [trimmed, List.append_assoc, ← List.reverse_replicate, ← List.eq_replicate_of_mem zeros,
    ← List.reverse_append, List.takeWhile_append_dropWhile, List.reverse_reverse,
    List.take_append_drop]

theorem length_trimmed_le (least : Nat) (lengths : List Nat)
    : (trimmed least lengths).length ≤ lengths.length := by
  obtain ⟨count, whole⟩ := exists_eq_trimmed_append least lengths
  have total := congrArg List.length whole
  rw [List.length_append] at total
  exact Nat.le_of_add_right_le (Nat.le_of_eq total.symm)

theorem mem_of_mem_trimmed {least length : Nat} {lengths : List Nat}
    (listed : length ∈ trimmed least lengths)
    : length ∈ lengths := by
  obtain ⟨count, whole⟩ := exists_eq_trimmed_append least lengths
  exact whole ▸ List.mem_append_left _ listed

/-- Where no value is listed, there is none, whether the list says so or ends before. -/
theorem getD_lookup_zip_append (keys values : List Nat) (count key : Nat)
    : ((keys.zip (values ++ List.replicate count 0)).lookup key).getD 0
      = ((keys.zip values).lookup key).getD 0 := by
  induction keys generalizing values count with
  | nil => rfl
  | cons first rest ih =>
      rcases values with _ | ⟨value, values⟩
      · cases count with
        | zero => rfl
        | succ count =>
            have later := ih [] count
            rw [List.nil_append, List.zip_nil_right] at later
            rw [List.nil_append, List.replicate_succ, List.zip_cons_cons, List.lookup_cons,
              List.zip_nil_right]
            split
            · rfl
            · exact later
      · rw [List.cons_append, List.zip_cons_cons, List.zip_cons_cons, List.lookup_cons,
          List.lookup_cons]
        split
        · rfl
        · exact ih values count

/-- The lengths of the description code are told by those that are listed. -/
theorem descriptionLengths_trimmed {own : List Nat} (size : own.length = 19) (least : Nat)
    : descriptionLengths (trimmed least (descriptionOrder.map fun symbol => own.getD symbol 0))
      = own := by
  obtain ⟨count, whole⟩ :=
    exists_eq_trimmed_append least (descriptionOrder.map fun symbol => own.getD symbol 0)
  have ordered : ∀ symbol < 19, symbol ∈ descriptionOrder := by decide
  refine List.ext_getElem ?_ fun symbol inside inside' => ?_
  · rw [descriptionLengths, List.length_map, List.length_range, size]
  · have listed := ordered symbol (size ▸ inside')
    simp only [descriptionLengths, List.getElem_map, List.getElem_range]
    rw [← getD_lookup_zip_append _ _ count, ← whole, ← List.map_prod_left_eq_zip,
      List.lookup_graph _ listed, Option.getD_some]
    exact List.getD_eq_getElem own 0 inside'

/-- Runs have bits if each of them has, by induction over them. -/
theorem exists_runBits {table : Array (List Bool)} {runs : List LengthRun}
    (each : ∀ run ∈ runs, ∃ bits, run.bits? table = some bits) (reversed : List Bool)
    : ∃ bits, runBits? table reversed runs = some bits := by
  induction runs generalizing reversed with
  | nil => exact ⟨_, rfl⟩
  | cons run rest ih =>
      obtain ⟨bits, found⟩ := each run List.mem_cons_self
      rw [runBits?, found]
      exact ih (fun other listed => each other (List.mem_cons_of_mem run listed)) _

theorem runWeights_eq (runs : List LengthRun)
    : runWeights runs
      = (tally (fun run => some run.symbol) (Array.replicate 19 0) runs).toList :=
  rfl

/-- Two used symbols have more than one bit together. -/
theorem one_lt_sum {lengths : List Nat} {left right : Nat} (different : left ≠ right)
    (first : lengths.getD left 0 ≠ 0) (second : lengths.getD right 0 ≠ 0)
    : 1 < lengths.sum := by
  wlog less : left < right
  · exact this different.symm second first (by omega)
  obtain ⟨here, foundHere, some⟩ := CodewordLengths.getD_ne_zero_iff.mp first
  obtain ⟨there, foundThere, some'⟩ := CodewordLengths.getD_ne_zero_iff.mp second
  have before : here ∈ lengths.take right :=
    List.mem_of_getElem? ((List.getElem?_take_of_lt less).trans foundHere)
  have behind : there ∈ lengths.drop right :=
    List.mem_of_getElem? (List.getElem?_drop.trans foundThere) (i := 0)
  have sum := List.sum_take_add_sum_drop lengths right
  have front := List.le_sum_of_mem before
  have back := List.le_sum_of_mem behind
  omega

/-- What is listed of the description code can be told. -/
theorem listed_spec {own : List Nat} (small : ∀ length ∈ own, length ≤ 7)
    : let inOrder := trimmed 4 (descriptionOrder.map fun symbol => own.getD symbol 0)
      inOrder.length ≤ 19 ∧ ∀ length ∈ inOrder, length < 8 := by
  intro inOrder
  refine ⟨length_trimmed_le 4 _, fun length listed => ?_⟩
  obtain ⟨symbol, -, rfl⟩ := List.mem_map.mp (mem_of_mem_trimmed listed)
  rw [List.getD_eq_getElem?_getD]
  cases found : own[symbol]? with
  | none => decide
  | some length => exact Nat.lt_succ_of_le (small length (List.mem_of_getElem? found))

/-- Runs that can be written, two of which differ in their symbols, have a code of their own and bits
in it.
-/
theorem exists_own {runs : List LengthRun} (writable : ∀ run ∈ runs, run.writable = true)
    {left right : LengthRun} (first : left ∈ runs) (second : right ∈ runs)
    (different : left.symbol ≠ right.symbol)
    : let own := CodewordLengths.ofWeights 7 (runWeights runs)
      own.length = 19 ∧ (∀ length ∈ own, length ≤ 7)
      ∧ ∃ code body, PrefixCode.ofCompleteLengths? own = some code
        ∧ runBits? (code.table 19) [] runs = some body := by
  have counted : (runWeights runs).length = 19 := by
    rw [runWeights_eq, Array.length_toList, size_tally, Array.size_replicate]
  have suits := CodewordLengths.suits_ofWeights (by decide : 0 < 7) (runWeights runs)
    (by rw [counted]; decide)
  intro own
  have given : ∀ run ∈ runs, own.getD run.symbol 0 ≠ 0 := by
    intro run listed
    rw [suits.used_iff, runWeights_eq]
    refine (getD_tally_ne_zero_iff _ ?_ runs).mpr (.inr ⟨run, listed, rfl⟩)
    rw [Array.size_replicate]
    exact LengthRun.symbol_lt (writable run listed)
  obtain ⟨code, complete, serves⟩ := suits.exists_ofCompleteLengths (by decide)
    (one_lt_sum different (given left first) (given right second))
  have each : ∀ run ∈ runs, ∃ bits, run.bits? (code.table 19) = some bits := by
    intro run listed
    obtain ⟨word, found⟩ := serves.exists_codeword (given run listed)
      (LengthRun.symbol_lt (writable run listed))
    exact ⟨_, by rw [LengthRun.bits?, if_pos (writable run listed), found]; rfl⟩
  obtain ⟨body, whole⟩ := exists_runBits each []
  exact ⟨suits.length_eq.trans counted, suits.le_limit, code, body, complete, whole⟩

/-- Lengths of codewords can be described, if they are many and one of them is used. -/
theorem Described.exists_bits (described : Described)
    (literals : 257 ≤ described.literals ∧ described.literals ≤ maxLiterals)
    (distances
      : 1 ≤ described.lengths.length - described.literals
        ∧ described.lengths.length - described.literals ≤ maxDistances)
    (small : ∀ length ∈ described.lengths, length < 16)
    (used : ∃ length ∈ described.lengths, length ≠ 0)
    : ∃ bits, described.bits? = some bits := by
  obtain ⟨length, listed, some⟩ := used
  obtain ⟨run, member, other⟩ := exists_symbol_ne some (small length listed)
    (by omega : 7 ≤ described.lengths.length)
  obtain ⟨counted, short, code, body, complete, whole⟩ :=
    exists_own (fun run => writable_of_mem_runs small) member (single_mem_runs listed some) other
  have told := descriptionLengths_trimmed counted 4
  obtain ⟨few, below⟩ := listed_spec short
  have eights := List.all_eq_true.mpr fun length listed => decide_eq_true (below length listed)
  simp only [Described.bits?, literals, distances, few, eights, told, expand_runs, complete, whole,
    decide_true, Bool.and_self, beq_self_eq_true, if_true, Option.bind_eq_bind, Option.bind_some]
  exact ⟨_, rfl⟩

------------------------------------------------------------------------------------------
-- Codes for weights
------------------------------------------------------------------------------------------

/-- A part of a description, which holds the lengths for one of the two codes, for weights. -/
structure Part (least most : Nat) (weights lengths : List Nat) (code : PrefixCode) : Prop where
  size : least ≤ lengths.length ∧ lengths.length ≤ most
  small : ∀ length ∈ lengths, length < 16
  used : (∃ symbol, weights.getD symbol 0 ≠ 0) → ∃ length ∈ lengths, length ≠ 0
  gives : PrefixCode.ofLengths? lengths = some code
  serves : code.Serves weights

/-- Lengths beyond what there is room for can be left out, if none of their symbols is used. -/
theorem exists_eq_trimmed_take_append (least : Nat) {most : Nat} {lengths : List Nat}
    (unused : ∀ symbol, lengths.getD symbol 0 ≠ 0 → symbol < most)
    : ∃ count, lengths = trimmed least (lengths.take most) ++ List.replicate count 0 := by
  obtain ⟨count, front⟩ := exists_eq_trimmed_append least (lengths.take most)
  have behind : lengths.drop most = List.replicate (lengths.drop most).length 0 := by
    refine List.eq_replicate_iff.mpr ⟨rfl, fun length listed => ?_⟩
    obtain ⟨index, found⟩ := List.mem_iff_getElem?.mp listed
    rw [List.getElem?_drop] at found
    by_contra some
    have := unused _ (CodewordLengths.getD_ne_zero_iff.mpr ⟨length, found, some⟩)
    omega
  refine ⟨count + (lengths.drop most).length, ?_⟩
  rw [← List.replicate_append_replicate, ← List.append_assoc, ← front, ← behind,
    List.take_append_drop]

/-- Weights have their part of a description, if no symbol is used that it has no room for. -/
theorem exists_part (least most : Nat) {weights : List Nat}
    (few : weights.length ≤ 2 ^ PrefixCode.maxLength) (room : most ≤ weights.length)
    (least_le : least ≤ most)
    (unused : ∀ symbol, weights.getD symbol 0 ≠ 0 → symbol < most)
    : ∃ code, Part least most weights
        (trimmed least ((CodewordLengths.ofWeights PrefixCode.maxLength weights).take most))
        code := by
  have suits := CodewordLengths.suits_ofWeights (by decide) weights few
  generalize CodewordLengths.ofWeights PrefixCode.maxLength weights = lengths at suits
  obtain ⟨code, gives, serves⟩ := suits.exists_ofLengths (Nat.le_refl _)
  obtain ⟨count, whole⟩ := exists_eq_trimmed_take_append least
    fun symbol used => unused symbol ((suits.used_iff symbol).mp used)
  have length_take : (lengths.take most).length = most := by
    rw [List.length_take, suits.length_eq, Nat.min_eq_left room]
  refine ⟨code, ?_⟩
  constructor
  case size =>
    have shorter := length_trimmed_le least (lengths.take most)
    rw [length_take] at shorter
    exact ⟨le_length_trimmed (Nat.le_trans least_le (Nat.le_of_eq length_take.symm)), shorter⟩
  case small =>
    intro length listed
    exact Nat.lt_succ_of_le
      (suits.le_limit length (List.mem_of_mem_take (mem_of_mem_trimmed listed)))
  case used =>
    rintro ⟨symbol, weighs⟩
    obtain ⟨length, found, some⟩ :=
      CodewordLengths.getD_ne_zero_iff.mp ((suits.used_iff symbol).mpr weighs)
    have listed := whole ▸ List.mem_of_getElem? found
    rcases List.mem_append.mp listed with kept | dropped
    · exact ⟨length, kept, some⟩
    · exact absurd (List.eq_of_mem_replicate dropped) some
  case gives => rw [← PrefixCode.ofLengths?_append_replicate _ count, ← whole, gives]
  case serves => exact fun symbol used => serves symbol ((suits.used_iff symbol).mpr used)

/-- Weights, one of which stands for the end of the block, have codes that can be described. -/
theorem Described.exists_ofWeights {literalWeights distanceWeights : List Nat}
    (literals
      : literalWeights.length = 288
        ∧ ∀ symbol, literalWeights.getD symbol 0 ≠ 0 → symbol < maxLiterals)
    (distances
      : distanceWeights.length = 32
        ∧ ∀ symbol, distanceWeights.getD symbol 0 ≠ 0 → symbol < maxDistances)
    (ends : literalWeights.getD endOfBlock 0 ≠ 0)
    : ∃ described bits, Described.ofWeights? literalWeights distanceWeights = some described
        ∧ described.bits? = some bits ∧ described.codes.literals.Serves literalWeights
        ∧ described.codes.distances.Serves distanceWeights := by
  obtain ⟨literalCode, literalPart⟩ := exists_part 257 maxLiterals (by rw [literals.1]; decide)
    (by rw [literals.1]; decide) (by decide) literals.2
  obtain ⟨distanceCode, distancePart⟩ := exists_part 1 maxDistances (by rw [distances.1]; decide)
    (by rw [distances.1]; decide) (by decide) distances.2
  simp only [Described.ofWeights?]
  generalize trimmed 257 _ = literalLengths at literalPart ⊢
  generalize trimmed 1 _ = distanceLengths at distancePart ⊢
  have gives : ofLengths? literalLengths.length (literalLengths ++ distanceLengths)
      = some ⟨literalCode, distanceCode⟩ := by
    rw [ofLengths?, List.take_left, List.drop_left, literalPart.gives, distancePart.gives]
    rfl
  have behind : (literalLengths ++ distanceLengths).length - literalLengths.length
      = distanceLengths.length := by
    rw [List.length_append, Nat.add_sub_cancel_left]
  obtain ⟨length, listed, some⟩ := literalPart.used ⟨endOfBlock, ends⟩
  split
  · rename_i failed
    rw [gives] at failed
    contradiction
  · rename_i codes found
    obtain rfl := Option.some.inj (found.symm.trans gives)
    obtain ⟨bits, written⟩ := Described.exists_bits
      ⟨literalLengths.length, literalLengths ++ distanceLengths, _, gives⟩ literalPart.size
      (by rw [behind]; exact distancePart.size)
      (fun length listed => (List.mem_append.mp listed).elim (literalPart.small length)
        (distancePart.small length))
      ⟨length, List.mem_append_left _ listed, some⟩
    exact ⟨_, bits, rfl, written, literalPart.serves, distancePart.serves⟩

end BlockCodes

end Scratchpad.Zlib
