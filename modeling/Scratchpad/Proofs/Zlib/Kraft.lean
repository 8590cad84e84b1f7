import Mathlib.Algebra.BigOperators.Intervals
import Scratchpad.Proofs.Zlib.Codewords

/-! Codeword lengths that are made for weights fill a code tree. A Huffman tree is full; cutting its
depths to the limit asks for more places than there are, by no more than the number of longest
codewords; and every repair gives back one place, until exactly the places of a full tree are taken.
-/

namespace Scratchpad.Zlib

------------------------------------------------------------------------------------------
-- Trees
------------------------------------------------------------------------------------------

namespace TreeShape

/-- The number of tips of a tree. -/
def tips : TreeShape → Nat
  | tip => 1
  | fork left right => left.tips + right.tips

theorem length_depths (shape : TreeShape) (depth : Nat)
    : (shape.depths depth).length = shape.tips := by
  induction shape generalizing depth with
  | tip => rfl
  | fork left right leftIh rightIh => rw [depths, List.length_append, leftIh, rightIh, tips]

theorem le_of_mem_depths {shape : TreeShape} {depth below : Nat}
    (listed : below ∈ shape.depths depth)
    : depth ≤ below := by
  induction shape generalizing depth with
  | tip => exact Nat.le_of_eq (List.mem_singleton.mp listed).symm
  | fork left right leftIh rightIh =>
      rcases List.mem_append.mp listed with listed | listed
      · exact Nat.le_of_succ_le (leftIh listed)
      · exact Nat.le_of_succ_le (rightIh listed)

/-- If a tree has two tips, none is its root. -/
theorem pos_of_mem_depths {shape : TreeShape} {below : Nat} (two : 2 ≤ shape.tips)
    (listed : below ∈ shape.depths 0)
    : 0 < below := by
  cases shape with
  | tip => exact absurd two (by decide)
  | fork left right =>
      rcases List.mem_append.mp listed with listed | listed
      · exact le_of_mem_depths listed
      · exact le_of_mem_depths listed

/-- The tips of a tree take at least the places of its root, if none is deeper than the limit; a tip
that is cut to the limit takes one. The induction is on the tree.
-/
theorem pow_le_sum_depths (limit : Nat) (shape : TreeShape) (depth : Nat)
    : 2 ^ (limit - min depth limit)
      ≤ ((shape.depths depth).map fun below => 2 ^ (limit - min below limit)).sum := by
  induction shape generalizing depth with
  | tip => simp [depths]
  | fork left right leftIh rightIh =>
      have leftLe := leftIh (depth + 1)
      have rightLe := rightIh (depth + 1)
      rw [depths, List.map_append, List.sum_append]
      rcases Nat.lt_or_ge depth limit with above | below
      · have halves : limit - min depth limit = limit - min (depth + 1) limit + 1 := by omega
        rw [halves, Nat.pow_succ]
        omega
      · have one : limit - min depth limit = 0 := by omega
        have positive := Nat.pow_pos (a := 2) (n := limit - min (depth + 1) limit) (by decide)
        rw [one]
        omega

/-- They take no more than that and one for every tip at the limit. -/
theorem sum_depths_le (limit : Nat) (shape : TreeShape) (depth : Nat)
    : ((shape.depths depth).map fun below => 2 ^ (limit - min below limit)).sum
      ≤ 2 ^ (limit - min depth limit)
        + ((shape.depths depth).map fun below => if limit = min below limit then 1 else 0).sum := by
  induction shape generalizing depth with
  | tip => simp [depths]
  | fork left right leftIh rightIh =>
      rcases Nat.lt_or_ge depth limit with above | below
      · have leftLe := leftIh (depth + 1)
        have rightLe := rightIh (depth + 1)
        have halves : limit - min depth limit = limit - min (depth + 1) limit + 1 := by omega
        rw [depths, List.map_append, List.map_append, List.sum_append, List.sum_append, halves,
          Nat.pow_succ]
        omega
      · -- All tips are at the limit, so each is counted as it is.
        have same
            : ∀ deeper ∈ (fork left right).depths depth,
                2 ^ (limit - min deeper limit) = if limit = min deeper limit then 1 else 0 := by
          intro deeper listed
          have deep := le_of_mem_depths listed
          rw [if_pos (by omega), Nat.min_eq_right (by omega), Nat.sub_self, Nat.pow_zero]
        rw [List.map_congr_left same]
        exact Nat.le_add_left _ _

------------------------------------------------------------------------------------------
-- Joining
------------------------------------------------------------------------------------------

/-- The number of trees that are not yet joined. -/
def Queues.trees (queues : Queues) : Nat :=
  queues.tips.length + queues.forks.length

/-- The number of their tips. -/
def Queues.allTips (queues : Queues) : Nat :=
  queues.tips.length + (queues.forks.map fun joined => joined.2.tips).sum

/-- One tree is taken, and the others stay. -/
theorem Queues.exists_pop {queues : Queues} (some : queues.trees ≠ 0)
    : ∃ lightest rest, queues.pop? = .some (lightest, rest)
        ∧ rest.trees + 1 = queues.trees ∧ lightest.2.tips + rest.allTips = queues.allTips := by
  obtain ⟨_ | ⟨weight, tips⟩, _ | ⟨joined, forks⟩⟩ := queues
  · exact absurd rfl some
  · exact ⟨_, _, rfl, rfl, by simp [allTips]⟩
  · exact ⟨_, _, rfl, rfl, by simp [allTips, TreeShape.tips, Nat.add_comm]⟩
  · simp only [pop?]
    split
    · refine ⟨_, _, rfl, by simp [trees]; omega, by simp [allTips]; omega⟩
    · refine ⟨_, _, rfl, by simp [trees]; omega, by simp [allTips, TreeShape.tips]; omega⟩

/-- A joined tree is one tree more, with the tips of both. -/
theorem Queues.push_fork (queues : Queues) (weight : Nat) (left right : TreeShape)
    : let joined := Queues.mk queues.tips (queues.forks ++ [(weight, fork left right)])
      joined.trees = queues.trees + 1
      ∧ joined.allTips = queues.allTips + (left.tips + right.tips) := by
  constructor
  · rw [trees, List.length_append, ← Nat.add_assoc]
    rfl
  · rw [allTips, List.map_append, List.sum_append, ← Nat.add_assoc]
    rfl

/-- Joining loses no tips, by induction over the rounds. -/
theorem tips_joinAll {rounds : Nat} {queues : Queues} (trees : queues.trees = rounds + 1)
    : (joinAll rounds queues).tips = queues.allTips := by
  induction rounds generalizing queues with
  | zero =>
      have some : queues.trees ≠ 0 := by omega
      obtain ⟨lightest, rest, popped, left, tips⟩ := Queues.exists_pop some
      have none : rest.trees = 0 := by omega
      obtain ⟨_ | _, _ | _⟩ := rest
      · rw [joinAll, popped, ← tips]
        rfl
      all_goals cases none
  | succ rounds ih =>
      have some : queues.trees ≠ 0 := by omega
      obtain ⟨lightest, rest, popped, left, tips⟩ := Queues.exists_pop some
      have more : rest.trees ≠ 0 := by omega
      obtain ⟨next, last, popped', left', tips'⟩ := Queues.exists_pop more
      have joined := Queues.push_fork last (lightest.1 + next.1) lightest.2 next.2
      rw [joinAll, popped]
      simp only [popped']
      rw [ih (by omega), ← tips, ← tips']
      omega

end TreeShape

------------------------------------------------------------------------------------------
-- Counts of lengths
------------------------------------------------------------------------------------------

namespace CodewordLengths

/-- The places at the depth of the limit that a codeword takes up. An unused symbol takes none. -/
def room (limit length : Nat) : Nat :=
  if length = 0 then 0 else 2 ^ (limit - length)

/-- The weights of codewords taken together, where `counts` says how many have each length. -/
def weigh (weight : Nat → Nat) (counts : Array Nat) : Nat :=
  ∑ length ∈ Finset.range counts.size, counts.getD length 0 * weight length

theorem getD_modify {counts : Array Nat} {index : Nat} (inside : index < counts.size)
    (changed : Nat) (change : Nat → Nat)
    : (counts.modify changed change).getD index 0
      = if changed = index then change (counts.getD index 0) else counts.getD index 0 := by
  rw [Array.getD_eq_getD_getElem?, Array.getElem?_modify, Array.getD_eq_getD_getElem?,
    Array.getElem?_eq_getElem inside]
  split <;> rfl

/-- If one count is changed, the others weigh what they did. -/
theorem weigh_modify (weight : Nat → Nat) {counts : Array Nat} {length : Nat}
    (inside : length < counts.size) (change : Nat → Nat)
    : weigh weight (counts.modify length change) + counts.getD length 0 * weight length
      = weigh weight counts + change (counts.getD length 0) * weight length := by
  have listed : length ∈ Finset.range counts.size := Finset.mem_range.mpr inside
  have others
      : ∑ other ∈ (Finset.range counts.size).erase length,
          (counts.modify length change).getD other 0 * weight other
        = ∑ other ∈ (Finset.range counts.size).erase length,
          counts.getD other 0 * weight other := by
    refine Finset.sum_congr rfl fun other member => ?_
    obtain ⟨different, within⟩ := Finset.mem_erase.mp member
    rw [getD_modify (Finset.mem_range.mp within), if_neg (Ne.symm different)]
  rw [weigh, weigh, Array.size_modify, ← Finset.add_sum_erase _ _ listed,
    ← Finset.add_sum_erase _ _ listed, others, getD_modify inside, if_pos rfl]
  omega

theorem weigh_add (weight : Nat → Nat) {counts : Array Nat} {length : Nat}
    (inside : length < counts.size) (more : Nat)
    : weigh weight (counts.modify length (· + more))
      = weigh weight counts + more * weight length := by
  have changed := weigh_modify weight inside (· + more)
  rw [Nat.add_mul] at changed
  omega

theorem weigh_sub_one (weight : Nat → Nat) {counts : Array Nat} {length : Nat}
    (inside : length < counts.size) (some : counts.getD length 0 ≠ 0)
    : weigh weight (counts.modify length (· - 1)) + weight length = weigh weight counts := by
  have changed := weigh_modify weight inside (· - 1)
  obtain ⟨fewer, count⟩ := Nat.exists_eq_succ_of_ne_zero some
  rw [count, Nat.succ_sub_one, Nat.succ_mul] at changed
  omega

theorem getD_replicate_zero (size index : Nat)
    : (Array.replicate size 0).getD index 0 = 0 := by
  rw [Array.getD_eq_getD_getElem?, Array.getElem?_replicate]
  split <;> rfl

theorem weigh_replicate (weight : Nat → Nat) (size : Nat)
    : weigh weight (Array.replicate size 0) = 0 :=
  Finset.sum_eq_zero fun length _ => by rw [getD_replicate_zero, Nat.zero_mul]

theorem weigh_at {counts : Array Nat} {length : Nat} (inside : length < counts.size)
    : weigh (fun other => if length = other then 1 else 0) counts = counts.getD length 0 := by
  rw [weigh, Finset.sum_mul_boole, if_pos (Finset.mem_range.mpr inside)]

/-- The counts weigh what the codewords weigh that are counted, by induction over them. -/
theorem weigh_histogram (weight : Nat → Nat) (limit : Nat) (depths : List Nat)
    : weigh weight (histogram limit depths)
      = (depths.map fun depth => weight (min depth limit)).sum := by
  suffices counted
      : ∀ counts : Array Nat, counts.size = limit + 1 →
          weigh weight (depths.foldl (fun counts depth => counts.modify (min depth limit) (· + 1))
            counts)
          = weigh weight counts + (depths.map fun depth => weight (min depth limit)).sum by
    rw [histogram, counted _ Array.size_replicate, weigh_replicate, Nat.zero_add]
  induction depths with
  | nil => exact fun counts _ => rfl
  | cons depth rest ih =>
      intro counts size
      have inside : min depth limit < counts.size := by omega
      rw [List.foldl_cons, ih _ (by rw [Array.size_modify, size]), weigh_add weight inside,
        List.map_cons, List.sum_cons]
      omega

theorem size_histogram (limit : Nat) (depths : List Nat)
    : (histogram limit depths).size = limit + 1 := by
  suffices counted
      : ∀ counts : Array Nat,
          (depths.foldl (fun counts depth => counts.modify (min depth limit) (· + 1))
            counts).size = counts.size by
    rw [histogram, counted, Array.size_replicate]
  induction depths with
  | nil => exact fun counts => rfl
  | cons depth rest ih =>
      intro counts
      rw [List.foldl_cons, ih, Array.size_modify]

theorem foldl_range_add (term : Nat → Nat) (count : Nat)
    : (List.range count).foldl (fun sum index => sum + term index) 0
      = ∑ index ∈ Finset.range count, term index := by
  induction count with
  | zero => rfl
  | succ count ih =>
      rw [List.range_succ, List.foldl_append, ih, Finset.sum_range_succ]
      rfl

/-- What codewords demand is the room that they take up. -/
theorem demand_eq_weigh {limit : Nat} {counts : Array Nat} (size : counts.size = limit + 1)
    : demand limit counts = weigh (room limit) counts := by
  rw [demand, foldl_range_add, weigh, size, Finset.sum_range_succ']
  simp only [room, if_pos, Nat.mul_zero, Nat.add_zero, Nat.add_eq_zero_iff, Nat.one_ne_zero,
    and_false, if_false, Nat.pow_eq]

/-- The longest length below the limit is in use; if there is none, no length below it is. -/
theorem longestBelow_spec (counts : Array Nat) (limit : Nat)
    : match longestBelow counts limit with
      | some length => 0 < length ∧ length < limit ∧ counts.getD length 0 ≠ 0
      | none => ∀ length, 0 < length → length < limit → counts.getD length 0 = 0 := by
  induction limit with
  | zero => exact fun length _ less => absurd less (Nat.not_lt_zero length)
  | succ limit ih =>
      rw [longestBelow]
      by_cases first : limit = 0
      · rw [if_pos first]
        intro length positive less
        omega
      · rw [if_neg first]
        by_cases used : counts.getD limit 0 ≠ 0
        · rw [if_pos used]
          exact ⟨Nat.pos_of_ne_zero first, Nat.lt_succ_self limit, used⟩
        · rw [if_neg used]
          cases found : longestBelow counts limit with
          | some length =>
              rw [found] at ih
              exact ⟨ih.1, Nat.lt_succ_of_lt ih.2.1, ih.2.2⟩
          | none =>
              rw [found] at ih
              intro length positive less
              rcases Nat.lt_succ_iff_lt_or_eq.mp less with less | rfl
              · exact ih length positive less
              · exact not_not.mp used

/-- The counts of `total` codewords which demand `rest` more places than there are, and of which at
least that many have the longest length.
-/
structure Overfull (limit total rest : Nat) (counts : Array Nat) : Prop where
  size : counts.size = limit + 1
  unused : counts.getD 0 0 = 0
  total : weigh (fun _ => 1) counts = total
  demand : weigh (room limit) counts = 2 ^ limit + rest
  longest : rest ≤ counts.getD limit 0

/-- If no length below the limit is in use, codewords take no more than one place each. -/
theorem weigh_room_le {limit : Nat} {counts : Array Nat} (size : counts.size = limit + 1)
    (none : ∀ length, 0 < length → length < limit → counts.getD length 0 = 0)
    : weigh (room limit) counts ≤ weigh (fun _ => 1) counts := by
  refine Finset.sum_le_sum fun length member => ?_
  have inside : length < counts.size := Finset.mem_range.mp member
  rcases Nat.eq_zero_or_pos length with rfl | positive
  · simp [room]
  · rcases Nat.lt_or_ge length limit with less | last
    · rw [none length positive less, Nat.zero_mul, Nat.zero_mul]
    · have same : length = limit := by omega
      have one : room limit length = 1 := by
        rw [room, if_neg (by omega), same, Nat.sub_self, Nat.pow_zero]
      rw [one]

/-- What a repair does: a codeword of the limit and one of a shorter length are given up for two
that are longer by one than the shorter.
-/
theorem weigh_repaired (weight : Nat → Nat) {limit length : Nat} {counts : Array Nat}
    (size : counts.size = limit + 1) (less : length < limit) (longest : counts.getD limit 0 ≠ 0)
    (used : (counts.modify limit (· - 1)).getD length 0 ≠ 0)
    : weigh weight
          (((counts.modify limit (· - 1)).modify length (· - 1)).modify (length + 1) (· + 2))
        + weight limit + weight length
      = weigh weight counts + 2 * weight (length + 1) := by
  have first := weigh_sub_one weight (by omega : limit < counts.size) longest
  have second := weigh_sub_one weight
    (by rw [Array.size_modify]; omega : length < (counts.modify limit (· - 1)).size) used
  have third := weigh_add weight
    (by rw [Array.size_modify, Array.size_modify]; omega
      : length + 1 < ((counts.modify limit (· - 1)).modify length (· - 1)).size) 2
  omega

/-- A repair gives back one place and keeps the number of codewords. -/
theorem Overfull.lower {limit total rest : Nat} {counts : Array Nat}
    (overfull : Overfull limit total (rest + 1) counts) (few : total ≤ 2 ^ limit)
    : Overfull limit total rest (lower limit counts) := by
  obtain ⟨size, unused, total, demand, longest⟩ := overfull
  have some : counts.getD limit 0 ≠ 0 := by omega
  have below := longestBelow_spec (counts.modify limit (· - 1)) limit
  rw [CodewordLengths.lower]
  cases found : longestBelow (counts.modify limit (· - 1)) limit with
  | none =>
      rw [found] at below
      have none (length : Nat) (positive : 0 < length) (less : length < limit)
          : counts.getD length 0 = 0 := by
        have same := below length positive less
        rwa [getD_modify (by omega), if_neg (by omega)] at same
      have most := weigh_room_le size none
      omega
  | some length =>
      rw [found] at below
      obtain ⟨positive, less, used⟩ := below
      have repaired (weight : Nat → Nat) := weigh_repaired weight size less some used
      have doubled : room limit length = 2 * room limit (length + 1) := by
        have halves : limit - length = limit - (length + 1) + 1 := by omega
        rw [room, room, if_neg (by omega), if_neg (by omega), halves, Nat.pow_succ, Nat.mul_comm]
      have one : room limit limit = 1 := by
        rw [room, if_neg (by omega), Nat.sub_self, Nat.pow_zero]
      simp only
      constructor
      case size => simp only [Array.size_modify, size]
      case unused =>
        rw [getD_modify (by simp only [Array.size_modify]; omega), if_neg (by omega),
          getD_modify (by simp only [Array.size_modify]; omega), if_neg (by omega),
          getD_modify (by omega), if_neg (by omega), unused]
      case total =>
        have counted := repaired fun _ => 1
        omega
      case demand =>
        have taken := repaired (room limit)
        omega
      case longest =>
        rw [getD_modify (by simp only [Array.size_modify]; omega),
          getD_modify (by simp only [Array.size_modify]; omega), getD_modify (by omega), if_pos rfl,
          if_neg (by omega : length ≠ limit)]
        split <;> omega

/-- As many repairs as there are places too many leave the places of a full tree, by induction over
them.
-/
theorem Overfull.repeat_lower {limit total rest : Nat} {counts : Array Nat} (repairs : Nat)
    (overfull : Overfull limit total (rest + repairs) counts) (few : total ≤ 2 ^ limit)
    : Overfull limit total rest (Nat.repeat (CodewordLengths.lower limit) repairs counts) := by
  induction repairs generalizing rest with
  | zero => exact overfull
  | succ repairs ih =>
      rw [Nat.add_succ, ← Nat.succ_add] at overfull
      exact (ih overfull).lower few

/-- Cutting the depths of a tree to the limit asks for no more places too many than there are
longest codewords.
-/
theorem overfull_histogram {limit : Nat} (positive : 0 < limit) {shape : TreeShape}
    (two : 2 ≤ shape.tips)
    : Overfull limit shape.tips (demand limit (histogram limit (shape.depths 0)) - 2 ^ limit)
        (histogram limit (shape.depths 0)) := by
  have size : (histogram limit (shape.depths 0)).size = limit + 1 := size_histogram limit _
  have deep : ∀ depth ∈ shape.depths 0, min depth limit ≠ 0 := by
    intro depth listed
    have below := TreeShape.pos_of_mem_depths two listed
    omega
  have taken
      : weigh (room limit) (histogram limit (shape.depths 0))
        = ((shape.depths 0).map fun depth => 2 ^ (limit - min depth limit)).sum := by
    rw [weigh_histogram]
    refine congrArg List.sum (List.map_congr_left fun depth listed => ?_)
    rw [room, if_neg (deep depth listed)]
  have least := TreeShape.pow_le_sum_depths limit shape 0
  have most := TreeShape.sum_depths_le limit shape 0
  rw [← taken, Nat.zero_min, Nat.sub_zero] at least most
  constructor
  case size => exact size
  case unused =>
    rw [← weigh_at (size ▸ Nat.succ_pos limit), weigh_histogram]
    refine List.sum_eq_zero fun count listed => ?_
    obtain ⟨depth, member, rfl⟩ := List.mem_map.mp listed
    exact if_neg (Ne.symm (deep depth member))
  case total =>
    rw [weigh_histogram, List.map_const', List.sum_replicate_nat, Nat.mul_one,
      TreeShape.length_depths]
  case demand =>
    rw [demand_eq_weigh size]
    omega
  case longest =>
    have last
        : (histogram limit (shape.depths 0)).getD limit 0
          = ((shape.depths 0).map fun depth => if limit = min depth limit then 1 else 0).sum := by
      rw [← weigh_at (size ▸ Nat.lt_succ_self limit), weigh_histogram]
    rw [demand_eq_weigh size, last]
    omega

/-- So the repairs leave the places of a full tree. -/
theorem overfull_repaired {limit : Nat} (positive : 0 < limit) {shape : TreeShape}
    (two : 2 ≤ shape.tips) (few : shape.tips ≤ 2 ^ limit)
    : Overfull limit shape.tips 0
        (Nat.repeat (lower limit) (demand limit (histogram limit (shape.depths 0)) - 2 ^ limit)
          (histogram limit (shape.depths 0))) := by
  have cut := overfull_histogram positive two
  rw [← Nat.zero_add (demand _ _ - _)] at cut
  exact cut.repeat_lower _ few

------------------------------------------------------------------------------------------
-- Lengths for symbols
------------------------------------------------------------------------------------------

/-- The lengths that counts stand for, shortest first. -/
def spread (limit : Nat) (counts : Array Nat) : List Nat :=
  (List.range (limit + 1)).flatMap fun length => List.replicate (counts.getD length 0) length

theorem sum_spread (weight : Nat → Nat) {limit : Nat} {counts : Array Nat}
    (size : counts.size = limit + 1)
    : ((spread limit counts).map weight).sum = weigh weight counts := by
  rw [spread, weigh, size]
  generalize limit + 1 = count
  induction count with
  | zero => rfl
  | succ count ih =>
      rw [List.range_succ, List.flatMap_append, List.map_append, List.sum_append, ih,
        Finset.sum_range_succ, List.flatMap_singleton, List.map_replicate, List.sum_replicate_nat]

theorem mem_spread {limit length : Nat} {counts : Array Nat}
    (listed : length ∈ spread limit counts)
    : length ≤ limit ∧ counts.getD length 0 ≠ 0 := by
  obtain ⟨same, inside, replicated⟩ := List.mem_flatMap.mp listed
  obtain ⟨some, rfl⟩ := List.mem_replicate.mp replicated
  exact ⟨Nat.le_of_lt_succ (List.mem_range.mp inside), some⟩

/-- If a symbol without a length is given one, the others stay. -/
theorem sum_map_set {weight : Nat → Nat} (nothing : weight 0 = 0) {lengths : List Nat}
    {symbol : Nat} (unset : lengths[symbol]? = some 0) (length : Nat)
    : ((lengths.set symbol length).map weight).sum = (lengths.map weight).sum + weight length := by
  induction lengths generalizing symbol with
  | nil => cases unset
  | cons first rest ih =>
      cases symbol with
      | zero =>
          obtain rfl : first = 0 := by simpa using unset
          rw [List.set_cons_zero, List.map_cons, List.sum_cons, List.map_cons, List.sum_cons,
            nothing, Nat.zero_add, Nat.add_comm]
      | succ symbol =>
          rw [List.set_cons_succ, List.map_cons, List.sum_cons, ih (by simpa using unset),
            List.map_cons, List.sum_cons, Nat.add_assoc]

/-- So lengths weigh what is given out, by induction over it. -/
theorem sum_foldl_setIfInBounds {weight : Nat → Nat} (nothing : weight 0 = 0)
    {entries : List (Nat × Nat)} {lengths : Array Nat} (distinct : (entries.map Prod.fst).Nodup)
    (unset : ∀ symbol ∈ entries.map Prod.fst, lengths[symbol]? = some 0)
    : ((entries.foldl (fun lengths (symbol, length) => lengths.setIfInBounds symbol length)
        lengths).toList.map weight).sum
      = (lengths.toList.map weight).sum + ((entries.map Prod.snd).map weight).sum := by
  induction entries generalizing lengths with
  | nil => rfl
  | cons entry rest ih =>
      obtain ⟨symbol, length⟩ := entry
      obtain ⟨new, distinct⟩ := List.nodup_cons.mp distinct
      have first : lengths.toList[symbol]? = some 0 := by
        rw [Array.getElem?_toList]
        exact unset symbol List.mem_cons_self
      have later
          : ∀ other ∈ rest.map Prod.fst,
              (lengths.setIfInBounds symbol length)[other]? = some 0 := by
        intro other listed
        have different : symbol ≠ other := fun same => new (same ▸ listed)
        rw [Array.getElem?_setIfInBounds_ne different]
        exact unset other (List.mem_cons_of_mem symbol listed)
      rw [List.foldl_cons, ih distinct later, Array.toList_setIfInBounds, sum_map_set nothing first,
        List.map_cons, List.map_cons, List.sum_cons, Nat.add_assoc]

theorem getD_ne_zero_iff {lengths : List Nat} {symbol : Nat}
    : lengths.getD symbol 0 ≠ 0 ↔ ∃ length, lengths[symbol]? = some length ∧ length ≠ 0 := by
  rw [List.getD_eq_getElem?_getD]
  cases lengths[symbol]? <;> simp

/-- The lengths of so many symbols, of which some are given one. -/
def assign (count : Nat) (entries : List (Nat × Nat)) : List Nat :=
  (entries.foldl (fun lengths (symbol, length) => lengths.setIfInBounds symbol length)
    (Array.replicate count 0)).toList

section Assign

variable {count : Nat} {entries : List (Nat × Nat)}

theorem length_assign (count : Nat) (entries : List (Nat × Nat))
    : (assign count entries).length = count := by
  rw [assign, Array.length_toList, size_foldl_setIfInBounds, Array.size_replicate]

/-- A symbol has a length that it was given, or none if it was not given any. -/
theorem given_or_unset {symbol length : Nat} (found : (assign count entries)[symbol]? = some length)
    : (symbol, length) ∈ entries ∨ symbol ∉ entries.map Prod.fst ∧ length = 0 := by
  rw [assign, Array.getElem?_toList] at found
  rcases mem_of_getElem?_foldl_setIfInBounds found with listed | ⟨other, before⟩
  · exact .inl listed
  · rw [Array.getElem?_replicate] at before
    split at before
    · exact .inr ⟨other, (Option.some.inj before).symm⟩
    · contradiction

/-- Just the symbols that are given a length have one. -/
theorem getD_assign_ne_zero_iff (inside : ∀ symbol ∈ entries.map Prod.fst, symbol < count)
    (used : ∀ length ∈ entries.map Prod.snd, length ≠ 0) {symbol : Nat}
    : (assign count entries).getD symbol 0 ≠ 0 ↔ symbol ∈ entries.map Prod.fst := by
  rw [getD_ne_zero_iff]
  constructor
  · rintro ⟨length, found, some⟩
    rcases given_or_unset found with listed | ⟨-, none⟩
    · exact List.mem_map_of_mem listed
    · exact absurd none some
  · intro listed
    have within : symbol < (assign count entries).length := by
      rw [length_assign]
      exact inside symbol listed
    have found := List.getElem?_eq_getElem within
    refine ⟨_, found, ?_⟩
    rcases given_or_unset found with given | ⟨other, -⟩
    · exact used _ (List.mem_map_of_mem given)
    · exact absurd listed other

theorem sum_assign {weight : Nat → Nat} (nothing : weight 0 = 0)
    (distinct : (entries.map Prod.fst).Nodup)
    (inside : ∀ symbol ∈ entries.map Prod.fst, symbol < count)
    : ((assign count entries).map weight).sum = ((entries.map Prod.snd).map weight).sum := by
  have unset : ∀ symbol ∈ entries.map Prod.fst, (Array.replicate count 0)[symbol]? = some 0 := by
    intro symbol listed
    rw [Array.getElem?_replicate, if_pos (inside symbol listed)]
  rw [assign, sum_foldl_setIfInBounds nothing distinct unset, Array.toList_replicate,
    List.map_replicate, List.sum_replicate_nat, nothing, Nat.mul_zero, Nat.zero_add]

end Assign

/-- What makes lengths good for weights: just the symbols that are used have one, none is beyond the
limit, and they fill a tree, unless there is at most one, of a single bit.
-/
structure Suits (limit : Nat) (weights lengths : List Nat) : Prop where
  length_eq : lengths.length = weights.length
  used_iff : ∀ symbol, lengths.getD symbol 0 ≠ 0 ↔ weights.getD symbol 0 ≠ 0
  le_limit : ∀ length ∈ lengths, length ≤ limit
  full : (lengths.map (room limit)).sum = 2 ^ limit ∨ lengths.sum ≤ 1

/-- Lengths are good if every used symbol is given one, and what is given out is. -/
theorem suits_assign {limit : Nat} {weights : List Nat} (entries : List (Nat × Nat))
    (distinct : (entries.map Prod.fst).Nodup)
    (used : ∀ symbol, symbol ∈ entries.map Prod.fst ↔ weights.getD symbol 0 ≠ 0)
    (allowed : ∀ length ∈ entries.map Prod.snd, length ≠ 0 ∧ length ≤ limit)
    (full
      : ((entries.map Prod.snd).map (room limit)).sum = 2 ^ limit
        ∨ (entries.map Prod.snd).sum ≤ 1)
    : Suits limit weights (assign weights.length entries) := by
  have inside : ∀ symbol ∈ entries.map Prod.fst, symbol < weights.length := by
    intro symbol listed
    obtain ⟨weight, found, -⟩ := getD_ne_zero_iff.mp ((used symbol).mp listed)
    exact (List.getElem?_eq_some_iff.mp found).1
  constructor
  case length_eq => exact length_assign _ entries
  case used_iff =>
    intro symbol
    rw [getD_assign_ne_zero_iff inside fun length listed => (allowed length listed).1, used]
  case le_limit =>
    intro length listed
    obtain ⟨symbol, found⟩ := List.mem_iff_getElem?.mp listed
    rcases given_or_unset found with given | ⟨-, rfl⟩
    · exact (allowed length (List.mem_map_of_mem given)).2
    · exact Nat.zero_le limit
  case full =>
    have total : ((assign weights.length entries).map id).sum = _ := sum_assign rfl distinct inside
    rw [List.map_id, List.map_id] at total
    rw [sum_assign rfl distinct inside, total]
    exact full

theorem nodup_symbols (weights : List Nat)
    : (weights.zipIdx.map Prod.snd).Nodup := by
  rw [List.zipIdx_map_snd]
  exact List.nodup_range'

/-- The used symbols, lightest first, are distinct, and just those with a weight. -/
theorem ascending_spec (weights : List Nat)
    : let ascending := (weights.zipIdx.filter fun (weight, _) => weight ≠ 0).mergeSort
        fun left right => left.1 ≤ right.1
      (ascending.map Prod.snd).Nodup
        ∧ (∀ symbol, symbol ∈ ascending.map Prod.snd ↔ weights.getD symbol 0 ≠ 0)
        ∧ ascending.length ≤ weights.length := by
  intro ascending
  have sorted : ascending.Perm (weights.zipIdx.filter fun (weight, _) => weight ≠ 0) :=
    List.mergeSort_perm _ _
  refine ⟨?_, fun symbol => ?_, ?_⟩
  · rw [(sorted.map Prod.snd).nodup_iff]
    exact (List.filter_sublist.map Prod.snd).nodup (nodup_symbols weights)
  · rw [(sorted.map Prod.snd).mem_iff, getD_ne_zero_iff]
    constructor
    · intro listed
      obtain ⟨⟨weight, symbol⟩, member, rfl⟩ := List.mem_map.mp listed
      obtain ⟨numbered, some⟩ := List.mem_filter.mp member
      exact ⟨weight, List.mk_mem_zipIdx_iff_getElem?.mp numbered, of_decide_eq_true some⟩
    · rintro ⟨weight, found, some⟩
      exact List.mem_map_of_mem (f := Prod.snd) (List.mem_filter.mpr
        ⟨List.mk_mem_zipIdx_iff_getElem?.mpr found, decide_eq_true some⟩)
  · rw [sorted.length_eq]
    exact Nat.le_trans (List.length_filter_le _ _) (Nat.le_of_eq List.length_zipIdx)

/-- Lengths that fill a tree are good if each of the used symbols is given one of them. -/
theorem suits_zip_spread {limit : Nat} {weights symbols : List Nat} {counts : Array Nat}
    (distinct : symbols.Nodup) (used : ∀ symbol, symbol ∈ symbols ↔ weights.getD symbol 0 ≠ 0)
    (filled : Overfull limit symbols.length 0 counts)
    : Suits limit weights (assign weights.length (symbols.zip (spread limit counts))) := by
  have length_spread : (spread limit counts).length = symbols.length := by
    have counted := sum_spread (fun _ => 1) filled.size
    rwa [List.map_const', List.sum_replicate_nat, Nat.mul_one, filled.total] at counted
  have given : (symbols.zip (spread limit counts)).map Prod.fst = symbols :=
    List.map_fst_zip (Nat.le_of_eq length_spread.symm)
  have lengths : (symbols.zip (spread limit counts)).map Prod.snd = spread limit counts :=
    List.map_snd_zip (Nat.le_of_eq length_spread)
  apply suits_assign
  case distinct => rwa [given]
  case used => rwa [given]
  case allowed =>
    rw [lengths]
    intro length listed
    obtain ⟨inside, some⟩ := mem_spread listed
    exact ⟨fun none => some (none ▸ filled.unused), inside⟩
  case full =>
    rw [lengths, sum_spread _ filled.size, filled.demand, Nat.add_zero]
    exact .inl rfl

/-- The lengths that are made for weights are good for them. -/
theorem suits_ofWeights {limit : Nat} (positive : 0 < limit) (weights : List Nat)
    (few : weights.length ≤ 2 ^ limit)
    : Suits limit weights (ofWeights limit weights) := by
  obtain ⟨distinct, used, shorter⟩ := ascending_spec weights
  simp only [ofWeights]
  generalize (weights.zipIdx.filter fun (weight, _) => weight ≠ 0).mergeSort
    (fun left right => left.1 ≤ right.1) = ascending at distinct used shorter
  rcases ascending with _ | ⟨first, _ | ⟨second, rest⟩⟩
  case nil =>
    exact suits_assign [] List.nodup_nil used
      (fun _ none => absurd none List.not_mem_nil) (.inr (Nat.zero_le 1))
  case cons.nil =>
    refine suits_assign [(first.2, 1)] distinct used ?_ (.inr (Nat.le_refl 1))
    intro length listed
    obtain rfl := List.mem_singleton.mp listed
    exact ⟨Nat.one_ne_zero, positive⟩
  case cons.cons =>
    have tips
        : (TreeShape.joinAll (rest.length + 1)
            ⟨(first :: second :: rest).map Prod.fst, []⟩).tips
          = ((first :: second :: rest).reverse.map Prod.snd).length := by
      rw [TreeShape.tips_joinAll, TreeShape.Queues.allTips, List.length_map, List.length_map,
        List.length_reverse]
      · rfl
      · rw [TreeShape.Queues.trees, List.length_map]
        rfl
    have enough : 2 ≤ ((first :: second :: rest).reverse.map Prod.snd).length := by simp
    have filled := overfull_repaired positive (tips ▸ enough)
      (by rw [tips, List.length_map, List.length_reverse]; exact Nat.le_trans shorter few)
    rw [tips] at filled
    rw [← List.nodup_reverse, ← List.map_reverse] at distinct
    refine suits_zip_spread distinct (fun symbol => ?_) filled
    rw [List.map_reverse, List.mem_reverse]
    exact used symbol

end CodewordLengths

end Scratchpad.Zlib
