import Mathlib.Data.List.Nodup
import Scratchpad.Proofs.Zlib.Kraft
import Scratchpad.Zlib.Description

/-! Lengths that fill a tree give a code. Every symbol goes as far to the left as it can, so that
one part of the symbols fills the left half of a tree and the others the right half: none is left
over, no place is without a symbol, and every symbol has a codeword.
-/

namespace Scratchpad.Zlib

open CodewordLengths (room)

------------------------------------------------------------------------------------------
-- Building
------------------------------------------------------------------------------------------

/-- The places at depth `bottom` that symbols take. -/
def places (bottom : Nat) (symbols : List (Nat × Nat)) : Nat :=
  (symbols.map fun entry => room bottom entry.1).sum

/-- What is built from the front of some symbols fills a place of `height` levels, and the others
are left over.
-/
structure Placed (bottom height : Nat) (symbols : List (Nat × Nat)) (tree : CodeTree)
    (front rest : List (Nat × Nat)) : Prop where
  split : symbols = front ++ rest
  full : tree.isFull = true
  takes : places bottom front = 2 ^ height
  symbols : ∀ path, (tree.paths path).map Prod.fst = front.map Prod.snd

theorem places_append (bottom : Nat) (front back : List (Nat × Nat))
    : places bottom (front ++ back) = places bottom front + places bottom back := by
  rw [places, List.map_append, List.sum_append, places, places]

/-- A symbol whose codeword has the length of its place fills it. -/
theorem placed_leaf {bottom height length : Nat} (levels : length + height = bottom)
    (below : 0 < length) (symbol : Nat) (rest : List (Nat × Nat))
    : Placed bottom height ((length, symbol) :: rest) (.leaf symbol) [(length, symbol)] rest := by
  refine ⟨rfl, rfl, ?_, fun path => rfl⟩
  rw [places, List.map_singleton, List.sum_singleton, ← levels]
  exact (if_neg (Nat.ne_of_gt below)).trans (by rw [Nat.add_sub_cancel_left])

/-- Two places beside each other make one that is higher by a level. -/
theorem Placed.node {bottom height : Nat} {symbols left middle right rest : List (Nat × Nat)}
    {zeroTree oneTree : CodeTree} (zero : Placed bottom height symbols zeroTree left middle)
    (one : Placed bottom height middle oneTree right rest)
    : Placed bottom (height + 1) symbols (.node zeroTree oneTree) (left ++ right) rest := by
  constructor
  case split => rw [zero.split, List.append_assoc, ← one.split]
  case full => rw [CodeTree.isFull, zero.full, one.full, Bool.and_self]
  case takes => rw [places_append, zero.takes, one.takes, Nat.pow_succ, Nat.mul_two]
  case symbols =>
    intro path
    rw [CodeTree.paths, List.map_append, zero.symbols, one.symbols, List.map_append]

/-- Symbols in the order of their lengths, none of which ends above a place. -/
structure Ordered (depth bottom : Nat) (symbols : List (Nat × Nat)) : Prop where
  sorted : symbols.Pairwise fun left right => left.1 ≤ right.1
  inside : ∀ entry ∈ symbols, depth ≤ entry.1 ∧ entry.1 ≤ bottom

/-- If the first symbol does not end at a place, none does. -/
theorem Ordered.deeper {depth bottom length symbol : Nat} {rest : List (Nat × Nat)}
    (ordered : Ordered depth bottom ((length, symbol) :: rest)) (below : length ≠ depth)
    : Ordered (depth + 1) bottom ((length, symbol) :: rest) := by
  refine ⟨ordered.sorted, fun entry listed => ?_⟩
  obtain ⟨above, -⟩ := ordered.inside (length, symbol) List.mem_cons_self
  have least : length ≤ entry.1 := by
    rcases List.mem_cons.mp listed with rfl | later
    · exact Nat.le_refl _
    · exact List.rel_of_pairwise_cons ordered.sorted later
  have inside := ordered.inside entry listed
  dsimp only at above
  omega

theorem Ordered.right {depth bottom : Nat} {front back : List (Nat × Nat)}
    (ordered : Ordered depth bottom (front ++ back))
    : Ordered depth bottom back :=
  ⟨(List.pairwise_append.mp ordered.sorted).2.1,
    fun entry listed => ordered.inside entry (List.mem_append_right front listed)⟩

/-- Every symbol takes a place, so that none is left where none is taken. -/
theorem Ordered.eq_nil {depth bottom : Nat} {symbols : List (Nat × Nat)}
    (ordered : Ordered depth bottom symbols) (below : 0 < depth)
    (none : places bottom symbols = 0)
    : symbols = [] := by
  rcases symbols with _ | ⟨entry, rest⟩
  · rfl
  · obtain ⟨above, -⟩ := ordered.inside entry List.mem_cons_self
    have some : 0 < room bottom entry.1 := by
      rw [room, if_neg (by omega)]
      exact Nat.pow_pos (by decide)
    rw [places, List.map_cons, List.sum_cons] at none
    omega

namespace CodeTree

/-- Symbols fill a place of some height if they ask for it. -/
def Fills (bottom height depth : Nat) : Prop :=
  ∀ symbols, Ordered depth bottom symbols → 2 ^ height ≤ places bottom symbols
    → ∃ front, Placed bottom height symbols (build height depth symbols).1 front
        (build height depth symbols).2

/-- If symbols fill each of two halves, they fill the whole: what fills the left half leaves enough
for the right half.
-/
theorem Fills.exists_node {bottom height depth : Nat} (fills : Fills bottom height depth)
    {symbols : List (Nat × Nat)} (ordered : Ordered depth bottom symbols)
    (enough : 2 ^ (height + 1) ≤ places bottom symbols)
    : let zero := build height depth symbols
      let one := build height depth zero.2
      ∃ front, Placed bottom (height + 1) symbols (.node zero.1 one.1) front one.2 := by
  intro zero one
  rw [Nat.pow_succ] at enough
  obtain ⟨left, zeroPlaced⟩ := fills symbols ordered (by omega)
  have whole := places_append bottom left zero.2
  rw [← zeroPlaced.split, zeroPlaced.takes] at whole
  rw [zeroPlaced.split] at ordered
  obtain ⟨right, onePlaced⟩ := fills zero.2 ordered.right (by omega)
  exact ⟨left ++ right, zeroPlaced.node onePlaced⟩

/-- Symbols fill every tree that they ask for, by induction over its levels. -/
theorem fills {bottom height depth : Nat} (levels : depth + height = bottom) (below : 0 < depth)
    : Fills bottom height depth := by
  induction height generalizing depth with
  | zero =>
      intro symbols ordered enough
      rcases symbols with _ | ⟨⟨length, symbol⟩, rest⟩
      · cases enough
      · obtain ⟨above, within⟩ := ordered.inside (length, symbol) List.mem_cons_self
        obtain rfl : length = depth :=
          Nat.le_antisymm (Nat.le_trans within (Nat.le_of_eq levels.symm)) above
        rw [build, if_pos rfl]
        exact ⟨_, placed_leaf levels below symbol rest⟩
  | succ height ih =>
      intro symbols ordered enough
      rcases symbols with _ | ⟨⟨length, symbol⟩, rest⟩
      · exact absurd enough (Nat.not_le.mpr (Nat.pow_pos (by decide)))
      · rw [build]
        by_cases here : length = depth
        · rw [if_pos here]
          exact ⟨_, placed_leaf (here ▸ levels) (here ▸ below) symbol rest⟩
        · rw [if_neg here]
          exact (ih (by omega) (Nat.succ_pos depth)).exists_node (ordered.deeper here) enough

end CodeTree

------------------------------------------------------------------------------------------
-- The canonical order
------------------------------------------------------------------------------------------

namespace PrefixCode

theorem mem_canonical_iff {lengths : List Nat} {length symbol : Nat}
    : (length, symbol) ∈ canonical lengths
      ↔ lengths[symbol]? = some length ∧ length ≠ 0 ∧ length ≤ maxLength := by
  simp only [canonical, List.mem_flatMap, List.mem_range, List.mem_filter,
    List.mk_mem_zipIdx_iff_getElem?, decide_eq_true_eq]
  constructor
  · rintro ⟨shorter, less, found, rfl⟩
    exact ⟨found, by omega, less⟩
  · rintro ⟨found, some, le⟩
    exact ⟨length - 1, by omega, found, by omega⟩

theorem eq_of_mem_filter {lengths : List Nat} {shorter : Nat} {entry : Nat × Nat}
    (listed : entry ∈ lengths.zipIdx.filter fun (length, _) => length = shorter + 1)
    : entry.1 = shorter + 1 :=
  of_decide_eq_true (List.mem_filter.mp listed).2

theorem ordered_canonical (lengths : List Nat)
    : Ordered 1 maxLength (canonical lengths) := by
  constructor
  case sorted =>
    refine List.pairwise_flatMap.mpr ⟨fun shorter _ => ?_, ?_⟩
    · refine List.pairwise_of_forall_mem_list fun left listed right listed' => ?_
      rw [eq_of_mem_filter listed, eq_of_mem_filter listed']
    · refine List.pairwise_lt_range.imp fun less left listed right listed' => ?_
      rw [eq_of_mem_filter listed, eq_of_mem_filter listed']
      exact Nat.succ_le_succ (Nat.le_of_lt less)
  case inside =>
    rintro ⟨length, symbol⟩ listed
    obtain ⟨-, some, inside⟩ := mem_canonical_iff.mp listed
    exact ⟨Nat.pos_of_ne_zero some, inside⟩

/-- The canonical order leaves out unused symbols and keeps the others. -/
theorem canonical_perm {lengths : List Nat} (inside : ∀ length ∈ lengths, length ≤ maxLength)
    : (canonical lengths).Perm (lengths.zipIdx.filter fun entry => entry.1 ≠ 0) := by
  have numbered : lengths.zipIdx.Nodup :=
    List.Nodup.of_map Prod.snd (CodewordLengths.nodup_symbols lengths)
  have nodup : (canonical lengths).Nodup := by
    refine List.nodup_flatMap.mpr ⟨fun shorter _ => numbered.filter _, ?_⟩
    refine List.nodup_range.imp fun different entry listed listed' => different ?_
    exact Nat.succ.inj ((eq_of_mem_filter listed).symm.trans (eq_of_mem_filter listed'))
  refine (List.perm_ext_iff_of_nodup nodup (numbered.filter _)).mpr ?_
  rintro ⟨length, symbol⟩
  rw [mem_canonical_iff, List.mem_filter, List.mk_mem_zipIdx_iff_getElem?, decide_eq_true_eq]
  exact ⟨fun ⟨found, used, _⟩ => ⟨found, used⟩,
    fun ⟨found, used⟩ => ⟨found, used, inside length (List.mem_of_getElem? found)⟩⟩

theorem sum_canonical (weight : Nat → Nat) (nothing : weight 0 = 0) {lengths : List Nat}
    (inside : ∀ length ∈ lengths, length ≤ maxLength)
    : ((canonical lengths).map fun entry => weight entry.1).sum = (lengths.map weight).sum := by
  have dropped (entries : List (Nat × Nat))
      : ((entries.filter fun entry => entry.1 ≠ 0).map fun entry => weight entry.1).sum
        = (entries.map fun entry => weight entry.1).sum := by
    induction entries with
    | nil => rfl
    | cons entry rest ih =>
        by_cases unused : entry.1 = 0
        · rw [List.filter_cons_of_neg (by simpa using unused), ih, List.map_cons, List.sum_cons,
            unused, nothing, Nat.zero_add]
        · rw [List.filter_cons_of_pos (by simpa using unused), List.map_cons, List.sum_cons, ih,
            List.map_cons, List.sum_cons]
  have lone : (fun (entry : Nat × Nat) => weight entry.1) = weight ∘ Prod.fst := rfl
  rw [((canonical_perm inside).map _).sum_eq, dropped, lone, ← List.map_map, List.zipIdx_map_fst]

------------------------------------------------------------------------------------------
-- Codes
------------------------------------------------------------------------------------------

/-- A code has a codeword for each symbol with a length. -/
def Serves (code : PrefixCode) (lengths : List Nat) : Prop :=
  ∀ symbol, lengths.getD symbol 0 ≠ 0 → ∃ word, (symbol, word) ∈ code.codewords

variable {lengths : List Nat}

theorem serves_of_listed {code : PrefixCode} (inside : ∀ length ∈ lengths, length ≤ maxLength)
    (listed : ∀ entry ∈ canonical lengths, entry.2 ∈ code.codewords.map Prod.fst)
    : code.Serves lengths := by
  intro symbol used
  obtain ⟨length, found, some⟩ := CodewordLengths.getD_ne_zero_iff.mp used
  have canonical := mem_canonical_iff.mpr ⟨found, some, inside length (List.mem_of_getElem? found)⟩
  obtain ⟨⟨_, word⟩, member, rfl⟩ := List.mem_map.mp (listed (length, symbol) canonical)
  exact ⟨word, member⟩

/-- If lengths fill a tree of the longest codewords, all symbols find a place in it, and it is
complete.
-/
theorem place_spec (inside : ∀ length ∈ lengths, length ≤ maxLength)
    (full : (lengths.map (room maxLength)).sum = 2 ^ maxLength)
    : (place lengths).2 = [] ∧ (place lengths).1.isComplete = true
      ∧ (place lengths).1.Serves lengths := by
  have taken : places maxLength (canonical lengths) = 2 ^ maxLength :=
    (sum_canonical _ rfl inside).trans full
  have ordered := ordered_canonical lengths
  have fills : CodeTree.Fills maxLength (maxLength - 1) 1 := CodeTree.fills rfl Nat.one_pos
  obtain ⟨front, whole⟩ := fills.exists_node ordered (Nat.le_of_eq taken.symm)
  have split : canonical lengths = front ++ (place lengths).2 := whole.split
  have takes : places maxLength front = 2 ^ maxLength := whole.takes
  have symbols : (place lengths).1.codewords.map Prod.fst = front.map Prod.snd :=
    whole.symbols []
  have none : (place lengths).2 = [] := by
    have all := places_append maxLength front (place lengths).2
    rw [← split, takes, taken] at all
    rw [split] at ordered
    exact ordered.right.eq_nil Nat.one_pos (by omega)
  rw [none, List.append_nil] at split
  refine ⟨none, whole.full, serves_of_listed inside fun entry listed => ?_⟩
  rw [symbols, ← split]
  exact List.mem_map_of_mem listed

/-- A code of at most one symbol, which has a single bit, is taken as well. -/
theorem exists_of_sum_le_one (lone : lengths.sum ≤ 1)
    : ∃ code, ofLengths? lengths = some code ∧ code.Serves lengths := by
  have inside : ∀ length ∈ lengths, length ≤ maxLength := fun length listed =>
    Nat.le_trans (List.le_sum_of_mem listed) (Nat.le_trans lone (by decide))
  have sum := sum_canonical id rfl inside
  have ordered := (ordered_canonical lengths).inside
  rw [List.map_id] at sum
  rcases found : canonical lengths with _ | ⟨⟨length, symbol⟩, _ | ⟨second, rest⟩⟩
  case nil =>
    refine ⟨empty, ?_, serves_of_listed inside ?_⟩
    · rw [ofLengths?, place, found]
      rfl
    · rw [found]
      exact fun entry none => absurd none List.not_mem_nil
  case cons.nil =>
    rw [found] at sum ordered
    obtain ⟨above, -⟩ := ordered (length, symbol) List.mem_cons_self
    obtain rfl : length = 1 := by
      simp only [id_eq, List.map_singleton, List.sum_singleton] at sum
      omega
    refine ⟨⟨.leaf symbol, .absent⟩, ?_, serves_of_listed inside ?_⟩
    · rw [ofLengths?, place, found]
      rfl
    · rw [found]
      intro entry listed
      obtain rfl := List.mem_singleton.mp listed
      exact List.mem_singleton_self symbol
  case cons.cons =>
    rw [found] at sum ordered
    obtain ⟨first, -⟩ := ordered (length, symbol) List.mem_cons_self
    obtain ⟨next, -⟩ := ordered second (List.mem_cons_of_mem _ List.mem_cons_self)
    simp only [id_eq, List.map_cons, List.sum_cons] at sum
    omega

/-- Unused symbols behind the others change nothing. -/
theorem canonical_append_replicate (lengths : List Nat) (count : Nat)
    : canonical (lengths ++ List.replicate count 0) = canonical lengths := by
  rw [canonical, canonical]
  congr 1
  funext shorter
  rw [List.zipIdx_append, List.filter_append]
  refine List.append_right_eq_self.mpr (List.filter_eq_nil_iff.mpr ?_)
  rintro ⟨length, symbol⟩ listed same
  obtain ⟨-, -, found⟩ := List.mem_zipIdx listed
  rw [List.getElem_replicate] at found
  exact Nat.succ_ne_zero shorter (found ▸ of_decide_eq_true same).symm

theorem ofLengths?_append_replicate (lengths : List Nat) (count : Nat)
    : ofLengths? (lengths ++ List.replicate count 0) = ofLengths? lengths := by
  rw [ofLengths?, place, canonical_append_replicate, ofLengths?, place]

/-- Every codeword has a bit. -/
theorem ne_nil_of_mem_codewords {code : PrefixCode} {symbol : Nat} {word : List Bool}
    (listed : (symbol, word) ∈ code.codewords)
    : word ≠ [] := by
  rcases List.mem_append.mp listed with left | right
  · obtain ⟨more, rfl, -⟩ := CodeTree.read_of_mem_paths left
    exact List.cons_ne_nil false more
  · obtain ⟨more, rfl, -⟩ := CodeTree.read_of_mem_paths right
    exact List.cons_ne_nil true more

/-- A symbol that has a codeword finds it in the table. -/
theorem Serves.exists_codeword {code : PrefixCode} (serves : code.Serves lengths)
    {symbol count : Nat} (used : lengths.getD symbol 0 ≠ 0) (inside : symbol < count)
    : ∃ word, codeword? (code.table count) symbol = some word := by
  obtain ⟨word, listed⟩ := serves symbol used
  have within : symbol < (code.table count).size := by
    rw [table, size_foldl_setIfInBounds, Array.size_replicate]
    exact inside
  have found := Array.getElem?_eq_getElem within
  rcases mem_of_getElem?_foldl_setIfInBounds found with given | ⟨other, -⟩
  · obtain ⟨bit, more, some⟩ := List.exists_cons_of_ne_nil (ne_nil_of_mem_codewords given)
    exact ⟨bit :: more, by rw [codeword?, found, some]⟩
  · exact absurd (List.mem_map_of_mem listed) other

end PrefixCode

------------------------------------------------------------------------------------------
-- Codes for weights
------------------------------------------------------------------------------------------

namespace CodewordLengths

variable {limit : Nat} {weights lengths : List Nat}

/-- What fills a tree of fewer levels also fills one of more. -/
theorem sum_room (short : limit ≤ PrefixCode.maxLength)
    (inside : ∀ length ∈ lengths, length ≤ limit)
    : (lengths.map (room PrefixCode.maxLength)).sum
      = 2 ^ (PrefixCode.maxLength - limit) * (lengths.map (room limit)).sum := by
  rw [← List.sum_map_mul_left]
  refine congrArg List.sum (List.map_congr_left fun length listed => ?_)
  have le := inside length listed
  rw [room, room]
  split
  · rw [Nat.mul_zero]
  · rw [← Nat.pow_add]
    congr 1
    omega

theorem Suits.place_spec (suits : Suits limit weights lengths)
    (short : limit ≤ PrefixCode.maxLength) (full : (lengths.map (room limit)).sum = 2 ^ limit)
    : (PrefixCode.place lengths).2 = [] ∧ (PrefixCode.place lengths).1.isComplete = true
      ∧ (PrefixCode.place lengths).1.Serves lengths := by
  refine PrefixCode.place_spec
    (fun length listed => Nat.le_trans (suits.le_limit length listed) short) ?_
  rw [sum_room short suits.le_limit, full, ← Nat.pow_add, Nat.sub_add_cancel short]

/-- Lengths that are good for weights give a code. -/
theorem Suits.exists_ofLengths (suits : Suits limit weights lengths)
    (short : limit ≤ PrefixCode.maxLength)
    : ∃ code, PrefixCode.ofLengths? lengths = some code ∧ code.Serves lengths := by
  rcases suits.full with full | lone
  · obtain ⟨none, complete, serves⟩ := suits.place_spec short full
    refine ⟨_, ?_, serves⟩
    rw [PrefixCode.ofLengths?]
    simp only [none, complete, List.isEmpty_nil, if_true]
  · exact PrefixCode.exists_of_sum_le_one lone

/-- If two symbols are used, the code is complete. -/
theorem Suits.exists_ofCompleteLengths (suits : Suits limit weights lengths)
    (short : limit ≤ PrefixCode.maxLength) (two : 1 < lengths.sum)
    : ∃ code, PrefixCode.ofCompleteLengths? lengths = some code ∧ code.Serves lengths := by
  obtain ⟨none, complete, serves⟩ :=
    suits.place_spec short (suits.full.resolve_right (Nat.not_le.mpr two))
  refine ⟨_, ?_, serves⟩
  rw [PrefixCode.ofCompleteLengths?]
  simp only [none, complete, List.isEmpty_nil, Bool.and_self, if_true]

end CodewordLengths

end Scratchpad.Zlib
