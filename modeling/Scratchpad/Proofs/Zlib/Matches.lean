import Scratchpad.Zlib.Deflate

/-! What a search finds stands in the text. A search keeps a log that says the text up to some
position; every literal and every match that it adds says what comes next. So the segments that come
of it cover the whole text, whatever level it is searched at.
-/

namespace Scratchpad.Zlib

------------------------------------------------------------------------------------------
-- Tokens and segments
------------------------------------------------------------------------------------------

/-- The codes of a block have symbols for a token. -/
def Token.Coded : Token → Prop
  | literal _ => True
  | copy length distance =>
      3 ≤ length ∧ length ≤ maxMatch ∧ 1 ≤ distance ∧ distance ≤ windowSize

/-- Tokens say what stands in the data from one position to another, and can be coded. -/
structure Spells (data : Array UInt8) (start : Nat) (tokens : List Token) (stop : Nat) : Prop where
  replayed : Draft.replay? data start tokens = some stop
  coded : ∀ token ∈ tokens, token.Coded

/-- Segments say what stands in the data from one position to another, one behind the other. -/
inductive Covers (data : Array UInt8) : Nat → List Segment → Nat → Prop
  | nil {position : Nat}
    : Covers data position [] position
  | cons {position stop : Nat} {segment : Segment} {rest : List Segment}
    (spells : Spells data position segment.tokens (position + segment.size))
    (later : Covers data (position + segment.size) rest stop)
    : Covers data position (segment :: rest) stop

variable {data : Array UInt8}

theorem Draft.replay?_append (front back : List Token) (position : Nat)
    : replay? data position (front ++ back)
      = (replay? data position front).bind fun middle => replay? data middle back := by
  induction front generalizing position with
  | nil => rfl
  | cons token rest ih =>
      simp only [List.cons_append, replay?]
      split
      · exact ih _
      · rfl

/-- A token that says what comes next can stand behind the others. -/
theorem Spells.concat {start stop : Nat} {tokens : List Token} {token : Token}
    (spells : Spells data start tokens stop) (fits : token.fits data stop = true)
    (coded : token.Coded)
    : Spells data start (tokens ++ [token]) (stop + token.size) := by
  constructor
  case replayed =>
    rw [Draft.replay?_append, spells.replayed, Option.bind_some, Draft.replay?, if_pos fits]
    rfl
  case coded =>
    intro other listed
    rcases List.mem_append.mp listed with earlier | last
    · exact spells.coded other earlier
    · exact List.mem_singleton.mp last ▸ coded

/-- A segment that says what comes next can stand behind the others, by induction over them. -/
theorem Covers.concat {start stop : Nat} {segments : List Segment} {segment : Segment}
    (covers : Covers data start segments stop)
    (spells : Spells data stop segment.tokens (stop + segment.size))
    : Covers data start (segments ++ [segment]) (stop + segment.size) := by
  induction covers with
  | nil => exact .cons spells .nil
  | cons first _ ih => exact .cons first (ih spells)

------------------------------------------------------------------------------------------
-- Logs
------------------------------------------------------------------------------------------

namespace SegmentLog

/-- A log says the data up to a position: the finished segments up to where the one in the making
begins, and its tokens from there on.
-/
structure Holds (data : Array UInt8) (log : SegmentLog) (position : Nat) : Prop where
  finished : Covers data 0 log.finished.toList log.start
  tokens : Spells data log.start log.tokens.toList position
  size : log.start + log.size = position

variable {log : SegmentLog} {position : Nat}

theorem holds_empty
    : empty.Holds data 0 :=
  ⟨.nil, ⟨rfl, fun _ none => absurd none List.not_mem_nil⟩, rfl⟩

/-- The log goes on with the byte that stands at its end. -/
theorem Holds.literal (holds : log.Holds data position) (inside : position < data.size)
    : (log.literal (data.getD position 0)).Holds data (position + 1) := by
  obtain ⟨finished, start, tokens, size, literals, copies⟩ := log
  have fits : (Token.literal (data.getD position 0)).fits data position = true := by
    simp [Token.fits, inside]
  have longer := holds.tokens.concat fits trivial
  constructor
  case finished => exact holds.finished
  case tokens => simpa only [SegmentLog.literal, Array.toList_push, Token.size] using longer
  case size =>
    rw [← holds.size]
    rfl

/-- The log goes on with a repetition that stands at its end. -/
theorem Holds.copy {length distance : Nat} (holds : log.Holds data position)
    (fits : (Token.copy length distance).fits data position = true)
    (coded : (Token.copy length distance).Coded)
    : (log.copy length distance).Holds data (position + length) := by
  obtain ⟨finished, start, tokens, size, literals, copies⟩ := log
  have longer := holds.tokens.concat fits coded
  constructor
  case finished => exact holds.finished
  case tokens => simpa only [SegmentLog.copy, Array.toList_push, Token.size] using longer
  case size =>
    rw [← holds.size]
    exact (Nat.add_assoc start size length).symm

/-- A log that ends its segment says no less. -/
theorem Holds.close (holds : log.Holds data position) (here window : Nat)
    : (log.close here window).Holds data position := by
  obtain ⟨finished, start, tokens, size, literals, copies⟩ := log
  let segment : Segment := ⟨tokens.toList, size, here - start ≤ window⟩
  have spells : Spells data start segment.tokens (start + segment.size) :=
    holds.size ▸ holds.tokens
  have all := holds.finished.concat spells
  constructor
  case finished => simpa only [SegmentLog.close, Array.toList_push] using all
  case tokens => exact ⟨congrArg some holds.size, fun _ none => absurd none List.not_mem_nil⟩
  case size => exact holds.size

/-- Once it has ended its segment, a log has segments that cover the data up to its position. -/
theorem Holds.covers_close (holds : log.Holds data position) (here window : Nat)
    : Covers data 0 (log.close here window).finished.toList position := by
  have closed := holds.close here window
  obtain ⟨finished, start, tokens, size, literals, copies⟩ := log
  have covers := closed.finished
  rw [← closed.size]
  exact covers

theorem close_ne_nil (log : SegmentLog) (here window : Nat)
    : (log.close here window).finished.toList ≠ [] := by
  obtain ⟨finished, start, tokens, size, literals, copies⟩ := log
  simp [close]

theorem Holds.closeIf (holds : log.Holds data position) (due : Bool) (here window : Nat)
    : (log.closeIf due here window).Holds data position := by
  rw [SegmentLog.closeIf]
  split
  · exact holds.close here window
  · exact holds

end SegmentLog

------------------------------------------------------------------------------------------
-- Repetitions
------------------------------------------------------------------------------------------

/-- What is counted is equal, by induction on the bound. -/
theorem commonLength_spec (data : Array UInt8) (left right bound counted : Nat)
    : counted ≤ commonLength data left right bound counted
      ∧ commonLength data left right bound counted ≤ counted + bound
      ∧ ∀ index, counted ≤ index → index < commonLength data left right bound counted →
          data.getD (left + index) 0 = data.getD (right + index) 0 := by
  induction bound generalizing counted with
  | zero => exact ⟨Nat.le_refl _, Nat.le_refl _, fun index above below => by
      rw [commonLength] at below
      omega⟩
  | succ bound ih =>
      rw [commonLength]
      split
      · rename_i same
        obtain ⟨above, below, equal⟩ := ih (counted + 1)
        refine ⟨by omega, by omega, fun index least less => ?_⟩
        rcases Nat.eq_or_lt_of_le least with rfl | later
        · exact eq_of_beq same
        · exact equal index later less
      · exact ⟨Nat.le_refl _, Nat.le_add_right _ _, fun index least less => by omega⟩

theorem commonLength_comm (data : Array UInt8) (left right bound counted : Nat)
    : commonLength data left right bound counted = commonLength data right left bound counted := by
  induction bound generalizing counted with
  | zero => rfl
  | succ bound ih => rw [commonLength, commonLength, ih, BEq.comm]

/-- A match repeats what stands before a position, from no farther than the window and for no longer
than the reach.
-/
structure Match.Repeats (data : Array UInt8) (position window reach : Nat) (found : Match)
    : Prop where
  distance_pos : 1 ≤ found.distance
  distance_le : found.distance ≤ window
  length_le : found.length ≤ reach
  same : ∀ index < found.length,
    data.getD (position - found.distance + index) 0 = data.getD (position + index) 0

/-- Bytes that are counted from an earlier place on are a match. -/
theorem Match.repeats_commonLength (data : Array UInt8) (position reach : Nat)
    {window distance : Nat} (some : distance ≠ 0) (near : distance ≤ window)
    : Repeats data position window reach
        ⟨distance, commonLength data (position - distance) position reach 0⟩ := by
  obtain ⟨-, most, equal⟩ := commonLength_spec data (position - distance) position reach 0
  exact ⟨Nat.pos_of_ne_zero some, near, Nat.le_trans most (Nat.le_of_eq (Nat.zero_add reach)),
    fun index less => equal index (Nat.zero_le index) less⟩

/-- A match within the data is a token that says what comes next. -/
theorem Match.Repeats.fits {position window reach : Nat} {found : Match}
    (repeats : found.Repeats data position window reach) (behind : window ≤ position)
    (ahead : position + reach ≤ data.size)
    : (Token.copy found.length found.distance).fits data position = true := by
  have distance_le := repeats.distance_le
  have length_le := repeats.length_le
  simp only [Token.fits, Bool.and_eq_true, decide_eq_true_eq, List.all_eq_true, List.mem_range,
    beq_iff_eq]
  refine ⟨⟨⟨repeats.distance_pos, by omega⟩, by omega⟩, fun index less => ?_⟩
  have same := repeats.same index less
  have place : position + index - found.distance = position - found.distance + index := by omega
  have here : data[position + index]? = some _ := Array.getElem?_eq_getElem (by omega)
  have there : data[position - found.distance + index]? = some _ :=
    Array.getElem?_eq_getElem (by omega)
  rw [Array.getD_eq_getD_getElem?, Array.getD_eq_getD_getElem?, here, there] at same
  rw [place, here, there]
  exact congrArg some same.symm

/-- A search that moves on with every step before the end comes to the end, by induction over the
steps.
-/
theorem repeat_moves {α : Type} (step : α → α) (valid : α → Prop) (position : α → Nat) (size : Nat)
    (moves : ∀ search, valid search
      → valid (step search) ∧ min (position search + 1) size ≤ position (step search))
    {start : α} (begins : valid start) (count : Nat)
    : valid (Nat.repeat step count start)
      ∧ min count size ≤ position (Nat.repeat step count start) := by
  induction count with
  | zero => exact ⟨begins, Nat.le_trans (Nat.min_le_left _ _) (Nat.zero_le _)⟩
  | succ count ih =>
      obtain ⟨still, moved⟩ := ih
      obtain ⟨again, forward⟩ := moves _ still
      refine ⟨again, ?_⟩
      simp only [Nat.repeat]
      omega

------------------------------------------------------------------------------------------
-- Search along chains
------------------------------------------------------------------------------------------

namespace HashChain

/-- A walk ends at a place in the window. -/
theorem walk_found {chain : HashChain} {position window length steps start place distance : Nat}
    (found : chain.walk data position window length steps start = .found place distance)
    : place = position - distance ∧ distance ≤ window := by
  induction steps generalizing start with
  | zero => cases found
  | succ steps ih =>
      simp only [walk] at found
      split at found
      · cases found
      · rename_i near
        split at found
        · obtain ⟨rfl, rfl⟩ := Walk.found.inj found
          exact ⟨rfl, Nat.le_of_not_lt fun far => near (.inr far)⟩
        · exact ih found

/-- A match only becomes another one that is longer, by induction over the rounds. -/
theorem improve_spec (chain : HashChain) (data : Array UInt8)
    (position window reach rounds place : Nat) (best : Match)
    : let better := chain.improve data position window reach rounds place best
      better = best
      ∨ best.length < better.length ∧ better.Repeats data position window reach := by
  induction rounds generalizing place best with
  | zero => exact .inl rfl
  | succ rounds ih =>
      intro better
      simp only [better, improve]
      split
      · exact .inl rfl
      · exact ih _ best
      · rename_i found
        obtain ⟨rfl, near⟩ := walk_found found
        split
        · exact .inl rfl
        · rename_i some
          split
          · exact ih _ best
          · split
            · rename_i longer
              have repeats := Match.repeats_commonLength data position reach some near
              split
              · exact .inr ⟨longer, repeats⟩
              · rcases ih _ _ with same | ⟨still, again⟩
                · rw [same]
                  exact .inr ⟨longer, repeats⟩
                · exact .inr ⟨Nat.lt_trans longer still, again⟩
            · exact ih _ best

end HashChain

namespace ChainSearch

/-- A match at a position counts as none, or it is longer than one that is put off and repeats what
stands before.
-/
def Proposed (data : Array UInt8) (position window reach beaten : Nat) (found : Match) : Prop :=
  found.distance = 0 ∧ found.length ≤ beaten
  ∨ beaten < found.length ∧ found.Repeats data position window reach

theorem proposed_improve (chain : HashChain) (data : Array UInt8)
    (position window reach rounds beaten : Nat)
    : Proposed data position window reach beaten
        (chain.improve data position window reach rounds position ⟨0, beaten⟩) := by
  rcases chain.improve_spec data position window reach rounds position ⟨0, beaten⟩
    with same | better
  · rw [same]
    exact .inl ⟨rfl, Nat.le_refl _⟩
  · exact .inr better

theorem proposed_bestMatch (effort : Effort) (data : Array UInt8) (chain : HashChain)
    (position window ahead beaten : Nat)
    : Proposed data position window (min maxMatch ahead) beaten
        (bestMatch effort data chain position window ahead beaten) := by
  let reach := min maxMatch ahead
  let rounds := if beaten < alreadyLong then effort.rounds else effort.roundsWhenLong
  let best : Match :=
    if reach ≤ beaten then
      ⟨0, beaten⟩
    else
      chain.improve data position window reach rounds position ⟨0, beaten⟩
  have searched : Proposed data position window reach beaten best := by
    simp only [best]
    split
    · exact .inl ⟨rfl, Nat.le_refl _⟩
    · exact proposed_improve chain data position window reach rounds beaten
  have chosen
      : bestMatch effort data chain position window ahead beaten
        = if (best.length = 3 ∧ farForThree ≤ best.distance) ∨
              position % windowSize = best.distance then ⟨0, 0⟩ else best := rfl
  rw [chosen]
  split
  · exact .inl ⟨rfl, Nat.zero_le _⟩
  · exact searched

/-- A match that can be written at a position. -/
structure Sound (data : Array UInt8) (position : Nat) (found : Match) : Prop where
  fits : (Token.copy found.length found.distance).fits data position = true
  coded : (Token.copy found.length found.distance).Coded

/-- The log holds the data up to a position, but for the byte before it if a match that starts there
is put off.
-/
def Standing (data : Array UInt8) (position : Nat) : Option Deferred → SegmentLog → Prop
  | none, log => log.Holds data position
  | some deferred, log =>
      ∃ before, before + 1 = position ∧ log.Holds data before
        ∧ deferred.byte = data.getD before 0
        ∧ Sound data before ⟨deferred.distance, deferred.length⟩

/-- What is decided at a position moves on, with a log that holds the data that is passed. -/
structure Decision.Advances (data : Array UInt8) (position : Nat) (decision : Decision) : Prop where
  standing : Standing data (position + decision.advance) decision.deferred decision.log
  forward : 1 ≤ decision.advance
  inside : position + decision.advance ≤ data.size

variable {data : Array UInt8} {position window : Nat} {found : Match} {log : SegmentLog}

/-- A match that was proposed can be written. -/
theorem Proposed.sound {ahead beaten : Nat}
    (proposed : Proposed data position window (min maxMatch ahead) beaten found)
    (some : found.distance ≠ 0) (long : 2 ≤ beaten) (behind : window ≤ position)
    (near : window ≤ windowSize) (inside : position + ahead ≤ data.size)
    : Sound data position found ∧ beaten < found.length := by
  rcases proposed with ⟨none, -⟩ | ⟨longer, repeats⟩
  · exact absurd none some
  · have length_le := repeats.length_le
    have distance_le := repeats.distance_le
    refine ⟨⟨repeats.fits behind (by omega), ?_⟩, longer⟩
    exact ⟨by omega, by omega, repeats.distance_pos, by omega⟩

theorem Sound.inside (sound : Sound data position found)
    : position + found.length ≤ data.size := by
  have fits := sound.fits
  simp only [Token.fits, Bool.and_eq_true, decide_eq_true_eq] at fits
  exact fits.1.2

/-- A match is taken at once, or put off with the byte that is written in its place. -/
theorem advances_takeOrDefer (holds : log.Holds data position) (sound : Sound data position found)
    (greedy : Bool)
    : (takeOrDefer data position found greedy log).Advances data position := by
  have inside := sound.inside
  have long : 3 ≤ found.length := sound.coded.1
  rw [takeOrDefer]
  split
  · exact ⟨holds.copy sound.fits sound.coded, Nat.le_trans (by decide) long, inside⟩
  · have next : position + 1 ≤ data.size := by omega
    exact ⟨⟨position, rfl, holds, rfl, sound⟩, Nat.le_refl 1, next⟩

/-- Whatever is decided at a position says what stands there. A match that was put off is written
from one byte before, unless the one that was found is longer.
-/
theorem advances_settle (effort : Effort) {deferred : Option Deferred} {ahead : Nat}
    (standing : Standing data position deferred log) (here : position < data.size)
    (proposed : Proposed data position window (min maxMatch ahead)
      ((deferred.map Deferred.length).getD 2) found)
    (behind : window ≤ position) (near : window ≤ windowSize)
    (inside : position + ahead ≤ data.size)
    : (settle effort data position found log deferred).Advances data position := by
  cases deferred with
  | none =>
      by_cases none : found.distance = 0
      · rw [settle, if_pos none]
        exact ⟨SegmentLog.Holds.literal standing here, Nat.le_refl 1, here⟩
      · rw [settle, if_neg none]
        exact advances_takeOrDefer standing
          (proposed.sound none (Nat.le_refl 2) behind near inside).1 effort.greedy
  | some deferred =>
      obtain ⟨before, rfl, holds, byte, sound⟩ := standing
      have within := sound.inside
      have long : 3 ≤ deferred.length := sound.coded.1
      by_cases longer : deferred.length < found.length
      · rw [settle, if_pos longer]
        have some : found.distance ≠ 0 := by
          rcases proposed with ⟨-, shorter⟩ | ⟨-, repeats⟩
          · exact absurd shorter (Nat.not_le_of_lt longer)
          · exact Nat.ne_of_gt repeats.distance_pos
        have extended := holds.literal (Nat.lt_of_succ_lt here)
        rw [← byte] at extended
        exact advances_takeOrDefer extended
          (proposed.sound some (Nat.le_of_succ_le long) behind near inside).1 false
      · rw [settle, if_neg longer]
        have stop : before + 1 + (deferred.length - 1) = before + deferred.length := by omega
        have copied := holds.copy sound.fits sound.coded
        rw [← stop] at copied
        exact ⟨copied, by simp only; omega, stop ▸ within⟩

/-- A search says the data up to its position, or to the byte before a match that it has put off,
and knows no more bytes than there are before it.
-/
structure Valid (data : Array UInt8) (search : ChainSearch) : Prop where
  standing : Standing data search.position search.deferred search.log
  inside : search.position ≤ data.size
  behind : search.window ≤ search.position
  near : search.window ≤ windowSize

theorem Standing.closeIf {deferred : Option Deferred}
    (standing : Standing data position deferred log) (due : Bool) (here window : Nat)
    : Standing data position deferred (log.closeIf due here window) := by
  cases deferred with
  | none => exact SegmentLog.Holds.closeIf standing due here window
  | some deferred =>
      obtain ⟨before, same, holds, byte, sound⟩ := standing
      exact ⟨before, same, holds.closeIf due here window, byte, sound⟩

/-- A step keeps a search valid, and moves on before the end. -/
theorem Valid.step {search : ChainSearch} (valid : search.Valid data) (effort : Effort)
    : (step effort data search).Valid data
      ∧ min (search.position + 1) data.size ≤ (ChainSearch.step effort data search).position := by
  obtain ⟨position, inserted, window, chain, deferred, log⟩ := search
  obtain ⟨standing, inside, behind, near⟩ := valid
  simp only at standing inside behind near
  simp only [ChainSearch.step]
  split
  · rename_i ended
    exact ⟨⟨standing, inside, behind, near⟩, Nat.le_trans (Nat.min_le_right _ _) ended⟩
  · rename_i here
    have here : position < data.size := Nat.lt_of_not_le here
    let ahead := min (data.size - position) maxMatch
    let known := min (windowSize - ahead) window
    have known_le : known ≤ window := Nat.min_le_right _ _
    have decided := advances_settle effort standing here
      (proposed_bestMatch effort data
        (chain.insertAll data (position + ahead - 2 - inserted) inserted) position known ahead
        ((deferred.map Deferred.length).getD 2))
      (Nat.le_trans known_le behind) (Nat.le_trans known_le near) (by omega)
    refine ⟨⟨decided.standing.closeIf _ _ _, decided.inside, ?_, Nat.min_le_right _ _⟩, ?_⟩
    · exact Nat.le_trans (Nat.min_le_left _ _)
        (Nat.add_le_add_right (Nat.le_trans known_le behind) _)
    · exact Nat.le_trans (Nat.min_le_left _ _) (Nat.add_le_add_left decided.forward _)

theorem valid_start (data : Array UInt8)
    : start.Valid data :=
  ⟨SegmentLog.holds_empty, Nat.zero_le _, Nat.le_refl 0, Nat.zero_le _⟩

/-- At the end of the data nothing is put off. -/
theorem Valid.holds {search : ChainSearch} (valid : search.Valid data)
    (ended : search.position = data.size)
    : search.log.Holds data data.size := by
  have standing := valid.standing
  rw [ended] at standing
  cases deferred : search.deferred with
  | none =>
      rw [deferred] at standing
      exact standing
  | some found =>
      rw [deferred] at standing
      obtain ⟨before, last, -, -, sound⟩ := standing
      have within := sound.inside
      have long := sound.coded.1
      simp only at within long
      omega

theorem covers_segments (effort : Effort) (data : Array UInt8)
    : Covers data 0 (segments effort data).toList data.size := by
  obtain ⟨valid, moved⟩ := repeat_moves (step effort data) (Valid data) position data.size
    (fun _ valid => valid.step effort) (valid_start data) data.size
  rw [Nat.min_self] at moved
  exact (valid.holds (Nat.le_antisymm valid.inside moved)).covers_close _ _

end ChainSearch

------------------------------------------------------------------------------------------
-- Search by the latest places
------------------------------------------------------------------------------------------

namespace QuickSearch

/-- A search says the data up to its position, and neither its chunk nor the bytes that it knows go
beyond what there is.
-/
structure Valid (data : Array UInt8) (search : QuickSearch) : Prop where
  holds : search.log.Holds data search.position
  inside : search.position ≤ data.size
  chunk : search.chunkEnd ≤ data.size
  behind : search.window ≤ search.position
  near : search.window ≤ windowSize

variable {data : Array UInt8} {search : QuickSearch}

theorem Valid.closeIfFull (valid : search.Valid data)
    : (closeIfFull search).Valid data ∧ (closeIfFull search).position = search.position := by
  obtain ⟨position, chunkEnd, window, latest, log, room⟩ := search
  obtain ⟨holds, inside, chunk, behind, near⟩ := valid
  have closed := holds.close position window
  simp only [QuickSearch.closeIfFull]
  split
  · split
    · exact ⟨⟨closed, inside, inside, behind, near⟩, rfl⟩
    · exact ⟨⟨closed, inside, chunk, behind, near⟩, rfl⟩
  · exact ⟨⟨holds, inside, chunk, behind, near⟩, rfl⟩

theorem Valid.takeLiteral (valid : search.Valid data) (here : search.position < data.size)
    : (takeLiteral data search).Valid data
      ∧ (takeLiteral data search).position = search.position + 1 := by
  obtain ⟨position, chunkEnd, window, latest, log, room⟩ := search
  obtain ⟨holds, inside, chunk, behind, near⟩ := valid
  let next : QuickSearch :=
    ⟨position + 1, chunkEnd, min (window + 1) windowSize, latest,
      log.literal (data.getD position 0), room⟩
  have valid : next.Valid data :=
    ⟨holds.literal here, here, chunk,
      Nat.le_trans (Nat.min_le_left _ _) (Nat.add_le_add_right behind 1), Nat.min_le_right _ _⟩
  exact valid.closeIfFull

theorem Valid.takeMatch {length distance : Nat} (valid : search.Valid data)
    (fits : (Token.copy length distance).fits data search.position = true)
    (coded : (Token.copy length distance).Coded)
    (inside : search.position + length ≤ data.size)
    : (takeMatch length distance search).Valid data
      ∧ (takeMatch length distance search).position = search.position + length := by
  obtain ⟨position, chunkEnd, window, latest, log, room⟩ := search
  obtain ⟨holds, -, chunk, behind, near⟩ := valid
  let next : QuickSearch :=
    ⟨position + length, chunkEnd, min (window + length) windowSize, latest,
      log.copy length distance, room⟩
  have valid : next.Valid data :=
    ⟨holds.copy fits coded, inside, chunk,
      Nat.le_trans (Nat.min_le_left _ _) (Nat.add_le_add_right behind length),
      Nat.min_le_right _ _⟩
  exact valid.closeIfFull

/-- What repeats the latest place with the same bytes is a match, if it is long enough. -/
theorem Valid.takeRepeat {distance length : Nat} (valid : search.Valid data)
    (here : search.position < data.size) (some : distance ≠ 0) (close : distance ≤ search.window)
    (counted
      : commonLength data search.position (search.position - distance)
          (min maxMatch (search.chunkEnd - search.position)) 0 = length)
    (long : 3 ≤ length)
    : (QuickSearch.takeMatch length distance search).Valid data
      ∧ (QuickSearch.takeMatch length distance search).position = search.position + length := by
  have chunk := valid.chunk
  have repeats := Match.repeats_commonLength data search.position
    (min maxMatch (search.chunkEnd - search.position)) some close
  rw [commonLength_comm, counted] at repeats
  have length_le := repeats.length_le
  have fits := repeats.fits valid.behind (by omega)
  have coded : (Token.copy length distance).Coded :=
    ⟨long, Nat.le_trans length_le (Nat.min_le_left _ _), repeats.distance_pos,
      Nat.le_trans close valid.near⟩
  exact valid.takeMatch fits coded
    (Nat.le_trans (Nat.add_le_add_left length_le search.position) (by omega))

/-- A step keeps a search valid, and moves on before the end. -/
theorem Valid.step (valid : search.Valid data)
    : (step data search).Valid data
      ∧ min (search.position + 1) data.size ≤ (QuickSearch.step data search).position := by
  obtain ⟨position, chunkEnd, window, latest, log, room⟩ := search
  obtain ⟨holds, inside, chunk, behind, near⟩ := valid
  simp only at holds inside chunk behind near
  simp only [QuickSearch.step]
  split
  · rename_i ended
    exact ⟨⟨holds, inside, chunk, behind, near⟩, Nat.le_trans (Nat.min_le_right _ _) ended⟩
  · rename_i here
    have here : position < data.size := Nat.lt_of_not_le here
    generalize nextEnd
      : (if decide (chunkEnd ≤ position) = true then min data.size (position + chunkSize)
          else chunkEnd) = stop
    generalize known
      : (if decide (chunkEnd ≤ position) = true then min (windowSize - (stop - position)) window
          else window) = bytes
    have stop_le : stop ≤ data.size := by
      rw [← nextEnd]
      split
      · exact Nat.min_le_left _ _
      · exact chunk
    have bytes_le : bytes ≤ window := by
      rw [← known]
      split
      · exact Nat.min_le_right _ _
      · exact Nat.le_refl _
    have valid (latest : Array Nat)
        : Valid data ⟨position, stop, bytes, latest, log, room⟩ :=
      ⟨holds, inside, stop_le, Nat.le_trans bytes_le behind, Nat.le_trans bytes_le near⟩
    have literal (latest : Array Nat)
        : (QuickSearch.takeLiteral data ⟨position, stop, bytes, latest, log, room⟩).Valid data
          ∧ min (position + 1) data.size
            ≤ (QuickSearch.takeLiteral data
                ⟨position, stop, bytes, latest, log, room⟩).position := by
      obtain ⟨again, moved⟩ := (valid latest).takeLiteral here
      exact ⟨again, Nat.le_trans (Nat.min_le_left _ _) (Nat.le_of_eq moved.symm)⟩
    split
    · exact literal latest
    · split
      · exact literal _
      · split
        · exact literal _
        · rename_i close long
          rw [not_or, Nat.not_lt] at close long
          obtain ⟨again, moved⟩ := (valid _).takeRepeat here close.1 close.2 rfl long.1
          refine ⟨again, Nat.le_trans (Nat.min_le_left _ _) ?_⟩
          rw [moved]
          exact Nat.add_le_add_left (Nat.le_trans (by decide) long.1) position

theorem valid_start (data : Array UInt8)
    : (start data.size).Valid data :=
  ⟨SegmentLog.holds_empty, Nat.zero_le _, Nat.zero_le _, Nat.le_refl 0, Nat.zero_le _⟩

theorem covers_segments (data : Array UInt8)
    : Covers data 0 (segments data).toList data.size := by
  obtain ⟨valid, moved⟩ := repeat_moves (step data) (Valid data) position data.size
    (fun _ valid => valid.step) (valid_start data) data.size
  rw [Nat.min_self] at moved
  have holds := valid.holds
  rw [Nat.le_antisymm valid.inside moved] at holds
  exact holds.covers_close _ _

end QuickSearch

------------------------------------------------------------------------------------------
-- All levels
------------------------------------------------------------------------------------------

namespace Segment

/-- At every level the segments of a text cover the text. -/
theorem covers_ofLevel (level : Nat) (data : Array UInt8)
    : Covers data 0 (ofLevel level data).toList data.size := by
  rw [ofLevel]
  split
  · exact QuickSearch.covers_segments data
  · exact ChainSearch.covers_segments _ data

theorem ofLevel_ne_nil (level : Nat) (data : Array UInt8)
    : (ofLevel level data).toList ≠ [] := by
  rw [ofLevel]
  split <;> exact SegmentLog.close_ne_nil _ _ _

end Segment

end Scratchpad.Zlib
