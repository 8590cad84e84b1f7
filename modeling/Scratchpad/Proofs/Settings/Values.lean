import Scratchpad.Proofs.Json.Acceptance
import Scratchpad.Proofs.Settings.RoundTrip

/-! What the values of the fields may be. A reader of a field accepts a value if and only if it says
something of the type of the field, and leaves the other fields as they are.
-/

namespace Scratchpad

open Json Json.Cursor Json.Grammar

namespace Json.Tree

------------------------------------------------------------------------------------------
-- What trees say
------------------------------------------------------------------------------------------

/-- What a tree says where a text may stand, or `null` instead of it. -/
inductive SaysText : Tree → Option String → Prop where
  | null : SaysText null none
  | string {body : List Char} {text : String} (spelling : Spelling body text.toList)
    : SaysText (string body) (some text)

/-- What a tree says where a truth value may stand. -/
inductive SaysTruth : Tree → Bool → Prop where
  | bool (value : Bool) : SaysTruth (bool value) value

/-- What a tree says where a natural number may stand: it is written as figures alone. -/
inductive SaysNatural : Tree → Nat → Prop where
  | number {figures : List Char} (plain : Plain figures)
    : SaysNatural (number figures) (Nat.ofDigitChars 10 figures 0)

theorem exists_saysText {tree : Tree}
    : (∃ value, tree.SaysText value) ↔
        tree = null ∨ ∃ (body : List Char) (text : String),
          tree = string body ∧ Spelling body text.toList := by
  constructor
  · rintro ⟨value, said⟩
    cases said with
    | null => exact .inl rfl
    | string spelling => exact .inr ⟨_, _, rfl, spelling⟩
  · rintro (rfl | ⟨body, text, rfl, spelling⟩)
    · exact ⟨none, .null⟩
    · exact ⟨some text, .string spelling⟩

theorem saysTruth_iff {tree : Tree} {value : Bool}
    : tree.SaysTruth value ↔ tree = bool value := by
  constructor
  · intro said
    cases said
    rfl
  · rintro rfl
    exact .bool value

theorem saysNatural_iff {tree : Tree} {value : Nat}
    : tree.SaysNatural value ↔
        ∃ figures, tree = number figures ∧ Plain figures ∧
          Nat.ofDigitChars 10 figures 0 = value := by
  constructor
  · rintro ⟨plain⟩
    exact ⟨_, rfl, plain, rfl⟩
  · rintro ⟨figures, rfl, plain, rfl⟩
    exact .number plain

end Json.Tree

namespace Json.Cursor

------------------------------------------------------------------------------------------
-- Values of known types
------------------------------------------------------------------------------------------

variable {tree : Tree} {chars blanks : List Char} {rest : List UInt8}

/-- What is accepted at the next value is accepted behind blanks, too. -/
theorem Accepts.behindBlanks {α : Type} {reader : Cursor → Except ReadError (α × Cursor)}
    {byte : UInt8} {bytes : List UInt8} {meaning : α → Prop} (blank : Blanks blanks)
    (accepts : Accepts reader (byte :: bytes) meaning rest) (stop : ¬ isBlank byte)
    : Accepts (fun cursor => cursor.toValue >>= reader) (utf8 blanks ++ byte :: bytes) meaning
        rest :=
  accepts.behind fun place => by
    obtain ⟨middle, start⟩ :=
      toValue_blanks (bytes ++ rest) (isBlank_of_mem_utf8 blank) stop place
    exact ⟨middle, by simp only [List.cons_append, start]; rfl⟩

/-- Where a text may stand, texts are accepted that spell one, and `null`. The cases are told apart
by the first byte, as a reader does.
-/
theorem accepts_stringOrNull (writes : tree.Writes chars) (blank : Blanks blanks)
    (rest : List UInt8)
    : Accepts stringOrNull (utf8 (blanks ++ chars)) tree.SaysText rest := by
  obtain ⟨byte, bytes, same, starts⟩ := writes.startsWith
  rw [utf8_append]
  by_cases null : byte = 110
  · obtain rfl := (null ▸ starts).eq_null
    cases writes
    have accepts := (stringOrNull_null rest (isBlank_of_mem_utf8 blank)).accepts
    refine accepts.of_iff fun value => ⟨fun said => ?_, ?_⟩
    · cases said
      rfl
    · rintro rfl
      exact .null
  by_cases quote : byte = 34
  · obtain ⟨body, rfl⟩ := (quote ▸ starts).eq_string
    cases writes with | string isBody => ?_
    have accepts := ((accepts_string isBody rest).map some).advance 34
    rw [utf8_quoted]
    refine .behindBlanks blank ((accepts.congr fun _ => rfl).of_iff fun value => ⟨?_, ?_⟩)
      (by decide)
    · intro said
      cases said with | string spelling => exact ⟨_, spelling, rfl⟩
    · rintro ⟨text, spelling, rfl⟩
      exact .string spelling
  · rw [same]
    refine .behindBlanks blank (.nothing (fun place read => ?_) ?_) starts.not_isBlank.1
    · simp only [List.cons_append, peek?_cons, Option.some.injEq, null, quote, if_false]
      exact Settings.wrongType_ne_ok
    · rintro _ ⟨⟩
      · exact null starts
      · exact quote starts

/-- Where a truth value may stand, nothing else is accepted. -/
theorem accepts_truth (writes : tree.Writes chars) (blank : Blanks blanks) (rest : List UInt8)
    : Accepts truth (utf8 (blanks ++ chars)) tree.SaysTruth rest := by
  obtain ⟨byte, bytes, same, starts⟩ := writes.startsWith
  rw [utf8_append]
  by_cases word : byte = 116 ∨ byte = 102
  · obtain ⟨value, rfl⟩ := starts.eq_bool word
    have written : chars = (Json.bool value).render.toList := by cases writes <;> rfl
    have accepts := (truth_render rest (isBlank_of_mem_utf8 blank) value).accepts
    rw [written]
    refine accepts.of_iff fun other => ⟨fun ⟨_⟩ => rfl, ?_⟩
    rintro rfl
    exact .bool _
  · obtain ⟨notTrue, notFalse⟩ := not_or.mp word
    rw [same]
    refine .behindBlanks blank (.nothing (fun place read => ?_) ?_) starts.not_isBlank.1
    · simp only [List.cons_append, peek?_cons, Option.some.injEq, notTrue, notFalse, if_false]
      exact Settings.wrongType_ne_ok
    · rintro value ⟨⟩
      cases value
      · exact notFalse starts
      · exact notTrue starts

/-- A number that is read where a natural one may stand is a natural one within the bound. -/
theorem number_of_natural {byte : UInt8} (stop : ¬ isBlank byte) (blank : Blanks blanks)
    {name : String} {bound value : Nat} {place : Place} {after : Cursor}
    (found : natural name bound ⟨place, utf8 blanks ++ byte :: rest⟩ = .ok (value, after))
    : value ≤ bound ∧ ∃ middle, number ⟨middle, byte :: rest⟩ = .ok (.natural value, after) := by
  obtain ⟨middle, start⟩ := toValue_blanks rest (isBlank_of_mem_utf8 blank) stop place
  simp only [natural, start, bind, Except.bind, pure, Except.pure, fail] at found
  split at found
  · split at found
    · contradiction
    · rename_i first read
      obtain ⟨numeral, cursor⟩ := first
      cases numeral with
      | natural value =>
        simp only at found
        split at found
        · rename_i inside
          obtain ⟨rfl, rfl⟩ := Prod.mk.inj (Except.ok.inj found)
          exact ⟨inside, middle, read⟩
        · contradiction
      | negative => contradiction
      | real => contradiction
  · exact absurd found Settings.wrongType_ne_ok

/-- Where a natural number may stand, figures are accepted that make one within the bound. -/
theorem accepts_natural (name : String) (bound : Nat) (room : bound ≤ greatestNatural)
    (writes : tree.Writes chars) (blank : Blanks blanks) (ends : EndsNumber rest)
    : Accepts (natural name bound) (utf8 (blanks ++ chars))
        (fun value => tree.SaysNatural value ∧ value ≤ bound) rest := by
  obtain ⟨byte, bytes, same, starts⟩ := writes.startsWith
  rw [utf8_append]
  by_cases sees : byte = 45 ∨ 48 ≤ byte ∧ byte ≤ 57
  · obtain ⟨figures, rfl⟩ := starts.eq_number sees
    cases writes with | number isNumber => ?_
    constructor
    · rintro _ ⟨⟨plain⟩, inside⟩
      exact natural_plain rest (isBlank_of_mem_utf8 blank) plain inside room ends
    · intro place value after found
      rw [same, List.append_assoc, List.cons_append] at found
      obtain ⟨inside, middle, read⟩ := number_of_natural starts.not_isBlank.1 blank found
      rw [← List.cons_append, ← same] at read
      obtain ⟨plain, rfl⟩ := plain_of_number isNumber ends read
      exact ⟨.number plain, inside⟩
  · rw [same]
    refine .behindBlanks blank (.nothing (fun place read => ?_) ?_) starts.not_isBlank.1
    · have noNumber : atNumber ⟨place, byte :: (bytes ++ rest)⟩ = false := by
        simpa [atNumber, atFigure, peek?] using sees
      simp only [List.cons_append, noNumber]
      exact Settings.wrongType_ne_ok
    · rintro _ ⟨⟨plain⟩, -⟩
      exact sees starts

end Json.Cursor

namespace Settings.Field

------------------------------------------------------------------------------------------
-- Fields
------------------------------------------------------------------------------------------

/-- Whether settings have the same value in a field. -/
def Agree (settings others : Settings) : Field → Prop
  | defaultPreset => settings.defaultPreset = others.defaultPreset
  | memoize => settings.memoize = others.memoize
  | compressionLevel => settings.compressionLevel = others.compressionLevel
  | maxDecodedBytes => settings.maxDecodedBytes = others.maxDecodedBytes

/-- Whether a tree says the value of a field. -/
def Says (settings : Settings) (tree : Json.Tree) : Field → Prop
  | defaultPreset => tree.SaysText settings.defaultPreset
  | memoize => tree.SaysTruth settings.memoize
  | compressionLevel => tree.SaysNatural settings.compressionLevel.toNat
  | maxDecodedBytes => tree.SaysNatural settings.maxDecodedBytes.toNat

theorem Agree.refl (field : Field) (settings : Settings)
    : field.Agree settings settings := by
  cases field <;> exact Eq.refl _

theorem Agree.symm {field : Field} {settings others : Settings}
    (agree : field.Agree settings others)
    : field.Agree others settings := by
  cases field <;> exact Eq.symm agree

theorem Agree.trans {field : Field} {first second third : Settings}
    (agree : field.Agree first second) (agree' : field.Agree second third)
    : field.Agree first third := by
  cases field <;> exact Eq.trans agree agree'

/-- Settings are the same if they have the same value in all fields. -/
theorem eq_of_agree {settings others : Settings}
    (agree : ∀ field : Field, field.Agree settings others)
    : settings = others := by
  obtain ⟨_, _, _, _⟩ := settings
  obtain ⟨_, _, _, _⟩ := others
  obtain rfl := agree defaultPreset
  obtain rfl := agree memoize
  obtain rfl := agree compressionLevel
  obtain rfl := agree maxDecodedBytes
  rfl

theorem agree_copy (field : Field) (source target : Settings)
    : field.Agree (field.copy source target) source := by
  cases field <;> rfl

theorem copy_copy (field : Field) (source target : Settings)
    : field.copy (field.copy source target) target = field.copy source target := by
  cases field <;> rfl

/-- The other fields keep their values. -/
theorem agree_copy_other {field other : Field} (different : other ≠ field)
    (source target : Settings)
    : other.Agree (field.copy source target) target := by
  cases field <;> cases other <;> first | contradiction | rfl

theorem Says.of_agree {field : Field} {settings others : Settings} {tree : Json.Tree}
    (said : field.Says settings tree) (agree : field.Agree settings others)
    : field.Says others tree := by
  cases field
  all_goals
    simp only [Agree, Says] at agree said ⊢
    exact agree ▸ said

variable {tree : Json.Tree} {chars blanks : List Char} {rest : List UInt8}

/-- The reader of a field accepts what says a value of it, and puts this into the settings. -/
theorem accepts_read (field : Field) (target : Settings) (writes : tree.Writes chars)
    (blank : Blanks blanks) (ends : EndsNumber rest)
    : Accepts (field.read target) (utf8 (blanks ++ chars))
        (fun settings => field.Says settings tree ∧ settings = field.copy settings target)
        rest := by
  cases field with
  | defaultPreset =>
    have accepts := (accepts_stringOrNull writes blank rest).map
      fun value => { target with defaultPreset := value }
    refine (accepts.congr fun _ => rfl).of_iff fun settings => ⟨?_, ?_⟩
    · rintro ⟨said, copied⟩
      exact ⟨_, said, copied⟩
    · rintro ⟨value, said, rfl⟩
      exact ⟨said, rfl⟩
  | memoize =>
    have accepts := (accepts_truth writes blank rest).map
      fun value => { target with memoize := value }
    refine (accepts.congr fun _ => rfl).of_iff fun settings => ⟨?_, ?_⟩
    · rintro ⟨said, copied⟩
      exact ⟨_, said, copied⟩
    · rintro ⟨value, said, rfl⟩
      exact ⟨said, rfl⟩
  | compressionLevel =>
    have accepts := (accepts_natural "u8" 255 (by decide) writes blank ends).map
      fun value => { target with compressionLevel := UInt8.ofNat value }
    refine (accepts.congr fun _ => rfl).of_iff fun settings => ⟨?_, ?_⟩
    · rintro ⟨said, copied⟩
      refine ⟨_, ⟨said, Nat.le_of_lt_succ settings.compressionLevel.toNat_lt⟩, ?_⟩
      rwa [UInt8.ofNat_toNat]
    · rintro ⟨value, ⟨said, inside⟩, rfl⟩
      refine ⟨?_, rfl⟩
      rwa [Says, UInt8.toNat_ofNat_of_lt' (Nat.lt_succ_of_le inside)]
  | maxDecodedBytes =>
    have accepts := (accepts_natural "usize" 18446744073709551615 (by decide) writes blank ends).map
      fun value => { target with maxDecodedBytes := UInt64.ofNat value }
    refine (accepts.congr fun _ => rfl).of_iff fun settings => ⟨?_, ?_⟩
    · rintro ⟨said, copied⟩
      refine ⟨_, ⟨said, Nat.le_of_lt_succ settings.maxDecodedBytes.toNat_lt⟩, ?_⟩
      rwa [UInt64.ofNat_toNat]
    · rintro ⟨value, ⟨said, inside⟩, rfl⟩
      refine ⟨?_, rfl⟩
      rwa [Says, UInt64.toNat_ofNat_of_lt' (Nat.lt_succ_of_le inside)]

end Settings.Field

end Scratchpad
