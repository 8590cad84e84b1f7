import Scratchpad.Proofs.Settings.Objects

/-! Which objects are accepted as settings, and as which. What counts of an object is the values
that it gives the fields: neither their order nor members of other names nor blanks make a
difference.
-/

namespace Scratchpad.Settings

open Json Json.Tree

namespace Field

------------------------------------------------------------------------------------------
-- Values of fields
------------------------------------------------------------------------------------------

/-- The values that members give a field. -/
def values (members : List (String × Json.Tree)) (field : Field) : List Json.Tree :=
  (members.filter (·.1 = field.name)).map Prod.snd

/-- Whether a field has the value in settings that members give it. They may give it one if it was
not seen before, and only one; if they give it none it keeps its value.
-/
def Given (before : Members) (members : List (String × Json.Tree)) (settings : Settings)
    (field : Field) : Prop :=
  (field.values members = [] ∧ field.Agree settings before.settings) ∨
    field ∉ before.seen ∧ ∃ tree, field.values members = [tree] ∧ field.Says settings tree

theorem ofName?_eq_some {name : String} {field : Field}
    : ofName? name = some field ↔ name = field.name := by
  constructor
  · intro found
    have same := List.find?_some found
    exact (beq_iff_eq.mp same).symm
  · rintro rfl
    exact field.ofName?_name

theorem values_cons_known {name : String} {field : Field} (known : ofName? name = some field)
    (tree : Json.Tree) (members : List (String × Json.Tree))
    : field.values ((name, tree) :: members) = tree :: field.values members := by
  simp [values, ofName?_eq_some.mp known]

theorem values_cons_other {name : String} {field : Field} (other : ofName? name ≠ some field)
    (tree : Json.Tree) (members : List (String × Json.Tree))
    : field.values ((name, tree) :: members) = field.values members := by
  simp [values, mt ofName?_eq_some.mpr other]

end Field

section Taking

variable {before : Members} {name : String} {tree : Json.Tree} {members : List (String × Json.Tree)}
variable {settings : Settings}

/-- A member of no field makes no difference. -/
theorem given_cons_unknown (noField : Field.ofName? name = none) (field : Field)
    : field.Given before ((name, tree) :: members) settings ↔
        field.Given before members settings := by
  have same : field.values ((name, tree) :: members) = field.values members :=
    Field.values_cons_other (by simp [noField]) tree members
  simp only [Field.Given, same]

/-- Behind a member of a field all fields have the values that they are given if they have them
with this one.
-/
theorem given_cons_field {field : Field} (known : Field.ofName? name = some field)
    {taken : Settings} (fresh : field ∉ before.seen) (said : field.Says taken tree)
    (copied : taken = field.copy taken before.settings)
    (given : ∀ other : Field, other.Given ⟨taken, field :: before.seen⟩ members settings)
    (other : Field)
    : other.Given before ((name, tree) :: members) settings := by
  by_cases same : other = field
  · subst same
    obtain ⟨none, agree⟩ | ⟨notSeen, -⟩ := given other
    · exact .inr ⟨fresh, tree, by rw [Field.values_cons_known known, none],
        said.of_agree agree.symm⟩
    · exact absurd List.mem_cons_self notSeen
  · have notKnown : Field.ofName? name ≠ some other := by
      simpa [known, eq_comm] using same
    rw [Field.Given, Field.values_cons_other notKnown]
    obtain ⟨none, agree⟩ | ⟨notSeen, value⟩ := given other
    · rw [copied] at agree
      exact .inl ⟨none, agree.trans (Field.agree_copy_other same _ _)⟩
    · exact .inr ⟨mt (List.mem_cons_of_mem _) notSeen, value⟩

/-- A member of a field that has the value that it is given can be taken before the others. -/
theorem exists_takes_of_given {field : Field} (known : Field.ofName? name = some field)
    (given : ∀ other : Field, other.Given before ((name, tree) :: members) settings)
    : ∃ next, Takes before (name, tree) next ∧
        ∀ other : Field, other.Given next members settings := by
  have own := given field
  rw [Field.Given, Field.values_cons_known known] at own
  obtain ⟨none, -⟩ | ⟨fresh, value, only, said⟩ := own
  · cases none
  obtain ⟨rfl, none⟩ := List.cons.inj only
  refine ⟨⟨field.copy settings before.settings, field :: before.seen⟩,
    .field known fresh (said.of_agree (field.agree_copy _ _).symm) (field.copy_copy _ _).symm,
    fun other => ?_⟩
  by_cases same : other = field
  · exact .inl ⟨same ▸ none, same ▸ (field.agree_copy settings before.settings).symm⟩
  · have notKnown : Field.ofName? name ≠ some other := by
      simpa [known, eq_comm] using same
    have kept := given other
    rw [Field.Given, Field.values_cons_other notKnown] at kept
    obtain ⟨none, agree⟩ | ⟨notSeen, value⟩ := kept
    · exact .inl ⟨none, agree.trans (Field.agree_copy_other same settings before.settings).symm⟩
    · exact .inr ⟨by simp [same, notSeen], value⟩

end Taking

/-- Members can be taken one after the other if and only if they give every field the value that it
has then, by induction on them.
-/
theorem collects_iff {before : Members} {members : List (String × Json.Tree)} {settings : Settings}
    : Collects before members settings ↔
        ∀ field : Field, field.Given before members settings := by
  induction members generalizing before with
  | nil =>
    rw [collects_nil]
    constructor
    · rintro rfl field
      exact .inl ⟨rfl, .refl field _⟩
    · intro given
      refine Field.eq_of_agree fun field => ?_
      obtain ⟨-, agree⟩ | ⟨-, tree, some, -⟩ := given field
      · exact agree
      · cases some
  | cons member members hyp =>
    obtain ⟨name, tree⟩ := member
    rw [collects_cons]
    constructor
    · rintro ⟨next, takes, others⟩
      have given := hyp.mp others
      cases takes with
      | unknown noField => exact fun field => (given_cons_unknown noField field).mpr (given field)
      | field known fresh said copied => exact given_cons_field known fresh said copied given
    · intro given
      cases known : Field.ofName? name with
      | none =>
        exact ⟨before, .unknown known,
          hyp.mpr fun field => (given_cons_unknown known field).mp (given field)⟩
      | some field =>
        obtain ⟨next, takes, others⟩ := exists_takes_of_given known given
        exact ⟨next, takes, hyp.mpr others⟩

------------------------------------------------------------------------------------------
-- Values that can be used
------------------------------------------------------------------------------------------

namespace Field

/-- Whether the value of a field can be used. -/
def Usable (settings : Settings) : Field → Prop
  | defaultPreset => True
  | memoize => True
  | compressionLevel => settings.compressionLevel.toNat ≤ 10
  | maxDecodedBytes => 1 ≤ settings.maxDecodedBytes.toNat

/-- What may be given as the value of a field: a spelled text or `null`, a truth value, or figures
alone that make a natural number in the range of the field.
-/
def Admits (tree : Json.Tree) : Field → Prop
  | defaultPreset =>
    tree = .null ∨ ∃ (body : List Char) (text : String),
      tree = .string body ∧ Spelling body text.toList
  | memoize => ∃ value, tree = .bool value
  | compressionLevel =>
    ∃ figures, tree = .number figures ∧ Plain figures ∧ Nat.ofDigitChars 10 figures 0 ≤ 10
  | maxDecodedBytes =>
    ∃ figures, tree = .number figures ∧ Plain figures ∧
      1 ≤ Nat.ofDigitChars 10 figures 0 ∧ Nat.ofDigitChars 10 figures 0 ≤ 18446744073709551615

theorem Usable.of_agree {field : Field} {settings others : Settings}
    (usable : field.Usable settings) (agree : field.Agree settings others)
    : field.Usable others := by
  cases field
  all_goals
    simp only [Agree, Usable] at agree usable ⊢
  · exact agree ▸ usable
  · exact agree ▸ usable

theorem usable_standard
    : ∀ field : Field, field.Usable standard
  | defaultPreset => trivial
  | memoize => trivial
  | compressionLevel => (by decide : standard.compressionLevel.toNat ≤ 10)
  | maxDecodedBytes => (by decide : 1 ≤ standard.maxDecodedBytes.toNat)

/-- A value may be given if and only if it says one that can be used. -/
theorem admits_iff {field : Field} {tree : Json.Tree}
    : field.Admits tree ↔ ∃ settings, field.Says settings tree ∧ field.Usable settings := by
  cases field with
  | defaultPreset =>
    refine exists_saysText.symm.trans ⟨fun ⟨value, said⟩ => ?_, fun ⟨_, said, _⟩ => ⟨_, said⟩⟩
    exact ⟨{ standard with defaultPreset := value }, said, trivial⟩
  | memoize =>
    constructor
    · rintro ⟨value, same⟩
      exact ⟨{ standard with memoize := value }, saysTruth_iff.mpr same, trivial⟩
    · rintro ⟨settings, said, -⟩
      exact ⟨settings.memoize, saysTruth_iff.mp said⟩
  | compressionLevel =>
    constructor
    · rintro ⟨figures, rfl, plain, inside⟩
      have same : (UInt8.ofNat (Nat.ofDigitChars 10 figures 0)).toNat = _ :=
        UInt8.toNat_ofNat_of_lt' (Nat.lt_of_le_of_lt inside (by decide))
      exact ⟨{ standard with compressionLevel := _ }, saysNatural_iff.mpr
        ⟨figures, rfl, plain, same.symm⟩, Nat.le_trans (Nat.le_of_eq same) inside⟩
    · rintro ⟨settings, said, usable⟩
      obtain ⟨figures, rfl, plain, same⟩ := saysNatural_iff.mp said
      exact ⟨figures, rfl, plain, Nat.le_trans (Nat.le_of_eq same) usable⟩
  | maxDecodedBytes =>
    constructor
    · rintro ⟨figures, rfl, plain, positive, inside⟩
      have same : (UInt64.ofNat (Nat.ofDigitChars 10 figures 0)).toNat = _ :=
        UInt64.toNat_ofNat_of_lt' (Nat.lt_of_le_of_lt inside (by decide))
      exact ⟨{ standard with maxDecodedBytes := _ }, saysNatural_iff.mpr
        ⟨figures, rfl, plain, same.symm⟩, Nat.le_trans positive (Nat.le_of_eq same.symm)⟩
    · rintro ⟨settings, said, usable⟩
      obtain ⟨figures, rfl, plain, same⟩ := saysNatural_iff.mp said
      exact ⟨figures, rfl, plain, Nat.le_trans usable (Nat.le_of_eq same.symm),
        Nat.le_trans (Nat.le_of_eq same) (Nat.le_of_lt_succ settings.maxDecodedBytes.toNat_lt)⟩

end Field

/-- Settings can be used if and only if the values of all fields can. -/
theorem validate_iff {settings : Settings}
    : settings.validate = .ok () ↔ ∀ field : Field, field.Usable settings := by
  have level : ¬ 10 < settings.compressionLevel ↔ Field.compressionLevel.Usable settings :=
    UInt8.not_lt.trans UInt8.le_iff_toNat_le
  have bytes : settings.maxDecodedBytes ≠ 0 ↔ Field.maxDecodedBytes.Usable settings := by
    rw [ne_eq, ← UInt64.toNat_inj]
    exact Nat.one_le_iff_ne_zero.symm
  constructor
  · intro valid
    simp only [validate] at valid
    repeat' split at valid
    all_goals first | contradiction | skip
    rename_i small positive
    intro field
    cases field with
    | defaultPreset => trivial
    | memoize => trivial
    | compressionLevel => exact level.mp small
    | maxDecodedBytes => exact bytes.mp positive
  · intro usable
    rw [validate, if_neg (level.mpr (usable .compressionLevel)),
      if_neg (bytes.mpr (usable .maxDecodedBytes))]

------------------------------------------------------------------------------------------
-- Accepted texts
------------------------------------------------------------------------------------------

variable {members : List (String × Json.Tree)} {text : String}

/-- Settings are given field by field. -/
theorem exists_settings {meets : Field → Settings → Prop}
    (ofAgree : ∀ {field : Field} {settings others : Settings},
      field.Agree settings others → meets field settings → meets field others)
    : (∃ settings, ∀ field, meets field settings) ↔ ∀ field, ∃ settings, meets field settings := by
  constructor
  · rintro ⟨settings, all⟩ field
    exact ⟨settings, all field⟩
  · intro each
    choose source holds using each
    refine ⟨⟨(source .defaultPreset).defaultPreset, (source .memoize).memoize,
      (source .compressionLevel).compressionLevel, (source .maxDecodedBytes).maxDecodedBytes⟩,
      fun field => ofAgree ?_ (holds field)⟩
    cases field <;> exact Eq.refl _

/-- A text is accepted as settings if and only if they have the values that it gives the fields, and
can be used.
-/
theorem ofJson_iff (object : ObjectOf members text) (settings : Settings)
    : ofJson text = .ok settings ↔
        ∀ field : Field, field.Given ⟨standard, []⟩ members settings ∧ field.Usable settings := by
  rw [forall_and, ← collects_iff, ← read_iff object, ← validate_iff, ofJson]
  constructor
  · intro found
    split at found
    · contradiction
    · split at found
      · contradiction
      · obtain rfl := Except.ok.inj found
        exact ⟨‹_›, ‹_›⟩
  · rintro ⟨read, valid⟩
    simp only [read, valid]

theorem validate_error {settings : Settings} {error : Error}
    (found : settings.validate = .error error)
    : ∃ detail, error = .config detail := by
  simp only [validate] at found
  repeat' split at found
  all_goals first | contradiction | skip
  · exact ⟨_, (Except.error.inj found).symm⟩
  · exact ⟨_, (Except.error.inj found).symm⟩

/-- Whatever is wrong with a text, it is refused as a configuration. -/
theorem ofJson_error {text : String} {error : Error} (found : ofJson text = .error error)
    : ∃ detail, error = .config detail := by
  simp only [ofJson] at found
  split at found
  · exact ⟨_, (Except.error.inj found).symm⟩
  · split at found
    · obtain rfl := Except.error.inj found
      exact validate_error ‹_›
    · contradiction

/-- A text is accepted if and only if what it gives the fields may be given. -/
theorem exists_ofJson_iff (object : ObjectOf members text)
    : (∃ settings, ofJson text = .ok settings) ↔
        ∀ field : Field, field.values members = [] ∨
          ∃ tree, field.values members = [tree] ∧ field.Admits tree := by
  simp only [ofJson_iff object]
  rw [exists_settings]
  · refine forall_congr' fun field => ⟨?_, ?_⟩
    · rintro ⟨settings, ⟨none, -⟩ | ⟨-, tree, only, said⟩, usable⟩
      · exact .inl none
      · exact .inr ⟨tree, only, Field.admits_iff.mpr ⟨settings, said, usable⟩⟩
    · rintro (none | ⟨tree, only, admits⟩)
      · exact ⟨standard, .inl ⟨none, .refl field standard⟩, field.usable_standard⟩
      · obtain ⟨settings, said, usable⟩ := Field.admits_iff.mp admits
        exact ⟨settings, .inr ⟨List.not_mem_nil, tree, only, said⟩, usable⟩
  · rintro field settings others agree ⟨given, usable⟩
    refine ⟨?_, usable.of_agree agree⟩
    obtain ⟨none, agree'⟩ | ⟨fresh, tree, only, said⟩ := given
    · exact .inl ⟨none, agree.symm.trans agree'⟩
    · exact .inr ⟨fresh, tree, only, said.of_agree agree⟩

------------------------------------------------------------------------------------------
-- What makes no difference
------------------------------------------------------------------------------------------

/-- The members that have the name of a field. -/
def knownMembers (members : List (String × Json.Tree)) : List (String × Json.Tree) :=
  members.filter fun member => (Field.ofName? member.1).isSome

theorem values_knownMembers (field : Field) (members : List (String × Json.Tree))
    : field.values (knownMembers members) = field.values members := by
  have known : ∀ member : String × Json.Tree,
      (decide (member.1 = field.name) && (Field.ofName? member.1).isSome) =
        decide (member.1 = field.name) := by
    intro member
    by_cases same : member.1 = field.name
    · simp [Field.ofName?_eq_some.mpr same]
    · simp [same]
  simp only [Field.values, knownMembers, List.filter_filter, known]

/-- Objects that give the fields the same members, in whatever order, give them the same values. -/
theorem given_of_perm {others : List (String × Json.Tree)}
    (same : (knownMembers members).Perm (knownMembers others)) {before : Members}
    {settings : Settings} {field : Field} (given : field.Given before members settings)
    : field.Given before others settings := by
  have perm : (field.values members).Perm (field.values others) := by
    rw [← values_knownMembers, ← values_knownMembers field others]
    exact (same.filter _).map _
  obtain ⟨none, agree⟩ | ⟨fresh, tree, only, said⟩ := given
  · rw [none, List.nil_perm] at perm
    exact .inl ⟨perm, agree⟩
  · rw [only, List.singleton_perm] at perm
    exact .inr ⟨fresh, tree, perm.symm, said⟩

/-- The settings of a text depend neither on the order of its members nor on members of other names
nor on blanks.
-/
theorem ofJson_of_perm (object : ObjectOf members text) {others : List (String × Json.Tree)}
    {written : String} (object' : ObjectOf others written)
    (same : (knownMembers members).Perm (knownMembers others))
    : (ofJson written).toOption = (ofJson text).toOption := by
  have iff : ∀ settings, ofJson written = .ok settings ↔ ofJson text = .ok settings := by
    intro settings
    rw [ofJson_iff object, ofJson_iff object']
    exact forall_congr' fun field =>
      and_congr_left' ⟨given_of_perm same.symm, given_of_perm same⟩
  cases read : ofJson text with
  | ok settings => rw [(iff settings).mpr read]
  | error error =>
    cases read' : ofJson written with
    | ok settings => cases read.symm.trans ((iff settings).mp read')
    | error error' => rfl

/-- The object of a text is accepted as settings if and only if it gives each field at most one
value, and that may be given. The settings then have these values, and else those that hold by
default, and can be used; what is refused is refused as a configuration. Another text with the same
members of fields comes to the same.
-/
theorem ofJson_object (object : ObjectOf members text)
    : ((∃ settings, ofJson text = .ok settings)
          ↔ ∀ field : Field, field.values members = []
            ∨ ∃ tree, field.values members = [tree] ∧ field.Admits tree)
      ∧ (∀ settings, ofJson text = .ok settings
          → settings.validate = .ok ()
            ∧ ∀ field : Field,
                (field.values members = [] → field.Agree settings standard)
                ∧ ∀ tree ∈ field.values members, field.Says settings tree)
      ∧ (∀ error, ofJson text = .error error → ∃ detail, error = .config detail)
      ∧ ∀ others written, ObjectOf others written
          → (knownMembers members).Perm (knownMembers others)
          → (ofJson written).toOption = (ofJson text).toOption := by
  refine ⟨exists_ofJson_iff object, fun settings found => ?_, fun error => ofJson_error,
    fun others written object' => ofJson_of_perm object object'⟩
  have given := (ofJson_iff object settings).mp found
  refine ⟨validate_iff.mpr fun field => (given field).2, fun field => ?_⟩
  obtain ⟨none, agree⟩ | ⟨-, tree, only, said⟩ := (given field).1
  · rw [none]
    exact ⟨fun _ => agree, fun tree within => absurd within List.not_mem_nil⟩
  · rw [only]
    exact ⟨fun none => absurd none (List.cons_ne_nil tree []),
      fun other within => List.mem_singleton.mp within ▸ said⟩

/-- An object with an escaped name, and with a member of no field that holds what no field may. -/
def nestedText : String :=
  "\x7b\"\\u006demoize\":false,\"x\":[1e999,\x7b\"\":\"\\ud800\"\x7d], \"compression_level\":10\x7d"

/-- The members of that object. -/
def nestedMembers : List (String × Json.Tree) :=
  [ ("memoize", .bool false),
    ("x", .array
      [ .number ['1', 'e', '9', '9', '9'],
        .object [([], .string ['\\', 'u', 'd', '8', '0', '0'])] ]),
    ("compression_level", .number ['1', '0']) ]

theorem plain_ten
    : Plain ['1', '0'] :=
  .inr ⟨'1', ['0'], rfl, by decide, List.all_eq_true.mp rfl⟩

theorem objectOf_nestedText
    : ObjectOf nestedMembers nestedText := by
  have memoize : Spelling ('\\' :: 'u' :: '0' :: '0' :: '6' :: 'd' :: "emoize".toList)
      "memoize".toList :=
    .unit (show hexUnit? '0' '0' '6' 'd' = some 0x6d from rfl) (by decide)
      (spelling_escaped "emoize".toList)
  have x : Spelling ['x'] "x".toList := spelling_escaped "x".toList
  have level : Spelling "compression_level".toList "compression_level".toList :=
    spelling_escaped "compression_level".toList
  have large : Writes (.number ['1', 'e', '9', '9', '9']) ['1', 'e', '9', '9', '9'] :=
    .number (.parts (.inl rfl) (.inr ⟨'1', [], rfl, by decide, List.all_eq_true.mp rfl⟩) .none
      (.power (.inl rfl) (.inl rfl) ⟨List.cons_ne_nil _ _, List.all_eq_true.mp rfl⟩))
  have lone : Writes (.string ['\\', 'u', 'd', '8', '0', '0'])
      ['"', '\\', 'u', 'd', '8', '0', '0', '"'] :=
    .string (.unit (by decide) .nil)
  have ten : Writes (.number ['1', '0']) ['1', '0'] :=
    .number (.parts (.inl rfl) plain_ten .none .none)
  have space : Grammar.Blanks [' '] := by simp [Grammar.Blanks]
  have items := WritesItems.more blanks_nil large blanks_nil
    (.last blanks_nil (.object (.last
      (.named blanks_nil .nil blanks_nil blanks_nil lone blanks_nil))) blanks_nil)
  have members := WritesMembers.more
    (.named blanks_nil (stringBody_of_spelling memoize) blanks_nil blanks_nil .false blanks_nil)
    (.more
      (.named blanks_nil (stringBody_of_spelling x) blanks_nil blanks_nil (.array items) blanks_nil)
      (.last (.named space (stringBody_of_spelling level) blanks_nil blanks_nil ten blanks_nil)))
  exact ⟨_, ⟨[], _, [], blanks_nil, .object members, blanks_nil, rfl⟩,
    .cons ⟨memoize, rfl⟩ (.cons ⟨x, rfl⟩ (.cons ⟨level, rfl⟩ .nil))⟩

theorem ofJson_object_nested
    : ObjectOf nestedMembers nestedText ∧
        ofJson nestedText = .ok { standard with memoize := false, compressionLevel := 10 } := by
  refine ⟨objectOf_nestedText, ?_⟩
  obtain ⟨accepted, gives, -⟩ := ofJson_object objectOf_nestedText
  have admits : ∀ field : Field, field.values nestedMembers = [] ∨
      ∃ tree, field.values nestedMembers = [tree] ∧ field.Admits tree := fun
    | .defaultPreset => .inl rfl
    | .memoize => .inr ⟨.bool false, rfl, false, rfl⟩
    | .compressionLevel => .inr ⟨.number ['1', '0'], rfl, _, rfl, plain_ten, by decide⟩
    | .maxDecodedBytes => .inl rfl
  obtain ⟨settings, read⟩ := accepted.mpr admits
  have given := (gives settings read).2
  rw [read]
  refine congrArg Except.ok (Field.eq_of_agree fun
    | .defaultPreset => (given .defaultPreset).1 rfl
    | .memoize => ?_
    | .compressionLevel => ?_
    | .maxDecodedBytes => (given .maxDecodedBytes).1 rfl)
  · have same := saysTruth_iff.mp ((given .memoize).2 (.bool false) (.head []))
    exact (Json.Tree.bool.inj same).symm
  · obtain ⟨figures, same, -, value⟩ := saysNatural_iff.mp
      ((given .compressionLevel).2 (.number ['1', '0']) (.head []))
    obtain rfl := Json.Tree.number.inj same
    exact UInt8.toNat_inj.mp value.symm

end Scratchpad.Settings
