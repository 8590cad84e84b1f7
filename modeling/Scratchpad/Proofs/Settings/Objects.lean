import Mathlib.Data.List.Forall2
import Scratchpad.Proofs.Settings.Values

/-! Reading objects into settings. The members of an object are taken one after the other, each on
what is known of those before it; a text is accepted if and only if all of them can be taken.
-/

namespace Scratchpad.Settings

open Json Json.Cursor Json.Grammar Json.Tree

------------------------------------------------------------------------------------------
-- Taking members
------------------------------------------------------------------------------------------

/-- What a member adds to what is known: nothing if its name is not that of a field, and else the
value of its field, which may not have been seen before.
-/
inductive Takes (members : Members) : String × Json.Tree → Members → Prop where
  | unknown {name : String} {tree : Json.Tree} (noField : Field.ofName? name = none)
    : Takes members (name, tree) members
  | field {name : String} {tree : Json.Tree} {field : Field} {settings : Settings}
      (known : Field.ofName? name = some field) (fresh : field ∉ members.seen)
      (said : field.Says settings tree) (copied : settings = field.copy settings members.settings)
    : Takes members (name, tree) ⟨settings, field :: members.seen⟩

theorem takes_of_unknown {members next : Members} {name : String} {tree : Json.Tree}
    (noField : Field.ofName? name = none)
    : Takes members (name, tree) next ↔ next = members := by
  constructor
  · intro takes
    cases takes with
    | unknown => rfl
    | field known => cases noField.symm.trans known
  · rintro rfl
    exact .unknown noField

theorem takes_of_known {members next : Members} {name : String} {tree : Json.Tree} {field : Field}
    (known : Field.ofName? name = some field)
    : Takes members (name, tree) next ↔
        field ∉ members.seen ∧ ∃ settings,
          (field.Says settings tree ∧ settings = field.copy settings members.settings) ∧
            next = ⟨settings, field :: members.seen⟩ := by
  constructor
  · intro takes
    cases takes with
    | unknown noField => cases known.symm.trans noField
    | field known' fresh said copied =>
      obtain rfl := Option.some.inj (known.symm.trans known')
      exact ⟨fresh, _, ⟨said, copied⟩, rfl⟩
  · rintro ⟨fresh, settings, ⟨said, copied⟩, rfl⟩
    exact .field known fresh said copied

/-- What taking members one after the other comes to. -/
inductive Collects : Members → List (String × Json.Tree) → Settings → Prop where
  | done {members : Members} : Collects members [] members.settings
  | more {members next : Members} {member : String × Json.Tree} {rest : List (String × Json.Tree)}
      {settings : Settings} (first : Takes members member next)
      (others : Collects next rest settings)
    : Collects members (member :: rest) settings

theorem collects_nil {members : Members} {settings : Settings}
    : Collects members [] settings ↔ settings = members.settings :=
  ⟨fun collects => by cases collects; rfl, fun same => same ▸ .done⟩

theorem collects_cons {members : Members} {member : String × Json.Tree}
    {rest : List (String × Json.Tree)} {settings : Settings}
    : Collects members (member :: rest) settings ↔
        ∃ next, Takes members member next ∧ Collects next rest settings :=
  ⟨fun collects => by cases collects with | more first others => exact ⟨_, first, others⟩,
    fun ⟨_, first, others⟩ => .more first others⟩

------------------------------------------------------------------------------------------
-- Members
------------------------------------------------------------------------------------------

variable {between blanks chars : List Char} {tree : Json.Tree} {rest : List UInt8}

/-- What is accepted behind a colon is accepted with the colon and the blanks before it. -/
theorem accepts_behindColon {α : Type} {reader : Cursor → Except ReadError (α × Cursor)}
    {bytes : List UInt8} {meaning : α → Prop} (beforeColon : Blanks between)
    (accepts : Accepts reader bytes meaning rest)
    : Accepts (fun cursor => skipColon cursor >>= reader) (utf8 between ++ 58 :: bytes) meaning
        rest := by
  rw [← List.singleton_append, ← List.append_assoc]
  refine accepts.behind fun place => ?_
  obtain ⟨middle, colon⟩ := skipColon_blanks (isBlank_of_mem_utf8 beforeColon) place
    (bytes ++ rest)
  rw [List.append_assoc, List.singleton_append]
  exact ⟨middle, by simp only [colon]; rfl⟩

/-- Behind its name a member is accepted if and only if it can be taken: the value of an unknown
name is passed over, and that of a field is read if the field was not seen before.
-/
theorem accepts_readMember (members : Members) (name : String) (beforeColon : Blanks between)
    (behindColon : Blanks blanks) (writes : tree.Writes chars) (ends : EndsNumber rest)
    : Accepts (readMember members name) (utf8 between ++ 58 :: utf8 (blanks ++ chars))
        (Takes members (name, tree)) rest := by
  cases known : Field.ofName? name with
  | none =>
    have skips := (skipValue_value behindColon writes.value ends).reads members
    refine ((accepts_behindColon beforeColon skips.accepts).congr fun place => ?_).of_iff
      fun next => takes_of_unknown known
    rw [readMember, known]
  | some field =>
    by_cases seen : field ∈ members.seen
    · refine .nothing (fun place read => ?_) fun next takes => ?_
      · simp [readMember, known, seen, Cursor.fail]
      · exact ((takes_of_known known).mp takes).1 seen
    · have new : members.seen.contains field = false := by simpa using seen
      have accepts := (field.accepts_read members.settings writes behindColon ends).map
        fun settings => (⟨settings, field :: members.seen⟩ : Members)
      refine ((accepts_behindColon beforeColon accepts).congr fun place => ?_).of_iff
        fun next => (takes_of_known known).trans (and_iff_right seen)
      rw [readMember, known]
      simp only [new]
      rfl

/-- A member is accepted from its name on if and only if it can be taken. -/
theorem accepts_readNamed (members : Members) {body : List Char} {name : String}
    (spelling : Spelling body name.toList) (beforeColon : Blanks between)
    (behindColon : Blanks blanks) (writes : tree.Writes chars) (ends : EndsNumber rest)
    : Accepts (readNamed members)
        (34 :: (utf8 body ++ [34] ++ (utf8 between ++ 58 :: utf8 (blanks ++ chars))))
        (Takes members (name, tree)) rest := by
  have named := (string_spelling (utf8 between ++ 58 :: utf8 (blanks ++ chars) ++ rest)
    spelling).accepts
  have accepts := named.bind fun other (same : other = name) => same ▸
    accepts_readMember members name beforeColon behindColon writes ends
  refine ((accepts.advance 34).congr fun _ => rfl).of_iff fun next => ⟨?_, ?_⟩
  · exact fun takes => ⟨name, rfl, takes⟩
  · rintro ⟨_, rfl, takes⟩
    exact takes

------------------------------------------------------------------------------------------
-- Objects
------------------------------------------------------------------------------------------

/-- Whether what stands before the blanks and the name of a member, and before nothing else, is what
a reader expects there: a comma behind a value, and nothing before the first member.
-/
def Leads (first : Bool) (front : List UInt8) : Prop :=
  ∀ before, Blanks before → ∀ place rest, ∃ behind,
    toName? first ⟨place, front ++ (utf8 before ++ 34 :: rest)⟩ =
      .ok (some ⟨behind, 34 :: rest⟩)

theorem leads_first
    : Leads true [] := by
  intro before blank place rest
  have skip := skipBlanks_append (isBlank_of_mem_utf8 blank) (show ¬ isBlank 34 by decide) place
    rest
  exact ⟨_, by rw [List.nil_append, toName?, skip]; rfl⟩

theorem leads_comma {after : List Char} (back : Blanks after)
    : Leads false (utf8 after ++ [44]) := by
  intro before blank place rest
  have skip := skipBlanks_append (isBlank_of_mem_utf8 back) (show ¬ isBlank 44 by decide) place
    (utf8 before ++ 34 :: rest)
  have skip' := skipBlanks_append (isBlank_of_mem_utf8 blank) (show ¬ isBlank 34 by decide)
    (((utf8 after).foldl Place.after place).after 44) rest
  refine ⟨(utf8 before).foldl Place.after (((utf8 after).foldl Place.after place).after 44), ?_⟩
  rw [List.append_assoc, List.singleton_append, toName?, skip]
  simp only [peek?_cons, Bool.false_eq_true, if_false, advance_cons, skip']
  rfl

/-- Whether a member has a name that is spelled in its text. -/
def Names (raw : List Char × Json.Tree) (member : String × Json.Tree) : Prop :=
  Spelling raw.1 member.1.toList ∧ raw.2 = member.2

/-- The text of a member is blanks, what is accepted from its name on, and blanks again. -/
theorem exists_accepts_readNamed {raw : List Char × Json.Tree} {member : String × Json.Tree}
    (names : Names raw member) {chars : List Char} (writes : WritesMember raw chars)
    : ∃ before bytes after, Blanks before ∧ Blanks after ∧
        utf8 chars = utf8 before ++ 34 :: bytes ++ utf8 after ∧
        ∀ members rest, EndsNumber rest →
          Accepts (readNamed members) (34 :: bytes) (Takes members member) rest := by
  obtain ⟨name, tree⟩ := member
  obtain @⟨body, _, before, between, blanks, chars, after, front, _, beforeColon, behindColon,
    value, back⟩ := writes
  obtain ⟨spelling, rfl⟩ : Spelling body name.toList ∧ _ = tree := names
  have colon : String.utf8EncodeChar ':' = [58] := rfl
  have quote : String.utf8EncodeChar '"' = [34] := rfl
  refine ⟨before, _, after, front, back, ?_, fun members rest ends =>
    accepts_readNamed members spelling beforeColon behindColon value ends⟩
  simp [utf8_append, utf8_cons, colon, quote]

/-- A member is accepted with the others behind it. -/
theorem accepts_readMembers_of_member {first : Bool} {front : List UInt8}
    (leads : Leads first front) {before : List Char} (blank : Blanks before) {members : Members}
    {bytes back : List UInt8} {meaning : Members → Prop} {result : Members → Settings → Prop}
    (member : Accepts (readNamed members) (34 :: bytes) meaning (back ++ rest))
    (others : ∀ next, meaning next → Accepts (readMembers false next) back (result next) rest)
    : Accepts (readMembers first members) (front ++ utf8 before ++ (34 :: bytes ++ back))
        (fun settings => ∃ next, meaning next ∧ result next settings) rest :=
  (member.bind others).behind fun place => by
    obtain ⟨middle, name⟩ := leads before blank place (bytes ++ (back ++ rest))
    refine ⟨middle, ?_⟩
    rw [List.append_assoc front, List.append_assoc, List.cons_append]
    exact readMembers_named name

/-- Members are accepted up to the end of the object if and only if they can be taken one after the
other, by induction on them.
-/
theorem accepts_readMembers {raw : List (List Char × Json.Tree)} {named : List (String × Json.Tree)}
    (names : List.Forall₂ Names raw named) {chars : List Char} (writes : WritesMembers raw chars)
    {first : Bool} {front : List UInt8} (leads : Leads first front) (members : Members)
    (rest : List UInt8)
    : Accepts (readMembers first members) (front ++ (utf8 chars ++ [125]))
        (Collects members named) rest := by
  induction names generalizing first front chars members with
  | nil => cases writes
  | @cons raw member raws named name names hyp =>
    cases writes with
    | last only =>
      cases names
      obtain ⟨before, bytes, after, blank, back, same, accepts⟩ :=
        exists_accepts_readNamed name only
      have ends : EndsNumber (utf8 after ++ [125] ++ rest) := by
        rw [List.append_assoc]
        exact endsNumber_blanks back (endsNumber_cons (by decide) rest)
      have all := accepts_readMembers_of_member leads blank (accepts members _ ends)
        fun next _ => (readMembers_end (isBlank_of_mem_utf8 back) false).accepts.of_iff
          fun settings => collects_nil
      rw [same]
      simpa [List.append_assoc] using all.of_iff fun _ => collects_cons
    | @more _ _ chars others only writes =>
      obtain ⟨before, bytes, after, blank, back, same, accepts⟩ :=
        exists_accepts_readNamed name only
      have ends : EndsNumber (utf8 after ++ [44] ++ (utf8 others ++ [125]) ++ rest) := by
        rw [List.append_assoc, List.append_assoc]
        exact endsNumber_blanks back (endsNumber_cons (by decide) _)
      have all := accepts_readMembers_of_member leads blank (accepts members _ ends)
        fun next _ => hyp writes (leads_comma back) next
      have comma : String.utf8EncodeChar ',' = [44] := rfl
      rw [utf8_append, utf8_cons, same, comma]
      simpa [List.append_assoc] using all.of_iff fun _ => collects_cons

/-- An object is accepted behind blanks if and only if its members can be taken. -/
theorem accepts_readStart {raw : List (List Char × Json.Tree)} {named : List (String × Json.Tree)}
    (names : List.Forall₂ Names raw named) (writes : (object raw).Writes chars)
    (blank : Blanks blanks) (rest : List UInt8)
    : Accepts readStart (utf8 (blanks ++ chars)) (Collects ⟨standard, []⟩ named) rest := by
  have closing : utf8 ['\x7d'] = [125] := rfl
  have opening : String.utf8EncodeChar '\x7b' = [123] := rfl
  have inside : ∃ bytes, utf8 chars = 123 :: bytes ∧
      Accepts (readMembers true ⟨standard, []⟩) bytes (Collects ⟨standard, []⟩ named) rest := by
    cases writes with
    | @emptyObject blanks inside =>
      cases names
      refine ⟨utf8 blanks ++ [125], by rw [utf8_cons, utf8_append, closing, opening]; rfl, ?_⟩
      exact (readMembers_end (isBlank_of_mem_utf8 inside) true).accepts.of_iff
        fun settings => collects_nil
    | @object _ chars inside =>
      refine ⟨utf8 chars ++ [125], by rw [utf8_cons, utf8_append, closing, opening]; rfl, ?_⟩
      exact accepts_readMembers names inside leads_first ⟨standard, []⟩ rest
  obtain ⟨bytes, same, accepts⟩ := inside
  rw [utf8_append, same]
  exact .behindBlanks blank ((accepts.advance 123).congr fun _ => rfl) (by decide)

------------------------------------------------------------------------------------------
-- Whole texts
------------------------------------------------------------------------------------------

/-- A text is an object whose members have names that are yet to be read. -/
def RawObject (raw : List (List Char × Json.Tree)) (text : String) : Prop :=
  ∃ before chars after, Blanks before ∧ (object raw).Writes chars ∧ Blanks after ∧
    text.toList = before ++ chars ++ after

/-- A text is an object of members, whose names are spelled in it. -/
def ObjectOf (members : List (String × Json.Tree)) (text : String) : Prop :=
  ∃ raw, RawObject raw text ∧ List.Forall₂ Names raw members

/-- The texts of objects are those of the grammar. -/
theorem exists_rawObject {text : String}
    : (∃ raw, RawObject raw text) ↔ ObjectText text := by
  constructor
  · rintro ⟨raw, before, chars, after, front, writes, back, same⟩
    rw [List.append_assoc] at same
    cases writes with
    | emptyObject inside => exact ⟨before, _, after, front, .inl inside, back, by simp [same]⟩
    | object inside => exact ⟨before, _, after, front, .inr inside.members, back, by simp [same]⟩
  · rintro ⟨before, inside, after, front, blank | members, back, same⟩
    · exact ⟨[], before, _, after, front, .emptyObject blank, back, by simp [same]⟩
    · obtain ⟨raw, writes⟩ := exists_writesMembers members
      exact ⟨raw, before, _, after, front, .object writes, back, by simp [same]⟩

/-- If all names can be read, an object has members. -/
theorem exists_objectOf {raw : List (List Char × Json.Tree)} {text : String}
    (object : RawObject raw text)
    (valid : ∀ member ∈ raw, ∃ name : String, Spelling member.1 name.toList)
    : ∃ members, ObjectOf members text := by
  have named : ∃ members, List.Forall₂ Names raw members := by
    clear object
    induction raw with
    | nil => exact ⟨[], .nil⟩
    | cons member raw hyp =>
      obtain ⟨name, spelling⟩ := valid member List.mem_cons_self
      obtain ⟨members, names⟩ :=
        hyp fun other within => valid other (List.mem_cons_of_mem _ within)
      exact ⟨(name, member.2) :: members, .cons ⟨spelling, rfl⟩ names⟩
  obtain ⟨members, names⟩ := named
  exact ⟨members, raw, object, names⟩

theorem skipBlanks_blanks {bytes : List UInt8} (blank : ∀ byte ∈ bytes, isBlank byte)
    (place : Place)
    : (skipBlanks ⟨place, bytes⟩).peek? = none := by
  simp only [skipBlanks]
  induction bytes generalizing place with
  | nil => rfl
  | cons byte bytes hyp =>
    rw [skipBlanksFrom, if_pos (blank byte List.mem_cons_self)]
    exact hyp (fun other within => blank other (List.mem_cons_of_mem _ within)) _

/-- The text of an object is read as settings if and only if its members can be taken. -/
theorem read_iff {members : List (String × Json.Tree)} {text : String}
    (object : ObjectOf members text) (settings : Settings)
    : read text = .ok settings ↔ Collects ⟨standard, []⟩ members settings := by
  obtain ⟨raw, ⟨before, chars, after, front, writes, back, same⟩, names⟩ := object
  have accepts := accepts_readStart names writes front (utf8 after)
  have start : Cursor.ofText text = ⟨⟨1, 0⟩, utf8 (before ++ chars) ++ utf8 after⟩ := by
    rw [Cursor.ofText_eq, same, utf8_append]
  constructor
  · intro found
    simp only [Settings.read, start, bind, Except.bind] at found
    split at found
    · contradiction
    · rename_i first read
      have collects := accepts.meant _ first.1 first.2 read
      split at found
      · contradiction
      · obtain rfl := Except.ok.inj found
        exact collects
  · intro collects
    obtain ⟨behind, read⟩ := accepts.reads settings collects ⟨1, 0⟩
    have ended := skipBlanks_blanks (isBlank_of_mem_utf8 back) behind
    simp only [Settings.read, start, read, bind, Except.bind, ended]
    rfl

end Scratchpad.Settings
