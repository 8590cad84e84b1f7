import Scratchpad.Proofs.Settings.Members

/-! Settings that are written and read again. All of them come back as they were, whether they can
be used or not; only then are they checked.
-/

namespace Scratchpad.Settings

open Json Json.Cursor

------------------------------------------------------------------------------------------
-- Fields
------------------------------------------------------------------------------------------

namespace Field

/-- The value of a field as a JSON value. -/
def toJson (settings : Settings) : Field → Json
  | defaultPreset => .ofOption settings.defaultPreset
  | memoize => .bool settings.memoize
  | compressionLevel => .number settings.compressionLevel.toNat
  | maxDecodedBytes => .number settings.maxDecodedBytes.toNat

/-- Settings into which the value of a field is copied from others. -/
def copy (source : Settings) (target : Settings) : Field → Settings
  | defaultPreset => { target with defaultPreset := source.defaultPreset }
  | memoize => { target with memoize := source.memoize }
  | compressionLevel => { target with compressionLevel := source.compressionLevel }
  | maxDecodedBytes => { target with maxDecodedBytes := source.maxDecodedBytes }

theorem ofName?_name (field : Field)
    : ofName? field.name = some field := by
  cases field <;> rfl

/-- A field as a member of an object. -/
def toMember (settings : Settings) (field : Field) : String × Json :=
  (field.name, field.toJson settings)

/-- Settings are all their fields. -/
theorem foldl_copy_all (source target : Settings)
    : all.foldl (copy source) target = source :=
  rfl

end Field

theorem toJson_eq_fields (settings : Settings)
    : settings.toJson = .object (Field.all.map (Field.toMember settings)) :=
  rfl

------------------------------------------------------------------------------------------
-- Reading what is written
------------------------------------------------------------------------------------------

theorem stringOrNull_ofOption (value : Option String) (rest : List UInt8)
    : Reads stringOrNull (utf8 (Json.ofOption value).render.toList) value rest := by
  cases value with
  | none => exact stringOrNull_null rest (List.forall_mem_nil _)
  | some text =>
    have reads := stringOrNull_string rest (List.forall_mem_nil _) (spelling_escaped text.toList)
    rw [ofOption, toList_render_string, utf8_cons, utf8_append]
    exact reads

theorem natural_number (name : String) {value bound : Nat} (inside : value ≤ bound)
    (room : bound ≤ greatestNatural) {rest : List UInt8} (ends : EndsNumber rest)
    : Reads (natural name bound) (utf8 (Json.number value).render.toList) value rest := by
  have same : Nat.ofDigitChars 10 (Nat.toDigits 10 value) 0 = value :=
    Nat.ofDigitChars_ten_toDigits
  have reads : Reads (natural name bound) (utf8 (Nat.toDigits 10 value)) _ rest :=
    natural_plain rest (List.forall_mem_nil _) (plain_toDigits value) (by rwa [same]) room ends
  rwa [same, ← toList_render_number] at reads

/-- The written value of a field is read into that field. -/
theorem read_toJson (field : Field) (source target : Settings) {rest : List UInt8}
    (ends : EndsNumber rest)
    : Reads (field.read target) (utf8 (field.toJson source).render.toList)
        (field.copy source target) rest := by
  cases field with
  | defaultPreset =>
    exact (stringOrNull_ofOption source.defaultPreset rest).map
      fun value => { target with defaultPreset := value }
  | memoize =>
    exact (truth_render rest (List.forall_mem_nil _) source.memoize).map
      fun value => { target with memoize := value }
  | compressionLevel =>
    have inside : source.compressionLevel.toNat ≤ 255 :=
      Nat.le_of_lt_succ source.compressionLevel.toNat_lt
    have reads := (natural_number "u8" inside (by decide) ends).map
      fun value => { target with compressionLevel := UInt8.ofNat value }
    rwa [UInt8.ofNat_toNat] at reads
  | maxDecodedBytes =>
    have inside : source.maxDecodedBytes.toNat ≤ 18446744073709551615 :=
      Nat.le_of_lt_succ source.maxDecodedBytes.toNat_lt
    have reads := (natural_number "usize" inside (by decide) ends).map
      fun value => { target with maxDecodedBytes := UInt64.ofNat value }
    rwa [UInt64.ofNat_toNat] at reads

/-- A written member is read into its field. -/
theorem readNamed_memberChars (field : Field) (source : Settings) (members : Members)
    (fresh : field ∉ members.seen) {rest : List UInt8} (ends : EndsNumber rest)
    : Reads (readNamed members) (utf8 (memberChars (field.toMember source)))
        ⟨field.copy source members.settings, field :: members.seen⟩ rest := by
  have reads := readNamed_field (List.forall_mem_nil _) (spelling_escaped field.name.toList)
    field.ofName?_name fresh (read_toJson field source members.settings ends)
  rw [memberChars, toList_quote, List.cons_append, utf8_cons, utf8_append, utf8_append]
  exact reads

/-- Fields that are written one behind the other are read in that order, by induction on them. -/
theorem readMembers_laterMembers (source : Settings) {fields : List Field} (members : Members)
    (distinct : fields.Nodup) (fresh : ∀ field ∈ fields, field ∉ members.seen)
    (rest : List UInt8)
    : Reads (readMembers false members) (laterMembers (fields.map (Field.toMember source)))
        (fields.foldl (Field.copy source) members.settings) rest := by
  induction fields generalizing members with
  | nil => exact readMembers_end (List.forall_mem_nil _) false
  | cons field fields hyp =>
    obtain ⟨first, distinct⟩ := List.nodup_cons.mp distinct
    have member := readNamed_memberChars field source members (fresh field List.mem_cons_self)
      (endsNumber_laterMembers (fields.map (Field.toMember source)) rest)
    have others := hyp ⟨field.copy source members.settings, field :: members.seen⟩ distinct
      fun other within seen => by
        rcases List.mem_cons.mp seen with rfl | seen
        · exact first within
        · exact fresh other (List.mem_cons_of_mem _ within) seen
    obtain ⟨chars, same⟩ := exists_memberChars (field.toMember source)
    rw [List.map_cons, laterMembers_cons, same]
    rw [same] at member
    exact readMembers_next (List.forall_mem_nil _) (List.forall_mem_nil _) member others

/-- Distinct fields that are written as an object are read in their order. -/
theorem readStart_fields (source : Settings) {fields : List Field} (distinct : fields.Nodup)
    (rest : List UInt8)
    : Reads readStart (utf8 (Json.object (fields.map (Field.toMember source))).render.toList)
        (fields.foldl (Field.copy source) standard) rest := by
  cases fields with
  | nil =>
    have written : utf8 (Json.object []).render.toList = [] ++ [123, 125] := rfl
    rw [List.map_nil, written]
    exact ((readMembers_end (List.forall_mem_nil _) true).advance 123).behindBlanks
      (List.forall_mem_nil _) (by decide)
  | cons field fields =>
    obtain ⟨first, distinct⟩ := List.nodup_cons.mp distinct
    have member := readNamed_memberChars field source ⟨standard, []⟩ List.not_mem_nil
      (endsNumber_laterMembers (fields.map (Field.toMember source)) rest)
    have others := readMembers_laterMembers source ⟨field.copy source standard, [field]⟩ distinct
      (fun other within seen => first (List.mem_singleton.mp seen ▸ within)) rest
    obtain ⟨chars, same⟩ := exists_memberChars (field.toMember source)
    rw [List.map_cons, utf8_render_object_cons, same]
    rw [same] at member
    have reads := readMembers_first (List.forall_mem_nil _) member others
    exact (reads.advance 123).behindBlanks (List.forall_mem_nil _) (by decide)

theorem read_toJson_render (settings : Settings)
    : Settings.read settings.toJson.render = .ok settings := by
  have start := readStart_fields settings (show Field.all.Nodup by decide) []
  rw [← toJson_eq_fields, Field.foldl_copy_all] at start
  obtain ⟨behind, read⟩ := start ⟨1, 0⟩
  rw [List.append_nil] at read
  rw [Settings.read, Cursor.ofText_eq, read]
  rfl

/-- Settings that are written and read again are what they were if they can be used, and are refused
for the reason that their check gives if they cannot; no others are written alike.
-/
theorem ofJson_render (settings : Settings)
    : ofJson settings.toJson.render = settings.validate.map (fun _ => settings) ∧
        ∀ other : Settings, other.toJson.render = settings.toJson.render ↔ other = settings := by
  refine ⟨?_, fun other => ⟨fun same => ?_, fun same => same ▸ rfl⟩⟩
  · simp only [ofJson, read_toJson_render]
    cases settings.validate <;> rfl
  · have read := read_toJson_render other
    rw [same, read_toJson_render] at read
    exact (Except.ok.inj read).symm

end Scratchpad.Settings
