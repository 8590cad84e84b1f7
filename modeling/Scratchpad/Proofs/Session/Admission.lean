import Scratchpad.Proofs.Session.Starts

/-! Which starts are refused. The settings and the catalog alone decide it, before the slot and the
engine are used; no token in the slot, whatever it is, makes a start fail.
-/

namespace Scratchpad

namespace Settings

/-- Settings that can be used with a catalog. -/
structure Usable (settings : Settings) (catalog : Catalog) : Prop where
  level : settings.compressionLevel ≤ 10
  limit : settings.maxDecodedBytes ≠ 0
  preset : ∀ name, settings.defaultPreset = some name → name ∈ catalog.names

/-- Why settings cannot be used with a catalog: the level is judged first, then the limit, and the
preset last.
-/
inductive Refused (settings : Settings) (catalog : Catalog) : String → Prop
  | level (high : 10 < settings.compressionLevel)
    : Refused settings catalog
        s!"compression_level must be 0..=10, got {settings.compressionLevel.toNat}"
  | limit (low : settings.compressionLevel ≤ 10) (zero : settings.maxDecodedBytes = 0)
    : Refused settings catalog "max_decoded_bytes must be positive"
  | preset {name : String} (low : settings.compressionLevel ≤ 10)
    (positive : settings.maxDecodedBytes ≠ 0) (asked : settings.defaultPreset = some name)
    (unlisted : name ∉ catalog.names)
    : Refused settings catalog s!"default_preset {Text.quote name} is not a catalog example"

variable {settings : Settings} {catalog : Catalog}

/-- Settings can be used unless there is a reason against them. -/
theorem refused_or_usable (settings : Settings) (catalog : Catalog)
    : (∃ detail, settings.Refused catalog detail) ∨ settings.Usable catalog := by
  by_cases low : settings.compressionLevel ≤ 10
  · by_cases zero : settings.maxDecodedBytes = 0
    · exact .inl ⟨_, .limit low zero⟩
    · by_cases preset : ∀ name, settings.defaultPreset = some name → name ∈ catalog.names
      · exact .inr ⟨low, zero, preset⟩
      · obtain ⟨name, wrong⟩ := Classical.not_forall.mp preset
        obtain ⟨asked, unlisted⟩ := Classical.not_imp.mp wrong
        exact .inl ⟨_, .preset low zero asked unlisted⟩
  · exact .inl ⟨_, .level (UInt8.not_le.mp low)⟩

/-- Nothing is wrong with settings that can be used. -/
theorem Usable.not_wrong (usable : settings.Usable catalog)
    : ¬ (10 < settings.compressionLevel ∨ settings.maxDecodedBytes = 0
        ∨ ∃ name, settings.defaultPreset = some name ∧ name ∉ catalog.names) := by
  rintro (high | zero | ⟨name, asked, unlisted⟩)
  · exact absurd usable.level (UInt8.not_le.mpr high)
  · exact usable.limit zero
  · exact unlisted (usable.preset name asked)

/-- There is a reason against settings exactly if one of three things is wrong with them. -/
theorem exists_refused_iff (settings : Settings) (catalog : Catalog)
    : (∃ detail, settings.Refused catalog detail)
      ↔ 10 < settings.compressionLevel ∨ settings.maxDecodedBytes = 0
        ∨ ∃ name, settings.defaultPreset = some name ∧ name ∉ catalog.names := by
  constructor
  · rintro ⟨detail, refused⟩
    cases refused with
    | level high => exact .inl high
    | limit low zero => exact .inr (.inl zero)
    | preset low positive asked unlisted => exact .inr (.inr ⟨_, asked, unlisted⟩)
  · intro wrong
    rcases settings.refused_or_usable catalog with refused | usable
    · exact refused
    · exact absurd wrong usable.not_wrong

theorem validate_of_low (low : settings.compressionLevel ≤ 10)
    (positive : settings.maxDecodedBytes ≠ 0)
    : settings.validate = .ok () :=
  (if_neg (UInt8.not_lt.mpr low)).trans (if_neg positive)

theorem Usable.exists_startName (usable : settings.Usable catalog)
    : ∃ name, settings.startName catalog = .ok name := by
  cases asked : settings.defaultPreset with
  | none => exact ⟨catalog.defaultName, by simp only [startName, asked]⟩
  | some name =>
      have listed := (catalog.contains_iff name).mpr (usable.preset name asked)
      exact ⟨name, by simp only [startName, asked, if_pos listed]⟩

end Settings

/-- Every publication is logged. -/
theorem Publisher.events_publish_ne_nil {τ : Type} [Slot τ] (text : String)
    (publisher : Publisher τ)
    : (publisher.publish text).events ≠ [] := by
  rw [publish]
  cases publisher.codec.encodeBounded text <;> exact List.cons_ne_nil _ _

/-- Every run is logged, whether or not it calls the engine. -/
theorem Runner.events_run_ne_nil {σ : Type} (source : String) (runner : Runner σ)
    : (runner.run source).events ≠ [] := by
  rw [run]
  cases runner.memo.find? source with
  | some report => exact List.cons_ne_nil _ _
  | none => exact List.append_ne_nil_of_right_ne_nil _ (List.cons_ne_nil _ _)

namespace Session

variable {σ τ : Type} [Slot τ] {settings : Settings} {catalog : Catalog}

/-- Settings with a reason against them are refused for it, whatever the slot and the engine are and
do. The slot is not read, by whatever action this would be done, and nothing is logged.
-/
theorem startReading_of_refused {m : Type → Type} [Monad m] {detail : String}
    (refused : settings.Refused catalog detail) (readToken : Publisher τ → m (Option String))
    (engine : Engine σ) (state : σ) (slot : τ)
    : startReading readToken engine state slot catalog settings
      = pure ⟨.error (.config detail), []⟩ := by
  cases refused with
  | level high =>
      have invalid : settings.validate = .error _ := if_pos high
      exact startReading_of_invalid invalid
  | limit low zero =>
      have invalid : settings.validate = .error _ :=
        (if_neg (UInt8.not_lt.mpr low)).trans (if_pos zero)
      exact startReading_of_invalid invalid
  | preset low positive asked unlisted =>
      have valid := Settings.validate_of_low low positive
      rw [← catalog.contains_iff] at unlisted
      refine startReading_of_unnamed valid ?_
      simp only [Settings.startName, asked, if_neg unlisted]

theorem start_of_refused {detail : String} (refused : settings.Refused catalog detail)
    (engine : Engine σ) (state : σ) (slot : τ)
    : start engine state slot catalog settings = ⟨.error (.config detail), []⟩ := by
  rw [start, startReading_of_refused refused]
  rfl

/-- Settings that can be used start a session, whatever the slot holds. -/
theorem exists_start (usable : settings.Usable catalog) (engine : Engine σ) (state : σ) (slot : τ)
    : ∃ session, (start engine state slot catalog settings).value = .ok session := by
  obtain ⟨name, named⟩ := usable.exists_startName
  obtain ⟨document, loaded⟩ := Settings.preset_of_startName named
  obtain ⟨opened, startup⟩ := Document.exists_startup loaded settings.codec
    (Publisher.new settings.codec slot).readToken
  rw [start_value (Settings.validate_of_low usable.level usable.limit) named, startup]
  exact ⟨_, rfl⟩

/-- A start that counts how often it reads its slot. -/
def startCounting (engine : Engine σ) (state : σ) (slot : τ) (catalog : Catalog)
    (settings : Settings) : StateM Nat (Traced (Except Error (Session σ τ))) :=
  startReading
    (fun publisher => do
      modify (· + 1)
      return publisher.readToken)
    engine state slot catalog settings

/-- A start that is refused does not read its slot. -/
theorem startCounting_of_refused {detail : String} (refused : settings.Refused catalog detail)
    (engine : Engine σ) (state : σ) (slot : τ) (reads : Nat)
    : Id.run ((startCounting engine state slot catalog settings).run reads)
      = (start engine state slot catalog settings, reads) := by
  rw [startCounting, startReading_of_refused refused, start_of_refused refused]
  rfl

/-- Every other start reads its slot once. -/
theorem startCounting_of_usable (usable : settings.Usable catalog) (engine : Engine σ) (state : σ)
    (slot : τ) (reads : Nat)
    : Id.run ((startCounting engine state slot catalog settings).run reads)
      = (start engine state slot catalog settings, reads + 1) := by
  obtain ⟨name, named⟩ := usable.exists_startName
  have valid := Settings.validate_of_low usable.level usable.limit
  rw [startCounting, startReading_of_named valid named, start_of_named valid named]
  rfl

/-- A start fails exactly if the level is too high, the limit is zero or the preset that is asked
for is not listed, with the first of these as the error, and succeeds in every other case. A start
that fails is the same for all slots and engines, and if it counts how often it reads its slot,
which makes no other difference, it counts nothing; every other start reads its slot once. A start
that fails leaves no event, while every write to a slot and every run of an engine leaves one. The
ways in which choosing the document could fail are never taken: the preset asked for and the first
one are there.
-/
theorem start_error_iff (engine : Engine σ) (state : σ) (slot : τ) (catalog : Catalog)
    (settings : Settings)
    : let started := start engine state slot catalog settings
      let wrong :=
        10 < settings.compressionLevel ∨ settings.maxDecodedBytes = 0
        ∨ ∃ name, settings.defaultPreset = some name ∧ name ∉ catalog.names
      ((∃ error, started.value = .error error) ↔ wrong)
      ∧ (¬ wrong → ∃ session, started.value = .ok session)
      ∧ (∀ error, started.value = .error error
        → ∃ detail, settings.Refused catalog detail ∧ error = .config detail)
      ∧ (∀ detail, settings.Refused catalog detail → started = ⟨.error (.config detail), []⟩)
      ∧ (∀ reads,
        let counted := Id.run ((startCounting engine state slot catalog settings).run reads)
        counted.1 = started ∧ (wrong → counted.2 = reads) ∧ (¬ wrong → counted.2 = reads + 1))
      ∧ (∀ text (publisher : Publisher τ), (publisher.publish text).events ≠ [])
      ∧ (∀ source (runner : Runner σ), (runner.run source).events ≠ [])
      ∧ (∀ name, settings.startName catalog = .ok name
        → (∃ document, Document.preset catalog name = .ok document)
          ∧ ∀ codec,
            (∀ token, ∃ opened, (Document.startup catalog codec name token).value = .ok opened)
            ∧ ∀ token, ∃ opened, (Document.restore catalog codec name token).value = .ok opened)
      ∧ catalog.presets[0]?.map Preset.name = some catalog.defaultName := by
  intro started wrong
  have succeeds (right : ¬ wrong) : ∃ session, started.value = .ok session := by
    rcases settings.refused_or_usable catalog with refused | usable
    · exact absurd ((settings.exists_refused_iff catalog).mp refused) right
    · exact exists_start usable engine state slot
  have fails (detail : String) (refused : settings.Refused catalog detail)
      : started = ⟨.error (.config detail), []⟩ :=
    start_of_refused refused engine state slot
  have refused_of_error {error : Error} (failed : started.value = .error error)
      : ∃ detail, settings.Refused catalog detail ∧ error = .config detail := by
    rcases settings.refused_or_usable catalog with ⟨detail, refused⟩ | usable
    · rw [fails detail refused] at failed
      exact ⟨detail, refused, (Except.error.inj failed).symm⟩
    · obtain ⟨session, succeeded⟩ := exists_start usable engine state slot
      cases failed.symm.trans succeeded
  refine ⟨⟨?_, ?_⟩, succeeds, fun _ => refused_of_error, fails, ?_,
    Publisher.events_publish_ne_nil, Runner.events_run_ne_nil, ?_, ?_⟩
  · rintro ⟨error, failed⟩
    obtain ⟨detail, refused, -⟩ := refused_of_error failed
    exact (settings.exists_refused_iff catalog).mp ⟨detail, refused⟩
  · intro isWrong
    obtain ⟨detail, refused⟩ := (settings.exists_refused_iff catalog).mpr isWrong
    exact ⟨_, congrArg Traced.value (fails detail refused)⟩
  · intro reads
    rcases settings.refused_or_usable catalog with ⟨detail, refused⟩ | usable
    · have isWrong : wrong := (settings.exists_refused_iff catalog).mp ⟨detail, refused⟩
      rw [startCounting_of_refused refused engine state slot reads]
      exact ⟨rfl, fun _ => rfl, fun right => absurd isWrong right⟩
    · have right : ¬ wrong := usable.not_wrong
      rw [startCounting_of_usable usable engine state slot reads]
      exact ⟨rfl, fun isWrong => absurd isWrong right, fun _ => rfl⟩
  · intro name named
    obtain ⟨document, loaded⟩ := Settings.preset_of_startName named
    exact ⟨⟨document, loaded⟩, fun codec =>
      ⟨Document.exists_startup loaded codec, fun token =>
        ⟨_, Document.restore_value loaded codec token⟩⟩⟩
  · rw [catalog.presets_eq_cons]
    rfl

end Session

end Scratchpad
