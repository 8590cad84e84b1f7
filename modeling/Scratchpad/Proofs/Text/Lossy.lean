import Scratchpad.Proofs.Json.Bytes
import Scratchpad.Text.Lossy

/-! Bytes that are the UTF-8 of a text are read as that text. The first byte of a character tells
how many follow it and within which bounds, and they always are within these.
-/

namespace Scratchpad.Text

/-- A byte behind the first one of a character, which carries six bits. -/
def trailByte (bits : Nat) : UInt8 :=
  UInt8.ofNat (bits % 64 + 128)

theorem toNat_trailByte (bits : Nat)
    : (trailByte bits).toNat = bits % 64 + 128 := by
  rw [trailByte, UInt8.toNat_ofNat']
  omega

/-- The bits of a byte within bounds are appended to those of the bytes before it. -/
theorem continueChar_trailByte {low high : UInt8} {next : Nat}
    (within : low.toNat ≤ next % 64 + 128 ∧ next % 64 + 128 ≤ high.toNat) (bits more : Nat)
    (rest : List UInt8)
    : continueChar low high bits more (trailByte next :: rest)
      = match more with
        | 0 => (Char.ofNat (bits * 64 + next % 64), rest)
        | more + 1 => continueChar 0x80 0xBF (bits * 64 + next % 64) more rest := by
  have inside : low ≤ trailByte next ∧ trailByte next ≤ high := by
    simpa only [UInt8.le_iff_toNat_le, toNat_trailByte] using within
  have carried : (trailByte next).toNat % 64 = next % 64 := by
    rw [toNat_trailByte]
    omega
  cases more <;> simp only [continueChar, if_pos inside, carried]

/-- Behind the second byte of a character any byte that carries bits is within bounds. -/
theorem trail_within (next : Nat)
    : (0x80 : UInt8).toNat ≤ next % 64 + 128 ∧ next % 64 + 128 ≤ (0xBF : UInt8).toNat := by
  simp only [UInt8.toNat_ofNat]
  omega

------------------------------------------------------------------------------------------
-- First bytes
------------------------------------------------------------------------------------------

section

variable {number : Nat}

theorem leadByte?_two (least : 0x80 ≤ number) (most : number < 0x800)
    : leadByte? (UInt8.ofNat (number / 64 % 32 + 192)) = some ⟨0x80, 0xBF, number / 64, 0⟩ := by
  simp only [leadByte?, UInt8.le_iff_toNat_le, UInt8.toNat_ofNat', UInt8.toNat_ofNat]
  rw [if_pos (by omega)]
  simp only [Option.some.injEq, LeadByte.mk.injEq, true_and, and_true]
  omega

/-- Of three bytes, the bounds of the second rule out numbers below and surrogates. -/
theorem leadByte?_three (least : 0x800 ≤ number) (most : number < 0x10000)
    (scalar : number < 0xD800 ∨ 0xDFFF < number)
    : ∃ low high, leadByte? (UInt8.ofNat (number / 4096 % 16 + 224))
          = some ⟨low, high, number / 4096, 1⟩
        ∧ low.toNat ≤ number / 64 % 64 + 128 ∧ number / 64 % 64 + 128 ≤ high.toNat := by
  have bits : (number / 4096 % 16 + 224) % 2 ^ 8 - 0xE0 = number / 4096 := by omega
  simp only [leadByte?, UInt8.le_iff_toNat_le, UInt8.toNat_ofNat', ← UInt8.toNat_inj,
    UInt8.toNat_ofNat, bits]
  repeat' split
  all_goals first | omega | exact ⟨_, _, rfl, by simp only [UInt8.toNat_ofNat]; omega⟩

/-- Of four bytes, the bounds of the second rule out numbers below and beyond all characters. -/
theorem leadByte?_four (least : 0x10000 ≤ number) (most : number < 0x110000)
    : ∃ low high, leadByte? (UInt8.ofNat (number / 262144 % 8 + 240))
          = some ⟨low, high, number / 262144, 2⟩
        ∧ low.toNat ≤ number / 4096 % 64 + 128 ∧ number / 4096 % 64 + 128 ≤ high.toNat := by
  have bits : (number / 262144 % 8 + 240) % 2 ^ 8 - 0xF0 = number / 262144 := by omega
  simp only [leadByte?, UInt8.le_iff_toNat_le, UInt8.toNat_ofNat', ← UInt8.toNat_inj,
    UInt8.toNat_ofNat, bits]
  repeat' split
  all_goals first | omega | exact ⟨_, _, rfl, by simp only [UInt8.toNat_ofNat]; omega⟩

end

------------------------------------------------------------------------------------------
-- Characters
------------------------------------------------------------------------------------------

/-- Behind a first byte beyond ASCII, a character is continued as that byte asks for. -/
theorem firstChar_of_lead {byte : UInt8} {lead : LeadByte} (large : 0x80 ≤ byte.toNat)
    (known : leadByte? byte = some lead) (rest : List UInt8)
    : firstChar byte rest = continueChar lead.low lead.high lead.bits lead.more rest := by
  have beyond : ¬ byte < 0x80 := by simpa [UInt8.lt_iff_toNat_lt] using large
  rw [firstChar, if_neg beyond, known]

/-- The bytes of a character are read as that character. -/
theorem firstChar_encoded (char : Char) (rest : List UInt8)
    : ∃ byte bytes, String.utf8EncodeChar char = byte :: bytes
      ∧ firstChar byte (bytes ++ rest) = (char, rest) := by
  obtain ⟨number, same⟩ : ∃ number, char.toNat = number := ⟨_, rfl⟩
  have whole {other : Nat} (equal : other = number) : (Char.ofNat other, rest) = (char, rest) := by
    rw [equal, ← same, Char.ofNat_toNat]
  have scalar : number < 0xD800 ∨ 0xDFFF < number ∧ number < 0x110000 := same ▸ char.valid
  simp only [String.utf8EncodeChar, Char.toNat_val, same]
  split
  · refine ⟨_, [], rfl, ?_⟩
    have ascii : UInt8.ofNat number < 0x80 := by
      simp only [UInt8.lt_iff_toNat_lt, UInt8.toNat_ofNat', UInt8.toNat_ofNat]
      omega
    rw [firstChar, if_pos ascii, List.nil_append, UInt8.toNat_ofNat']
    exact whole (by omega)
  split
  · have lead := leadByte?_two (show 0x80 ≤ number by omega) (by omega)
    refine ⟨_, [trailByte number], rfl, ?_⟩
    rw [firstChar_of_lead (by rw [UInt8.toNat_ofNat']; omega) lead]
    exact (continueChar_trailByte (trail_within number) (number / 64) 0 rest).trans
      (whole (by omega))
  split
  · obtain ⟨low, high, lead, within⟩ :=
      leadByte?_three (show 0x800 ≤ number by omega) (by omega) (by omega)
    refine ⟨_, [trailByte (number / 64), trailByte number], rfl, ?_⟩
    rw [firstChar_of_lead (by rw [UInt8.toNat_ofNat']; omega) lead]
    exact ((continueChar_trailByte within (number / 4096) 1 _).trans
      (continueChar_trailByte (trail_within number) _ 0 rest)).trans (whole (by omega))
  · obtain ⟨low, high, lead, within⟩ :=
      leadByte?_four (show 0x10000 ≤ number by omega) (by omega)
    refine ⟨_, [trailByte (number / 4096), trailByte (number / 64), trailByte number], rfl, ?_⟩
    rw [firstChar_of_lead (by rw [UInt8.toNat_ofNat']; omega) lead]
    exact (((continueChar_trailByte within (number / 262144) 2 _).trans
      (continueChar_trailByte (trail_within (number / 64)) _ 1 _)).trans
      (continueChar_trailByte (trail_within number) _ 0 rest)).trans (whole (by omega))

------------------------------------------------------------------------------------------
-- Texts
------------------------------------------------------------------------------------------

/-- The bytes of characters are read as these characters, by induction on them. -/
theorem decodeInto_utf8 (out : String) (chars : List Char)
    : decodeInto out (Json.utf8 chars) = out ++ String.ofList chars := by
  induction chars generalizing out with
  | nil => simp [Json.utf8_nil, decodeInto]
  | cons char chars hyp =>
      obtain ⟨byte, bytes, encoded, first⟩ := firstChar_encoded char (Json.utf8 chars)
      rw [Json.utf8_cons, encoded, List.cons_append, decodeInto, first, hyp]
      simp [String.ext_iff]

/-- The bytes of a text are read as that text. -/
theorem decodeLossy_toUTF8 (text : String)
    : decodeLossy text.toUTF8.data.toList = text := by
  rw [decodeLossy, Json.utf8_toList, decodeInto_utf8]
  simp

end Scratchpad.Text
