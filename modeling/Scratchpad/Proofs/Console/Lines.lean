import Mathlib.Data.List.DropRight
import Mathlib.Data.List.Forall2
import Scratchpad.Console
import Scratchpad.Proofs.Text.Lossy

/-! The lines that a writer puts on the console. Every run of writes between two flushes makes one
line of all its bytes, and no line if it has none; how the bytes are split into writes is nowhere to
be seen.
-/

namespace Scratchpad

namespace ConsoleWriter

------------------------------------------------------------------------------------------
-- Runs of writes
------------------------------------------------------------------------------------------

namespace Use

/-- Whether a use is a flush. -/
def isFlush : Use → Bool
  | write _ => false
  | flush => true

/-- The bytes that are written in a use. -/
def bytes : Use → List UInt8
  | write bytes => bytes.toList
  | flush => []

end Use

/-- The bytes of each run of writes. A flush ends a run, and so does the end. -/
def runs (uses : List Use) : List (List UInt8) :=
  (uses.splitOnP Use.isFlush).map (·.flatMap Use.bytes)

theorem runs_append_flush (front back : List Use)
    : runs (front ++ .flush :: back) = runs front ++ runs back := by
  rw [runs, List.splitOnP_append_cons _ _ rfl, List.map_append]
  rfl

theorem runs_flush (uses : List Use)
    : runs (.flush :: uses) = [] :: runs uses :=
  runs_append_flush [] uses

theorem runs_write (bytes : Array UInt8) (uses : List Use)
    : runs (.write bytes :: uses) = (runs uses).modifyHead (bytes.toList ++ ·) := by
  rw [runs, List.splitOnP_cons_eq_if_modifyHead, if_neg (by simp [Use.isFlush]), runs]
  cases uses.splitOnP Use.isFlush <;> rfl

theorem exists_runs_eq_cons (uses : List Use)
    : ∃ first others, runs uses = first :: others :=
  List.exists_cons_of_ne_nil (by simp [runs, List.splitOnP_ne_nil])

/-- All the bytes that are written are in the runs, in their order. -/
theorem flatten_runs (uses : List Use)
    : (runs uses).flatten = uses.flatMap Use.bytes := by
  induction uses with
  | nil => rfl
  | cons use uses hyp =>
      rw [List.flatMap_cons, ← hyp]
      cases use with
      | flush =>
          rw [runs_flush]
          rfl
      | write bytes =>
          obtain ⟨first, others, same⟩ := exists_runs_eq_cons uses
          simp [runs_write, same, Use.bytes]

/-- Writes in front of other uses lengthen the first run of these by all their bytes. -/
theorem runs_writes_append (chunks : List (Array UInt8)) (uses : List Use)
    : runs (chunks.map .write ++ uses)
      = (runs uses).modifyHead (chunks.flatMap Array.toList ++ ·) := by
  induction chunks with
  | nil =>
      obtain ⟨first, others, same⟩ := exists_runs_eq_cons uses
      simp [same]
  | cons chunk chunks hyp =>
      obtain ⟨first, others, same⟩ := exists_runs_eq_cons uses
      rw [List.map_cons, List.cons_append, runs_write, hyp, same]
      simp

/-- Uses can be replaced by others with the same runs wherever they are. -/
theorem runs_append_congr {uses others : List Use} (same : runs uses = runs others)
    (front : List Use)
    : runs (front ++ uses) = runs (front ++ others) := by
  induction front with
  | nil => exact same
  | cons use front hyp =>
      cases use with
      | flush => rw [List.cons_append, List.cons_append, runs_flush, runs_flush, hyp]
      | write bytes => rw [List.cons_append, List.cons_append, runs_write, runs_write, hyp]

------------------------------------------------------------------------------------------
-- Lines
------------------------------------------------------------------------------------------

/-- The line of a text is the text up to the newlines at its end. -/
structure Trims (text line : String) : Prop where
  newlines : ∃ count, text.toList = line.toList ++ List.replicate count '\n'
  stop : line.toList.getLast? ≠ some '\n'

theorem trims_withoutNewlines (text : String)
    : Trims text (withoutNewlines text) := by
  have characters
      : (withoutNewlines text).toList = text.toList.rdropWhile (· = '\n') :=
    String.toList_ofList
  constructor
  · have newlines
        : text.toList.rtakeWhile (· = '\n')
          = List.replicate (text.toList.rtakeWhile (· = '\n')).length '\n' :=
      List.eq_replicate_of_mem fun _ within => by simpa using List.mem_rtakeWhile_imp within
    exact ⟨_, by rw [characters, ← newlines, List.rdropWhile_append_rtakeWhile]⟩
  · rw [characters]
    intro newline
    have nonempty : text.toList.rdropWhile (· = '\n') ≠ [] := by
      rintro empty
      rw [empty] at newline
      cases newline
    have other := List.rdropWhile_last_not (· = '\n') text.toList nonempty
    rw [List.getLast?_eq_getLast_of_ne_nil nonempty] at newline
    simp_all

/-- The lines of runs of writes: one for each that is not empty. -/
def linesOf (runs : List (List UInt8)) : List String :=
  (runs.filter (· ≠ [])).map fun bytes => withoutNewlines (Text.decodeLossy bytes)

theorem linesOf_append (front back : List (List UInt8))
    : linesOf (front ++ back) = linesOf front ++ linesOf back := by
  rw [linesOf, List.filter_append, List.map_append]
  rfl

/-- A flush puts what was written since the last one on the console, and keeps nothing of it. -/
theorem flush_eq (writer : ConsoleWriter)
    : writer.flush
      = ⟨#[], ⟨writer.console.lines ++ (linesOf [writer.buffer.toList]).toArray⟩⟩ := by
  obtain ⟨buffer, console⟩ := writer
  by_cases empty : buffer = #[]
  · subst empty
    simp [flush, linesOf]
  · have full : buffer.isEmpty = false := by simpa using empty
    have bytes : buffer.toList ≠ [] := by simpa using empty
    simp [flush, full, bytes, linesOf, Console.log, line]

/-- Behind the bytes that a writer holds, uses put their runs on the console, by induction on them.
The bytes that are held belong to the first run.
-/
theorem lines_drop_performAll (uses : List Use) (writer : ConsoleWriter)
    : (writer.performAll uses).2.drop.lines
      = writer.console.lines
        ++ (linesOf ((runs uses).modifyHead (writer.buffer.toList ++ ·))).toArray := by
  induction uses generalizing writer with
  | nil =>
      have whole : (runs []).modifyHead (writer.buffer.toList ++ ·) = [writer.buffer.toList] := by
        simp [runs]
      rw [whole, performAll, drop, flush_eq]
  | cons use uses hyp =>
      cases use with
      | flush =>
          obtain ⟨first, others, same⟩ := exists_runs_eq_cons uses
          rw [performAll, perform, hyp, flush_eq, runs_flush, same]
          simp [← linesOf_append]
      | write bytes =>
          have longer
              : (writer.write bytes).buffer.toList = writer.buffer.toList ++ bytes.toList :=
            Array.toList_append
          have joined
              : (fun run => writer.buffer.toList ++ run) ∘ (fun run => bytes.toList ++ run)
                = fun run => writer.buffer.toList ++ bytes.toList ++ run :=
            funext fun run => (List.append_assoc ..).symm
          rw [performAll, perform, hyp, longer, runs_write, List.modifyHead_modifyHead, joined]
          rfl

/-- A writer takes all the bytes of every write. -/
theorem taken_performAll (uses : List Use) (writer : ConsoleWriter)
    : (writer.performAll uses).1 = uses.map (·.bytes.length) := by
  induction uses generalizing writer with
  | nil => rfl
  | cons use uses hyp =>
      have rest := hyp (writer.perform use).2
      cases use <;> exact congrArg (_ :: ·) rest

end ConsoleWriter

------------------------------------------------------------------------------------------
-- A console behind a writer
------------------------------------------------------------------------------------------

namespace Console

open ConsoleWriter

/-- The console when a new writer in front of it has been used and was given up. -/
def after (uses : List Use) (console : Console) : Console :=
  ((ConsoleWriter.new console).performAll uses).2.drop

theorem lines_after (uses : List Use) (console : Console)
    : (console.after uses).lines = console.lines ++ (linesOf (runs uses)).toArray := by
  obtain ⟨first, others, same⟩ := exists_runs_eq_cons uses
  rw [after, lines_drop_performAll, same]
  rfl

theorem after_congr {uses others : List Use} (same : linesOf (runs uses) = linesOf (runs others))
    (console : Console)
    : console.after uses = console.after others := by
  have lines := console.lines_after uses
  rw [same, ← lines_after] at lines
  exact congrArg Console.mk lines

/-- A writer takes all bytes, and every run of writes that has bytes puts one line on the console:
the text of all of them, up to the newlines at its end. All bytes are in the runs. It does not
matter how the bytes of a run are split into writes, nor whether a flush follows on another or is
the last of the uses; and the bytes of a text make the line of this text.
-/
theorem lines_of_runs (console : Console) (uses : List Use)
    : ((ConsoleWriter.new console).performAll uses).1 = uses.map (·.bytes.length)
      ∧ (∃ lines,
          (console.after uses).lines.toList = console.lines.toList ++ lines
          ∧ List.Forall₂ (fun bytes line => Trims (Text.decodeLossy bytes) line)
              ((runs uses).filter (· ≠ [])) lines)
      ∧ (runs uses).flatten = uses.flatMap Use.bytes
      ∧ (∀ (front back : List Use) (chunks others : List (Array UInt8)),
          chunks.flatMap Array.toList = others.flatMap Array.toList
          → console.after (front ++ (chunks.map .write ++ back))
            = console.after (front ++ (others.map .write ++ back)))
      ∧ (∀ front back : List Use,
          console.after (front ++ .flush :: .flush :: back)
          = console.after (front ++ .flush :: back))
      ∧ console.after (uses ++ [.flush]) = console.after uses
      ∧ ∀ text : String, Text.decodeLossy text.toUTF8.data.toList = text := by
  refine ⟨taken_performAll uses _, ⟨linesOf (runs uses), ?_, ?_⟩, flatten_runs uses, ?_, ?_, ?_,
    Text.decodeLossy_toUTF8⟩
  · rw [lines_after, Array.toList_append]
  · rw [linesOf, List.forall₂_map_right_iff]
    exact List.forall₂_same.mpr fun bytes _ => trims_withoutNewlines _
  · intro front back chunks others same
    refine after_congr (congrArg linesOf (runs_append_congr ?_ front)) console
    rw [runs_writes_append, runs_writes_append, same]
  · intro front back
    refine after_congr ?_ console
    rw [runs_append_flush, runs_append_flush, runs_flush, linesOf_append, linesOf_append]
    rfl
  · refine after_congr ?_ console
    rw [runs_append_flush, linesOf_append]
    exact List.append_nil _

end Console

end Scratchpad
