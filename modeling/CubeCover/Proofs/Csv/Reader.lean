import CubeCover.Table.Csv
import Mathlib.Tactic.SplitIfs

/-! Reading comma-separated values, one character after the other. A field may stand between quotation
marks, and then a mark in it is written twice. A line ends with a carriage return, a line feed, or the
two of them; the last line need not end. What is written as lines of fields is read as these lines. -/
namespace CubeCover.Csv

/-- Where a reader stands. -/
inductive Mode
  | lineStart
  /-- After a carriage return that has ended a line; a line feed still belongs to it. -/
  | returned
  | fieldStart
  | bare
  | quoted
  /-- After a quotation mark in a quoted field: it ends the field, or is the first of two. -/
  | closing
  deriving DecidableEq, Repr

/-- What has been read: whole lines, whole fields of the next line, and characters of the next field. -/
structure Reader where
  mode : Mode
  lines : List (List String)
  fields : List String
  current : List Char
  deriving DecidableEq, Repr

namespace Reader

def start : Reader := ⟨.lineStart, [], [], []⟩

def put (r : Reader) (mode : Mode) (c : Char) : Reader :=
  { r with mode := mode, current := r.current ++ [c] }

def endField (r : Reader) (mode : Mode) : Reader :=
  { r with mode := mode, fields := r.fields ++ [String.ofList r.current], current := [] }

def endLine (r : Reader) (mode : Mode) : Reader := ⟨mode, r.lines ++ [r.fields], [], []⟩

/-- A character at the end of a field, or else what becomes of the reader. -/
def separate (r : Reader) (c : Char) (other : Reader) : Reader :=
  if c = ',' then r.endField .fieldStart
  else if c = '\r' then (r.endField .returned).endLine .returned
  else if c = '\n' then (r.endField .lineStart).endLine .lineStart
  else other

/-- The first character of a field. -/
def startField (r : Reader) (c : Char) : Reader :=
  r.separate c (if c = '"' then { r with mode := .quoted } else r.put .bare c)

/-- The first character of a line. A line of no characters has no fields. -/
def startLine (r : Reader) (c : Char) : Reader :=
  if c = '\r' then r.endLine .returned
  else if c = '\n' then r.endLine .lineStart
  else r.startField c

def step (r : Reader) (c : Char) : Reader :=
  match r.mode with
  | .lineStart => r.startLine c
  | .returned => if c = '\n' then { r with mode := .lineStart } else r.startLine c
  | .fieldStart => r.startField c
  | .bare => r.separate c (r.put .bare c)
  | .quoted => if c = '"' then { r with mode := .closing } else r.put .quoted c
  | .closing => if c = '"' then r.put .quoted c else r.separate c (r.put .bare c)

/-- The lines at the end of the text. -/
def finish (r : Reader) : List (List String) :=
  match r.mode with
  | .lineStart | .returned => r.lines
  | _ => ((r.endField .lineStart).endLine .lineStart).lines

def steps (r : Reader) (cs : List Char) : Reader := cs.foldl step r

theorem steps_append (r : Reader) (cs ds : List Char) :
    r.steps (cs ++ ds) = (r.steps cs).steps ds := List.foldl_append

variable (lines : List (List String)) (fields : List String)

theorem steps_bare (cs read : List Char) (hcs : cs.any needsQuotes = false) :
    (Reader.mk .bare lines fields read).steps cs = ⟨.bare, lines, fields, read ++ cs⟩ := by
  induction cs generalizing read with
  | nil => simp [steps]
  | cons c cs ih =>
    simp only [List.any_cons, Bool.or_eq_false_iff] at hcs
    have hstep : (Reader.mk .bare lines fields read).step c =
        ⟨.bare, lines, fields, read ++ [c]⟩ := by
      have hc := hcs.1
      simp only [needsQuotes, Bool.or_eq_false_iff, beq_eq_false_iff_ne] at hc
      simp [step, separate, put, hc]
    have hrest := ih (read ++ [c]) hcs.2
    rw [List.append_assoc] at hrest
    rw [steps, List.foldl_cons, hstep]
    exact hrest

/-- In a quoted field every character stands for itself, a mark written twice for one. -/
theorem steps_quoted (cs read : List Char) :
    (Reader.mk .quoted lines fields read).steps (cs.flatMap double) =
      ⟨.quoted, lines, fields, read ++ cs⟩ := by
  induction cs generalizing read with
  | nil => simp [steps]
  | cons c cs ih =>
    have hstep : (Reader.mk .quoted lines fields read).steps (double c) =
        ⟨.quoted, lines, fields, read ++ [c]⟩ := by
      by_cases hc : c = '"'
      · simp [double, hc, steps, step, put]
      · simp [double, hc, steps, step, put]
    rw [List.flatMap_cons, steps_append, hstep, ih, List.append_assoc]
    rfl

/-- How a reader stands after a field that it has begun in some mode. -/
def modeAfter (mode : Mode) (text : String) : Mode :=
  if text.toList.any needsQuotes then .closing else if text = "" then mode else .bare

/-- A field between quotation marks: the first mark opens it, and the last one waits for what follows. -/
theorem steps_quotedField (mode : Mode) (hmode : mode = .lineStart ∨ mode = .fieldStart)
    (cs : List Char) :
    (Reader.mk mode lines fields []).steps ('"' :: cs.flatMap double ++ ['"']) =
      ⟨.closing, lines, fields, cs⟩ := by
  have hopen : (Reader.mk mode lines fields []).steps ['"'] = ⟨.quoted, lines, fields, []⟩ := by
    rcases hmode with rfl | rfl <;> simp [steps, step, startLine, startField, separate]
  have hclose : (Reader.mk .quoted lines fields cs).steps ['"'] =
      ⟨.closing, lines, fields, cs⟩ := by
    simp [steps, step]
  have hquoted := steps_quoted lines fields cs []
  rw [List.nil_append] at hquoted
  rw [← List.singleton_append, List.append_assoc, steps_append, hopen, steps_append, hquoted, hclose]

theorem steps_bareField (mode : Mode) (hmode : mode = .lineStart ∨ mode = .fieldStart) (c : Char)
    (cs : List Char) (hplain : (c :: cs).any needsQuotes = false) :
    (Reader.mk mode lines fields []).steps (c :: cs) = ⟨.bare, lines, fields, c :: cs⟩ := by
  rw [List.any_cons, Bool.or_eq_false_iff] at hplain
  have hfirst : (Reader.mk mode lines fields []).step c = ⟨.bare, lines, fields, [c]⟩ := by
    have hc := hplain.1
    simp only [needsQuotes, Bool.or_eq_false_iff, beq_eq_false_iff_ne] at hc
    rcases hmode with rfl | rfl <;> simp [step, startLine, startField, separate, put, hc]
  rw [steps, List.foldl_cons, hfirst]
  exact steps_bare lines fields cs [c] hplain.2

/-- The field of a text is read as this text. -/
theorem steps_field (mode : Mode) (hmode : mode = .lineStart ∨ mode = .fieldStart) (text : String) :
    (Reader.mk mode lines fields []).steps (field text).toList =
      ⟨modeAfter mode text, lines, fields, text.toList⟩ := by
  unfold field modeAfter
  split
  · rw [String.toList_ofList]
    exact steps_quotedField lines fields mode hmode text.toList
  · rename_i hplain
    rw [Bool.not_eq_true] at hplain
    cases hcs : text.toList with
    | nil =>
      have hempty : text = "" := String.toList_inj.mp hcs
      simp [hempty, steps]
    | cons c cs =>
      have hne : text ≠ "" := by
        rintro rfl
        simp at hcs
      rw [if_neg hne]
      exact steps_bareField lines fields mode hmode c cs (hcs ▸ hplain)

theorem step_comma (mode : Mode) (hmode : mode = .lineStart ∨ mode = .fieldStart) (text : String) :
    (Reader.mk (modeAfter mode text) lines fields text.toList).step ',' =
      ⟨.fieldStart, lines, fields ++ [text], []⟩ := by
  unfold modeAfter
  rcases hmode with rfl | rfl <;> split_ifs <;>
    simp [step, startLine, startField, separate, endField]

/-- The end of a line ends the last field too. A line that is a single empty field looks like a line
without fields. -/
theorem steps_lineEnd (mode : Mode) (hmode : mode = .lineStart ∨ mode = .fieldStart) (text : String)
    (hne : mode = .fieldStart ∨ text ≠ "") :
    (Reader.mk (modeAfter mode text) lines fields text.toList).steps ['\r', '\n'] =
      ⟨.lineStart, lines ++ [fields ++ [text]], [], []⟩ := by
  unfold modeAfter
  rcases hmode with rfl | rfl <;> split_ifs <;>
    simp_all [steps, step, startField, separate, endField, endLine]

theorem steps_fields (mode : Mode) (hmode : mode = .lineStart ∨ mode = .fieldStart) (text : String)
    (rest : List String) (hne : mode = .fieldStart ∨ text ≠ "" ∨ rest ≠ []) :
    (Reader.mk mode lines fields []).steps
        ([','].intercalate ((text :: rest).map fun text => (field text).toList) ++ ['\r', '\n']) =
      ⟨.lineStart, lines ++ [fields ++ text :: rest], [], []⟩ := by
  induction rest generalizing mode text fields with
  | nil =>
    have hne' : mode = .fieldStart ∨ text ≠ "" := hne.imp_right fun h => h.resolve_right (by simp)
    rw [List.map_cons, List.map_nil, List.intercalate_singleton, steps_append,
      steps_field lines fields mode hmode, steps_lineEnd lines fields mode hmode text hne']
  | cons next rest ih =>
    have hrest := ih (fields ++ [text]) .fieldStart (Or.inr rfl) next (Or.inl rfl)
    rw [List.map_cons] at hrest
    rw [List.map_cons, List.map_cons, List.intercalate_cons_cons, List.append_assoc,
      List.append_assoc, steps_append, steps_field lines fields mode hmode, List.singleton_append,
      steps, List.foldl_cons, step_comma lines fields mode hmode]
    rw [List.append_assoc] at hrest
    exact hrest

theorem steps_line (line : List String) (hline : line ≠ [""]) :
    (Reader.mk .lineStart lines [] []).steps (Csv.line line).toList =
      ⟨.lineStart, lines ++ [line], [], []⟩ := by
  have hlist : (Csv.line line).toList =
      [','].intercalate (line.map fun text => (field text).toList) ++ ['\r', '\n'] := by
    simp [Csv.line, String.toList_append, String.toList_intercalate, Function.comp_def]
  rw [hlist]
  cases line with
  | nil => rfl
  | cons text rest =>
    refine steps_fields lines [] .lineStart (Or.inl rfl) text rest (Or.inr ?_)
    rw [← Decidable.not_and_iff_not_or_not]
    rintro ⟨rfl, rfl⟩
    exact hline rfl

theorem steps_lines (more : List (List String)) (hmore : [""] ∉ more) :
    (Reader.mk .lineStart lines [] []).steps (String.join (more.map Csv.line)).toList =
      ⟨.lineStart, lines ++ more, [], []⟩ := by
  induction more generalizing lines with
  | nil => simp [steps]
  | cons line more ih =>
    rw [List.mem_cons, not_or] at hmore
    rw [List.map_cons, String.join_cons, String.toList_append, steps_append,
      steps_line lines line (Ne.symm hmore.1), ih _ hmore.2, List.append_assoc]
    rfl

end Reader

/-- The lines of fields that a text holds. -/
def read (text : String) : List (List String) := (Reader.start.steps text.toList).finish

/-- Lines of fields are read again from their text, below the names of the columns. -/
theorem read_ofLines (lines : List (List String)) (h : [""] ∉ lines) :
    read (ofLines lines) = names :: lines := by
  have hnames : [""] ∉ names :: lines := by
    rw [List.mem_cons, not_or]
    exact ⟨by decide, h⟩
  rw [read, ofLines, Reader.start, Reader.steps_lines [] _ hnames]
  rfl

end CubeCover.Csv
