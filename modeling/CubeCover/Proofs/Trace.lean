import CubeCover.Trace
import CubeCover.Proofs.Csv.Rows
import CubeCover.Proofs.Table.Replay

/-! The log of a run, read again. Its lines fall into words, and the words of a line tell an event or none.
The events that are read are those of the run, so the printed log is enough to do the run over again. -/
namespace CubeCover

/-- A text that neither parts words nor ends a line. -/
def IsBare (text : String) : Prop := ' ' ∉ text.toList ∧ '\n' ∉ text.toList

namespace IsBare

instance (text : String) : Decidable (IsBare text) := inferInstanceAs (Decidable (_ ∧ _))

theorem append {left right : String} (hleft : IsBare left) (hright : IsBare right) :
    IsBare (left ++ right) := by
  rw [IsBare, String.toList_append, List.mem_append, List.mem_append, not_or, not_or]
  exact ⟨⟨hleft.1, hright.1⟩, hleft.2, hright.2⟩

theorem number (n : Int) : IsBare (toString n) :=
  ⟨notMem_toString (by decide) (by decide) n, notMem_toString (by decide) (by decide) n⟩

theorem count (n : Nat) : IsBare (toString n) := number (Int.ofNat n)

theorem numbers (ns : List Int) : IsBare (",".intercalate (ns.map toString)) :=
  ⟨notMem_numbers (by decide) (by decide) ns, notMem_numbers (by decide) (by decide) ns⟩

theorem cube (a : Cube) : IsBare a.toText :=
  ⟨a.notMem_toText (by decide) (by decide), a.notMem_toText (by decide) (by decide)⟩

end IsBare

/-- How it is shown by which row a row is cancelled. -/
def Row.cancellerText (row : Row) : String :=
  match row.cancelledBy with
  | none => "-"
  | some number => toString number

theorem IsBare.canceller (row : Row) : IsBare row.cancellerText := by
  rw [Row.cancellerText]
  cases row.cancelledBy with
  | none => decide
  | some number => exact IsBare.number number

namespace Event

/-- The words of a line, without the spaces between them. -/
def words (line : List Char) : List String :=
  ((line.splitOn ' ').map String.ofList).filter (· ≠ "")

/-- The event that the words of an entry tell. The numbers of the parents end with a comma. -/
def ofWords? : List String → Option Event
  | ["➕", "row", number, cube, "formed", "by", formedBy, "cancelled", "by", cancelledBy] =>
    let parents := String.ofList formedBy.toList.dropLast
    (Row.ofCells? [number, parents, cube, cancelledBy]).map appended
  | ["✂️", "row", number, cube, "cancelled", "by", "row", canceller] =>
    match number.toInt?, Cube.ofText cube, canceller.toInt? with
    | some number, .ok cube, some canceller => some (cancelled number cube canceller)
    | _, _, _ => none
  | _ => none

/-- The event that words tell, some of which may be empty. -/
def ofParts? (parts : List String) : Option Event := ofWords? (parts.filter (· ≠ ""))

/-- The event that a line of the log tells. -/
def ofLine? (line : List Char) : Option Event :=
  match words line with
  | "[DEBUG]" :: rest => ofWords? rest
  | _ => none

/-- The events that the lines of a log tell, in order. -/
def readLog (text : String) : List Event := (text.toList.splitOn '\n').filterMap ofLine?

theorem words_intercalate {parts : List String} (h : ∀ part ∈ parts, IsBare part) :
    words (" ".intercalate parts).toList = parts.filter (· ≠ "") := by
  cases parts with
  | nil => rfl
  | cons part parts =>
    have hlist : (" ".intercalate (part :: parts)).toList =
        [' '].intercalate ((part :: parts).map String.toList) := by
      simp [String.toList_intercalate]
    have hspace : ∀ cs ∈ (part :: parts).map String.toList, ' ' ∉ cs := by
      intro cs hcs
      obtain ⟨other, hother, rfl⟩ := List.mem_map.mp hcs
      exact (h other hother).1
    rw [words, hlist, List.splitOn_intercalate ' ' hspace (by simp), List.map_map]
    simp [Function.comp_def]

/-- The line of a detail is read by its words, after the mark of details. -/
theorem ofLine?_debug {parts : List String} (h : ∀ part ∈ parts, IsBare part) :
    ofLine? ("[DEBUG] " ++ " ".intercalate parts).toList = ofParts? parts := by
  have hlist : ("[DEBUG] " ++ " ".intercalate parts).toList =
      "[DEBUG]".toList ++ ' ' :: (" ".intercalate parts).toList := by
    simp
  have hwords : words ("[DEBUG] " ++ " ".intercalate parts).toList =
      "[DEBUG]" :: parts.filter (· ≠ "") := by
    rw [hlist, words, List.splitOn_append_cons_self_of_not_mem (by decide), ← words_intercalate h]
    rfl
  rw [ofLine?, hwords]
  rfl

/-- A log of details tells, line by line, what the words of the lines tell. -/
theorem readLog_render (lines : List (List String))
    (h : ∀ parts ∈ lines, ∀ part ∈ parts, IsBare part) :
    readLog (Entry.render .debug (lines.map fun parts => Entry.debug (" ".intercalate parts))) =
      lines.filterMap ofParts? := by
  induction lines with
  | nil => rfl
  | cons parts lines ih =>
    have hparts := h parts List.mem_cons_self
    have hrest := ih fun other hother => h other (List.mem_cons_of_mem _ hother)
    -- no word holds a line end, so the first line ends where its entry does
    have hend : '\n' ∉ ("[DEBUG] " ++ " ".intercalate parts).toList := by
      rw [String.toList_append, List.mem_append, not_or]
      exact ⟨by decide, notMem_intercalate (by decide) fun part hpart => (hparts part hpart).2⟩
    have htext : (Entry.render .debug
        ((parts :: lines).map fun parts => Entry.debug (" ".intercalate parts))).toList =
          ("[DEBUG] " ++ " ".intercalate parts).toList ++ '\n' ::
            (Entry.render .debug
              (lines.map fun parts => Entry.debug (" ".intercalate parts))).toList := by
      simp [Entry.render, Entry.debug, Entry.line, Severity.rank]
    rw [readLog, htext, List.splitOn_append_cons_self_of_not_mem hend, List.filterMap_cons,
      List.filterMap_cons, ofLine?_debug hparts, ← hrest]
    rfl

/-- The words of the entry of an event, with the empty ones between two spaces. -/
def parts (e : Event) : List String :=
  ["", "", "", "", "", ""] ++
    match e with
    | cancelled number cube canceller =>
      ["✂️", "", "row", toString number, cube.toText, "cancelled", "by", "row", toString canceller]
    | appended row =>
      ["➕", "row", toString row.number, row.cube.toText, "formed", "by",
        ",".intercalate (row.formedBy.map toString) ++ ",", "cancelled", "by", row.cancellerText]

theorem entry_eq (e : Event) : e.entry = Entry.debug (" ".intercalate e.parts) := by
  cases e with
  | cancelled number cube canceller =>
    apply congrArg Entry.debug
    apply String.toList_inj.mp
    simp [parts]
  | appended row =>
    have hentry : (appended row).entry = Entry.rowAppended row.number row.cube.toText
        (",".intercalate (row.formedBy.map toString)) row.cancellerText := rfl
    rw [hentry]
    apply congrArg Entry.debug
    apply String.toList_inj.mp
    simp [parts]

theorem isBare_parts (e : Event) : ∀ part ∈ e.parts, IsBare part := by
  have hword : ∀ word ∈ ["", "✂️", "➕", "row", "formed", "cancelled", "by"], IsBare word := by decide
  simp only [List.forall_mem_cons] at hword
  obtain ⟨hblank, hcut, hplus, hrow, hformed, hcancelled, hby, _⟩ := hword
  have hnumber (n : Int) : IsBare n.repr := IsBare.number n
  cases e with
  | cancelled number cube canceller =>
    simp [parts, hblank, hcut, hrow, hcancelled, hby, hnumber, IsBare.cube]
  | appended row =>
    have hparents := (IsBare.numbers row.formedBy).append (by decide : IsBare ",")
    simp [parts, hblank, hplus, hrow, hformed, hcancelled, hby, hparents, hnumber, IsBare.cube,
      IsBare.canceller]

theorem ofParts?_parts (e : Event) : ofParts? e.parts = some e := by
  -- only the words between two spaces are empty
  have hempty : "".toInt? = none := by cbv
  have hnumber (n : Int) : n.repr ≠ "" := toString_ne_of_toInt? hempty n
  have hcube (a : Cube) : a.toText ≠ "" := by
    intro heq
    rw [← String.toList_inj, Cube.toList_toText] at heq
    cases heq
  cases e with
  | cancelled number cube canceller =>
    have hfilter : (cancelled number cube canceller).parts.filter (· ≠ "") =
        ["✂️", "row", toString number, cube.toText, "cancelled", "by", "row", toString canceller] := by
      simp [parts, hcube, hnumber]
    rw [ofParts?, hfilter]
    simp only [ofWords?, toInt?_toString, Cube.ofText_toText]
  | appended row =>
    have hcanceller : row.cancellerText ≠ "" := by
      rw [Row.cancellerText]
      cases row.cancelledBy with
      | none => decide
      | some number => exact hnumber number
    have hfilter : (appended row).parts.filter (· ≠ "") =
        ["➕", "row", toString row.number, row.cube.toText, "formed", "by",
          ",".intercalate (row.formedBy.map toString) ++ ",", "cancelled", "by",
          row.cancellerText] := by
      simp [parts, hcube, hnumber, hcanceller]
    have hcells : [toString row.number, ",".intercalate (row.formedBy.map toString),
        row.cube.toText, row.cancellerText] = row.cells := rfl
    have hparents : String.ofList
        (",".intercalate (row.formedBy.map toString) ++ ",").toList.dropLast =
          ",".intercalate (row.formedBy.map toString) := by
      rw [String.toList_append]
      exact (congrArg String.ofList List.dropLast_concat).trans String.ofList_toList
    rw [ofParts?, hfilter]
    simp only [ofWords?, hparents, hcells, Row.ofCells?_cells, Option.map_some]

/-- A line that does not begin with the sign of an event tells none. -/
theorem ofWords?_of_ne {word : String} (hplus : word ≠ "➕") (hcut : word ≠ "✂️")
    (words : List String) : ofWords? (word :: words) = none := by
  unfold ofWords?
  split
  · rename_i heq
    exact absurd (List.cons.inj heq).1 hplus
  · rename_i heq
    exact absurd (List.cons.inj heq).1 hcut
  · rfl

end Event

namespace Trace

/-- The words that announce a run. -/
def headParts (rowCount : Nat) (exhaustive : Bool) : List String :=
  ["Starting", "consensus", "on", toString rowCount, "seed", "cubes"] ++
    if exhaustive then ["(exhaustive)"] else []

/-- The words that tell of the table at the end of a run. -/
def endParts (t : Table) : List String :=
  ["Consensus", "finished", "with", toString t.size, "rows,", toString t.activeRows.length,
    "uncancelled"]

theorem isBare_headParts (rowCount : Nat) (exhaustive : Bool) :
    ∀ part ∈ headParts rowCount exhaustive, IsBare part := by
  have hword : ∀ word ∈ ["Starting", "consensus", "on", "seed", "cubes", "(exhaustive)"],
      IsBare word := by decide
  simp only [List.forall_mem_cons] at hword
  obtain ⟨hstarting, hconsensus, hon, hseed, hcubes, hexhaustive, _⟩ := hword
  have hcount : IsBare rowCount.repr := IsBare.count rowCount
  cases exhaustive with
  | false => simp [headParts, hstarting, hconsensus, hon, hcount, hseed, hcubes]
  | true => simp [headParts, hstarting, hconsensus, hon, hcount, hseed, hcubes, hexhaustive]

theorem isBare_endParts (t : Table) : ∀ part ∈ endParts t, IsBare part := by
  have hword : ∀ word ∈ ["Consensus", "finished", "with", "rows,", "uncancelled"],
      IsBare word := by decide
  simp only [List.forall_mem_cons] at hword
  obtain ⟨hconsensus, hfinished, hwith, hrows, huncancelled, _⟩ := hword
  have hcount (n : Nat) : IsBare n.repr := IsBare.count n
  simp [endParts, hconsensus, hfinished, hwith, hrows, huncancelled, hcount]

/-- The lines of words that a run prints: one at the start, one for each event, and one at the end
unless it has failed. -/
def lines (rowCount : Nat) (r : Run) : List (List String) :=
  headParts rowCount r.exhaustive ::
    (r.events.map Event.parts ++ if r.fault?.isSome then [] else [endParts r.table])

theorem consensus_eq (rowCount : Nat) (r : Run) :
    consensus rowCount r =
      (lines rowCount r).map fun parts => Entry.debug (" ".intercalate parts) := by
  have hhead : Entry.debug ("Starting consensus on " ++ toString rowCount ++ " seed cubes" ++
      (if r.exhaustive then " (exhaustive)" else "")) =
        Entry.debug (" ".intercalate (headParts rowCount r.exhaustive)) := by
    apply congrArg Entry.debug
    apply String.toList_inj.mp
    cases r.exhaustive <;> simp [headParts]
  have hevents : r.events.map Event.entry =
      (r.events.map Event.parts).map fun parts => Entry.debug (" ".intercalate parts) := by
    rw [List.map_map]
    exact List.map_congr_left fun e _ => e.entry_eq
  have hend : Entry.debug ("Consensus finished with " ++ toString r.table.size ++ " rows, " ++
      toString r.table.activeRows.length ++ " uncancelled") =
        Entry.debug (" ".intercalate (endParts r.table)) := by
    apply congrArg Entry.debug
    apply String.toList_inj.mp
    simp [endParts]
  rw [consensus, hhead, hevents, hend, lines, List.map_cons, List.map_append]
  cases r.fault? <;> rfl

theorem isBare_lines (rowCount : Nat) (r : Run) :
    ∀ parts ∈ lines rowCount r, ∀ part ∈ parts, IsBare part := by
  intro parts hparts
  rw [lines, List.mem_cons, List.mem_append, List.mem_map] at hparts
  rcases hparts with rfl | ⟨e, _, rfl⟩ | hend
  · exact isBare_headParts rowCount r.exhaustive
  · exact e.isBare_parts
  · split at hend
    · cases hend
    · rw [List.mem_singleton.mp hend]
      exact isBare_endParts r.table

/-- The log of a run tells its events. -/
theorem readLog_consensus (rowCount : Nat) (r : Run) :
    Event.readLog (Entry.render .debug (consensus rowCount r)) = r.events := by
  have hhead : Event.ofParts? (headParts rowCount r.exhaustive) = none :=
    Event.ofWords?_of_ne (by decide) (by decide) _
  have hevents : (r.events.map Event.parts).filterMap Event.ofParts? = r.events := by
    rw [List.filterMap_map]
    exact (List.filterMap_congr fun e _ => e.ofParts?_parts).trans List.filterMap_some
  have hend : Event.ofParts? (endParts r.table) = none :=
    Event.ofWords?_of_ne (by decide) (by decide) _
  rw [consensus_eq, Event.readLog_render _ (isBare_lines rowCount r), lines,
    List.filterMap_cons_none hhead, List.filterMap_append, hevents]
  split
  · exact List.append_nil _
  · rw [List.filterMap_cons_none hend]
    exact List.append_nil _

end Trace

/-- On cubes of one length a run, exhaustive or not and possibly after others, does not fail, and the
events that its log tells, done over again on the table before it, make the table at its end. Each of them
can happen when it does, and no two of them append or cancel the same row. They make every table between:
a first part of them has been told by the time that a state is reached, and makes its table. -/
theorem log_replays_to_table (seeds : List Cube) (hne : seeds ≠ []) (n : Nat)
    (hlength : ∀ c ∈ seeds, c.length = n) :
    ∃ t, Table.ofSeeds seeds = .ok t ∧ ∀ (modes : List Bool) (exhaustive : Bool),
      let before := t.runs modes
      let run := before.run exhaustive
      let events := Event.readLog (Entry.render .debug (Trace.consensus before.size run))
      run.fault? = none ∧ before.replayAll? events = some run.table ∧
        (events.map Event.key).Nodup ∧
        ∀ (k : Nat) (r : Run), (Run.start before exhaustive).after k = some r →
          ∃ told, told <+: events ∧ before.replayAll? told = some r.table := by
  obtain ⟨t, ht, hrows⟩ := Table.ofSeeds_spec seeds hne n hlength
  refine ⟨t, ht, ?_⟩
  intro modes exhaustive before run events
  have hbefore : Run.Reachable t (Run.start before exhaustive) :=
    t.reachable_start_runs modes exhaustive
  have hnumbered : before.Numbered := ((Table.Derivation.of_seedRows hrows).of_reachable hbefore).numbered
  have huniform := hbefore.uniform n (Table.uniform_of_seedRows hrows n hlength)
  have hevents : events = run.events := Trace.readLog_consensus before.size run
  have hreplay : before.replayAll? events = some run.table := by
    obtain ⟨k, hk⟩ := Run.exists_after_complete (Run.start before exhaustive)
    rw [hevents]
    exact (Run.replayAll?_after hnumbered exhaustive hk).2
  refine ⟨(before.reachable_run exhaustive).fault?_eq_none n huniform, hreplay,
    (Table.nodup_keys_of_replayAll? events hnumbered hreplay).1, ?_⟩
  intro k r hk
  obtain ⟨hr, htable⟩ := Run.replayAll?_after hnumbered exhaustive hk
  refine ⟨r.events, ?_, htable⟩
  have hend : run = r.complete := Run.complete_after hk
  rw [hevents, hend]
  exact r.events_prefix_complete hr

/-- An exhaustive run on the two points of a line cancels both when it appends the line. -/
theorem log_replays_to_table_of_two_points :
    ∃ t, Table.ofSeeds [⟨[.zero]⟩, ⟨[.one]⟩] = .ok t ∧ (t.run true).table.size = 3 ∧
      t.replayAll? (Event.readLog (Entry.render .debug (Trace.consensus t.size (t.run true)))) =
        some (t.run true).table := by
  obtain ⟨t, ht, h⟩ := log_replays_to_table [⟨[.zero]⟩, ⟨[.one]⟩] (by decide) 1 (by decide)
  refine ⟨t, ht, ?_, (h [] true).2.1⟩
  obtain rfl := Except.ok.inj ht
  have hsize := Run.complete_check 5 (fun r => r.table.size == 3)
    (r := .start ⟨#[⟨1, ⟨[.zero]⟩, [], none⟩, ⟨2, ⟨[.one]⟩, [], none⟩]⟩ true) (by decide)
  exact beq_iff_eq.mp hsize

end CubeCover
