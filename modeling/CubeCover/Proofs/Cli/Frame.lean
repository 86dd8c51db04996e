import CubeCover.Proofs.Cli.ExitCode
import CubeCover.Proofs.Csv.Lines
import CubeCover.Proofs.Size

/-! What a command changes on the disk, whichever of its files fail: at most the one file that it is asked
to write, and that only if all before the writing goes well. If the command ends well, the file holds the
table of the minimization and nothing else. If the writing breaks off, it holds a first part of that. -/
namespace CubeCover

namespace Minimization

/-- The rows of the table, none without a table. -/
def rows (m : Minimization) : List Row := m.table?.elim [] (·.rows.toList)

/-- The bytes of the file with these rows. -/
def file (m : Minimization) : List UInt8 := (Row.fileText m.rows).toUTF8.data.toList

theorem content_eq_file (path : Cli.Path) (m : Minimization) :
    Cli.Output.content ⟨path, m.table?.getD .empty⟩ = m.file := by
  have hrows : (m.table?.getD .empty).rows.toList = m.rows := by
    unfold rows
    cases m.table? <;> rfl
  rw [Cli.Output.content, Table.toCsv_eq, hrows, file]

variable {s : Settings} {f : Formula} {m : Minimization}

end Minimization

namespace Cli

namespace Disk

variable {place other : Place}

theorem lookup_set_self (node : Node) (nodes : List (Place × Node)) :
    (set place node nodes).lookup place = some node := by
  induction nodes with
  | nil => rw [set, List.lookup_cons_self]
  | cons entry nodes ih =>
    obtain ⟨key, old⟩ := entry
    by_cases hkey : key = place
    · rw [set, if_pos hkey, List.lookup_cons_self]
    · have hbeq : (place == key) = false := beq_false_of_ne (Ne.symm hkey)
      rw [set, if_neg hkey, List.lookup_cons, hbeq]
      exact ih

theorem lookup_set_of_ne (hne : other ≠ place) (node : Node) (nodes : List (Place × Node)) :
    (set place node nodes).lookup other = nodes.lookup other := by
  have hbeq : (other == place) = false := beq_false_of_ne hne
  induction nodes with
  | nil => rw [set, List.lookup_cons, hbeq]
  | cons entry nodes ih =>
    obtain ⟨key, old⟩ := entry
    by_cases hkey : key = place
    · rw [set, if_pos hkey, List.lookup_cons, List.lookup_cons, hkey, hbeq]
    · rw [set, if_neg hkey, List.lookup_cons, List.lookup_cons, ih]

/-- A disk that differs from an earlier one at most at a place, where it has a file. -/
structure WrittenAt (d d' : Disk) (place : Place) (content : List UInt8) : Prop where
  here : d'.here = d.here
  file : d'.node? place = some (.file content)
  others : ∀ other, other ≠ place → d'.node? other = d.node? other

theorem of_destination {d : Disk} {medium : Medium} {path : Path}
    (h : d.destination medium path = .ok place) :
    d.place path = .ok place ∧ d.node? place ≠ some .directory := by
  unfold destination at h
  split at h
  · cases h
  · split at h
    · cases h
    · next place' hplace hnode =>
      split at h
      · cases h
      · obtain rfl := Except.ok.inj h
        exact ⟨hplace, hnode⟩

theorem writtenAt_put {d : Disk} (h : d.node? place ≠ some .directory) (content : List UInt8) :
    d.WrittenAt (d.put place content) place content := by
  cases place with
  | nil => exact absurd rfl h
  | cons part place =>
    refine ⟨rfl, lookup_set_self _ _, ?_⟩
    intro other hne
    cases other with
    | nil => rfl
    | cons part' other => exact lookup_set_of_ne hne _ _

/-- What writing to a path does: a refusal leaves the disk; else the file is there, as a whole, or up to
where the writing broke off. -/
inductive WriteCase (d : Disk) (medium : Medium) (path : Path) (content : List UInt8) :
    Except FileFault Unit × Disk → Prop
  | refused (fault : FileFault) : WriteCase d medium path content (.error fault, d)
  | done {place : Place} {d' : Disk} (hplace : d.place path = .ok place)
      (hwritten : d.WrittenAt d' place content) : WriteCase d medium path content (.ok (), d')
  | broken {place : Place} {d' : Disk} (count : Nat) (fault : FileFault)
      (hplace : d.place path = .ok place)
      (hbroken : medium.writing place content = .broken count fault)
      (hwritten : d.WrittenAt d' place (content.take count)) :
      WriteCase d medium path content (.error fault, d')

theorem write_cases (d : Disk) (medium : Medium) (path : Path) (content : List UInt8) :
    d.WriteCase medium path content (d.write medium path content) := by
  unfold write
  cases hdestination : d.destination medium path with
  | error fault => exact .refused fault
  | ok place =>
    obtain ⟨hplace, hnode⟩ := of_destination hdestination
    cases hwriting : medium.writing place content with
    | done =>
      simp only [hwriting]
      exact .done hplace (writtenAt_put hnode content)
    | broken count fault =>
      simp only [hwriting]
      exact .broken count fault hplace hwriting (writtenAt_put hnode _)

end Disk

namespace Request

/-- A request for a file of a minimization that is reached: there is a text, and it is minimized. -/
structure Asks (r : Request) (medium : Medium) (d : Disk) (path : Path) (m : Minimization) : Prop where
  csv : r.options.csv? = some path
  work : r.options.validateOnly = false
  minimized : ∃ s text, r.settings = .ok s ∧ r.source.text d medium = .ok (some text) ∧
    minimize s text = .ok m

variable {r : Request} {medium : Medium} {d : Disk} {path : Path} {m : Minimization}

/-- A command that reaches the writing ends as the writing does, and leaves the disk that it makes. -/
theorem Asks.run_eq (h : r.Asks medium d path m) :
    ∃ entries, r.run medium d =
      (Plan.finish ⟨entries, .ok (some ⟨path, m.table?.getD .empty⟩)⟩ (d.write medium path m.file).1,
        (d.write medium path m.file).2) := by
  obtain ⟨s, text, hs, htext, hmin⟩ := h.minimized
  obtain ⟨hparse, _⟩ := minimize_cases hmin
  have houtcome := r.outcome_plan hs text
  simp only [hparse, h.work, Bool.false_eq_true, if_false, hmin, output_eq, h.csv, Option.map_some]
    at houtcome
  refine ⟨(r.plan (.ok (some text))).entries, ?_⟩
  simp only [run, htext, Plan.output?, houtcome, Minimization.content_eq_file]
  rw [← houtcome]

theorem Asks.disk_eq (h : r.Asks medium d path m) :
    (r.run medium d).2 = (d.write medium path m.file).2 := by
  obtain ⟨entries, hrun⟩ := h.run_eq
  rw [hrun]

theorem Asks.code_of_ok (h : r.Asks medium d path m) (hwrite : (d.write medium path m.file).1 = .ok ()) :
    (r.run medium d).1.code = 0 := by
  obtain ⟨entries, hrun⟩ := h.run_eq
  rw [hrun, hwrite]
  rfl

theorem Asks.code_of_error (h : r.Asks medium d path m) {fault : FileFault}
    (hwrite : (d.write medium path m.file).1 = .error fault) :
    (r.run medium d).1.code = (Failure.output path fault).cause.code := by
  obtain ⟨entries, hrun⟩ := h.run_eq
  rw [hrun, hwrite]
  rfl

theorem Asks.code_ne_zero (h : r.Asks medium d path m) {fault : FileFault}
    (hwrite : (d.write medium path m.file).1 = .error fault) : (r.run medium d).1.code ≠ 0 := by
  rw [h.code_of_error hwrite]
  exact (Failure.output path fault).code_ne_zero

theorem Asks.unique {m' : Minimization} (h : r.Asks medium d path m) (h' : r.Asks medium d path m') :
    m = m' := by
  obtain ⟨s, text, hs, htext, hmin⟩ := h.minimized
  obtain ⟨s', text', hs', htext', hmin'⟩ := h'.minimized
  obtain rfl : s = s' := Except.ok.inj (hs.symm.trans hs')
  obtain rfl : text = text' := Option.some.inj (Except.ok.inj (htext.symm.trans htext'))
  exact Except.ok.inj (hmin.symm.trans hmin')

/-- The disk differs at most at the place of the file, and there in one of two ways. -/
theorem Asks.changed (h : r.Asks medium d path m) {place : Place}
    (hchanged : (r.run medium d).2.node? place ≠ d.node? place) :
    d.place path = .ok place ∧
      ((r.run medium d).1.code = 0 ∨
        ∃ count fault, medium.writing place m.file = .broken count fault ∧
          (r.run medium d).1.code ≠ 0 ∧
          (r.run medium d).2.node? place = some (.file (m.file.take count))) := by
  rw [h.disk_eq] at hchanged ⊢
  -- the equation stays, since the exit code is that of the same writing
  have hcases := d.write_cases medium path m.file
  generalize hwrite : d.write medium path m.file = written at hcases hchanged
  cases hcases with
  | refused fault => exact absurd rfl hchanged
  | @done place' d' hplace hwritten =>
    obtain rfl : place = place' := by_contra fun hne => hchanged (hwritten.others place hne)
    exact ⟨hplace, Or.inl (h.code_of_ok (congrArg Prod.fst hwrite))⟩
  | @broken place' d' count fault hplace hbroken hwritten =>
    obtain rfl : place = place' := by_contra fun hne => hchanged (hwritten.others place hne)
    exact ⟨hplace, Or.inr ⟨count, fault, hbroken, h.code_ne_zero (congrArg Prod.fst hwrite),
      hwritten.file⟩⟩

end Request

variable {medium : Medium} {arguments : List String} {d : Disk} {r : Request} {path : Path}

end Cli

end CubeCover
