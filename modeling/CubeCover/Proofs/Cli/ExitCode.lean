import CubeCover.Proofs.Cli.Plan
import CubeCover.Proofs.Formula.Grammar
import CubeCover.Proofs.Outcome

/-! The exit code of a command is that of the first of its checks that holds. The checks are stated for
every outcome of opening the files; what the files of a disk come to is a case of it. -/
namespace CubeCover

namespace Text

theorem dropBlanksEnd_eq_nil_iff (cs : List Char) :
    dropBlanksEnd cs = [] ↔ ∀ c ∈ cs, isBlank c = true := by
  simp [dropBlanksEnd]

theorem trimBlanks_eq_nil_iff (cs : List Char) :
    trimBlanks cs = [] ↔ ∀ c ∈ cs, isBlank c = true := by
  rw [trimBlanks, dropBlanksEnd_eq_nil_iff, dropBlanks]
  constructor
  · intro h c hc
    rw [← List.takeWhile_append_dropWhile (p := isBlank) (l := cs)] at hc
    rcases List.mem_append.mp hc with hfront | hback
    · exact List.mem_takeWhile_imp hfront
    · exact h c hback
  · intro h c hc
    exact h c (List.dropWhile_subset _ hc)

/-- Line ends are blanks before they are folded and after. -/
theorem blank_foldLineEnds_iff (cs : List Char) :
    (∀ c ∈ foldLineEnds cs, isBlank c = true) ↔ ∀ c ∈ cs, isBlank c = true := by
  have hreturn : isBlank '\r' = true := by decide
  have hfeed : isBlank '\n' = true := by decide
  fun_induction foldLineEnds cs <;> simp_all

end Text

namespace Cli

/-- What opening files comes to: the bytes of a file to read, and whether a file can be written. -/
structure Files where
  read : Path → Except FileFault (List UInt8)
  write : Path → Except FileFault Unit

/-- The code of the first check that holds, or 0 if none does. -/
inductive FirstOf : List (Prop × Nat) → Nat → Prop
  | none : FirstOf [] 0
  | here {p : Prop} {code : Nat} {checks : List (Prop × Nat)} (h : p) :
      FirstOf ((p, code) :: checks) code
  | later {p : Prop} {code code' : Nat} {checks : List (Prop × Nat)} (h : ¬ p)
      (hrest : FirstOf checks code') : FirstOf ((p, code) :: checks) code'

theorem FirstOf.mem {checks : List (Prop × Nat)} {code : Nat} (h : FirstOf checks code) :
    code = 0 ∨ code ∈ checks.map Prod.snd := by
  induction h with
  | none => exact Or.inl rfl
  | here h => exact Or.inr List.mem_cons_self
  | later h hrest ih => exact ih.imp_right (List.mem_cons_of_mem _)

/-- A check with another code did not hold. -/
theorem FirstOf.passed {p : Prop} {code code' : Nat} {checks : List (Prop × Nat)}
    (h : FirstOf ((p, code) :: checks) code') (hne : code' ≠ code) : ¬ p ∧ FirstOf checks code' := by
  cases h with
  | here _ => exact absurd rfl hne
  | later hnot h => exact ⟨hnot, h⟩

/-- Exchanges the checks after the first one. -/
theorem FirstOf.exchange {p : Prop} {code code' : Nat} {checks checks' : List (Prop × Nat)}
    (h : FirstOf ((p, code) :: checks) code') (hrest : FirstOf checks code' → FirstOf checks' code') :
    FirstOf ((p, code) :: checks') code' := by
  cases h with
  | here h => exact .here h
  | later hnot h => exact .later hnot (hrest h)

theorem FirstOf.unique {checks : List (Prop × Nat)} {code code' : Nat} (h : FirstOf checks code)
    (h' : FirstOf checks code') : code = code' := by
  induction h with
  | none =>
    cases h'
    rfl
  | here h =>
    cases h' with
    | here _ => rfl
    | later hnot _ => exact absurd h hnot
  | later hnot _ ih =>
    cases h' with
    | here h => exact absurd h hnot
    | later _ h' => exact ih h'

namespace Source

/-- The text of the formula, if there is one, when files open in this way. -/
def textBy (read : Path → Except FileFault (List UInt8)) : Source → Except Failure (Option String)
  | .formula text => .ok (some text)
  | .file none => .ok none
  | .file (some path) => (formulaIn path (read path)).map some

theorem text_eq_textBy (d : Disk) (medium : Medium) (s : Source) :
    s.text d medium = s.textBy (d.read medium) := by
  cases s with
  | formula text => rfl
  | file path? => cases path? <;> rfl

/-- The formula is in a file that cannot be opened or read, whose bytes make no text, or whose text is
blank. -/
def Unusable (read : Path → Except FileFault (List UInt8)) : Source → Prop
  | .file (some path) =>
    (∃ fault, read path = .error fault) ∨
      ∃ bytes, read path = .ok bytes ∧
        ((∃ e, Text.decodeUtf8 bytes = .error e) ∨
          ∃ cs, Text.decodeUtf8 bytes = .ok cs ∧ ∀ c ∈ cs, Text.isBlank c = true)
  | _ => False

/-- The text that the source gives writes a formula. -/
def Writes (read : Path → Except FileFault (List UInt8)) (s : Source) (f : Formula) : Prop :=
  ∃ text, s.textBy read = .ok (some text) ∧ Derives (.chain .or) (Token.scan text) f

end Source

/-- Reading the formula from a file fails as an input fault, and just if the file is unusable. -/
theorem formulaIn_cases (path : Path) (read : Path → Except FileFault (List UInt8)) :
    (∃ failure, formulaIn path (read path) = .error failure ∧ failure.cause = .input ∧
      (Source.file (some path)).Unusable read) ∨
    ∃ text, formulaIn path (read path) = .ok text ∧ ¬ (Source.file (some path)).Unusable read := by
  simp only [Source.Unusable]
  cases hread : read path with
  | error fault => cases fault <;> exact Or.inl ⟨_, rfl, rfl, Or.inl ⟨_, rfl⟩⟩
  | ok bytes =>
    cases hdecode : Text.decodeUtf8 bytes with
    | error e =>
      refine Or.inl ⟨.formulaText e, ?_, rfl, Or.inr ⟨bytes, rfl, Or.inl ⟨e, hdecode⟩⟩⟩
      rw [formulaIn, hdecode]
    | ok cs =>
      have hblank := (Text.trimBlanks_eq_nil_iff _).trans (Text.blank_foldLineEnds_iff cs)
      by_cases hempty : Text.trimBlanks (Text.foldLineEnds cs) = []
      · refine Or.inl ⟨.formulaBlank, ?_, rfl,
          Or.inr ⟨bytes, rfl, Or.inr ⟨cs, hdecode, hblank.mp hempty⟩⟩⟩
        simp only [formulaIn, hdecode, hempty, List.isEmpty_nil, if_true]
      · refine Or.inr ⟨.ofList (Text.trimBlanks (Text.foldLineEnds cs)), ?_, ?_⟩
        · simp only [formulaIn, hdecode, List.isEmpty_iff, if_neg hempty]
        · simpa [hdecode, ← hblank] using hempty

theorem Source.textBy_cases (read : Path → Except FileFault (List UInt8)) (s : Source) :
    (∃ failure, s.textBy read = .error failure ∧ failure.cause = .input ∧ s.Unusable read) ∨
    ∃ text?, s.textBy read = .ok text? ∧ ¬ s.Unusable read := by
  cases s with
  | formula text => exact Or.inr ⟨_, rfl, id⟩
  | file path? =>
    cases path? with
    | none => exact Or.inr ⟨_, rfl, id⟩
    | some path =>
      rw [Source.textBy]
      rcases formulaIn_cases path read with ⟨failure, hfailure, h⟩ | ⟨text, htext, h⟩
      · exact Or.inl ⟨failure, by rw [hfailure]; rfl, h⟩
      · exact Or.inr ⟨some text, by rw [htext]; rfl, h⟩

theorem Source.Writes.usable {read : Path → Except FileFault (List UInt8)} {s : Source}
    {f : Formula} (h : s.Writes read f) : ¬ s.Unusable read := by
  obtain ⟨text, htext, _⟩ := h
  rcases s.textBy_cases read with ⟨failure, hfailure, _⟩ | ⟨_, _, hgood⟩
  · exact absurd (htext.symm.trans hfailure) (by simp)
  · exact hgood

theorem Source.Writes.unique {read : Path → Except FileFault (List UInt8)} {s : Source}
    {f g : Formula} (hf : s.Writes read f) (hg : s.Writes read g) : f = g := by
  obtain ⟨text, htext, hf⟩ := hf
  obtain ⟨text', htext', hg⟩ := hg
  cases htext.symm.trans htext'
  exact Except.ok.inj
    (((Formula.ofTokens_eq_ok_iff _ f).mpr hf).symm.trans ((Formula.ofTokens_eq_ok_iff _ g).mpr hg))

namespace Request

/-- The end of a command when files open in this way. -/
def ending (r : Request) (files : Files) : Ending :=
  let plan := r.plan (r.source.textBy files.read)
  plan.finish (match plan.output? with
    | none => .ok ()
    | some o => files.write o.path)

/-- The exit code of a command by its outcome and the writing of its file. -/
theorem code_ending (r : Request) (files : Files) :
    (r.ending files).code =
      match (r.plan (r.source.textBy files.read)).outcome with
      | .error failure => failure.cause.code
      | .ok none => 0
      | .ok (some o) =>
        match files.write o.path with
        | .error fault => (Failure.output o.path fault).cause.code
        | .ok _ => 0 := by
  cases houtcome : (r.plan (r.source.textBy files.read)).outcome with
  | error failure => simp only [ending, Plan.finish, houtcome, Plan.failed]
  | ok output? =>
    cases output? with
    | none => simp only [ending, Plan.finish, houtcome]
    | some o =>
      cases hwrite : files.write o.path <;>
        simp only [ending, Plan.finish, Plan.output?, houtcome, hwrite, Plan.failed]

/-- The checks on the file to write. -/
def writeChecks (r : Request) (files : Files) : List (Prop × Nat) :=
  [(∃ path, r.options.csv? = some path ∧
      (files.write path = .error .missing ∨ files.write path = .error .nul), 3),
    (∃ path, r.options.csv? = some path ∧ ∃ fault, files.write path = .error fault, 5)]

/-- The checks on the text of the formula and what follows from it. -/
def textChecks (r : Request) (files : Files) : List (Prop × Nat) :=
  (¬ ∃ f, r.source.Writes files.read f, 2) ::
    (r.options.validateOnly = true, 0) ::
    (∃ f, r.source.Writes files.read f ∧
      ∃ limit < (f.vars.length : Int), r.options.limit? = some limit, 4) ::
    r.writeChecks files

/-- The checks of a command in their order, each with its exit code. -/
def checks (r : Request) (files : Files) : List (Prop × Nat) :=
  (r.source.Unusable files.read, 3) ::
    (r.options.limit? = none, 5) ::
    (∃ limit < 0, r.options.limit? = some limit, 3) ::
    (r.options.script? = none, 5) ::
    r.textChecks files

theorem firstOf_writeChecks (r : Request) (files : Files) {t : Table}
    (houtcome : (r.plan (r.source.textBy files.read)).outcome =
      .ok (r.options.csv?.map fun path => ⟨path, t⟩)) :
    FirstOf (r.writeChecks files) (r.ending files).code := by
  rw [code_ending, houtcome, writeChecks]
  cases r.options.csv? with
  | none => exact .later (by simp) (.later (by simp) .none)
  | some path =>
    simp only [Option.map_some]
    cases hwrite : files.write path with
    | ok _ => exact .later (by simp [hwrite]) (.later (by simp [hwrite]) .none)
    | error fault =>
      by_cases hinput : fault = .missing ∨ fault = .nul
      · have hcode : (Failure.output path fault).cause.code = 3 := by
          rcases hinput with rfl | rfl <;> rfl
        simp only [hcode]
        exact .here ⟨path, rfl, by simpa [hwrite] using hinput⟩
      · have hcode : (Failure.output path fault).cause.code = 5 := by
          cases fault <;> simp_all <;> rfl
        simp only [hcode]
        exact .later (by simpa [hwrite] using hinput) (.here ⟨path, rfl, fault, hwrite⟩)

theorem firstOf_textChecks (r : Request) (files : Files) {s : Settings} {text : String}
    (hs : r.settings = .ok s) (htext : r.source.textBy files.read = .ok (some text)) :
    FirstOf (r.textChecks files) (r.ending files).code := by
  have hwrites (f : Formula) : r.source.Writes files.read f ↔ Formula.parse text = .ok f := by
    simp [Source.Writes, htext, Formula.parse, Formula.ofTokens_eq_ok_iff]
  have houtcome := r.outcome_plan hs text
  rw [← htext] at houtcome
  obtain ⟨limit, script, hlimit, hpos, hscript, rfl⟩ := (r.settings_eq_ok_iff s).mp hs
  simp only [textChecks, hwrites, hlimit, Option.some.injEq]
  cases hparse : Formula.parse text with
  | error e =>
    simp only [hparse] at houtcome
    rw [code_ending, houtcome]
    exact .here (by simp)
  | ok f =>
    refine .later (by simp) ?_
    cases hvalidate : r.options.validateOnly with
    | true =>
      simp only [hparse, hvalidate, if_true] at houtcome
      rw [code_ending, houtcome]
      exact .here rfl
    | false =>
      refine .later (by simp) ?_
      simp only [hparse, hvalidate, Bool.false_eq_true, if_false] at houtcome
      cases hmin : minimize ⟨limit.toNat, script, r.options.exhaustive, true⟩ text with
      | error e =>
        obtain ⟨p, hp, _⟩ | ⟨f', hf', hmany, rfl⟩ := (minimize_eq_error_iff _ _ _).mp hmin
        · exact absurd (hparse.symm.trans hp) (by simp)
        · cases hparse.symm.trans hf'
          rw [code_ending, houtcome, hmin]
          exact .here ⟨f, rfl, limit, (Int.toNat_lt hpos).mp hmany, rfl⟩
      | ok m =>
        obtain ⟨f', hf', hfew⟩ := (minimize_eq_ok_iff _ _).mp ⟨m, hmin⟩
        cases hparse.symm.trans hf'
        have hfew : f.vars.length ≤ limit.toNat := hfew
        refine .later ?_ (r.firstOf_writeChecks files (t := m.table?.getD .empty) ?_)
        · rintro ⟨g, hg, bound, hbound, rfl⟩
          cases hg
          omega
        · rw [houtcome, hmin, ← output_eq]

theorem code_of_settings (r : Request) (files : Files) {text? : Option String} {failure : Failure}
    (htext : r.source.textBy files.read = .ok text?) (hs : r.settings = .error failure) :
    (r.ending files).code = failure.cause.code := by
  rw [code_ending, htext]
  simp only [plan, hs]

/-- The exit code of a command is that of the first check that holds. -/
theorem firstOf_checks (r : Request) (files : Files) :
    FirstOf (r.checks files) (r.ending files).code := by
  rcases r.source.textBy_cases files.read with ⟨failure, htext, hcause, hbad⟩ | ⟨text?, htext, hgood⟩
  · have hcode : (r.ending files).code = 3 := by
      rw [code_ending, htext, plan]
      simp only [hcause]
      rfl
    rw [hcode]
    exact .here hbad
  · refine .later hgood ?_
    cases hlimit : r.options.limit? with
    | none =>
      have hs : r.settings = .error .limitWithheld := by simp [settings, hlimit]
      rw [r.code_of_settings files htext hs]
      exact .here rfl
    | some limit =>
      refine .later (by simp) ?_
      by_cases hneg : limit < 0
      · have hs : r.settings = .error (.settings .negativeLimit) := by
          simp [settings, hlimit, Settings.limit, hneg]
        rw [r.code_of_settings files htext hs]
        exact .here ⟨limit, hneg, rfl⟩
      · refine .later (by simpa using hneg) ?_
        cases hscript : r.options.script? with
        | none =>
          have hs : r.settings = .error .symbolsWithheld := by
            simp [settings, hlimit, Settings.limit, hneg, hscript]
          rw [r.code_of_settings files htext hs]
          exact .here rfl
        | some script =>
          refine .later (by simp) ?_
          have hs := (r.settings_eq_ok_iff _).mpr
            ⟨limit, script, hlimit, Int.not_lt.mp hneg, hscript, rfl⟩
          cases text? with
          | some text => exact r.firstOf_textChecks files hs htext
          | none =>
            have hcode : (r.ending files).code = 2 := by
              rw [code_ending, htext]
              simp only [plan, hs]
              rfl
            rw [hcode]
            exact .here (by simp [Source.Writes, htext])

/-- What is promised of the exit code: no check has the code of something unexpected. -/
def promises (r : Request) (files : Files) : List (Prop × Nat) :=
  [(r.source.Unusable files.read, 3),
    (∃ limit < 0, r.options.limit? = some limit, 3),
    (¬ ∃ f, r.source.Writes files.read f, 2),
    (r.options.validateOnly = true, 0),
    (∃ f, r.source.Writes files.read f ∧
      ∃ limit < (f.vars.length : Int), r.options.limit? = some limit, 4),
    (∃ path, r.options.csv? = some path ∧ ∃ fault, files.write path = .error fault, 3)]

/-- The promise is kept unless a check has the code of something unexpected. -/
theorem firstOf_promises_iff (r : Request) (files : Files) {code : Nat}
    (h : FirstOf (r.checks files) code) : FirstOf (r.promises files) code ↔ code ≠ 5 := by
  constructor
  · rintro hpromise rfl
    simpa [promises] using hpromise.mem
  · intro hcode
    refine FirstOf.exchange h fun h => ?_
    refine FirstOf.exchange (h.passed hcode).2 fun h => ?_
    refine FirstOf.exchange (h.passed hcode).2 fun h => ?_
    refine FirstOf.exchange h fun h => ?_
    refine FirstOf.exchange h fun h => ?_
    cases h with
    | here hinput =>
      obtain ⟨path, hcsv, hfault⟩ := hinput
      exact .here ⟨path, hcsv, hfault.elim (⟨_, ·⟩) (⟨_, ·⟩)⟩
    | later _ h =>
      cases h with
      | here _ => exact absurd rfl hcode
      | later hwritten h => exact .later hwritten h

/-- A request that is carried out: its source writes a formula within the limit, and more is asked for
than a check of the syntax. -/
structure CarriedOut (r : Request) (files : Files) (f : Formula) : Prop where
  writes : r.source.Writes files.read f
  few : ∃ limit : Int, r.options.limit? = some limit ∧ f.vars.length ≤ limit
  symbols : r.options.script? ≠ none
  work : r.options.validateOnly = false

namespace CarriedOut

variable {r : Request} {files : Files} {f : Formula}

theorem passes (h : r.CarriedOut files f) :
    ¬ r.source.Unusable files.read ∧ (¬ ∃ limit < 0, r.options.limit? = some limit) ∧
      (¬ ¬ ∃ f, r.source.Writes files.read f) ∧ ¬ r.options.validateOnly = true ∧
      ¬ ∃ f, r.source.Writes files.read f ∧
        ∃ limit < (f.vars.length : Int), r.options.limit? = some limit := by
  obtain ⟨limit, hlimit, hfew⟩ := h.few
  refine ⟨h.writes.usable, ?_, not_not_intro ⟨f, h.writes⟩, by simp [h.work], ?_⟩
  · rintro ⟨bound, hneg, hbound⟩
    cases hlimit.symm.trans hbound
    omega
  · rintro ⟨g, hg, bound, hmany, hbound⟩
    cases h.writes.unique hg
    cases hlimit.symm.trans hbound
    omega

/-- What is left to check is the file to write. -/
theorem firstOf_checks (h : r.CarriedOut files f) {code : Nat}
    (hwrite : FirstOf (r.writeChecks files) code) : FirstOf (r.checks files) code := by
  obtain ⟨husable, hpos, hformula, hwork, hfew⟩ := h.passes
  obtain ⟨limit, hlimit, _⟩ := h.few
  exact .later husable (.later (by simp [hlimit]) (.later hpos (.later h.symbols
    (.later hformula (.later hwork (.later hfew hwrite))))))

/-- A file that cannot be written for any other reason than that its directory is missing or its path
holds U+0000: the code is that of something unexpected, where that of an input error is promised. -/
theorem unwritable (h : r.CarriedOut files f) {path : Path} {fault : FileFault}
    (hcsv : r.options.csv? = some path) (hfault : files.write path = .error fault)
    (hmissing : fault ≠ .missing) (hnul : fault ≠ .nul) :
    FirstOf (r.checks files) 5 ∧ FirstOf (r.promises files) 3 := by
  have hunwritten : ∃ path, r.options.csv? = some path ∧
      ∃ fault, files.write path = .error fault := ⟨path, hcsv, fault, hfault⟩
  constructor
  · exact h.firstOf_checks (.later (by simp [hcsv, hfault, hmissing, hnul]) (.here hunwritten))
  · obtain ⟨husable, hpos, hformula, hwork, hfew⟩ := h.passes
    exact .later husable (.later hpos (.later hformula (.later hwork (.later hfew
      (.here hunwritten)))))

/-- Nothing is amiss with the file to write. -/
theorem written (h : r.CarriedOut files f) {path : Path} (hcsv : r.options.csv? = some path)
    (hwrite : files.write path = .ok ()) : FirstOf (r.checks files) 0 :=
  h.firstOf_checks (.later (by simp [hcsv, hwrite]) (.later (by simp [hcsv, hwrite]) .none))

end CarriedOut

/-- No check before it holds, but a switch for the limit or the symbols has no value; or a request is
carried out, but its file is refused for a reason other than a missing directory or U+0000 in the path. -/
def Unforeseen (r : Request) (files : Files) : Prop :=
  (¬ r.source.Unusable files.read ∧
    (r.options.limit? = none ∨
      ((¬ ∃ limit < 0, r.options.limit? = some limit) ∧ r.options.script? = none))) ∨
  ∃ f path fault, r.CarriedOut files f ∧ r.options.csv? = some path ∧
    files.write path = .error fault ∧ fault ≠ .missing ∧ fault ≠ .nul

theorem firstOf_checks_five_iff (r : Request) (files : Files) :
    FirstOf (r.checks files) 5 ↔ r.Unforeseen files := by
  constructor
  · intro h
    obtain ⟨husable, h⟩ := FirstOf.passed h (by decide)
    cases h with
    | here hlimit => exact Or.inl ⟨husable, Or.inl hlimit⟩
    | later hlimit h =>
      obtain ⟨hpos, h⟩ := h.passed (by decide)
      cases h with
      | here hscript => exact Or.inl ⟨husable, Or.inr ⟨hpos, hscript⟩⟩
      | later hscript h =>
        obtain ⟨hformula, h⟩ := FirstOf.passed h (by decide)
        obtain ⟨hwork, h⟩ := h.passed (by decide)
        obtain ⟨hfew, h⟩ := h.passed (by decide)
        obtain ⟨hinput, h⟩ := FirstOf.passed h (by decide)
        obtain ⟨f, hf⟩ := not_not.mp hformula
        obtain ⟨limit, hlimit⟩ := Option.ne_none_iff_exists'.mp hlimit
        have hlength : f.vars.length ≤ limit := by
          by_contra hmany
          exact hfew ⟨f, hf, limit, Int.not_le.mp hmany, hlimit⟩
        cases h with
        | here hwrite =>
          obtain ⟨path, hcsv, fault, hfault⟩ := hwrite
          refine Or.inr ⟨f, path, fault, ⟨hf, ⟨limit, hlimit, hlength⟩, hscript, ?_⟩, hcsv, hfault,
            ?_, ?_⟩
          · exact Bool.eq_false_iff.mpr hwork
          · rintro rfl
            exact hinput ⟨path, hcsv, Or.inl hfault⟩
          · rintro rfl
            exact hinput ⟨path, hcsv, Or.inr hfault⟩
        | later _ h => cases h
  · rintro (⟨husable, hlimit | ⟨hpos, hscript⟩⟩ | ⟨f, path, fault, h, hcsv, hfault, hmissing, hnul⟩)
    · exact .later husable (.here hlimit)
    · by_cases hlimit : r.options.limit? = none
      · exact .later husable (.here hlimit)
      · exact .later husable (.later hlimit (.later hpos (.here hscript)))
    · exact (h.unwritable hcsv hfault hmissing hnul).1

end Request

namespace Disk

/-- What opening the files of a disk comes to, and writing them. -/
def files (d : Disk) : Files :=
  ⟨d.read .sound, fun path => (d.destination .sound path).map fun _ => ()⟩

theorem write_sound (d : Disk) (path : Path) (content : List UInt8) :
    (d.write .sound path content).1 = d.files.write path := by
  simp only [write, files]
  cases d.destination .sound path <;> rfl

end Disk

/-- A command ends as the files do that it opens, and the one that it writes. -/
theorem Request.run_ending (r : Request) (medium : Medium) (d : Disk) {files : Files}
    (hread : files.read = d.read medium)
    (hwrite : ∀ o, (r.plan (r.source.text d medium)).output? = some o →
      files.write o.path = (d.write medium o.path o.content).1) :
    (r.run medium d).1 = r.ending files := by
  rw [Source.text_eq_textBy] at hwrite
  rw [run, ending, Source.text_eq_textBy, hread]
  cases houtput : (r.plan (r.source.textBy (d.read medium))).output? with
  | none => rfl
  | some o => simp only [hwrite o houtput]

theorem run_of_accepted {arguments : List String} {r : Request}
    (h : Request.ofArguments arguments = .ok r) (d : Disk) :
    ∃ shown, (run arguments d).1 = .ended (r.ending d.files).code shown := by
  refine ⟨Entry.render r.threshold (r.run .sound d).1.entries, ?_⟩
  rw [run, runOn, h, ← r.run_ending .sound d rfl fun o _ => (d.write_sound o.path o.content).symm]

end Cli

/-- The exit code of a command is that of the first of its checks that holds, whatever opening the files
comes to. It is as promised unless something unforeseen happens, and then it is 5. Runs with arguments
that make the request, on a disk with these files, end with this code. -/
theorem exit_code_is_of_first_check (r : Cli.Request) (files : Cli.Files) :
    Cli.FirstOf (r.checks files) (r.ending files).code ∧
    (Cli.FirstOf (r.promises files) (r.ending files).code ↔ ¬ r.Unforeseen files) ∧
    (r.Unforeseen files ↔ (r.ending files).code = 5) ∧
    ∀ (arguments : List String) (d : Cli.Disk), Cli.Request.ofArguments arguments = .ok r →
      d.files = files → ∃ shown, (Cli.run arguments d).1 = .ended (r.ending files).code shown := by
  have hfirst := r.firstOf_checks files
  have hcode : r.Unforeseen files ↔ (r.ending files).code = 5 := by
    rw [← r.firstOf_checks_five_iff]
    constructor
    · exact hfirst.unique
    · intro hfive
      exact hfive ▸ hfirst
  refine ⟨hfirst, ?_, hcode, ?_⟩
  · rw [r.firstOf_promises_iff files hfirst, hcode]
  · rintro arguments d haccepted rfl
    exact Cli.run_of_accepted haccepted d

/-- Without its file, a formula is an input error. -/
theorem exit_code_is_of_first_check_for_missing_file :
    ∃ shown, (Cli.run ["-f", "t.txt"] ⟨[], []⟩).1 = .ended 3 shown := by
  have haccepted : Cli.Request.ofArguments ["-f", "t.txt"] =
      .ok ⟨.file (some ⟨.here, ["t.txt"]⟩), .usual⟩ := by decide +kernel
  obtain ⟨hfirst, _, _, hrun⟩ := exit_code_is_of_first_check
    ⟨.file (some ⟨.here, ["t.txt"]⟩), .usual⟩ (Cli.Disk.mk [] []).files
  -- the first check holds already
  rw [← hfirst.unique (.here (Or.inl ⟨.missing, by decide +kernel⟩))]
  exact hrun _ _ haccepted rfl

/-- A directory cannot be written as a file, which is promised to be an input error, but the code is
that of something unexpected. -/
theorem exit_code_of_directory_is_unexpected :
    ∃ r, Cli.Request.ofArguments ["x", "--csv", "."] = .ok r ∧
      Cli.FirstOf (r.promises (Cli.Disk.mk [] []).files) 3 ∧
      ¬ Cli.FirstOf (r.promises (Cli.Disk.mk [] []).files) 5 ∧
      ∃ shown, (Cli.run ["x", "--csv", "."] ⟨[], []⟩).1 = .ended 5 shown := by
  have haccepted : Cli.Request.ofArguments ["x", "--csv", "."] =
      .ok ⟨.formula "x", { Cli.Options.usual with csv? := some ⟨.here, []⟩ }⟩ := by decide +kernel
  have hfault : (Cli.Disk.mk [] []).files.write ⟨.here, []⟩ = .error .isDirectory := by
    decide +kernel
  have hread : Formula.parse "x" = .ok (.atom "x") := by cbv
  have hfew : ((Formula.atom "x").vars.length : Int) ≤ 8 := by
    rw [Formula.vars_eq_foldl]
    decide
  have hcarried : Cli.Request.CarriedOut
      ⟨.formula "x", { Cli.Options.usual with csv? := some ⟨.here, []⟩ }⟩
      (Cli.Disk.mk [] []).files (.atom "x") :=
    ⟨⟨"x", rfl, (Formula.ofTokens_eq_ok_iff _ _).mp hread⟩, ⟨8, rfl, hfew⟩, by decide, rfl⟩
  have hcodes := hcarried.unwritable rfl hfault (by decide) (by decide)
  obtain ⟨shown, hrun⟩ := Cli.run_of_accepted haccepted ⟨[], []⟩
  rw [(Cli.Request.firstOf_checks _ _).unique hcodes.1] at hrun
  exact ⟨_, haccepted, hcodes.2, fun h => absurd (hcodes.2.unique h) (by decide), shown, hrun⟩

end CubeCover
