import CubeCover.Cli.Command

/-! What a command comes to before it writes: a failure, an end without a file, or the table of a
minimization to write. -/
namespace CubeCover.Cli

theorem Failure.code_ne_zero (failure : Failure) : failure.cause.code ≠ 0 := by
  cases failure.cause <;> decide

namespace Request

/-- What settings a request makes. -/
theorem settings_eq_ok_iff (r : Request) (s : Settings) :
    r.settings = .ok s ↔ ∃ limit script, r.options.limit? = some limit ∧ 0 ≤ limit ∧
      r.options.script? = some script ∧ s = ⟨limit.toNat, script, r.options.exhaustive, true⟩ := by
  cases hlimit : r.options.limit? with
  | none => simp [settings, hlimit]
  | some limit =>
    by_cases hneg : limit < 0
    · simp only [settings, hlimit, Option.map_some, Settings.limit, if_pos hneg]
      simp [Int.not_le.mpr hneg]
    · cases hscript : r.options.script? with
      | none => simp [settings, hlimit, hscript, Settings.limit, hneg]
      | some script =>
        have hpos : 0 ≤ limit := Int.not_lt.mp hneg
        simp [settings, hlimit, hscript, Settings.limit, hneg, hpos, Settings.usual, eq_comm]

/-- The outcome of a command that has settings and a text. -/
theorem outcome_plan (r : Request) {s : Settings} (hs : r.settings = .ok s) (text : String) :
    (r.plan (.ok (some text))).outcome =
      match Formula.parse text with
      | .error e => .error (.minimize (.parse e))
      | .ok _ =>
        if r.options.validateOnly then .ok none
        else
          match minimize s text with
          | .error e => .error (.minimize e)
          | .ok m => .ok (r.output m).2 := by
  simp only [plan, hs, check, minimize]
  cases hparse : Formula.parse text with
  | error e => rfl
  | ok f =>
    cases hvalidate : r.options.validateOnly with
    | true => rfl
    | false =>
      cases hformula : Minimization.ofFormula s f <;> simp [work, hformula]

/-- The file that is written at the end, if one is asked for. Without a table it is an empty one. -/
theorem output_eq (r : Request) (m : Minimization) :
    (r.output m).2 = r.options.csv?.map fun path => ⟨path, m.table?.getD .empty⟩ := by
  unfold output
  cases r.options.csv? with
  | none => rfl
  | some path => cases m.table? <;> rfl

end Request

end CubeCover.Cli
