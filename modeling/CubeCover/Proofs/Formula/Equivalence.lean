import CubeCover.Proofs.Formula.TruthTable
import Mathlib.Data.List.Dedup

/-! Formulas compared by their truth values under assignments. All that is said of assignments comes
down to the value under valuations of all names. -/
namespace CubeCover

namespace Formula

/-- Some assignment makes the formula true. It may lack names that the evaluation does not reach. -/
def Satisfiable (f : Formula) : Prop := ∃ a : Assignment, f.evaluate a = .ok true

/-- Every assignment to some names, in whatever order, gives both formulas the same value. -/
def AgreeOver (names : List String) (f g : Formula) : Prop :=
  ∀ a : Assignment, (∀ name, name ∈ a.names ↔ name ∈ names) → f.evaluate a = g.evaluate a

variable {names : List String} {f g : Formula}

theorem holds_of_evaluate (a : Assignment) (f : Formula) (value : Bool)
    (h : f.evaluate a = .ok value) : f.holds a.value = value := by
  induction f generalizing value with
  | atom name =>
    rw [evaluate] at h
    rw [holds]
    split at h
    · rename_i htrue
      rw [if_pos htrue]
      exact Except.ok.inj h
    · rename_i htrue
      rw [if_neg htrue]
      split at h
      · rename_i hfalse
        rw [if_pos hfalse]
        exact Except.ok.inj h
      · rename_i hfalse
        rw [if_neg hfalse, Assignment.value]
        split at h
        · rename_i found hfound
          rw [hfound, ← Except.ok.inj h]
          rfl
        · cases h
  | not operand ih =>
    rw [evaluate] at h
    split at h
    · rename_i inner hinner
      rw [holds, ih inner hinner]
      exact Except.ok.inj h
    · cases h
  | binary op left right ihleft ihright =>
    rw [evaluate] at h
    split at h
    · rename_i first hfirst
      have hleft := ihleft first hfirst
      split at h
      · -- the left operand settles the value
        rename_i hsettles
        rw [← Except.ok.inj h]
        cases op <;> rw [holds, hleft, hsettles] <;> rfl
      · -- the value is that of the right operand
        rename_i hopen
        have hright := ihright value h
        cases op with
        | and =>
          have hfirst : first = true := by simpa [Connective.settling] using hopen
          rw [holds, hleft, hright, hfirst, Bool.true_and]
        | or =>
          have hfirst : first = false := by simpa [Connective.settling] using hopen
          rw [holds, hleft, hright, hfirst, Bool.false_or]
    · cases h

theorem Over.mono {names' : List String} (h : f.Over names) (hsubset : names ⊆ names') :
    f.Over names' :=
  fun name hname => (h name hname).imp_right fun hmem => hsubset hmem

/-- Every valuation has an assignment to some names that evaluates the formulas over them alike. -/
theorem exists_assignment (names : List String) (v : String → Bool) :
    ∃ a : Assignment, (∀ name, name ∈ a.names ↔ name ∈ names) ∧
      ∀ f : Formula, f.Over names → f.evaluate a = .ok (f.holds v) := by
  -- an assignment has each of its names once
  obtain ⟨a, hnames, hvalue⟩ :=
    Assignment.exists_of_valuation names.dedup (List.nodup_dedup names) v
  have hmem (name : String) : name ∈ a.names ↔ name ∈ names := by rw [hnames, List.mem_dedup]
  refine ⟨a, hmem, ?_⟩
  intro f hf
  have hsame := holds_congr names f hf a.value v fun name hname =>
    hvalue name (List.mem_dedup.mpr hname)
  rw [evaluate_eq_holds names f hf a fun name hname => (hmem name).mpr hname, hsame]

theorem satisfiable_iff (hf : f.Over names) : f.Satisfiable ↔ ∃ v, f.holds v = true := by
  constructor
  · rintro ⟨a, ha⟩
    exact ⟨a.value, holds_of_evaluate a f true ha⟩
  · rintro ⟨v, hv⟩
    obtain ⟨a, _, hevaluate⟩ := exists_assignment names v
    exact ⟨a, hv ▸ hevaluate f hf⟩

theorem satisfiable_congr {names' : List String} (hf : f.Over names) (hg : g.Over names')
    (h : ∀ v, f.holds v = g.holds v) : f.Satisfiable ↔ g.Satisfiable := by
  rw [satisfiable_iff hf, satisfiable_iff hg]
  simp only [h]

theorem agreeOver_iff (hf : f.Over names) (hg : g.Over names) :
    AgreeOver names f g ↔ ∀ v, f.holds v = g.holds v := by
  constructor
  · intro h v
    obtain ⟨a, hnames, hevaluate⟩ := exists_assignment names v
    have hsame := h a hnames
    rw [hevaluate f hf, hevaluate g hg] at hsame
    exact Except.ok.inj hsame
  · intro h a hnames
    have hsubset : names ⊆ a.names := fun name hname => (hnames name).mpr hname
    rw [evaluate_eq_holds names f hf a hsubset, evaluate_eq_holds names g hg a hsubset, h]

end Formula

end CubeCover
