import CubeCover.Proofs.Formula.Equivalence
import Mathlib.Logic.Function.Basic

/-! Product terms, each as the truth values that it asks of some names, and the prime ones among
those that imply a formula. Which they are depends on the values of the formula alone. -/
namespace CubeCover

/-- Truth values for some of the names. -/
abbrev Term := String → Option Bool

namespace Term

/-- The valuation gives the names of the term the values that it asks for. -/
def ExtendedBy (t : Term) (v : String → Bool) : Prop :=
  ∀ name value, t name = some value → v name = value

/-- The first term asks for nothing that the second one does not ask for. -/
def PartOf (s t : Term) : Prop := ∀ name value, s name = some value → t name = some value

def Over (names : List String) (t : Term) : Prop :=
  ∀ name value, t name = some value → name ∈ names

def without (t : Term) (name : String) : Term := Function.update t name none

theorem without_partOf (t : Term) (name : String) : (t.without name).PartOf t := by
  intro other value h
  by_cases hother : other = name
  · rw [hother, without, Function.update_self] at h
    cases h
  · rwa [without, Function.update_of_ne hother] at h

end Term

namespace Formula

variable {f g : Formula} {t : Term} {name : String}

def IsImplicant (f : Formula) (t : Term) : Prop := ∀ v, t.ExtendedBy v → f.holds v = true

/-- The term implies the formula, and no proper part of it does. -/
def IsPrimeImplicant (f : Formula) (t : Term) : Prop :=
  f.IsImplicant t ∧ ∀ s, f.IsImplicant s → s.PartOf t → s = t

/-- Two assignments to the variables that differ in one name alone give the formula different
values. -/
def DependsOn (f : Formula) (name : String) : Prop :=
  ∃ a b : Assignment, a.names = f.vars ∧ b.names = f.vars ∧
    (∀ other, other ≠ name → a.get? other = b.get? other) ∧ f.evaluate a ≠ f.evaluate b

theorem isPrimeImplicant_congr (h : ∀ v, f.holds v = g.holds v) (t : Term) :
    f.IsPrimeImplicant t ↔ g.IsPrimeImplicant t := by
  simp only [IsPrimeImplicant, IsImplicant, h]

namespace IsPrimeImplicant

/-- The value of a name of a prime term matters: another one may make the formula false. -/
theorem exists_change (h : f.IsPrimeImplicant t) {value : Bool} (ht : t name = some value) :
    ∃ v w : String → Bool, (∀ other, other ≠ name → v other = w other) ∧
      f.holds v ≠ f.holds w := by
  have hpart := t.without_partOf name
  have hnot : ¬ f.IsImplicant (t.without name) := by
    intro himplicant
    have hsame := congrFun (h.2 _ himplicant hpart) name
    rw [Term.without, Function.update_self, ht] at hsame
    cases hsame
  -- a valuation that the rest of the term does not keep from being false
  obtain ⟨v, hextended, hfalse⟩ : ∃ v, (t.without name).ExtendedBy v ∧ f.holds v ≠ true := by
    by_contra hnone
    apply hnot
    intro v hv
    by_contra hfalse
    exact hnone ⟨v, hv, hfalse⟩
  refine ⟨v, Function.update v name value, ?_, ?_⟩
  · intro other hother
    exact (Function.update_of_ne hother value v).symm
  · have htrue : f.holds (Function.update v name value) = true := by
      apply h.1
      intro other wanted hwanted
      by_cases hother : other = name
      · rw [hother, ht] at hwanted
        rw [hother, Function.update_self, Option.some.inj hwanted]
      · rw [Function.update_of_ne hother]
        apply hextended other wanted
        rw [Term.without, Function.update_of_ne hother, hwanted]
    rw [htrue]
    exact hfalse

theorem over_names {names : List String} (hf : f.Over names) (h : f.IsPrimeImplicant t) :
    t.Over names := by
  intro name value ht
  obtain ⟨v, w, hsame, hne⟩ := h.exists_change ht
  by_contra hname
  apply hne
  apply holds_congr names f hf
  intro other hother
  exact hsame other fun heq => hname (heq ▸ hother)

theorem dependsOn (hf : f.Over f.vars) (h : f.IsPrimeImplicant t) {value : Bool}
    (ht : t name = some value) : f.DependsOn name := by
  obtain ⟨v, w, hsame, hne⟩ := h.exists_change ht
  obtain ⟨a, hnamesa, hvaluea⟩ := Assignment.exists_of_valuation f.vars (nodup_vars f) v
  obtain ⟨b, hnamesb, hvalueb⟩ := Assignment.exists_of_valuation f.vars (nodup_vars f) w
  refine ⟨a, b, hnamesa, hnamesb, ?_, ?_⟩
  · intro other hother
    by_cases hmem : other ∈ f.vars
    · rw [a.get?_of_mem other (hnamesa ▸ hmem), b.get?_of_mem other (hnamesb ▸ hmem),
        hvaluea other hmem, hvalueb other hmem, hsame other hother]
    · rw [a.get?_eq_none other (hnamesa ▸ hmem), b.get?_eq_none other (hnamesb ▸ hmem)]
  · rw [evaluate_eq_holds f.vars f hf a (hnamesa ▸ List.Subset.refl _),
      evaluate_eq_holds f.vars f hf b (hnamesb ▸ List.Subset.refl _), Ne, Except.ok.injEq,
      holds_congr f.vars f hf a.value v hvaluea, holds_congr f.vars f hf b.value w hvalueb]
    exact hne

end IsPrimeImplicant

end Formula

end CubeCover
