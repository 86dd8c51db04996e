import CubeCover.Cube.Formula
import CubeCover.Proofs.Cube.Points
import CubeCover.Proofs.Formula.NormalForm

/-! Valuations as points of cubes, and the formula of some cubes: it holds under a valuation just if
one of the cubes has its point. -/
namespace CubeCover

namespace Cube

/-- The point with the values of some names, in their order. -/
def pointAt (names : List String) (v : String → Bool) : Cube :=
  ⟨names.map fun name => Digit.ofBool (v name)⟩

/-- The literals of a product term: the names whose digits are not free, with their values. -/
def literals (names : List String) (digits : List Digit) : List (String × Bool) :=
  (names.zip digits).filterMap fun entry => entry.2.toBool?.map (entry.1, ·)

theorem length_pointAt (names : List String) (v : String → Bool) :
    (pointAt names v).length = names.length := List.length_map _

theorem isPoint_pointAt (names : List String) (v : String → Bool) : (pointAt names v).IsPoint := by
  intro hfree
  obtain ⟨name, _, hname⟩ := List.mem_map.mp hfree
  cases hvalue : v name <;> simp [hvalue, Digit.ofBool] at hname

theorem ofAssignment_eq_pointAt (a : Assignment) : ofAssignment a = pointAt a.names a.value := by
  rw [ofAssignment, a.values_eq_map, List.map_map]
  rfl

theorem isPoint_ofAssignment (a : Assignment) : (ofAssignment a).IsPoint := by
  rw [ofAssignment_eq_pointAt]
  exact isPoint_pointAt a.names a.value

theorem length_of_mem_map_ofAssignment {names : List String} {terms : List Assignment}
    (h : ∀ a ∈ terms, a.names = names) :
    ∀ c ∈ terms.map ofAssignment, c.length = names.length := by
  intro c hc
  obtain ⟨a, ha, rfl⟩ := List.mem_map.mp hc
  rw [ofAssignment_eq_pointAt, length_pointAt, h a ha]

theorem eq_of_ofAssignment {a b : Assignment} (hnames : a.names = b.names)
    (h : ofAssignment a = ofAssignment b) : a = b := by
  apply Bindings.eq_of_names_of_values a b hnames
  have hinjective : Function.Injective Digit.ofBool := by
    intro x y hxy
    cases x <;> cases y <;> first | rfl | cases hxy
  exact List.map_injective_iff.mpr hinjective (Cube.mk.inj h)

/-- Different assignments to the same names have different points. -/
theorem nodup_map_ofAssignment {names : List String} {terms : List Assignment}
    (hnodup : terms.Nodup) (hnames : ∀ a ∈ terms, a.names = names) :
    (terms.map ofAssignment).Nodup := by
  apply List.Nodup.map_on _ hnodup
  intro a ha b hb hsame
  exact eq_of_ofAssignment ((hnames a ha).trans (hnames b hb).symm) hsame

theorem pointAt_eq_iff (names : List String) (v w : String → Bool) :
    pointAt names v = pointAt names w ↔ ∀ name ∈ names, v name = w name := by
  rw [pointAt, pointAt, Cube.mk.injEq, List.map_inj_left]
  have hdigit (name : String) :
      Digit.ofBool (v name) = Digit.ofBool (w name) ↔ v name = w name := by
    cases v name <;> cases w name <;> decide
  exact forall₂_congr fun name _ => hdigit name

theorem exists_pointAt (names : List String) (h : names.Nodup) (p : Cube) (hp : p.IsPoint)
    (hlength : p.length = names.length) : ∃ v, pointAt names v = p := by
  obtain ⟨ds⟩ := p
  induction names generalizing ds with
  | nil =>
    have hnil : ds = [] := List.eq_nil_of_length_eq_zero hlength
    exact ⟨fun _ => false, by rw [hnil]; rfl⟩
  | cons name names ih =>
    cases ds with
    | nil => exact absurd hlength (by simp [Cube.length])
    | cons d ds =>
      rw [List.nodup_cons] at h
      rw [isPoint_cons] at hp
      obtain ⟨v, hv⟩ := ih h.2 ds hp.2 (Nat.succ.inj hlength)
      -- the first name takes its own value, which no other name disturbs
      refine ⟨fun other => if other = name then d == .one else v other, ?_⟩
      have hrest : pointAt names (fun other => if other = name then d == .one else v other) =
          pointAt names v := by
        rw [pointAt_eq_iff]
        intro other hother
        have hne : other ≠ name := fun heq => h.1 (heq ▸ hother)
        rw [if_neg hne]
      have hfirst : Digit.ofBool (d == .one) = d := by
        cases d with
        | zero => rfl
        | one => rfl
        | free => exact absurd rfl hp.1
      rw [hv] at hrest
      have hdigits := (Cube.mk.injEq _ _).mp hrest
      rw [pointAt, List.map_cons, hdigits, if_pos rfl, hfirst]

theorem exists_assignment_of_isPoint (names : List String) (h : names.Nodup) (p : Cube)
    (hp : p.IsPoint) (hlength : p.length = names.length) :
    ∃ a : Assignment, a.names = names ∧ ofAssignment a = p := by
  obtain ⟨v, hv⟩ := exists_pointAt names h p hp hlength
  obtain ⟨a, hnames, hvalue⟩ := Assignment.exists_of_valuation names h v
  refine ⟨a, hnames, ?_⟩
  rw [ofAssignment_eq_pointAt, hnames, (pointAt_eq_iff names a.value v).mpr hvalue, hv]

theorem literals_sublist (names : List String) (digits : List Digit) :
    ((literals names digits).map Prod.fst).Sublist names := by
  induction names generalizing digits with
  | nil => exact List.Sublist.refl _
  | cons name names ih =>
    cases digits with
    | nil => exact List.nil_sublist _
    | cons d ds =>
      have hrest := ih ds
      cases d with
      | zero => exact hrest.cons_cons name
      | one => exact hrest.cons_cons name
      | free => exact hrest.cons name

theorem forall_literals_iff (v : String → Bool) (names : List String) (digits : List Digit)
    (h : names.length = digits.length) :
    (∀ entry ∈ literals names digits, v entry.1 = entry.2) ↔
      covers ⟨digits⟩ (pointAt names v) = true := by
  induction names generalizing digits with
  | nil =>
    cases digits with
    | nil => simp [literals, covers, pointAt, coversDigits]
    | cons d ds => exact absurd h (by simp)
  | cons name names ih =>
    cases digits with
    | nil => exact absurd h (by simp)
    | cons d ds =>
      have hrest := ih ds (Nat.succ.inj h)
      have hcovers : covers ⟨d :: ds⟩ (pointAt (name :: names) v) = true ↔
          d.covers (Digit.ofBool (v name)) = true ∧ covers ⟨ds⟩ (pointAt names v) = true :=
        covers_cons d _ ds _
      rw [hcovers, ← hrest]
      -- a free digit has no literal and covers every value
      cases d with
      | free => simp [literals, Digit.toBool?, Digit.covers]
      | zero =>
        cases hvalue : v name <;>
          simp [literals, Digit.toBool?, Digit.covers, Digit.ofBool, hvalue]
      | one =>
        cases hvalue : v name <;>
          simp [literals, Digit.toBool?, Digit.covers, Digit.ofBool, hvalue]

theorem toAssignment_eq_ok_iff (c : Cube) (names : List String) (a : Assignment) :
    c.toAssignment names = .ok a ↔
      names.length = c.length ∧ Bindings.ofList (literals names c.digits) = a := by
  unfold toAssignment
  split
  · rename_i h
    rw [Except.ok.injEq, and_iff_right h]
    rfl
  · rename_i h
    simp [h]

/-- The assignment of a cube has its names from the list, and the valuations that extend it are
those whose points the cube covers. -/
theorem extendedBy_of_toAssignment (names : List String) (h : names.Nodup) (c : Cube)
    (a : Assignment) (ha : c.toAssignment names = .ok a) :
    a.names ⊆ names ∧ ∀ v, a.ExtendedBy v ↔ c.covers (pointAt names v) = true := by
  obtain ⟨hlength, rfl⟩ := (toAssignment_eq_ok_iff c names a).mp ha
  have hsublist := literals_sublist names c.digits
  have hentries : (Bindings.ofList (literals names c.digits)).entries = literals names c.digits :=
    Bindings.entries_ofList _ (h.sublist hsublist)
  constructor
  · rw [Bindings.names, hentries]
    exact hsublist.subset
  · intro v
    rw [Assignment.ExtendedBy, hentries]
    exact forall_literals_iff v names c.digits hlength

theorem toAssignments_spec (names : List String) (cubes : List Cube)
    (hlength : ∀ c ∈ cubes, c.length = names.length) :
    ∃ terms, toAssignments names cubes = .ok terms ∧
      ∀ a, a ∈ terms ↔ ∃ c ∈ cubes, c.toAssignment names = .ok a := by
  induction cubes with
  | nil => exact ⟨[], rfl, by simp⟩
  | cons cube cubes ih =>
    obtain ⟨terms, hterms, hmem⟩ := ih fun c hc => hlength c (List.mem_cons_of_mem cube hc)
    have hfirst : cube.toAssignment names = .ok (Bindings.ofList (literals names cube.digits)) :=
      (toAssignment_eq_ok_iff cube names _).mpr ⟨(hlength cube List.mem_cons_self).symm, rfl⟩
    refine ⟨Bindings.ofList (literals names cube.digits) :: terms, ?_, ?_⟩
    · rw [toAssignments, hfirst, hterms]
    · intro a
      have hhead : a = Bindings.ofList (literals names cube.digits) ↔
          cube.toAssignment names = .ok a := by rw [hfirst, Except.ok.injEq, eq_comm]
      rw [List.mem_cons, hmem, hhead]
      simp only [List.mem_cons, exists_eq_or_imp]

end Cube

namespace Formula

theorem ofCubes_eq_ofProductTerms (names : List String) (cubes : List Cube)
    (hlength : ∀ c ∈ cubes, c.length = names.length) (terms : List Assignment)
    (hterms : Cube.toAssignments names cubes = .ok terms) :
    ofCubes names cubes = .ok (ofProductTerms terms) := by
  cases cubes with
  | nil =>
    rw [Cube.toAssignments, Except.ok.injEq] at hterms
    rw [← hterms]
    rfl
  | cons first cubes =>
    have hall : (first :: cubes).all (·.length = first.length) = true := by
      rw [List.all_eq_true]
      intro c hc
      have hfirst := hlength first List.mem_cons_self
      exact decide_eq_true ((hlength c hc).trans hfirst.symm)
    rw [ofCubes, if_pos hall, hterms]

/-- The formula of some cubes holds under a valuation just if one of them covers its point. -/
theorem ofCubes_spec (names : List String) (h : names.Nodup)
    (hnames : ∀ name ∈ names, isConstantName name = false) (cubes : List Cube)
    (hlength : ∀ c ∈ cubes, c.length = names.length) :
    ∃ f, ofCubes names cubes = .ok f ∧ f.Over names ∧
      ∀ v, f.holds v = true ↔ ∃ c ∈ cubes, c.covers (Cube.pointAt names v) = true := by
  obtain ⟨terms, hterms, hmem⟩ := Cube.toAssignments_spec names cubes hlength
  have hsubset (a : Assignment) (ha : a ∈ terms) : a.names ⊆ names := by
    obtain ⟨c, _, hok⟩ := (hmem a).mp ha
    exact (Cube.extendedBy_of_toAssignment names h c a hok).1
  refine ⟨ofProductTerms terms, ofCubes_eq_ofProductTerms names cubes hlength terms hterms,
    over_ofProductTerms terms hsubset, ?_⟩
  intro v
  rw [holds_ofProductTerms v terms fun a ha name hname => hnames name (hsubset a ha hname)]
  constructor
  · intro hsome
    obtain ⟨a, ha, hextended⟩ := hsome
    obtain ⟨c, hc, hok⟩ := (hmem a).mp ha
    exact ⟨c, hc, ((Cube.extendedBy_of_toAssignment names h c a hok).2 v).mp hextended⟩
  · intro hsome
    obtain ⟨c, hc, hcov⟩ := hsome
    have hok := (Cube.toAssignment_eq_ok_iff c names _).mpr ⟨(hlength c hc).symm, rfl⟩
    exact ⟨_, (hmem _).mpr ⟨c, hc, hok⟩,
      ((Cube.extendedBy_of_toAssignment names h c _ hok).2 v).mpr hcov⟩

end Formula

end CubeCover
