import CubeCover.Proofs.Cube.Formula
import CubeCover.Proofs.Cube.Implicants
import CubeCover.Proofs.Formula.PrimeTerm

/-! Cubes as product terms. The digits of a cube are what its term asks of the names in order, one
cube covers another one if its term is a part of the other, and the prime implicants of cubes with
the points of a formula are the prime terms of the formula. -/
namespace CubeCover

theorem Digit.ofBool?_toBool? (d : Digit) : Digit.ofBool? d.toBool? = d := by
  cases d <;> rfl

theorem Digit.covers_ofBool?_iff (x y : Option Bool) :
    (Digit.ofBool? x).covers (Digit.ofBool? y) = true ↔
      ∀ value, x = some value → y = some value := by
  cases x with
  | none => simp [Digit.ofBool?, Digit.covers]
  | some value => cases y with
    | none => cases value <;> simp [Digit.ofBool?, Digit.ofBool, Digit.covers]
    | some other =>
      cases value <;> cases other <;> simp [Digit.ofBool?, Digit.ofBool, Digit.covers]

namespace Cube

variable {names : List String} {seeds : List Cube} {f : Formula} {s t : Term}

/-- The cube of a term, with a free digit for every name that the term lacks. -/
def ofTerm (names : List String) (t : Term) : Cube := ⟨names.map fun name => Digit.ofBool? (t name)⟩

theorem covers_ofTerm_iff (names : List String) (s t : Term) :
    (ofTerm names s).covers (ofTerm names t) = true ↔
      ∀ name ∈ names, ∀ value, s name = some value → t name = some value := by
  induction names with
  | nil => simp [ofTerm, covers, coversDigits]
  | cons name names ih =>
    have hcons : (ofTerm (name :: names) s).covers (ofTerm (name :: names) t) = true ↔
        (Digit.ofBool? (s name)).covers (Digit.ofBool? (t name)) = true ∧
          (ofTerm names s).covers (ofTerm names t) = true := covers_cons _ _ _ _
    rw [hcons, ih, Digit.covers_ofBool?_iff, List.forall_mem_cons]

theorem covers_ofTerm_iff_partOf (hs : s.Over names) :
    (ofTerm names s).covers (ofTerm names t) = true ↔ s.PartOf t := by
  rw [covers_ofTerm_iff]
  constructor
  · intro h name value hvalue
    exact h name (hs name value hvalue) value hvalue
  · intro h name _ value hvalue
    exact h name value hvalue

theorem covers_pointAt_iff (ht : t.Over names) (v : String → Bool) :
    (ofTerm names t).covers (pointAt names v) = true ↔ t.ExtendedBy v := by
  -- the point is the cube of the term that asks for the values of all names
  have hpoint : pointAt names v = ofTerm names fun name => some (v name) := rfl
  rw [hpoint, covers_ofTerm_iff_partOf ht]
  simp only [Term.PartOf, Term.ExtendedBy, Option.some.injEq]

theorem map_lookup_literals (h : names.Nodup) (digits : List Digit)
    (hlength : names.length = digits.length) :
    names.map (fun name => (literals names digits).lookup name) = digits.map Digit.toBool? := by
  induction names generalizing digits with
  | nil =>
    rw [List.eq_nil_of_length_eq_zero hlength.symm]
    rfl
  | cons name names ih =>
    cases digits with
    | nil => exact absurd hlength (by simp)
    | cons d ds =>
      rw [List.nodup_cons] at h
      have hrest := ih h.2 ds (Nat.succ.inj hlength)
      have hnew : (literals names ds).lookup name = none := by
        rw [List.lookup_eq_none_iff]
        intro entry hentry
        have hmem := (literals_sublist names ds).subset (List.mem_map_of_mem hentry)
        simpa using fun heq : name = entry.1 => h.1 (heq ▸ hmem)
      -- the literal of the first name, if it has one, stands in nobody else's way
      have hother (other : String) (hother : other ∈ names) :
          (literals (name :: names) (d :: ds)).lookup other = (literals names ds).lookup other := by
        have hne : (other == name) = false := by
          rw [beq_eq_false_iff_ne]
          exact fun heq => h.1 (heq ▸ hother)
        cases d <;> simp [literals, Digit.toBool?, List.lookup_cons, hne]
      have hfirst : (literals (name :: names) (d :: ds)).lookup name = d.toBool? := by
        cases d with
        | free => exact hnew
        | zero => simp [literals, Digit.toBool?]
        | one => simp [literals, Digit.toBool?]
      rw [List.map_cons, List.map_cons, hfirst, ← hrest]
      exact congrArg _ (List.map_congr_left hother)

/-- The assignment of a cube is its term: it has names from the list alone, and the cube is the cube
of the term. -/
theorem ofTerm_of_toAssignment (h : names.Nodup) (c : Cube) (a : Assignment)
    (ha : c.toAssignment names = .ok a) : ofTerm names a.get? = c ∧ Term.Over names a.get? := by
  obtain ⟨hlength, rfl⟩ := (toAssignment_eq_ok_iff c names a).mp ha
  have hsublist := literals_sublist names c.digits
  have hentries : (Bindings.ofList (literals names c.digits)).entries = literals names c.digits :=
    Bindings.entries_ofList _ (h.sublist hsublist)
  constructor
  · have hdigits := map_lookup_literals h c.digits hlength
    have hread := congrArg (List.map Digit.ofBool?) hdigits
    simp only [List.map_map, Function.comp_def, Digit.ofBool?_toBool?, List.map_id'] at hread
    rw [ofTerm]
    simp only [Bindings.get?, hentries, hread]
  · intro name value hvalue
    have hmem := (Bindings.get?_eq_some_iff _ name value).mp hvalue
    rw [hentries] at hmem
    exact hsublist.subset (List.mem_map_of_mem hmem)

theorem length_ofTerm (names : List String) (t : Term) : (ofTerm names t).length = names.length :=
  List.length_map _

theorem exists_ofTerm (h : names.Nodup) (c : Cube) (hlength : c.length = names.length) :
    ∃ t, Term.Over names t ∧ ofTerm names t = c := by
  have ha := (toAssignment_eq_ok_iff c names _).mpr ⟨hlength.symm, rfl⟩
  obtain ⟨hcube, hover⟩ := ofTerm_of_toAssignment h c _ ha
  exact ⟨_, hover, hcube⟩

theorem eq_of_ofTerm (hs : s.Over names) (ht : t.Over names)
    (h : ofTerm names s = ofTerm names t) : s = t := by
  have hst : s.PartOf t := by
    rw [← covers_ofTerm_iff_partOf hs, h]
    exact covers_refl _
  have hts : t.PartOf s := by
    rw [← covers_ofTerm_iff_partOf ht, h]
    exact covers_refl _
  funext name
  apply Option.ext
  intro value
  exact ⟨hst name value, hts name value⟩

theorem isImplicant_ofTerm_iff (h : names.Nodup)
    (hseeds : ∀ v, CoveredBy seeds (pointAt names v) ↔ f.holds v = true) (ht : t.Over names) :
    IsImplicant seeds (ofTerm names t) ↔ f.IsImplicant t := by
  rw [isImplicant_iff]
  constructor
  · intro himplicant v hv
    apply (hseeds v).mp
    exact himplicant _ (isPoint_pointAt names v) ((covers_pointAt_iff ht v).mpr hv)
  · intro himplicant p hp hcov
    -- a point of the cube has its length, and so is the point of a valuation
    have hlength := (covers_length _ _ hcov).symm.trans (length_ofTerm names t)
    obtain ⟨v, rfl⟩ := exists_pointAt names h p hp hlength
    exact (hseeds v).mpr (himplicant v ((covers_pointAt_iff ht v).mp hcov))

/-- Cubes with the points of a formula have the prime terms of the formula as prime implicants. -/
theorem isPrimeImplicant_ofTerm_iff (h : names.Nodup)
    (hseeds : ∀ v, CoveredBy seeds (pointAt names v) ↔ f.holds v = true) (ht : t.Over names) :
    IsPrimeImplicant seeds (ofTerm names t) ↔ f.IsPrimeImplicant t := by
  have himplicant {s : Term} (hs : s.Over names) := isImplicant_ofTerm_iff h hseeds hs
  constructor
  · intro hprime
    refine ⟨(himplicant ht).mp hprime.1, ?_⟩
    intro s hs hpart
    -- a part of the term has no more names than the term
    have hover : s.Over names := fun name value hvalue => ht name value (hpart name value hvalue)
    have hcov := (covers_ofTerm_iff_partOf (t := t) hover).mpr hpart
    exact eq_of_ofTerm hover ht (hprime.2 _ ((himplicant hover).mpr hs) hcov)
  · intro hprime
    refine ⟨(himplicant ht).mpr hprime.1, ?_⟩
    intro e he hcov
    have hlength := (covers_length _ _ hcov).trans (length_ofTerm names t)
    obtain ⟨s, hs, rfl⟩ := exists_ofTerm h e hlength
    rw [hprime.2 s ((himplicant hs).mp he) ((covers_ofTerm_iff_partOf hs).mp hcov)]

end Cube

end CubeCover
