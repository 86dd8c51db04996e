import CubeCover.Proofs.Formula.TruthTable

/-! Sums of product terms: where they hold, and which names they have. The normal form of a formula
holds where the formula does. -/
namespace CubeCover

/-- A valuation extends an assignment if it gives the names of the assignment the same values. -/
def Assignment.ExtendedBy (a : Assignment) (v : String → Bool) : Prop :=
  ∀ entry ∈ a.entries, v entry.1 = entry.2

theorem Assignment.extendedBy_iff (a : Assignment) (v : String → Bool) :
    a.ExtendedBy v ↔ ∀ name ∈ a.names, v name = a.value name := by
  rw [ExtendedBy, Bindings.names, List.forall_mem_map]
  constructor
  · intro h entry hentry
    rw [h entry hentry, a.value_of_mem entry.1 entry.2 hentry]
  · intro h entry hentry
    rw [h entry hentry, a.value_of_mem entry.1 entry.2 hentry]

namespace Formula

variable {names : List String}

theorem holds_binary_iff (v : String → Bool) (op : Connective) (f g : Formula) :
    (Formula.binary op f g).holds v = op.settling ↔
      f.holds v = op.settling ∨ g.holds v = op.settling := by
  -- one operand with the settling value is enough
  cases op with
  | and => exact Bool.and_eq_false_iff
  | or => exact Bool.or_eq_true_iff

theorem holds_foldl_iff (v : String → Bool) (op : Connective) (fs : List Formula) (f : Formula) :
    (fs.foldl (.binary op) f).holds v = op.settling ↔
      f.holds v = op.settling ∨ ∃ g ∈ fs, g.holds v = op.settling := by
  induction fs generalizing f with
  | nil => simp
  | cons first fs ih =>
    rw [List.foldl_cons, ih, holds_binary_iff, or_assoc]
    simp

theorem holds_joinAll_iff (v : String → Bool) (op : Connective) (unit : Formula)
    (hunit : unit.holds v ≠ op.settling) (fs : List Formula) :
    (joinAll op unit fs).holds v = op.settling ↔ ∃ g ∈ fs, g.holds v = op.settling := by
  cases fs with
  | nil => simp [joinAll, hunit]
  | cons first fs =>
    rw [joinAll, holds_foldl_iff]
    simp

theorem holds_conjunction (v : String → Bool) (fs : List Formula) :
    (conjunction fs).holds v = true ↔ ∀ f ∈ fs, f.holds v = true := by
  have h := holds_joinAll_iff v .and verum Bool.noConfusion fs
  -- a conjunction is false just if some operand is
  rw [← Bool.not_eq_false, conjunction, show false = Connective.and.settling from rfl, h]
  simp [Connective.settling]

theorem holds_disjunction (v : String → Bool) (fs : List Formula) :
    (disjunction fs).holds v = true ↔ ∃ f ∈ fs, f.holds v = true :=
  holds_joinAll_iff v .or falsum Bool.noConfusion fs

theorem holds_literal (v : String → Bool) (name : String) (value : Bool)
    (h : isConstantName name = false) : (literal name value).holds v = true ↔ v name = value := by
  have hatom : (Formula.atom name).holds v = v name := by
    simp only [isConstantName, Bool.or_eq_false_iff, beq_eq_false_iff_ne] at h
    rw [holds, if_neg h.1, if_neg h.2]
  cases value with
  | true => rw [literal, if_pos rfl, hatom]
  | false =>
    change (!(Formula.atom name).holds v) = true ↔ v name = false
    rw [hatom, Bool.not_eq_true']

theorem holds_ofAssignment (v : String → Bool) (a : Assignment)
    (h : ∀ name ∈ a.names, isConstantName name = false) :
    (ofAssignment a).holds v = true ↔ a.ExtendedBy v := by
  rw [ofAssignment, holds_conjunction, List.forall_mem_map]
  have hliteral (entry : String × Bool) (hentry : entry ∈ a.entries) :=
    holds_literal v entry.1 entry.2 (h entry.1 (List.mem_map.mpr ⟨entry, hentry, rfl⟩))
  constructor
  · intro hall entry hentry
    exact (hliteral entry hentry).mp (hall entry hentry)
  · intro hall entry hentry
    exact (hliteral entry hentry).mpr (hall entry hentry)

/-- A sum of product terms holds where one of them does. -/
theorem holds_ofProductTerms (v : String → Bool) (terms : List Assignment)
    (h : ∀ a ∈ terms, ∀ name ∈ a.names, isConstantName name = false) :
    (ofProductTerms terms).holds v = true ↔ ∃ a ∈ terms, a.ExtendedBy v := by
  rw [ofProductTerms, holds_disjunction]
  constructor
  · intro hsome
    obtain ⟨f, hf, hholds⟩ := hsome
    obtain ⟨a, ha, rfl⟩ := List.mem_map.mp hf
    exact ⟨a, ha, (holds_ofAssignment v a (h a ha)).mp hholds⟩
  · intro hsome
    obtain ⟨a, ha, hextended⟩ := hsome
    exact ⟨ofAssignment a, List.mem_map_of_mem ha, (holds_ofAssignment v a (h a ha)).mpr hextended⟩

theorem over_foldl (op : Connective) (fs : List Formula) (f : Formula) (hf : f.Over names)
    (hfs : ∀ g ∈ fs, g.Over names) : (fs.foldl (.binary op) f).Over names := by
  induction fs generalizing f with
  | nil => exact hf
  | cons first fs ih =>
    apply ih
    · rw [over_binary_iff]
      exact ⟨hf, hfs first List.mem_cons_self⟩
    · intro g hg
      exact hfs g (List.mem_cons_of_mem first hg)

theorem over_joinAll (op : Connective) (unit : Formula) (hunit : unit.Over names)
    (fs : List Formula) (hfs : ∀ g ∈ fs, g.Over names) : (joinAll op unit fs).Over names := by
  cases fs with
  | nil => exact hunit
  | cons first fs =>
    apply over_foldl
    · exact hfs first List.mem_cons_self
    · intro g hg
      exact hfs g (List.mem_cons_of_mem first hg)

theorem over_verum : verum.Over names := by simp [Over, verum, atomNames, isConstantName]

theorem over_falsum : falsum.Over names := by simp [Over, falsum, atomNames, isConstantName]

theorem over_literal (name : String) (value : Bool) (h : name ∈ names) :
    (literal name value).Over names := by
  intro other hother
  have hname : other = name := by
    cases value <;> exact List.mem_singleton.mp hother
  exact Or.inr (hname ▸ h)

theorem over_ofProductTerms (terms : List Assignment) (h : ∀ a ∈ terms, a.names ⊆ names) :
    (ofProductTerms terms).Over names := by
  apply over_joinAll
  · exact over_falsum
  · intro f hf
    obtain ⟨a, ha, rfl⟩ := List.mem_map.mp hf
    apply over_joinAll
    · exact over_verum
    · intro g hg
      obtain ⟨entry, hentry, rfl⟩ := List.mem_map.mp hg
      exact over_literal entry.1 entry.2 (h a ha (List.mem_map.mpr ⟨entry, hentry, rfl⟩))

theorem not_constant_of_mem_vars (f : Formula) (name : String) (h : name ∈ f.vars) :
    isConstantName name = false := by
  have hvariable := ((mem_vars f name).mp h).2
  rw [isVariableName, Bool.and_eq_true] at hvariable
  simpa using hvariable.2

/-- The sum of the satisfying assignments holds where the formula does. -/
theorem holds_of_terms (f : Formula) (hf : f.Over f.vars) (terms : List Assignment)
    (hterms : ∀ a, a ∈ terms ↔ a.names = f.vars ∧ f.holds a.value = true) (v : String → Bool) :
    (ofProductTerms terms).holds v = f.holds v := by
  rw [Bool.eq_iff_iff, holds_ofProductTerms]
  · constructor
    · intro hsome
      obtain ⟨a, ha, hextended⟩ := hsome
      obtain ⟨hnames, hholds⟩ := (hterms a).mp ha
      rw [Assignment.extendedBy_iff, hnames] at hextended
      rw [holds_congr f.vars f hf v a.value hextended, hholds]
    · intro hholds
      -- the row of the truth table that has the values of the valuation
      obtain ⟨a, hnames, hvalue⟩ := Assignment.exists_of_valuation f.vars (nodup_vars f) v
      have hsame := holds_congr f.vars f hf a.value v hvalue
      refine ⟨a, (hterms a).mpr ⟨hnames, hsame.trans hholds⟩, ?_⟩
      rw [Assignment.extendedBy_iff, hnames]
      exact fun name hname => (hvalue name hname).symm
  · intro a ha name hname
    exact not_constant_of_mem_vars f name (((hterms a).mp ha).1 ▸ hname)

end Formula

end CubeCover
