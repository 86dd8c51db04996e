import CubeCover.Proofs.Cube.Corners
import CubeCover.Proofs.Cube.Irredundant
import CubeCover.Proofs.PrimeCover
import CubeCover.Proofs.Table.Combinations

/-! How large the result of a minimization can become: the cover beside the satisfying assignments, and
the table beside the number of variables. -/
namespace CubeCover

namespace Minimization

variable {s : Settings} {f : Formula} {m : Minimization}

/-- No cube of the cover lies in another one, and their points are the satisfying ones. -/
theorem cover_spec (hf : "" ∉ f.atomNames) (h : ofFormula s f = .ok m) :
    m.cover.Pairwise Cube.Apart ∧ ∀ c ∈ m.cover, c.points ⊆ m.terms.map Cube.ofAssignment := by
  obtain ⟨hlength, hpoints, hapart⟩ := seeds_spec hf h
  cases ht : m.table? with
  | none =>
    have hcover : m.cover = [] := by rw [cover, ht]
    rw [hcover]
    exact ⟨.nil, fun c hc => absurd hc List.not_mem_nil⟩
  | some t =>
    obtain ⟨t₀, hrows, rfl, hcover⟩ := run_of_table? hf h ht
    have hend := t₀.reachable_run s.exhaustive
    rw [hcover]
    constructor
    · exact Table.pairwise_apart_of_seedRows m.vars.length hlength hapart hrows hend
    · exact ((Table.Represents.of_seedRows hlength hrows).of_reachable hend).points_subset hpoints

theorem length_terms_le (hf : "" ∉ f.atomNames) (h : ofFormula s f = .ok m) :
    m.terms.length ≤ Nat.pow 2 m.vars.length := by
  calc m.terms.length
      ≤ (Assignment.all f.vars).length := by
        rw [terms_eq hf h]
        exact List.length_filter_le _ _
    _ = Nat.pow 2 m.vars.length := by
        rw [Assignment.all, List.length_map, List.length_range, vars, (ofFormula_cases h).1]

/-- Each row is that of a term or of a combination, and in the exhaustive mode all pairs of the cover
that clash are combined. -/
theorem table_size (hf : "" ∉ f.atomNames) (h : ofFormula s f = .ok m) {t : Table}
    (ht : m.table? = some t) :
    t.size = m.terms.length + t.combinations.length ∧
      (s.exhaustive = true → ∀ cubes : List Cube, cubes.Nodup → cubes ⊆ m.cover →
        (Cube.clashes cubes).length ≤ 2 * t.combinations.length) := by
  obtain ⟨hlength, _, hapart⟩ := seeds_spec hf h
  obtain ⟨t₀, hrows, rfl, hcover⟩ := run_of_table? hf h ht
  constructor
  · apply (t₀.reachable_run s.exhaustive).size_eq
    rw [Table.size_of_seedRows hrows, Table.combinations_of_seedRows hrows, List.length_map]
    rfl
  · intro hs cubes hnodup hsubset
    have hstart := Table.uniform_of_seedRows hrows m.vars.length hlength
    have hlast := t₀.run_end true m.vars.length hstart
    rw [hs] at hcover ⊢
    rw [hcover] at hsubset
    have hledger := (Table.ledger_run hlength (Cube.nodup_of_pairwise_apart hapart) hrows true).1
    exact hledger.length_clashes_le hnodup hsubset hlast.1 hlast.2

end Minimization

/-- The exhaustive run on a disjunction of two names starts with its three satisfying assignments. -/
theorem exists_minimize_of_disjunction :
    ∃ m t, minimize { Settings.usual with exhaustive := true } "x or y" = .ok m ∧
      m.terms.map Cube.ofAssignment = [⟨[.one, .zero]⟩, ⟨[.zero, .one]⟩, ⟨[.one, .one]⟩] ∧
      Table.ofSeeds [⟨[.one, .zero]⟩, ⟨[.zero, .one]⟩, ⟨[.one, .one]⟩] = .ok t ∧
      m.table? = some (t.run true).table ∧ m.cover = (t.run true).table.survivors := by
  have hread : Formula.parse "x or y" = .ok (.binary .or (.atom "x") (.atom "y")) := by cbv
  have hnames : (Formula.binary .or (.atom "x") (.atom "y")).vars = ["x", "y"] :=
    (Formula.vars_eq_foldl _).trans (by decide)
  obtain ⟨m, t, hm, _, hrest⟩ := exists_minimize_of_seeds
    { Settings.usual with exhaustive := true } ["x", "y"]
    [⟨[.one, .zero]⟩, ⟨[.zero, .one]⟩, ⟨[.one, .one]⟩] hread (by decide) hnames (by decide)
    (by decide) (by decide)
  exact ⟨m, t, hm, hrest⟩

/-- A cover without a superfluous cube has no more cubes than there are satisfying assignments, and every
cover has such a part with the same points. The cover as a whole may have more cubes, though not more than
the square of the number of assignments. In the exhaustive mode it consists of all prime implicants. -/
theorem irredundant_cover_fits_terms (s : Settings) (text : String) (m : Minimization)
    (h : minimize s text = .ok m) :
    (Cube.Irredundant m.cover → m.cover.length ≤ m.terms.length) ∧
      (∃ kept : List Cube, kept.Sublist m.cover ∧ Cube.Irredundant kept ∧
        (∀ d, Cube.IsImplicant kept d ↔ Cube.IsImplicant m.cover d) ∧
        kept.length ≤ m.terms.length) ∧
      m.cover.length ≤ m.terms.length * m.terms.length ∧
      m.cover.Nodup ∧
      (s.exhaustive = true →
        ∀ c, c ∈ m.cover ↔ Cube.IsPrimeImplicant (m.terms.map Cube.ofAssignment) c) := by
  obtain ⟨_, _, hf, hm⟩ := minimize_cases h
  obtain ⟨hapart, hpoints⟩ := Minimization.cover_spec hf hm
  have hnodup := Cube.nodup_of_pairwise_apart hapart
  have hlength : (m.terms.map Cube.ofAssignment).length = m.terms.length := List.length_map _
  rw [← hlength]
  refine ⟨?_, ?_, ?_, hnodup, ?_⟩
  · intro hirredundant
    exact hirredundant.length_le hpoints
  · obtain ⟨kept, hsublist, hirredundant, hsame⟩ := Cube.exists_irredundant_sublist m.cover
    refine ⟨kept, hsublist, hirredundant, hsame, ?_⟩
    apply hirredundant.length_le
    intro c hc
    exact hpoints c (hsublist.subset hc)
  · exact Cube.length_le_of_points hnodup hpoints
  · intro hs c
    exact Minimization.mem_cover_iff hf hm hs c

/-- The exhaustive cover of a disjunction is without a superfluous cube: two cubes for three
assignments. -/
theorem irredundant_cover_fits_terms_of_disjunction :
    ∃ m, minimize { Settings.usual with exhaustive := true } "x or y" = .ok m ∧
      m.terms.length = 3 ∧ m.cover = [⟨[.free, .one]⟩, ⟨[.one, .free]⟩] ∧
      Cube.Irredundant m.cover ∧ m.cover.length ≤ m.terms.length ∧
      Cube.IsPrimeImplicant (m.terms.map Cube.ofAssignment) ⟨[.free, .one]⟩ := by
  obtain ⟨m, t, hm, hterms, ht, _, hcover⟩ := exists_minimize_of_disjunction
  have hsurvivors : m.cover = [⟨[.free, .one]⟩, ⟨[.one, .free]⟩] := by
    obtain rfl := Except.ok.inj ht
    rw [hcover]
    exact beq_iff_eq.mp (Run.complete_check 14
      (fun r => r.table.survivors == [⟨[.free, .one]⟩, ⟨[.one, .free]⟩]) (by decide))
  have hlength : m.terms.length = 3 :=
    (List.length_map Cube.ofAssignment).symm.trans (congrArg List.length hterms)
  have hirredundant : Cube.Irredundant m.cover := by
    rw [hsurvivors, Cube.irredundant_iff_of_nodup (by decide)]
    decide
  obtain ⟨hfits, _, _, _, hprimes⟩ := irredundant_cover_fits_terms _ _ m hm
  refine ⟨m, hm, hlength, hsurvivors, hirredundant, hfits hirredundant, (hprimes rfl _).mp ?_⟩
  rw [hsurvivors]
  exact List.mem_cons_self

/-- A formula that holds at nine of sixteen points and has ten prime implicants. -/
def nineOfSixteen : Formula :=
  .binary .and (.binary .or (.atom "a") (.atom "b"))
    (.binary .or (.binary .and (.atom "c") (.atom "d"))
      (.binary .or (.binary .and (.atom "a") (.binary .and (.atom "b") (.not (.atom "c"))))
        (.binary .and (.not (.atom "d")) (.binary .or (.not (.atom "a")) (.not (.atom "b"))))))

/-- In neither mode need the cover be as small as the set of satisfying assignments. -/
theorem cover_exceeds_terms :
    ∃ m₁ m₂, minimize Settings.usual
        "(a or b) and (c and d or a and b and not c or not d and (not a or not b))" = .ok m₁ ∧
      minimize { Settings.usual with exhaustive := true }
        "(a or b) and (c and d or a and b and not c or not d and (not a or not b))" = .ok m₂ ∧
      m₁.terms.length = 9 ∧ m₁.cover.length = 10 ∧
      m₂.terms.length = 9 ∧ m₂.cover.length = 10 := by
  have hread : Formula.parse
      "(a or b) and (c and d or a and b and not c or not d and (not a or not b))" =
        .ok nineOfSixteen := by
    rw [nineOfSixteen]
    cbv
  have hnames : nineOfSixteen.vars = ["a", "b", "c", "d"] :=
    (Formula.vars_eq_foldl _).trans (by decide)
  have hseeds : ((Assignment.all ["a", "b", "c", "d"]).filter fun a =>
      nineOfSixteen.holds a.value).map Cube.ofAssignment =
        [⟨[.one, .zero, .zero, .zero]⟩, ⟨[.zero, .one, .zero, .zero]⟩, ⟨[.one, .one, .zero, .zero]⟩,
          ⟨[.one, .zero, .one, .zero]⟩, ⟨[.zero, .one, .one, .zero]⟩, ⟨[.one, .one, .zero, .one]⟩,
          ⟨[.one, .zero, .one, .one]⟩, ⟨[.zero, .one, .one, .one]⟩, ⟨[.one, .one, .one, .one]⟩] := by
    decide +kernel
  obtain ⟨m₁, t₁, hm₁, _, hterms₁, ht₁, _, hcover₁⟩ := exists_minimize_of_seeds Settings.usual _ _
    hread (by decide) hnames (by decide) (by decide) hseeds
  obtain ⟨m₂, t₂, hm₂, _, hterms₂, ht₂, _, hcover₂⟩ := exists_minimize_of_seeds
    { Settings.usual with exhaustive := true } _ _ hread (by decide) hnames (by decide) (by decide)
    hseeds
  obtain rfl := Except.ok.inj ht₁
  obtain rfl := Except.ok.inj ht₂
  refine ⟨m₁, m₂, hm₁, hm₂, ?_, ?_, ?_, ?_⟩
  · exact (List.length_map Cube.ofAssignment).symm.trans (congrArg List.length hterms₁)
  · rw [hcover₁]
    exact beq_iff_eq.mp (Run.complete_check 199
      (fun r => r.table.survivors.length == 10) (by decide +kernel))
  · exact (List.length_map Cube.ofAssignment).symm.trans (congrArg List.length hterms₂)
  · rw [hcover₂]
    exact beq_iff_eq.mp (Run.complete_check 200
      (fun r => r.table.survivors.length == 10) (by decide +kernel))

/-- The rows of the table are the satisfying assignments and one row for each pair of rows that was
combined: of rows that were not cancelled when they were appended, and conflict at one place. There are no
more of those rows than cubes, and no more of those pairs than pairs of cubes with one conflict. In the
exhaustive mode there are at least as many pairs as clash in the cover. -/
theorem table_rows_are_terms_and_combinations (s : Settings) (text : String) (m : Minimization)
    (t : Table) (h : minimize s text = .ok m) (ht : m.table? = some t) :
    t.size = m.terms.length + t.combinations.length ∧
      t.combinations.Nodup ∧
      (∀ outer inner : Nat, (outer, inner) ∈ t.combinations → ∃ a b, t.Clash outer inner a b) ∧
      (t.rows.toList.filter Row.wasActive).length ≤ Nat.pow 3 m.vars.length ∧
      t.size ≤ Nat.pow 2 m.vars.length + m.vars.length * Nat.pow 7 (m.vars.length - 1) ∧
      (s.exhaustive = true → (Cube.clashes m.cover).length ≤ 2 * t.combinations.length) := by
  obtain ⟨_, _, hf, hm⟩ := minimize_cases h
  obtain ⟨hlength, _, hapart⟩ := Minimization.seeds_spec hf hm
  obtain ⟨hsize, hclashes⟩ := Minimization.table_size hf hm ht
  obtain ⟨t₀, hrows, rfl, _⟩ := Minimization.run_of_table? hf hm ht
  have huniform := (t₀.reachable_run s.exhaustive).uniform m.vars.length
    (Table.uniform_of_seedRows hrows m.vars.length hlength)
  obtain ⟨hledger, hfresh⟩ :=
    Table.ledger_run hlength (Cube.nodup_of_pairwise_apart hapart) hrows s.exhaustive
  refine ⟨hsize, hledger.nodup, fun outer inner hmem => hledger.clash (outer, inner) hmem,
    hfresh.length_wasActive_le huniform, ?_, ?_⟩
  · calc (t₀.run s.exhaustive).table.size
        = m.terms.length + (t₀.run s.exhaustive).table.combinations.length := hsize
      _ ≤ Nat.pow 2 m.vars.length + m.vars.length * Nat.pow 7 (m.vars.length - 1) := by
        apply Nat.add_le_add (Minimization.length_terms_le hf hm)
        exact hledger.length_combinations_le hfresh huniform
  · intro hs
    have hnodup := Cube.nodup_of_pairwise_apart (Minimization.cover_spec hf hm).1
    exact hclashes hs m.cover hnodup (List.Subset.refl _)

/-- A tautology in one variable has two satisfying assignments, and the third row is their consensus. -/
theorem table_rows_are_terms_and_combinations_of_tautology :
    ∃ m t, minimize { Settings.usual with exhaustive := true } "x or not x" = .ok m ∧
      m.table? = some t ∧ t.combinations = [(1, 0)] ∧
      t.size = m.terms.length + t.combinations.length ∧
      (∃ a b, t.Clash 1 0 a b) ∧ (t.rows.toList.filter Row.wasActive).length ≤ Nat.pow 3 1 ∧
      t.size ≤ Nat.pow 2 1 + 1 * Nat.pow 7 (1 - 1) ∧
      (Cube.clashes m.cover).length ≤ 2 * t.combinations.length := by
  have hread : Formula.parse "x or not x" =
      .ok (.binary .or (.atom "x") (.not (.atom "x"))) := by cbv
  have hnames : (Formula.binary .or (.atom "x") (.not (.atom "x"))).vars = ["x"] :=
    (Formula.vars_eq_foldl _).trans (by decide)
  obtain ⟨m, t₀, hm, hvars, _, ht₀, htable, _⟩ := exists_minimize_of_seeds
    { Settings.usual with exhaustive := true } ["x"] [⟨[.zero]⟩, ⟨[.one]⟩] hread (by decide) hnames
    (by decide) (by decide) (by decide)
  have hcombinations : (t₀.run true).table.combinations = [(1, 0)] := by
    obtain rfl := Except.ok.inj ht₀
    exact beq_iff_eq.mp (Run.complete_check 5 (fun r => r.table.combinations == [(1, 0)]) (by decide))
  obtain ⟨hsize, _, hclash, hwas, hbound, hclashes⟩ :=
    table_rows_are_terms_and_combinations _ _ m _ hm htable
  rw [hvars] at hwas hbound
  refine ⟨m, _, hm, htable, hcombinations, hsize, hclash 1 0 ?_, hwas, hbound, hclashes rfl⟩
  rw [hcombinations]
  exact List.mem_singleton_self _

/-- Of six variables at least two are true, but not all of them. -/
def twoToFiveOfSix : Formula :=
  .binary .and
    (.binary .or (.binary .and (.atom "a") (.binary .or (.atom "b") (.binary .or (.atom "c")
        (.binary .or (.atom "d") (.binary .or (.atom "e") (.atom "f"))))))
      (.binary .or (.binary .and (.atom "b") (.binary .or (.atom "c") (.binary .or (.atom "d")
          (.binary .or (.atom "e") (.atom "f")))))
        (.binary .or (.binary .and (.atom "c") (.binary .or (.atom "d")
            (.binary .or (.atom "e") (.atom "f"))))
          (.binary .or (.binary .and (.atom "d") (.binary .or (.atom "e") (.atom "f")))
            (.binary .and (.atom "e") (.atom "f"))))))
    (.not (.binary .and (.atom "a") (.binary .and (.atom "b") (.binary .and (.atom "c")
      (.binary .and (.atom "d") (.binary .and (.atom "e") (.atom "f")))))))

def twoToFiveOfSixText : String :=
  "(a and (b or c or d or e or f) or b and (c or d or e or f) or c and (d or e or f) or " ++
    "d and (e or f) or e and f) and not (a and b and c and d and e and f)"

theorem parse_twoToFiveOfSix : Formula.parse twoToFiveOfSixText = .ok twoToFiveOfSix := by
  have hwords : ∀ name ∈ twoToFiveOfSix.atomNames, IsWord name := by decide +kernel
  have htext : twoToFiveOfSix.toText = twoToFiveOfSixText := by decide +kernel
  rw [← htext]
  exact Formula.parse_toText _ fun name hname => (hwords name hname).isLexeme

/-- The points of six places at which two to five digits are one. -/
def twoToFiveOnes : List Cube :=
  ((Assignment.all ["a", "b", "c", "d", "e", "f"]).map Cube.ofAssignment).filter fun p =>
    2 ≤ p.digits.count .one && 1 ≤ p.digits.count .zero

/-- The cubes of six places with two ones, one zero and three free digits. -/
def twoOnesOneZero : List Cube :=
  ((Cube.digitLists 6).filter fun ds => ds.count .one == 2 && ds.count .zero == 1).map Cube.mk

theorem isPrimeImplicant_of_mem_twoOnesOneZero {c : Cube} (hc : c ∈ twoOnesOneZero) :
    Cube.IsPrimeImplicant twoToFiveOnes c := by
  -- the points of the cube have the ones and the zero, and without one of these some point is outside
  have hcheck : ∀ c ∈ twoOnesOneZero, c.length = 6 ∧
      (∀ p ∈ c.points, (2 ≤ p.digits.count .one && 1 ≤ p.digits.count .zero) = true) ∧
      ∀ i < c.length, c.digits[i]? ≠ some .free → ∃ p ∈ Cube.points ⟨c.digits.set i .free⟩,
        (2 ≤ p.digits.count .one && 1 ≤ p.digits.count .zero) = false := by
    decide +kernel
  obtain ⟨hlength, hinside, houtside⟩ := hcheck c hc
  have hpoints : ∀ s ∈ twoToFiveOnes, s.IsPoint := by
    intro s hs
    obtain ⟨a, _, rfl⟩ := List.mem_map.mp (List.mem_filter.mp hs).1
    exact Cube.isPoint_ofAssignment a
  apply Cube.isPrimeImplicant_of_points hpoints
  · intro p hp
    have hpoint := (Cube.mem_points_iff c p).mp hp
    have hsame : p.length = 6 := (Cube.covers_length c p hpoint.2).symm.trans hlength
    obtain ⟨a, hnames, rfl⟩ := Cube.exists_assignment_of_isPoint ["a", "b", "c", "d", "e", "f"]
      (by decide) p hpoint.1 hsame
    have ha := (Assignment.mem_all _ (by decide) a).mpr hnames
    exact List.mem_filter.mpr ⟨List.mem_map_of_mem ha, hinside _ hp⟩
  · intro i hi hfree hsubset
    obtain ⟨p, hp, hout⟩ := houtside i hi hfree
    exact absurd (hout.symm.trans (List.mem_filter.mp (hsubset hp)).2) (by decide)

/-- With six variables the table can have more rows than there are cubes. -/
theorem table_exceeds_number_of_cubes :
    ∃ m t, minimize { Settings.usual with exhaustive := true } twoToFiveOfSixText = .ok m ∧
      m.table? = some t ∧ m.vars.length = 6 ∧ Nat.pow 3 6 < t.size := by
  have hnames : twoToFiveOfSix.vars = ["a", "b", "c", "d", "e", "f"] :=
    (Formula.vars_eq_foldl _).trans (by decide +kernel)
  have hseeds : ((Assignment.all ["a", "b", "c", "d", "e", "f"]).filter fun a =>
      twoToFiveOfSix.holds a.value).map Cube.ofAssignment = twoToFiveOnes := by decide +kernel
  obtain ⟨m, t, hm, hvars, hterms, _, htable, _⟩ := exists_minimize_of_seeds
    { Settings.usual with exhaustive := true } _ _ parse_twoToFiveOfSix (by decide +kernel) hnames
    (by decide) (by decide +kernel) hseeds
  obtain ⟨_, _, hf, hof⟩ := minimize_cases hm
  obtain ⟨hsize, hclashes⟩ := Minimization.table_size hf hof htable
  refine ⟨m, _, hm, htable, by rw [hvars]; rfl, ?_⟩
  have hcover : twoOnesOneZero ⊆ m.cover := by
    intro c hc
    rw [Minimization.mem_cover_iff hf hof rfl, hterms]
    exact isPrimeImplicant_of_mem_twoOnesOneZero hc
  have hle := hclashes rfl twoOnesOneZero (by decide +kernel) hcover
  have hpairs : (Cube.clashes twoOnesOneZero).length = 1440 := by decide +kernel
  have hcount : m.terms.length = 56 := by
    rw [← List.length_map Cube.ofAssignment, hterms]
    decide +kernel
  have hpow : Nat.pow 3 6 = 729 := rfl
  omega

end CubeCover
