import CubeCover.Formula.Normal
import CubeCover.Proofs.Formula.Truth
import Mathlib.Algebra.GroupWithZero.Nat
import Mathlib.Data.List.Nodup

/-! The truth table lists every assignment to the variables of a formula once, and its rows that are
true are the product terms. -/
namespace CubeCover

/-- The number with some bits, the lowest first: the sum of the powers of two at the places of the bits that
are set. -/
def numberOfBits (bits : List Bool) : Nat :=
  ((bits.zipIdx.filter Prod.fst).map fun entry => Nat.pow 2 entry.2).sum

/-- Every place that is one higher doubles its power of two. -/
theorem sum_pow_succ (entries : List (Bool × Nat)) :
    (entries.map fun entry => Nat.pow 2 (entry.2 + 1)).sum =
      2 * (entries.map fun entry => Nat.pow 2 entry.2).sum := by
  induction entries with
  | nil => rfl
  | cons entry entries ih =>
    have hpow : Nat.pow 2 (entry.2 + 1) = 2 * Nat.pow 2 entry.2 := Nat.pow_succ'
    rw [List.map_cons, List.sum_cons, ih, hpow, List.map_cons, List.sum_cons, Nat.mul_add]

/-- The first bit goes below those of the number of the other bits. -/
theorem numberOfBits_cons (bit : Bool) (bits : List Bool) :
    numberOfBits (bit :: bits) = 2 * numberOfBits bits + bit.toNat := by
  have hrest : (((bits.zipIdx 1).filter Prod.fst).map fun entry => Nat.pow 2 entry.2).sum =
      2 * numberOfBits bits := by
    rw [List.zipIdx_succ, List.filter_map, List.map_map]
    exact sum_pow_succ _
  cases bit with
  | true =>
    rw [numberOfBits, List.zipIdx_cons, List.filter_cons_of_pos rfl, List.map_cons, List.sum_cons,
      hrest, Nat.add_comm]
    rfl
  | false =>
    rw [numberOfBits, List.zipIdx_cons, List.filter_cons_of_neg Bool.false_ne_true, hrest]
    rfl

theorem numberOfBits_lt (bits : List Bool) : numberOfBits bits < Nat.pow 2 bits.length := by
  induction bits with
  | nil => decide
  | cons bit bits ih =>
    have hbit := bit.toNat_lt
    have hpow : Nat.pow 2 (bit :: bits).length = 2 * Nat.pow 2 bits.length := Nat.pow_succ'
    rw [numberOfBits_cons]
    omega

/-- The bits are read off their number. -/
theorem map_testBit_numberOfBits (bits : List Bool) :
    (List.range bits.length).map (numberOfBits bits).testBit = bits := by
  induction bits with
  | nil => rfl
  | cons bit bits ih =>
    have hfirst : (2 * numberOfBits bits + bit.toNat).testBit 0 = bit := by
      cases bit <;> simp [Nat.testBit_zero]
    have hrest (j : Nat) : (2 * numberOfBits bits + bit.toNat).testBit (j + 1) =
        (numberOfBits bits).testBit j := by
      have hhalf : (2 * numberOfBits bits + bit.toNat) / 2 = numberOfBits bits := by
        have hbit := bit.toNat_lt
        omega
      rw [Nat.testBit_add_one, hhalf]
    rw [numberOfBits_cons, List.length_cons, List.range_succ_eq_map, List.map_cons, List.map_map,
      hfirst]
    exact congrArg _ ((List.map_congr_left fun j _ => hrest j).trans ih)

namespace Assignment

theorem entries_ofIndex (names : List String) (h : names.Nodup) (i : Nat) :
    (ofIndex names i).entries = names.zipIdx.map fun entry => (entry.1, i.testBit entry.2) := by
  apply Bindings.entries_ofList
  have hnames : (names.zipIdx.map fun entry => (entry.1, i.testBit entry.2)).map Prod.fst =
      names := by
    rw [List.map_map]
    exact List.zipIdx_map_fst 0 names
  rw [hnames]
  exact h

theorem names_ofIndex (names : List String) (h : names.Nodup) (i : Nat) :
    (ofIndex names i).names = names := by
  rw [Bindings.names, entries_ofIndex names h, List.map_map]
  exact List.zipIdx_map_fst 0 names

theorem values_ofIndex (names : List String) (h : names.Nodup) (i : Nat) :
    (ofIndex names i).values = (List.range names.length).map i.testBit := by
  calc (ofIndex names i).values
      = (names.zipIdx.map fun entry => (entry.1, i.testBit entry.2)).map Prod.snd := by
        rw [Bindings.values, entries_ofIndex names h]
    _ = (names.zipIdx.map Prod.snd).map i.testBit := by
        rw [List.map_map, List.map_map]
        rfl
    _ = (List.range names.length).map i.testBit := by
        rw [List.zipIdx_map_snd, List.range_eq_range']

/-- No assignment stands in two rows: numbers below a power of two are told apart by their bits. -/
theorem nodup_all (names : List String) (h : names.Nodup) : (all names).Nodup := by
  apply List.Nodup.map_on _ List.nodup_range
  intro i hi j hj hsame
  rw [List.mem_range] at hi hj
  have hbits : (List.range names.length).map i.testBit =
      (List.range names.length).map j.testBit := by
    rw [← values_ofIndex names h, ← values_ofIndex names h, hsame]
  rw [List.map_inj_left] at hbits
  apply Nat.eq_of_testBit_eq
  intro n
  by_cases hn : n < names.length
  · exact hbits n (List.mem_range.mpr hn)
  · -- all higher bits are zero
    have hpow : 2 ^ names.length ≤ 2 ^ n := Nat.pow_le_pow_right (by decide) (by omega)
    rw [Nat.testBit_lt_two_pow (Nat.lt_of_lt_of_le hi hpow),
      Nat.testBit_lt_two_pow (Nat.lt_of_lt_of_le hj hpow)]

/-- The number of the row in which an assignment stands: the sum of the powers of two at the places of its
true values. -/
def rowNumber (a : Assignment) : Nat := numberOfBits a.values

theorem length_all (names : List String) : (all names).length = Nat.pow 2 names.length := by
  rw [all, List.length_map, List.length_range]

theorem rowNumber_lt {names : List String} {a : Assignment} (ha : a.names = names) :
    a.rowNumber < (all names).length := by
  rw [length_all, ← ha, ← a.length_values]
  exact numberOfBits_lt a.values

theorem ofIndex_rowNumber {names : List String} (h : names.Nodup) {a : Assignment}
    (ha : a.names = names) : ofIndex names a.rowNumber = a := by
  apply Bindings.eq_of_names_of_values
  · rw [names_ofIndex names h, ha]
  · rw [values_ofIndex names h, ← ha, ← a.length_values]
    exact map_testBit_numberOfBits a.values

/-- An assignment stands in the row of its number and in no other. -/
theorem getElem?_all_iff {names : List String} (h : names.Nodup) {a : Assignment}
    (ha : a.names = names) (i : Nat) : (all names)[i]? = some a ↔ i = a.rowNumber := by
  have hlt := rowNumber_lt ha
  have hrow : (all names)[a.rowNumber]? = some a := by
    rw [length_all] at hlt
    rw [all, List.getElem?_map, List.getElem?_range hlt, Option.map_some, ofIndex_rowNumber h ha]
  rw [← hrow, eq_comm, List.getElem?_inj hlt (nodup_all names h), eq_comm]

/-- The rows of the truth table are the assignments to the names in their order. -/
theorem mem_all (names : List String) (h : names.Nodup) (a : Assignment) :
    a ∈ all names ↔ a.names = names := by
  constructor
  · intro hrow
    obtain ⟨i, _, rfl⟩ := List.mem_map.mp hrow
    exact names_ofIndex names h i
  · intro ha
    exact List.mem_of_getElem? ((getElem?_all_iff h ha a.rowNumber).mpr rfl)

theorem value_of_mem (a : Assignment) (name : String) (value : Bool)
    (h : (name, value) ∈ a.entries) : a.value name = value := by
  rw [Assignment.value, (a.get?_eq_some_iff name value).mpr h]
  rfl

theorem get?_of_mem (a : Assignment) (name : String) (h : name ∈ a.names) :
    a.get? name = some (a.value name) := by
  obtain ⟨value, hvalue⟩ := a.exists_get?_of_mem_names name h
  rw [Assignment.value, hvalue]
  rfl

theorem get?_eq_none (a : Assignment) (name : String) (h : name ∉ a.names) :
    a.get? name = none := by
  rw [Option.eq_none_iff_forall_ne_some]
  intro value hvalue
  exact h (List.mem_map.mpr ⟨_, (a.get?_eq_some_iff name value).mp hvalue, rfl⟩)

theorem values_eq_map (a : Assignment) : a.values = a.names.map a.value := by
  rw [Bindings.values, Bindings.names, List.map_map]
  apply List.map_congr_left
  intro entry hentry
  exact (a.value_of_mem entry.1 entry.2 hentry).symm

theorem exists_of_valuation (names : List String) (h : names.Nodup) (v : String → Bool) :
    ∃ a : Assignment, a.names = names ∧ ∀ name ∈ names, a.value name = v name := by
  have hnames : (names.map fun name => (name, v name)).map Prod.fst = names := by
    rw [List.map_map]
    exact List.map_id names
  refine ⟨⟨names.map fun name => (name, v name), hnames.symm ▸ h⟩, hnames, ?_⟩
  intro name hname
  exact value_of_mem _ name (v name) (List.mem_map.mpr ⟨name, hname, rfl⟩)

end Assignment

namespace Formula

theorem select_eq_filter (f : Formula) (p : Assignment → Bool) (as : List Assignment)
    (h : ∀ a ∈ as, f.evaluate a = .ok (p a)) : f.select as = .ok (as.filter p) := by
  induction as with
  | nil => rfl
  | cons a as ih =>
    rw [select, h a List.mem_cons_self, ih fun b hb => h b (List.mem_cons_of_mem a hb)]
    cases hp : p a <;> simp [hp]

theorem foldl_keep_of_nodup (terms kept : List Assignment) (h : (kept.reverse ++ terms).Nodup) :
    terms.foldl (fun kept a => if kept.contains a then kept else a :: kept) kept =
      terms.reverse ++ kept := by
  induction terms generalizing kept with
  | nil => rfl
  | cons first terms ih =>
    have hnew : first ∉ kept := by
      intro hmem
      exact (List.nodup_append.mp h).2.2 _ (List.mem_reverse.mpr hmem) _ List.mem_cons_self rfl
    have hkeep : (if kept.contains first then kept else first :: kept) = first :: kept := by
      simp [hnew]
    rw [List.foldl_cons, hkeep, ih]
    · simp
    · simpa using h

theorem distinct_of_nodup (terms : List Assignment) (h : terms.Nodup) : distinct terms = terms := by
  rw [distinct, foldl_keep_of_nodup terms [] (by simpa using h), List.append_nil,
    List.reverse_reverse]

/-- The true rows of the truth table of a formula without the atom that has no name are those under which it
holds. -/
theorem trueAssignments_eq (f : Formula) (h : "" ∉ f.atomNames) :
    f.trueAssignments = .ok ((Assignment.all f.vars).filter fun a => f.holds a.value) := by
  apply select_eq_filter
  intro a ha
  have hnames := (Assignment.mem_all f.vars (nodup_vars f) a).mp ha
  exact evaluate_eq_holds f.vars f (over_vars f h) a fun name hname => hnames.symm ▸ hname

/-- No true row is met twice, so that they all are product terms. -/
theorem productTerms_eq (f : Formula) (h : "" ∉ f.atomNames) :
    f.productTerms = .ok ((Assignment.all f.vars).filter fun a => f.holds a.value) := by
  have hnodup := (Assignment.nodup_all f.vars (nodup_vars f)).filter fun a => f.holds a.value
  rw [productTerms, trueAssignments_eq f h]
  exact congrArg Except.ok (distinct_of_nodup _ hnodup)

theorem productTerms_spec (f : Formula) (h : "" ∉ f.atomNames) :
    ∃ terms, f.productTerms = .ok terms ∧
      ∀ a, a ∈ terms ↔ a.names = f.vars ∧ f.holds a.value = true := by
  refine ⟨_, productTerms_eq f h, ?_⟩
  intro a
  rw [List.mem_filter, Assignment.mem_all f.vars (nodup_vars f)]

end Formula

end CubeCover
