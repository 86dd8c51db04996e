import CubeCover.Proofs.Table.Derivation

/-! The events of a run, done over again on the table before it. They make the table of every state, so that
a run changes nothing without telling of it. An event is only done over again if it can happen, so none of
them tells what another one has told. -/
namespace CubeCover

/-- What an event is about: that a row is there, or by which row it is cancelled. -/
def Event.key : Event → Bool × Int
  | cancelled number _ _ => (false, number)
  | appended row => (true, row.number)

namespace Table

/-- Does an event over again, if it can happen. A row that is cancelled has to be active and to have the
number and the cube that are told of it, and a row that is appended the number that comes next. -/
def replay? (t : Table) : Event → Option Table
  | .cancelled number cube canceller =>
    (t.row? number).bind fun row =>
      if row.isActive = true ∧ row.number = number ∧ row.cube = cube then
        t.setCancelled? number (some canceller)
      else none
  | .appended row => if row.number = t.nextNumber then some ⟨t.rows.push row⟩ else none

def replayAll? (t : Table) (events : List Event) : Option Table := events.foldlM replay? t

variable {t t' : Table} {e : Event} {outer inner : Nat}

theorem replayAll?_nil (t : Table) : t.replayAll? [] = some t := rfl

theorem replayAll?_append (t : Table) (events events' : List Event) :
    t.replayAll? (events ++ events') = (t.replayAll? events).bind (·.replayAll? events') :=
  List.foldlM_append

theorem replayAll?_cons (t : Table) (e : Event) (events : List Event) :
    t.replayAll? (e :: events) = (t.replay? e).bind (·.replayAll? events) :=
  List.foldlM_cons

theorem replay?_appended {row : Row} (h : row.number = t.nextNumber) :
    t.replay? (.appended row) = some ⟨t.rows.push row⟩ := if_pos h

theorem replay?_cancelled {before rest : List Row} {row : Row} (hactive : row.isActive = true)
    (hnumber : row.number = Int.ofNat (before.length + 1)) (canceller : Int) :
    replay? ⟨(before ++ row :: rest).toArray⟩ (.cancelled row.number row.cube canceller) =
      some ⟨(before ++ row.cancel canceller :: rest).toArray⟩ := by
  have hrow : row? ⟨(before ++ row :: rest).toArray⟩ row.number = some row := by
    rw [hnumber, row?_succ]
    simp
  have hset : setCancelled? ⟨(before ++ row :: rest).toArray⟩ row.number (some canceller) =
      some ⟨(before ++ row.cancel canceller :: rest).toArray⟩ := by
    have hsize : before.length < size ⟨(before ++ row :: rest).toArray⟩ := by
      simp [size]
    rw [setCancelled?, hnumber, place?_pred_succ, if_pos hsize, Option.map_some]
    simp [List.modify_eq_set, Row.cancel]
  rw [replay?, hrow, Option.bind_some, if_pos ⟨hactive, rfl, rfl⟩, hset]

/-- A cancelling pass tells of each row that it cancels, even if it ends early. -/
theorem replayAll?_cancelCovered (cube : Cube) (canceller : Int) (before rest : List Row)
    (h : ∀ (i : Nat) (row : Row), rest[i]? = some row →
      row.number = Int.ofNat (before.length + i + 1)) :
    replayAll? ⟨(before ++ rest).toArray⟩ (cancelCovered cube canceller rest).events =
      some ⟨(before ++ (cancelCovered cube canceller rest).rows).toArray⟩ := by
  induction rest generalizing before with
  | nil => rfl
  | cons row rest ih =>
    -- whatever becomes of the first row, the others stand where they stood
    have hrest (row' : Row) : replayAll? ⟨(before ++ row' :: rest).toArray⟩
        (cancelCovered cube canceller rest).events =
          some ⟨(before ++ row' :: (cancelCovered cube canceller rest).rows).toArray⟩ := by
      have hnumbers : ∀ (i : Nat) (other : Row), rest[i]? = some other →
          other.number = Int.ofNat ((before ++ [row']).length + i + 1) := by
        intro i other hother
        rw [h (i + 1) other hother, List.length_append, List.length_singleton]
        congr 1
        omega
      simpa using ih (before ++ [row']) hnumbers
    rw [cancelCovered]
    split
    · rename_i hactive
      split
      · exact replayAll?_nil _
      · rw [replayAll?_cons, replay?_cancelled hactive (h 0 row rfl), Option.bind_some]
        exact hrest (row.cancel canceller)
      · exact hrest row
    · exact hrest row

theorem length_cancelCovered (cube : Cube) (canceller : Int) (rows : List Row) :
    (cancelCovered cube canceller rows).rows.length = rows.length := by
  induction rows with
  | nil => rfl
  | cons row rest ih =>
    rw [cancelCovered]
    split
    · split
      · rfl
      · exact congrArg (· + 1) ih
      · exact congrArg (· + 1) ih
    · exact congrArg (· + 1) ih

theorem replayAll?_appendConsensus (h : t.Numbered) (cube : Cube) (formedBy : List Int) :
    t.replayAll? (t.appendConsensus cube formedBy).events =
      some (t.appendConsensus cube formedBy).table := by
  have hpass : t.replayAll? (cancelCovered cube t.nextNumber t.rows.toList).events =
      some ⟨(cancelCovered cube t.nextNumber t.rows.toList).rows.toArray⟩ := by
    apply replayAll?_cancelCovered cube t.nextNumber []
    intro i row hrow
    rw [Array.getElem?_toList] at hrow
    rw [h i row hrow, List.length_nil, Nat.zero_add]
  unfold appendConsensus
  split
  · exact replayAll?_nil t
  · rw [appendTelling, List.nil_append, replayAll?_cons, replay?_appended rfl, Option.bind_some,
      replayAll?_nil]
  · dsimp only
    split
    · exact hpass
    · rw [appendTelling, replayAll?_append, hpass, Option.bind_some, replayAll?_cons,
        replay?_appended, Option.bind_some, replayAll?_nil]
      -- the pass leaves as many rows as there were
      simp [nextNumber, size, length_cancelCovered]

/-- The events of a step make the table of the step, also if it fails. -/
theorem replayAll?_combine (h : t.Numbered) (outer inner : Nat) :
    t.replayAll? (t.combine outer inner).events = some (t.combine outer inner).table := by
  unfold combine
  split
  · split
    · exact replayAll?_nil t
    · split
      · exact replayAll?_appendConsensus h _ _
      · exact replayAll?_nil t
  · exact replayAll?_nil t

theorem Numbered.combine (h : t.Numbered) (outer inner : Nat) :
    (t.combine outer inner).table.Numbered := by
  rcases combine_cases t outer inner with hsame | ⟨a, b, _, _, hstep⟩
  · rw [hsame]
    exact h
  · exact h.combined hstep

/-- The row at a place is cancelled. -/
def cancelAt (t : Table) (i : Nat) (canceller : Int) : Table :=
  ⟨t.rows.modify i (·.cancel canceller)⟩

theorem getElem?_cancelAt (t : Table) (i : Nat) (canceller : Int) (j : Nat) :
    (t.cancelAt i canceller).rows[j]? =
      if i = j then t.rows[j]?.map (·.cancel canceller) else t.rows[j]? :=
  Array.getElem?_modify

theorem nextNumber_cancelAt (t : Table) (i : Nat) (canceller : Int) :
    (t.cancelAt i canceller).nextNumber = t.nextNumber := by
  simp [nextNumber, size, cancelAt]

theorem nextNumber_push (t : Table) (row : Row) :
    nextNumber ⟨t.rows.push row⟩ = t.nextNumber + 1 := by
  simp [nextNumber, size]

theorem Numbered.cancelAt (h : t.Numbered) (i : Nat) (canceller : Int) :
    (t.cancelAt i canceller).Numbered := by
  intro j row hrow
  rw [getElem?_cancelAt] at hrow
  split at hrow
  · obtain ⟨old, hold, rfl⟩ := Option.map_eq_some_iff.mp hrow
    exact h j old hold
  · exact h j row hrow

theorem Numbered.push (h : t.Numbered) {new : Row} (hnumber : new.number = t.nextNumber) :
    Numbered ⟨t.rows.push new⟩ := by
  intro j row hrow
  rw [Array.getElem?_push] at hrow
  split at hrow
  · rename_i hj
    rw [← Option.some.inj hrow, hnumber, hj]
    rfl
  · exact h j row hrow

/-- What an event that can happen finds, and what it does. -/
theorem replay?_cases (h : t.Numbered) (hreplay : t.replay? e = some t') :
    (∃ (i : Nat) (row : Row) (canceller : Int), t.rows[i]? = some row ∧ row.isActive = true ∧
      e = .cancelled (Int.ofNat (i + 1)) row.cube canceller ∧ t' = t.cancelAt i canceller) ∨
    ∃ row : Row, e = .appended row ∧ row.number = t.nextNumber ∧ t' = ⟨t.rows.push row⟩ := by
  cases e with
  | cancelled number cube canceller =>
    obtain ⟨row, hrow, hset⟩ := Option.bind_eq_some_iff.mp hreplay
    split at hset
    · rename_i hfits
      obtain ⟨hactive, hnumber, rfl⟩ := hfits
      obtain ⟨i, _, hi⟩ := Option.bind_eq_some_iff.mp hrow
      -- the row has the number of its place, so that place is the one the number means
      have hplace : number = Int.ofNat (i + 1) := hnumber.symm.trans (h i row hi)
      subst hplace
      rw [setCancelled?, place?_pred_succ, if_pos (lt_size_of_getElem? hi), Option.map_some,
        Option.some.injEq] at hset
      exact Or.inl ⟨i, row, canceller, hi, hactive, rfl, hset.symm⟩
    · cases hset
  | appended row =>
    rw [replay?] at hreplay
    split at hreplay
    · rename_i hnumber
      exact Or.inr ⟨row, rfl, hnumber, (Option.some.inj hreplay).symm⟩
    · cases hreplay

theorem numbered_replay? (h : t.Numbered) (hreplay : t.replay? e = some t') : t'.Numbered := by
  rcases replay?_cases h hreplay with ⟨i, row, canceller, _, _, rfl, rfl⟩ | ⟨row, rfl, hnumber, rfl⟩
  · exact h.cancelAt i canceller
  · exact h.push hnumber

/-- What an event of some key would do has been done: there is such a row, or it is cancelled. -/
def Done (t : Table) : Bool × Int → Prop
  | (false, number) =>
    ∃ (i : Nat) (row : Row), number = Int.ofNat (i + 1) ∧ t.rows[i]? = some row ∧
      row.isActive = false
  | (true, number) => number < t.nextNumber

theorem Done.cancelAt {key : Bool × Int} (h : t.Done key) (i : Nat) (canceller : Int) :
    (t.cancelAt i canceller).Done key := by
  obtain ⟨kind, number⟩ := key
  cases kind with
  | true =>
    show number < (t.cancelAt i canceller).nextNumber
    rw [nextNumber_cancelAt]
    exact h
  | false =>
    obtain ⟨j, row, hnumber, hrow, hcancelled⟩ := h
    by_cases heq : i = j
    · refine ⟨j, row.cancel canceller, hnumber, ?_, rfl⟩
      rw [getElem?_cancelAt, if_pos heq, hrow, Option.map_some]
    · refine ⟨j, row, hnumber, ?_, hcancelled⟩
      rw [getElem?_cancelAt, if_neg heq]
      exact hrow

theorem Done.push {key : Bool × Int} (h : t.Done key) (new : Row) :
    Done ⟨t.rows.push new⟩ key := by
  obtain ⟨kind, number⟩ := key
  cases kind with
  | true =>
    show number < nextNumber ⟨t.rows.push new⟩
    have hlt : number < t.nextNumber := h
    rw [nextNumber_push]
    omega
  | false =>
    obtain ⟨j, row, hnumber, hrow, hcancelled⟩ := h
    have hne : j ≠ t.rows.size := Nat.ne_of_lt (lt_size_of_getElem? hrow)
    refine ⟨j, row, hnumber, ?_, hcancelled⟩
    rw [Array.getElem?_push, if_neg hne]
    exact hrow

/-- An event that can happen has not been done. Then it is done, and all that was done stays so. -/
theorem done_replay? (h : t.Numbered) (hreplay : t.replay? e = some t') :
    ¬ t.Done e.key ∧ t'.Done e.key ∧ ∀ key, t.Done key → t'.Done key := by
  rcases replay?_cases h hreplay with ⟨i, row, canceller, hrow, hactive, rfl, rfl⟩ |
      ⟨row, rfl, hnumber, rfl⟩
  · refine ⟨?_, ⟨i, row.cancel canceller, rfl, ?_, rfl⟩, fun _ hdone => hdone.cancelAt i canceller⟩
    · intro hdone
      obtain ⟨j, other, hj, hother, hcancelled⟩ := hdone
      obtain rfl : i = j := Nat.succ.inj (Int.ofNat.inj hj)
      rw [Option.some.inj (hrow.symm.trans hother), hcancelled] at hactive
      cases hactive
    · rw [getElem?_cancelAt, if_pos rfl, hrow, Option.map_some]
  · refine ⟨?_, ?_, fun _ hdone => hdone.push row⟩
    · intro hdone
      have hlt : row.number < t.nextNumber := hdone
      omega
    · show row.number < nextNumber ⟨t.rows.push row⟩
      rw [nextNumber_push]
      omega

/-- Of events that can happen one after the other, no two have the same key. -/
theorem nodup_keys_of_replayAll? (events : List Event) (h : t.Numbered)
    (hreplay : t.replayAll? events = some t') :
    (events.map Event.key).Nodup ∧ ∀ key, t.Done key → key ∉ events.map Event.key := by
  induction events generalizing t with
  | nil => exact ⟨List.nodup_nil, fun _ _ => List.not_mem_nil⟩
  | cons e events ih =>
    rw [replayAll?_cons] at hreplay
    obtain ⟨next, hnext, hrest⟩ := Option.bind_eq_some_iff.mp hreplay
    obtain ⟨hnew, hdone, hstays⟩ := done_replay? h hnext
    obtain ⟨hnodup, hnone⟩ := ih (numbered_replay? h hnext) hrest
    -- what the first event does stays done, so that no later event can do it
    constructor
    · exact List.nodup_cons.mpr ⟨hnone e.key hdone, hnodup⟩
    · intro key hkey
      rw [List.map_cons, List.mem_cons, not_or]
      exact ⟨fun heq => hnew (heq ▸ hkey), hnone key (hstays key hkey)⟩

end Table

namespace Run

variable {t : Table} {r r' : Run}

/-- A step of a run tells, after what has been told, what makes its table. -/
theorem replayAll?_next? (h : r.next? = some r') (hnumbered : r.table.Numbered) :
    ∃ told, r'.events = r.events ++ told ∧ r.table.replayAll? told = some r'.table := by
  rcases next?_cases h with ⟨_, _, rfl⟩ | ⟨_, _, _, rfl⟩ | ⟨inner, _, _, rfl⟩
  · exact ⟨[], (List.append_nil _).symm, Table.replayAll?_nil _⟩
  · exact ⟨[], (List.append_nil _).symm, Table.replayAll?_nil _⟩
  · refine ⟨(r.table.combine r.outer inner).events, ?_, Table.replayAll?_combine hnumbered _ _⟩
    simp [events]

theorem numbered_next? (h : r.next? = some r') (hnumbered : r.table.Numbered) :
    r'.table.Numbered := by
  rcases table_next? h with ⟨hsame, _⟩ | ⟨inner, hstep, _⟩
  · rw [hsame]
    exact hnumbered
  · rw [hstep]
    exact hnumbered.combine r.outer inner

/-- The events up to a state make the table of the state from the table before the run. -/
theorem replayAll?_after (h : t.Numbered) (exhaustive : Bool) {k : Nat}
    (hk : (start t exhaustive).after k = some r) :
    r.table.Numbered ∧ t.replayAll? r.events = some r.table := by
  induction k generalizing r with
  | zero =>
    obtain rfl := Option.some.inj hk
    exact ⟨h, Table.replayAll?_nil t⟩
  | succ k ih =>
    obtain ⟨r₀, hr₀, hnext⟩ := (after_succ_eq_some_iff k).mp hk
    obtain ⟨hnumbered, hreplay⟩ := ih hr₀
    obtain ⟨told, htold, hstep⟩ := replayAll?_next? hnext hnumbered
    refine ⟨numbered_next? hnext hnumbered, ?_⟩
    rw [htold, Table.replayAll?_append, hreplay, Option.bind_some, hstep]

/-- What is told up to a state stands first in what is told by the end. -/
theorem events_prefix_complete (r : Run) (hnumbered : r.table.Numbered) :
    r.events <+: r.complete.events := by
  refine (complete_induction
    (P := fun r' => r'.table.Numbered ∧ r.events <+: r'.events) ?_ r
      ⟨hnumbered, List.prefix_rfl⟩).1.2
  intro r₁ r₂ hnext h
  obtain ⟨told, htold, _⟩ := replayAll?_next? hnext h.1
  refine ⟨numbered_next? hnext h.1, h.2.trans ?_⟩
  rw [htold]
  exact List.prefix_append _ _

end Run

end CubeCover
