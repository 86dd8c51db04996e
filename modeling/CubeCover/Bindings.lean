/-! Values under names, in the order in which the names came first. -/
namespace CubeCover

/-- Names with their values; no name stands twice. -/
structure Bindings (α : Type) where
  entries : List (String × α)
  distinct : (entries.map Prod.fst).Nodup
  deriving DecidableEq

namespace Bindings

variable {α β : Type}

/-- Sets the value of a name in a list of entries: in place if the name is there, else at the
end. -/
def set (name : String) (value : α) : List (String × α) → List (String × α)
  | [] => [(name, value)]
  | entry :: rest =>
    if entry.1 = name then (name, value) :: rest else entry :: set name value rest

theorem mem_names_set (name : String) (value : α) (entries : List (String × α)) (other : String) :
    other ∈ (set name value entries).map Prod.fst ↔
      other = name ∨ other ∈ entries.map Prod.fst := by
  induction entries with
  | nil => simp [set]
  | cons entry rest ih =>
    by_cases h : entry.1 = name
    · simp [set, h]
    · simp only [set, h, if_false, List.map_cons, List.mem_cons, ih]
      exact or_left_comm

theorem nodup_names_set (name : String) (value : α) (entries : List (String × α))
    (h : (entries.map Prod.fst).Nodup) : ((set name value entries).map Prod.fst).Nodup := by
  induction entries with
  | nil => simp [set]
  | cons entry rest ih =>
    rw [List.map_cons, List.nodup_cons] at h
    by_cases hn : entry.1 = name
    · rw [set, if_pos hn, List.map_cons, List.nodup_cons]
      exact hn ▸ h
    · rw [set, if_neg hn, List.map_cons, List.nodup_cons, mem_names_set, not_or]
      exact ⟨⟨hn, h.1⟩, ih h.2⟩

def empty : Bindings α := ⟨[], List.nodup_nil⟩

instance : Inhabited (Bindings α) := ⟨empty⟩

/-- A name that is bound keeps its place and takes the new value. -/
def insert (b : Bindings α) (name : String) (value : α) : Bindings α :=
  ⟨set name value b.entries, nodup_names_set name value b.entries b.distinct⟩

/-- Binds the names one after the other, so that of two values of a name the later one counts. -/
def ofList (pairs : List (String × α)) : Bindings α :=
  pairs.foldl (fun b pair => b.insert pair.1 pair.2) empty

def names (b : Bindings α) : List String := b.entries.map Prod.fst

def values (b : Bindings α) : List α := b.entries.map Prod.snd

def get? (b : Bindings α) (name : String) : Option α := b.entries.lookup name

end Bindings

/-- Truth values under the names of variables. -/
abbrev Assignment := Bindings Bool

end CubeCover
