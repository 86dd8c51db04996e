import CubeCover.Bindings

/-! Bindings that are made from pairs, and the values of their names. -/
namespace CubeCover

namespace Bindings

variable {α : Type}

theorem set_of_new (name : String) (value : α) (entries : List (String × α))
    (h : name ∉ entries.map Prod.fst) : set name value entries = entries ++ [(name, value)] := by
  induction entries with
  | nil => rfl
  | cons entry rest ih =>
    rw [List.map_cons, List.mem_cons, not_or] at h
    rw [set, if_neg fun heq => h.1 heq.symm, ih h.2]
    rfl

theorem entries_foldl_insert (pairs : List (String × α)) (b : Bindings α)
    (h : (b.names ++ pairs.map Prod.fst).Nodup) :
    (pairs.foldl (fun b pair => b.insert pair.1 pair.2) b).entries = b.entries ++ pairs := by
  induction pairs generalizing b with
  | nil => exact (List.append_nil _).symm
  | cons pair pairs ih =>
    have hnew : pair.1 ∉ b.names := by
      intro hmem
      exact (List.nodup_append.mp h).2.2 _ hmem _ List.mem_cons_self rfl
    have hinsert : (b.insert pair.1 pair.2).entries = b.entries ++ [pair] :=
      set_of_new pair.1 pair.2 b.entries hnew
    have hnames : (b.insert pair.1 pair.2).names = b.names ++ [pair.1] := by
      rw [names, hinsert, List.map_append]
      rfl
    rw [List.foldl_cons, ih, hinsert, List.append_assoc]
    · rfl
    · rw [hnames, List.append_assoc]
      exact h

/-- Pairs of different names are the entries of the bindings made from them. -/
theorem entries_ofList (pairs : List (String × α)) (h : (pairs.map Prod.fst).Nodup) :
    (ofList pairs).entries = pairs :=
  entries_foldl_insert pairs empty h

theorem get?_eq_some_iff (b : Bindings α) (name : String) (value : α) :
    b.get? name = some value ↔ (name, value) ∈ b.entries := by
  obtain ⟨entries, hdistinct⟩ := b
  change entries.lookup name = some value ↔ (name, value) ∈ entries
  induction entries with
  | nil => simp
  | cons entry rest ih =>
    obtain ⟨key, first⟩ := entry
    rw [List.map_cons, List.nodup_cons] at hdistinct
    rw [List.lookup_cons, List.mem_cons, Prod.mk.injEq]
    by_cases h : name = key
    · subst h
      -- no later entry has the name of the first one
      have hnot : (name, value) ∉ rest := fun hmem =>
        hdistinct.1 (List.mem_map.mpr ⟨_, hmem, rfl⟩)
      simp [hnot, eq_comm]
    · have hkey : (name == key) = false := by simpa using h
      rw [hkey]
      simp [h, ih hdistinct.2]

theorem length_values (b : Bindings α) : b.values.length = b.names.length := by
  rw [values, names, List.length_map, List.length_map]

theorem eq_of_names_of_values (a b : Bindings α) (hnames : a.names = b.names)
    (hvalues : a.values = b.values) : a = b := by
  have hzip (c : Bindings α) : c.entries = c.names.zip c.values := List.zip_of_prod rfl rfl
  have hentries : a.entries = b.entries := by rw [hzip a, hzip b, hnames, hvalues]
  obtain ⟨entries, hdistinct⟩ := a
  subst hentries
  rfl

theorem exists_get?_of_mem_names (b : Bindings α) (name : String) (h : name ∈ b.names) :
    ∃ value, b.get? name = some value := by
  obtain ⟨⟨_, value⟩, hmem, rfl⟩ := List.mem_map.mp h
  exact ⟨value, (get?_eq_some_iff b _ value).mpr hmem⟩

end Bindings

end CubeCover
