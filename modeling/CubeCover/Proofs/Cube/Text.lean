import CubeCover.Cube.Text

/-! The printed form of a cube is read as this cube. -/
namespace CubeCover

theorem Text.trimBlanks_of_ends {c d : Char} {cs : List Char} (hfirst : Text.isBlank c = false)
    (hlast : (c :: cs).getLast? = some d) (hd : Text.isBlank d = false) :
    Text.trimBlanks (c :: cs) = c :: cs := by
  obtain ⟨before, hbefore⟩ := List.getLast?_eq_some_iff.mp hlast
  rw [Text.trimBlanks, Text.dropBlanks, List.dropWhile_cons_of_neg (by simp [hfirst]),
    Text.dropBlanksEnd, hbefore, List.reverse_concat, List.dropWhile_cons_of_neg (by simp [hd]),
    List.reverse_cons, List.reverse_reverse]

theorem Text.trimBlanks_parens (body : List Char) :
    Text.trimBlanks ('(' :: (body ++ [')'])) = '(' :: (body ++ [')']) :=
  Text.trimBlanks_of_ends (by decide) (List.getLast?_concat (l := '(' :: body)) (by decide)

namespace Digit

theorem isBlank_toChar (d : Digit) : Text.isBlank d.toChar = false := by
  cases d <;> decide

theorem toChar_ne_comma (d : Digit) : d.toChar ≠ ',' := by
  cases d <;> decide

theorem ofChars?_toChar (d : Digit) : ofChars? [d.toChar] = some d := by
  cases d <;> rfl

end Digit

namespace Cube

theorem readDigits_map_toChar (digits : List Digit) :
    readDigits (digits.map fun digit => [digit.toChar]) = .ok digits := by
  induction digits with
  | nil => rfl
  | cons digit digits ih =>
    have htrim : Text.trimBlanks [digit.toChar] = [digit.toChar] :=
      Text.trimBlanks_of_ends digit.isBlank_toChar rfl digit.isBlank_toChar
    simp only [List.map_cons, readDigits, htrim, Digit.ofChars?_toChar, ih]

theorem toList_toText (a : Cube) :
    a.toText.toList =
      '(' :: ([','].intercalate (a.digits.map fun digit => [digit.toChar]) ++ [')']) := by
  simp [toText, String.toList_append, String.toList_intercalate, Function.comp_def]

theorem unwrap_parens (body : List Char) : unwrap ('(' :: (body ++ [')'])) = body := by
  rw [unwrap, List.getLast?_concat, if_pos rfl, List.dropLast_concat]

/-- A cube is read again from its printed form. -/
theorem ofText_toText (a : Cube) : ofText a.toText = .ok a := by
  obtain ⟨digits⟩ := a
  rw [ofText, toList_toText, Text.trimBlanks_parens, unwrap_parens]
  cases digits with
  | nil => rfl
  | cons digit digits =>
    have hblank : ([','].intercalate ((digit :: digits).map fun digit => [digit.toChar])).all
        Text.isBlank = false := by
      cases digits <;> simp [digit.isBlank_toChar]
    have hcomma : ∀ part ∈ (digit :: digits).map fun digit => [digit.toChar], ',' ∉ part := by
      intro part hpart
      obtain ⟨d, _, rfl⟩ := List.mem_map.mp hpart
      simpa using d.toChar_ne_comma.symm
    rw [hblank, List.splitOn_intercalate ',' hcomma (by simp), readDigits_map_toChar]
    rfl

end Cube

end CubeCover
