import CubeCover.Proofs.Cube.Text
import Mathlib.Data.List.Forall2
import Mathlib.Data.List.TakeWhile

/-! Which texts are read as a cube. They are its printed form up to layout: the parentheses may be missing, and
blanks may stand around them, inside them and around each digit. -/
namespace CubeCover

namespace Text

/-- The second text is the first one with blanks around it. -/
def IsPadded (written cs : List Char) : Prop :=
  ∃ before after, (∀ c ∈ before, isBlank c = true) ∧ (∀ c ∈ after, isBlank c = true) ∧
    cs = before ++ written ++ after

/-- A text writes a digit if it is the character of the digit with blanks around it. -/
def Writes (part : List Char) (d : Digit) : Prop := IsPadded [d.toChar] part

/-- A text lists digits if each is written, with commas between them and blanks around the whole. No digits are
listed by blanks alone. -/
def Lists (cs : List Char) (digits : List Digit) : Prop :=
  ∃ parts, List.Forall₂ Writes parts digits ∧ IsPadded ([','].intercalate parts) cs

end Text

/-- The layouts of a cube: a list of its digits, bare or in one pair of parentheses with blanks around them. -/
def Cube.LaidOutAs (a : Cube) (cs : List Char) : Prop :=
  Text.Lists cs a.digits ∨
    ∃ body, Text.Lists body a.digits ∧ Text.IsPadded ('(' :: (body ++ [')'])) cs

namespace Text

theorem dropBlanksEnd_append_takeWhile (cs : List Char) :
    dropBlanksEnd cs ++ (cs.reverse.takeWhile isBlank).reverse = cs := by
  rw [dropBlanksEnd, ← List.reverse_append, List.takeWhile_append_dropWhile, List.reverse_reverse]

theorem isPadded_trimBlanks (cs : List Char) : IsPadded (trimBlanks cs) cs := by
  refine ⟨cs.takeWhile isBlank, ((dropBlanks cs).reverse.takeWhile isBlank).reverse, ?_, ?_, ?_⟩
  · intro c hc
    exact List.mem_takeWhile_imp hc
  · intro c hc
    exact List.mem_takeWhile_imp (List.mem_reverse.mp hc)
  · rw [List.append_assoc, trimBlanks, dropBlanksEnd_append_takeWhile, dropBlanks,
      List.takeWhile_append_dropWhile]

theorem dropBlanksEnd_append (cs : List Char) {after : List Char} (h : ∀ c ∈ after, isBlank c = true) :
    dropBlanksEnd (cs ++ after) = dropBlanksEnd cs := by
  have hreverse : ∀ c ∈ after.reverse, isBlank c = true := fun c hc => h c (List.mem_reverse.mp hc)
  rw [dropBlanksEnd, List.reverse_append, List.dropWhile_append_of_pos hreverse, dropBlanksEnd]

namespace IsPadded

theorem trimBlanks_eq {written cs : List Char} (h : IsPadded written cs) : trimBlanks cs = trimBlanks written := by
  obtain ⟨before, after, hbefore, hafter, rfl⟩ := h
  have hfront : dropBlanks (before ++ written ++ after) = dropBlanks (written ++ after) := by
    rw [dropBlanks, List.append_assoc, List.dropWhile_append_of_pos hbefore, dropBlanks]
  rw [trimBlanks, hfront, trimBlanks, dropBlanks, dropBlanks, List.dropWhile_append]
  split
  · -- the whole text is blank, and nothing is left on either side
    next hempty =>
    rw [List.isEmpty_iff.mp hempty, List.dropWhile_eq_nil_iff.mpr hafter]
  · exact dropBlanksEnd_append _ hafter

theorem all_isBlank_eq {written cs : List Char} (h : IsPadded written cs) :
    cs.all isBlank = written.all isBlank := by
  obtain ⟨before, after, hbefore, hafter, rfl⟩ := h
  rw [List.all_append, List.all_append, List.all_eq_true.mpr hbefore, List.all_eq_true.mpr hafter,
    Bool.true_and, Bool.and_true]

theorem mem_iff {written cs : List Char} (h : IsPadded written cs) {c : Char} (hc : isBlank c = false) :
    c ∈ cs ↔ c ∈ written := by
  obtain ⟨before, after, hbefore, hafter, rfl⟩ := h
  have hbare : ∀ blanks : List Char, (∀ b ∈ blanks, isBlank b = true) → c ∉ blanks := by
    intro blanks hblanks hin
    rw [hblanks c hin] at hc
    cases hc
  simp [hbare before hbefore, hbare after hafter]

/-- Blanks around a text belong to its first and its last part, so they are gone from the parts as well. -/
theorem map_trimBlanks_splitOn {written cs : List Char} (h : IsPadded written cs) {separator : Char}
    (hseparator : isBlank separator = false) :
    (cs.splitOn separator).map trimBlanks = (written.splitOn separator).map trimBlanks := by
  by_cases hmem : separator ∈ written
  · -- at any separator, what stands in front and what stands behind are padded on one side only
    obtain ⟨before, after, hbefore, hafter, rfl⟩ := h
    obtain ⟨front, back, rfl⟩ := List.append_of_mem hmem
    have hfront : IsPadded front (before ++ front) := ⟨before, [], hbefore, by simp, by simp⟩
    have hback : IsPadded back (back ++ after) := ⟨[], after, by simp, hafter, by simp⟩
    have hwhole : before ++ (front ++ separator :: back) ++ after =
        (before ++ front) ++ separator :: (back ++ after) := by
      simp
    rw [hwhole, List.splitOn_append_cons_self, List.splitOn_append_cons_self, List.map_append,
      List.map_append, map_trimBlanks_splitOn hfront hseparator, map_trimBlanks_splitOn hback hseparator]
  · have hout : separator ∉ cs := fun hin => hmem ((h.mem_iff hseparator).mp hin)
    rw [List.splitOn_eq_singleton hout, List.splitOn_eq_singleton hmem, List.map_singleton,
      List.map_singleton, h.trimBlanks_eq]
termination_by written.length

end IsPadded

/-- A text that neither begins nor ends with a blank is what trimming leaves. -/
theorem isPadded_iff_of_trimmed {written : List Char} (h : trimBlanks written = written)
    (cs : List Char) : IsPadded written cs ↔ trimBlanks cs = written := by
  constructor
  · intro hpadded
    rw [hpadded.trimBlanks_eq, h]
  · intro htrim
    rw [← htrim]
    exact isPadded_trimBlanks cs

theorem writes_iff (part : List Char) (d : Digit) : Writes part d ↔ trimBlanks part = [d.toChar] := by
  apply isPadded_iff_of_trimmed
  exact trimBlanks_of_ends d.isBlank_toChar (List.getLast?_singleton) d.isBlank_toChar

theorem Writes.notMem_comma {part : List Char} {d : Digit} (h : Writes part d) : ',' ∉ part := by
  rw [IsPadded.mem_iff h (by decide), List.mem_singleton]
  exact d.toChar_ne_comma.symm

theorem forall₂_writes_iff (parts : List (List Char)) (digits : List Digit) :
    List.Forall₂ Writes parts digits ↔ parts.map trimBlanks = digits.map fun d => [d.toChar] := by
  rw [← List.forall₂_eq_eq_eq, List.forall₂_map_left_iff, List.forall₂_map_right_iff]
  simp only [← writes_iff]

end Text

theorem Digit.ofChars?_eq_some_iff (cs : List Char) (d : Digit) :
    ofChars? cs = some d ↔ cs = [d.toChar] := by
  constructor
  · intro h
    unfold ofChars? at h
    split at h <;> cases h <;> rfl
  · rintro rfl
    exact d.ofChars?_toChar

namespace Cube

theorem readDigits_eq_ok_iff (parts : List (List Char)) (digits : List Digit) :
    readDigits parts = .ok digits ↔ List.Forall₂ Text.Writes parts digits := by
  induction parts generalizing digits with
  | nil => cases digits <;> simp [readDigits]
  | cons part parts ih =>
    cases digits with
    | nil =>
      -- a part that is read gives a digit
      rw [readDigits]
      cases Digit.ofChars? (Text.trimBlanks part) <;> cases readDigits parts <;> simp
    | cons d digits =>
      rw [List.forall₂_cons, ← ih digits, Text.writes_iff, ← Digit.ofChars?_eq_some_iff, readDigits]
      cases Digit.ofChars? (Text.trimBlanks part) <;> cases readDigits parts <;> simp

end Cube

namespace Text.Lists

variable {cs : List Char} {digits : List Digit}

theorem of_isBlank (h : cs.all isBlank = true) : Lists cs [] :=
  ⟨[], .nil, cs, [], by simpa using h, by simp, by simp⟩

theorem of_splitOn (h : Cube.readDigits (cs.splitOn ',') = .ok digits) : Lists cs digits := by
  refine ⟨cs.splitOn ',', (Cube.readDigits_eq_ok_iff _ _).mp h, [], [], by simp, by simp, ?_⟩
  rw [List.intercalate_splitOn, List.nil_append, List.append_nil]

/-- Only a blank text lists no digits. Any other list is split at its commas. -/
theorem blank_or_read (h : Lists cs digits) :
    (cs.all isBlank = true ∧ digits = []) ∨
      (cs.all isBlank = false ∧ Cube.readDigits (cs.splitOn ',') = .ok digits) := by
  obtain ⟨parts, hwrites, hpadded⟩ := h
  -- the text reads as its parts do, whatever blanks stand around them
  rw [hpadded.all_isBlank_eq, Cube.readDigits_eq_ok_iff, forall₂_writes_iff,
    hpadded.map_trimBlanks_splitOn (by decide), ← forall₂_writes_iff]
  have hcomma : ∀ part ∈ parts, ',' ∉ part := by
    intro part hpart
    obtain ⟨i, hi, rfl⟩ := List.mem_iff_getElem.mp hpart
    exact (hwrites.get hi (hwrites.length_eq ▸ hi)).notMem_comma
  cases parts with
  | nil => exact Or.inl ⟨rfl, List.forall₂_nil_left_iff.mp hwrites⟩
  | cons part parts =>
    rw [List.splitOn_intercalate ',' hcomma (by simp)]
    refine Or.inr ⟨?_, hwrites⟩
    -- the first digit is not blank
    obtain ⟨d, digits, hpart, -, rfl⟩ := List.forall₂_cons_left_iff.mp hwrites
    obtain ⟨before, after, -, -, rfl⟩ := hpart
    cases parts <;> simp [d.isBlank_toChar]

theorem iff_read (cs : List Char) (digits : List Digit) :
    Lists cs digits ↔ (cs.all isBlank = true ∧ digits = []) ∨
      (cs.all isBlank = false ∧ Cube.readDigits (cs.splitOn ',') = .ok digits) := by
  constructor
  · exact blank_or_read
  · rintro (⟨hblank, rfl⟩ | ⟨-, hread⟩)
    · exact of_isBlank hblank
    · exact of_splitOn hread

/-- Blanks around a list may be dropped and added. -/
theorem trimBlanks_iff (cs : List Char) (digits : List Digit) :
    Lists (trimBlanks cs) digits ↔ Lists cs digits := by
  have hpadded := isPadded_trimBlanks cs
  rw [iff_read, iff_read, Cube.readDigits_eq_ok_iff, Cube.readDigits_eq_ok_iff, forall₂_writes_iff,
    forall₂_writes_iff, hpadded.map_trimBlanks_splitOn (by decide), hpadded.all_isBlank_eq]

/-- A parenthesis in front is part of no digit. -/
theorem not_paren (rest : List Char) (digits : List Digit) : ¬ Lists ('(' :: rest) digits := by
  intro h
  rcases h.blank_or_read with ⟨hblank, -⟩ | ⟨-, hok⟩
  · rw [List.all_cons, show isBlank '(' = false by decide, Bool.false_and] at hblank
    cases hblank
  · obtain ⟨part, parts, hsplit⟩ := List.exists_cons_of_ne_nil (List.splitOn_ne_nil ',' rest)
    rw [List.splitOn_cons_eq_if_modifyHead, if_neg (by decide), hsplit, List.modifyHead_cons,
      Cube.readDigits_eq_ok_iff] at hok
    obtain ⟨d, digits, hpart, -, rfl⟩ := List.forall₂_cons_left_iff.mp hok
    have hparen : '(' ∈ [d.toChar] := (IsPadded.mem_iff hpart (by decide)).mp List.mem_cons_self
    cases d <;> revert hparen <;> decide

end Text.Lists

namespace Cube

/-- Either nothing is taken off a text, or one pair of parentheses. -/
theorem unwrap_cases (cs : List Char) : unwrap cs = cs ∨ cs = '(' :: (unwrap cs ++ [')']) := by
  unfold unwrap
  split
  · next rest =>
    split
    · next hlast =>
      obtain ⟨body, rfl⟩ := List.getLast?_eq_some_iff.mp hlast
      rw [List.dropLast_concat]
      exact Or.inr rfl
    · exact Or.inl rfl
  · exact Or.inl rfl

theorem unwrap_of_lists {cs : List Char} {digits : List Digit} (h : Text.Lists cs digits) :
    unwrap cs = cs := by
  rcases unwrap_cases cs with hbare | hparens
  · exact hbare
  · rw [hparens] at h
    exact absurd h (Text.Lists.not_paren _ digits)

theorem laidOutAs_iff (a : Cube) (cs : List Char) :
    a.LaidOutAs cs ↔ Text.Lists (unwrap (Text.trimBlanks cs)) a.digits := by
  constructor
  · rintro (hbare | ⟨body, hbody, hpadded⟩)
    · -- a list does not begin with a parenthesis, so nothing is taken off
      have htrim := (Text.Lists.trimBlanks_iff cs a.digits).mpr hbare
      rwa [unwrap_of_lists htrim]
    · -- trimming stops at the parentheses
      rwa [hpadded.trimBlanks_eq, Text.trimBlanks_parens, unwrap_parens]
  · intro h
    rcases unwrap_cases (Text.trimBlanks cs) with hbare | hparens
    · rw [hbare] at h
      exact Or.inl ((Text.Lists.trimBlanks_iff cs a.digits).mp h)
    · refine Or.inr ⟨_, h, ?_⟩
      rw [← hparens]
      exact Text.isPadded_trimBlanks cs

theorem ofText_eq_ok_iff (text : String) (a : Cube) :
    ofText text = .ok a ↔ a.LaidOutAs text.toList := by
  obtain ⟨digits⟩ := a
  rw [laidOutAs_iff, Text.Lists.iff_read, ofText]
  cases (unwrap (Text.trimBlanks text.toList)).all Text.isBlank with
  | true => simp [eq_comm]
  | false => cases readDigits ((unwrap (Text.trimBlanks text.toList)).splitOn ',') <;> simp

/-- A refusal tells the whole text. -/
theorem ofText_cases (text : String) :
    (∃ a, ofText text = .ok a) ∨ ∃ part, ofText text = .error ⟨part, text⟩ := by
  rw [ofText]
  split
  · exact Or.inl ⟨_, rfl⟩
  · split
    · exact Or.inl ⟨_, rfl⟩
    · exact Or.inr ⟨_, rfl⟩

end Cube

/-- A text is read as a cube if it is a layout of this cube, and refused if it is a layout of none. The printed
form is one of the layouts. -/
theorem cube_read_from_its_layouts (text : String) :
    (∀ a, Cube.ofText text = .ok a ↔ a.LaidOutAs text.toList) ∧
    ((∃ part, Cube.ofText text = .error ⟨part, text⟩) ↔ ¬ ∃ a : Cube, a.LaidOutAs text.toList) ∧
    ∀ a, Cube.ofText a.toText = .ok a := by
  refine ⟨Cube.ofText_eq_ok_iff text, ?_, Cube.ofText_toText⟩
  constructor
  · rintro ⟨part, herror⟩ ⟨a, ha⟩
    rw [← Cube.ofText_eq_ok_iff, herror] at ha
    cases ha
  · intro hnone
    rcases Cube.ofText_cases text with ⟨a, hok⟩ | herror
    · exact absurd ⟨a, (Cube.ofText_eq_ok_iff text a).mp hok⟩ hnone
    · exact herror

theorem cube_read_from_its_layouts_of_spaced :
    Cube.ofText " (1 ,\t-) " = .ok ⟨[.one, .free]⟩ ∧ ¬ ∃ a : Cube, a.LaidOutAs "(1,-,)".toList := by
  refine ⟨((cube_read_from_its_layouts " (1 ,\t-) ").1 _).mpr ?_,
    (cube_read_from_its_layouts "(1,-,)").2.1.mp ⟨"", by decide⟩⟩
  have hone : Text.Writes "1 ".toList .one := (Text.writes_iff _ _).mpr (by decide)
  have hfree : Text.Writes "\t-".toList .free := (Text.writes_iff _ _).mpr (by decide)
  have hlists : Text.Lists "1 ,\t-".toList [.one, .free] :=
    ⟨_, .cons hone (.cons hfree .nil), [], [], by simp, by simp, rfl⟩
  refine Or.inr ⟨_, hlists, ?_⟩
  exact (Text.isPadded_iff_of_trimmed (Text.trimBlanks_parens _) _).mpr (by decide)

end CubeCover
