import CubeCover.Proofs.Formula.Reassociation
import CubeCover.Proofs.Minimize

/-! Formulas told by their texts, in each of the scripts. A text can be put into the words of the parser
piece by piece, and these words are read as the formula that the text was printed from. So two formulas of
the same text are the same, or they differ by the grouping of chains if the printer flattens. -/
namespace CubeCover

namespace Script

/-- A character of the script of logic in the words of the parser. -/
def unicodeWords (c : Char) : List Char :=
  if c = '¬' then "not ".toList
  else if c = '∧' then "and".toList
  else if c = '∨' then "or".toList
  else [c]

/-- A text of mathematical typesetting in the words of the parser. A bar negates what its braces hold, and a
space that does not belong to the symbol of a disjunction stands for a conjunction. -/
def latexWords : List Char → List Char
  | [] => []
  | '\\' :: 'b' :: 'a' :: 'r' :: '\x7b' :: rest => "not (".toList ++ latexWords rest
  | '\x7d' :: rest => ')' :: latexWords rest
  | ' ' :: '\\' :: 'l' :: 'o' :: 'r' :: ' ' :: rest => " or ".toList ++ latexWords rest
  | ' ' :: rest => " and ".toList ++ latexWords rest
  | c :: rest => c :: latexWords rest

/-- A text of a script in the words of the parser. -/
def words : Script → List Char → List Char
  | .ascii, cs => cs
  | .latex, cs => latexWords cs
  | .unicode, cs => cs.flatMap unicodeWords

theorem words_nil (s : Script) : s.words [] = [] := by
  cases s <;> rfl

theorem unicodeWords_of_isWord {c : Char} (h : Text.isWord c = true) : unicodeWords c = [c] := by
  have hnot : c ≠ '¬' := Text.ne_of_isWord h (by decide +kernel)
  have hand : c ≠ '∧' := Text.ne_of_isWord h (by decide +kernel)
  have hor : c ≠ '∨' := Text.ne_of_isWord h (by decide +kernel)
  rw [unicodeWords, if_neg hnot, if_neg hand, if_neg hor]

theorem latexWords_of_isWord {c : Char} (h : Text.isWord c = true) (rest : List Char) :
    latexWords (c :: rest) = c :: latexWords rest := by
  have hsymbol : c ≠ '\\' := Text.ne_of_isWord h (by decide)
  have hclose : c ≠ '\x7d' := Text.ne_of_isWord h (by decide)
  have hspace : c ≠ ' ' := Text.ne_of_isWord h (by decide)
  rw [latexWords]
  · exact fun _ heq => absurd heq hsymbol
  · exact hclose
  · exact fun _ heq => absurd heq hspace
  · exact hspace

/-- A space before a text that does not begin with the symbol of a disjunction stands for a conjunction. -/
theorem latexWords_space {c : Char} {cs : List Char} (h : c = '\\' → ∃ ds, cs = 'b' :: ds) :
    latexWords (' ' :: c :: cs) = " and ".toList ++ latexWords (c :: cs) := by
  rw [latexWords]
  intro rest hrest
  obtain ⟨hc, hcs⟩ := List.cons.inj hrest
  obtain ⟨ds, hds⟩ := h hc
  exact absurd (List.cons.inj (hds.symm.trans hcs)).1 (by decide)

theorem words_of_all_isWord (s : Script) {cs : List Char} (h : cs.all Text.isWord = true)
    (rest : List Char) : s.words (cs ++ rest) = cs ++ s.words rest := by
  induction cs with
  | nil => rfl
  | cons c cs ih =>
    rw [List.all_cons, Bool.and_eq_true] at h
    cases s with
    | ascii => rfl
    | latex => exact (latexWords_of_isWord h.1 _).trans (congrArg (c :: ·) (ih h.2))
    | unicode =>
      show unicodeWords c ++ words .unicode (cs ++ rest) = _
      rw [unicodeWords_of_isWord h.1, ih h.2]
      rfl

/-- What a text of a script means in the words of the parser, whatever follows it. -/
structure Means (s : Script) (text inWords : String) : Prop where
  reads : ∀ rest, s.words (text.toList ++ rest) = inWords.toList ++ s.words rest
  /-- The text does not begin like the symbol of a disjunction, so that a space may stand before it. -/
  begins : ∃ c cs, text.toList = c :: cs ∧ (c = '\\' → ∃ ds, cs = 'b' :: ds)

namespace Means

variable {s : Script} {text inWords left right leftWords rightWords : String}

theorem name {name : String} (h : IsWord name) : s.Means name name := by
  refine ⟨words_of_all_isWord s h.2.1, ?_⟩
  obtain ⟨c, cs, hlist, hc, _⟩ := h.exists_cons
  exact ⟨c, cs, hlist, fun heq => absurd heq (Text.ne_of_isWord hc (by decide))⟩

theorem grouped (h : s.Means text inWords) : s.Means ("(" ++ text ++ ")") ("(" ++ inWords ++ ")") := by
  have hparen (c : Char) (hc : c = '(' ∨ c = ')') (rest : List Char) :
      s.words (c :: rest) = c :: s.words rest := by
    rcases hc with rfl | rfl <;> cases s <;> rfl
  constructor
  · intro rest
    calc s.words (("(" ++ text ++ ")").toList ++ rest)
        = s.words ('(' :: (text.toList ++ ')' :: rest)) := by simp
      _ = '(' :: (inWords.toList ++ ')' :: s.words rest) := by
          rw [hparen '(' (Or.inl rfl), h.reads, hparen ')' (Or.inr rfl)]
      _ = ("(" ++ inWords ++ ")").toList ++ s.words rest := by simp
  · exact ⟨'(', text.toList ++ [')'], by simp, fun hc => absurd hc (by decide)⟩

theorem parenthesize (needed : Bool) (h : s.Means text inWords) :
    s.Means (Printer.parenthesize needed text) (Printer.parenthesize needed inWords) := by
  cases needed with
  | true => exact h.grouped
  | false => exact h

/-- The two scripts with a sign in front of what they negate. -/
theorem negated (hs : s ≠ .latex) (h : s.Means text inWords) :
    s.Means (s.symbols.negation ++ s.symbols.negationGap ++ text) ("not" ++ " " ++ inWords) := by
  cases s with
  | latex => exact absurd rfl hs
  | ascii =>
    have hgap : Script.ascii.symbols.negationGap = " " := by decide
    rw [hgap]
    constructor
    · intro rest
      calc words .ascii ((Script.ascii.symbols.negation ++ " " ++ text).toList ++ rest)
          = "not ".toList ++ words .ascii (text.toList ++ rest) := by
            simp [symbols, words]
        _ = ("not" ++ " " ++ inWords).toList ++ words .ascii rest := by
            rw [h.reads]
            simp
    · exact ⟨'n', 'o' :: 't' :: ' ' :: text.toList, by simp [symbols],
        fun hc => absurd hc (by decide)⟩
  | unicode =>
    have hgap : Script.unicode.symbols.negationGap = "" := by decide
    rw [hgap]
    constructor
    · intro rest
      calc words .unicode ((Script.unicode.symbols.negation ++ "" ++ text).toList ++ rest)
          = "not ".toList ++ words .unicode (text.toList ++ rest) := by
            simp [symbols, words, unicodeWords]
        _ = ("not" ++ " " ++ inWords).toList ++ words .unicode rest := by
            rw [h.reads]
            simp
    · exact ⟨'¬', text.toList, by simp [symbols], fun hc => absurd hc (by decide)⟩

/-- A bar over what its braces hold. -/
theorem barred (h : Means .latex text inWords) :
    Means .latex (Script.latex.symbols.negation ++ "\x7b" ++ text ++ "\x7d")
      ("not" ++ " " ++ ("(" ++ inWords ++ ")")) := by
  constructor
  · intro rest
    have hclose : latexWords ('\x7d' :: rest) = ')' :: latexWords rest := by rw [latexWords]
    calc latexWords ((Script.latex.symbols.negation ++ "\x7b" ++ text ++ "\x7d").toList ++ rest)
        = latexWords ('\\' :: 'b' :: 'a' :: 'r' :: '\x7b' :: (text.toList ++ '\x7d' :: rest)) := by
          simp [symbols]
      _ = "not (".toList ++ words .latex (text.toList ++ '\x7d' :: rest) := by rw [latexWords]; rfl
      _ = ("not" ++ " " ++ ("(" ++ inWords ++ ")")).toList ++ latexWords rest := by
          rw [h.reads, words, hclose]
          simp
  · exact ⟨'\\', 'b' :: 'a' :: 'r' :: '\x7b' :: (text.toList ++ ['\x7d']), by simp [symbols],
      fun _ => ⟨_, rfl⟩⟩

/-- The symbol of a connective between two texts, with the spaces around it. -/
theorem joined (op : Connective) (hleft : s.Means left leftWords) (hright : s.Means right rightWords) :
    s.Means (Printer.join (s.symbols.ofConnective op) left right)
      (leftWords ++ " " ++ Script.ascii.symbols.ofConnective op ++ " " ++ rightWords) := by
  -- the symbol with the spaces around it, before whatever the right text and the rest are
  obtain ⟨c, cs, hlist, hbegins⟩ := hright.begins
  have hsymbol (rest : List Char) :
      s.words ((Printer.join (s.symbols.ofConnective op) "" right).toList ++ rest) =
        (" " ++ Script.ascii.symbols.ofConnective op ++ " ").toList ++
          s.words (right.toList ++ rest) := by
    cases s with
    | ascii => cases op <;> simp [Printer.join, symbols, Symbols.ofConnective, words]
    | unicode =>
      cases op <;> simp [Printer.join, symbols, Symbols.ofConnective, words, unicodeWords]
    | latex =>
      cases op with
      | or => simp [Printer.join, symbols, Symbols.ofConnective, words, latexWords]
      | and =>
        have hspace : latexWords (' ' :: c :: (cs ++ rest)) =
            " and ".toList ++ latexWords (c :: (cs ++ rest)) := by
          apply latexWords_space
          intro hc
          obtain ⟨ds, rfl⟩ := hbegins hc
          exact ⟨ds ++ rest, rfl⟩
        simpa [Printer.join, symbols, Symbols.ofConnective, words, hlist] using hspace
  have hjoin : Printer.join (s.symbols.ofConnective op) left right =
      left ++ Printer.join (s.symbols.ofConnective op) "" right := by
    unfold Printer.join
    split <;> simp [String.append_assoc]
  constructor
  · intro rest
    calc s.words ((Printer.join (s.symbols.ofConnective op) left right).toList ++ rest)
        = s.words (left.toList ++
            ((Printer.join (s.symbols.ofConnective op) "" right).toList ++ rest)) := by
          rw [hjoin, String.toList_append, List.append_assoc]
      _ = leftWords.toList ++ ((" " ++ Script.ascii.symbols.ofConnective op ++ " ").toList ++
            (rightWords.toList ++ s.words rest)) := by
          rw [hleft.reads, hsymbol, hright.reads]
      _ = _ := by simp [String.append_assoc]
  · obtain ⟨d, ds, hfirst, hd⟩ := hleft.begins
    refine ⟨d, _, by rw [hjoin, String.toList_append, hfirst]; rfl, ?_⟩
    intro heq
    obtain ⟨es, rfl⟩ := hd heq
    exact ⟨_, rfl⟩

end Means

/-- A formula over word names is printed by a script as a text that means words of the formula. -/
theorem exists_words (s : Script) (f : Formula) (h : ∀ name ∈ f.atomNames, IsWord name) :
    ∃ inWords, s.Means ((Printer.mk s.symbols false).render f) inWords ∧
      Spells f.level inWords f := by
  induction f with
  | atom name =>
    have hname := h name (List.mem_singleton_self name)
    exact ⟨name, Means.name hname, Spells.atom hname.isLexeme⟩
  | not operand ih =>
    obtain ⟨inWords, hmeans, hspells⟩ := ih h
    by_cases hs : s = .latex
    · -- the braces of the bar stand for parentheses, also where the words need none
      subst hs
      exact ⟨_, hmeans.barred, (Formula.spells_disjunction hspells).grouped.negated⟩
    · refine ⟨_, ?_, (Formula.spells_operand hspells).negated⟩
      have hwraps : s.symbols.negationWraps = false := by
        cases s with
        | latex => exact absurd rfl hs
        | ascii | unicode => rfl
      rw [Printer.render, hwraps]
      exact (hmeans.parenthesize _).negated hs
  | binary op left right ihleft ihright =>
    obtain ⟨leftWords, hleft, hleftSpells⟩ :=
      ihleft fun name hname => h name (List.mem_append_left _ hname)
    obtain ⟨rightWords, hright, hrightSpells⟩ :=
      ihright fun name hname => h name (List.mem_append_right _ hname)
    exact ⟨_, (hleft.parenthesize _).joined op (hright.parenthesize _),
      Spells.joined op (Formula.spells_left op hleftSpells)
        (Formula.spells_right op hrightSpells)⟩

/-- The text of a formula over word names, put into words, is read as the formula. -/
theorem parse_words (s : Script) (f : Formula) (h : ∀ name ∈ f.atomNames, IsWord name) :
    Formula.parse (String.ofList (s.words ((Printer.mk s.symbols false).render f).toList)) =
      .ok f := by
  obtain ⟨inWords, hmeans, hspells⟩ := s.exists_words f h
  have hwords : s.words ((Printer.mk s.symbols false).render f).toList = inWords.toList := by
    have hreads := hmeans.reads []
    rwa [List.append_nil, words_nil, List.append_nil] at hreads
  rw [hwords, String.ofList_toList, Formula.parse, Formula.ofTokens_eq_ok_iff]
  exact Formula.spells_disjunction hspells 0

theorem render_inj (s : Script) {f g : Formula} (hf : ∀ name ∈ f.atomNames, IsWord name)
    (hg : ∀ name ∈ g.atomNames, IsWord name) :
    (Printer.mk s.symbols false).render f = (Printer.mk s.symbols false).render g ↔ f = g := by
  constructor
  · intro htext
    have hread := s.parse_words g hg
    rw [← htext, s.parse_words f hf] at hread
    exact Except.ok.inj hread
  · exact congrArg _

theorem render_flattened_inj (s : Script) {f g : Formula} (hf : ∀ name ∈ f.atomNames, IsWord name)
    (hg : ∀ name ∈ g.atomNames, IsWord name) :
    (Printer.mk s.symbols true).render f = (Printer.mk s.symbols true).render g ↔
      f.Reassociates g := by
  rw [Printer.render_regroup, Printer.render_regroup, Formula.reassociates_iff]
  apply s.render_inj
  · rwa [Formula.atomNames_regroup]
  · rwa [Formula.atomNames_regroup]

end Script

/-- The normal form is over the variables of its formula, so its names are words if those of the formula
are. -/
theorem Minimization.isWord_of_mem_dnf {s : Settings} {text : String} {m : Minimization}
    (h : minimize s text = .ok m) (hwords : ∀ name ∈ m.formula.atomNames, IsWord name) :
    ∀ name ∈ m.dnf.atomNames, IsWord name := by
  obtain ⟨_, _, hempty, hof⟩ := minimize_cases h
  intro name hname
  rcases (Minimization.agrees_of_ofFormula hempty hof).1.dnf_over name hname with hconstant | hvar
  · exact Formula.isWord_of_isConstantName hconstant
  · exact hwords name ((Formula.mem_vars m.formula name).mp hvar).1

/-- In each script the text of a formula over word names tells the formula, and its flattened text tells
the formula up to the grouping of chains. So the normal form of a minimized formula is shown as different
just if it is another formula, or another one beyond the grouping of chains if texts are flattened. -/
theorem rendered_text_tells_formula (s : Script) :
    (∀ f g : Formula, (∀ name ∈ f.atomNames, IsWord name) → (∀ name ∈ g.atomNames, IsWord name) →
      ((Printer.mk s.symbols false).render f = (Printer.mk s.symbols false).render g ↔ f = g) ∧
        ((Printer.mk s.symbols true).render f = (Printer.mk s.symbols true).render g ↔
          f.Reassociates g)) ∧
      ∀ (settings : Settings) (text : String) (m : Minimization), settings.script = s →
        minimize settings text = .ok m → (∀ name ∈ m.formula.atomNames, IsWord name) →
        (m.dnfDiffers = false ↔
          if settings.flatten then m.formula.Reassociates m.dnf else m.formula = m.dnf) := by
  constructor
  · intro f g hf hg
    exact ⟨s.render_inj hf hg, s.render_flattened_inj hf hg⟩
  · intro settings text m hscript h hwords
    have hdnf := Minimization.isWord_of_mem_dnf h hwords
    obtain ⟨_, _, hempty, hof⟩ := minimize_cases h
    have hprinter := (Minimization.agrees_of_ofFormula hempty hof).2
    have hsame : m.dnfDiffers = false ↔
        (Printer.mk s.symbols settings.flatten).render m.formula =
          (Printer.mk s.symbols settings.flatten).render m.dnf := by
      rw [Minimization.dnfDiffers, Minimization.dnfText, Minimization.formulaText, hprinter, hscript,
        bne_eq_false_iff_eq]
      exact eq_comm
    rw [hsame]
    cases settings.flatten with
    | false => exact s.render_inj hwords hdnf
    | true => exact s.render_flattened_inj hwords hdnf

/-- Without parentheses a bar keeps a negated disjunction apart from a disjunction with a negation. A
conjunction of three literals differs from its normal form in the grouping, so with flattened texts the
normal form is not shown as different. -/
theorem rendered_text_tells_negated_disjunction :
    let f : Formula := .binary .and (.atom "x") (.not (.binary .or (.atom "y") (.atom "z")))
    let g : Formula := .binary .and (.atom "x") (.binary .or (.not (.atom "y")) (.atom "z"))
    (Printer.mk Script.latex.symbols false).render f = "x \\bar\x7by \\lor z\x7d" ∧
      (Printer.mk Script.latex.symbols false).render f ≠
        (Printer.mk Script.latex.symbols false).render g ∧
      ∃ m, minimize { Settings.usual with script := .latex } "x and (not y and z)" = .ok m ∧
        m.formula ≠ m.dnf ∧ m.dnfDiffers = false := by
  intro f g
  have htells := rendered_text_tells_formula .latex
  have hread : Formula.parse "x and (not y and z)" = .ok
      (.binary .and (.atom "x") (.binary .and (.not (.atom "y")) (.atom "z"))) := by
    clear htells
    cbv
  have hnames : (Formula.binary .and (.atom "x")
      (.binary .and (.not (.atom "y")) (.atom "z"))).vars = ["x", "y", "z"] := by
    rw [Formula.vars_eq_foldl]
    decide
  obtain ⟨m, hm⟩ := exists_minimize { Settings.usual with script := .latex } hread (by decide)
    (by rw [hnames]; decide)
  obtain ⟨hparse, _, hempty, hof⟩ := minimize_cases hm
  have hformula := Except.ok.inj (hread.symm.trans hparse)
  have hdnf : m.dnf =
      .binary .and (.binary .and (.atom "x") (.not (.atom "y"))) (.atom "z") := by
    rw [Minimization.dnf, Minimization.terms_eq hempty hof, ← hformula, hnames]
    decide
  refine ⟨by decide, ?_, m, hm, ?_, ?_⟩
  · intro htext
    have hsame := (htells.1 f g (by decide) (by decide)).1.mp htext
    exact absurd hsame (by decide)
  · rw [← hformula, hdnf]
    decide
  · apply (htells.2 _ _ m rfl hm (by rw [← hformula]; decide)).mpr
    rw [← hformula, hdnf]
    exact (Formula.Reassociates.rotate .and _ _ _).symm

end CubeCover
