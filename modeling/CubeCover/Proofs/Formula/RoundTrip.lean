import CubeCover.Formula.Printer
import CubeCover.Proofs.Formula.Grammar
import CubeCover.Proofs.Formula.Lexeme
import CubeCover.Proofs.Formula.Names

/-! Printing a formula and reading it again. The printed text derives the formula if the names of
its atoms are lexemes; on the other hand nothing but lexemes is ever read as a name. -/
namespace CubeCover

/-- The tokens of a text derive a formula at a level, wherever the text stands. -/
def Spells (level : Level) (text : String) (f : Formula) : Prop :=
  ∀ start, Derives level (Token.scanFrom start text.toList) f

namespace Spells

variable {text left right : String} {f g : Formula}

theorem link (op : Connective) (h : Spells op.link text f) : Spells (.chain op) text f :=
  fun start => .link (h start)

theorem atom {name : String} (h : IsLexeme name) : Spells .factor name (.atom name) := by
  intro start
  obtain ⟨token, hscan, hatom, htext⟩ := Token.scanFrom_lexeme name h start
  have hmem : token ∈ Token.scanFrom start name.toList := by simp [hscan]
  have hconstant := Token.text_of_constant token start name.toList hmem
  rw [hscan, ← htext]
  cases hkind : token.kind with
  | verum =>
    rw [hconstant.1 hkind]
    exact .verum token hkind
  | falsum =>
    rw [hconstant.2 hkind]
    exact .falsum token hkind
  | word => exact .named token (Or.inl hkind)
  | symbol => exact .named token (Or.inr hkind)
  | negation | conjunction | disjunction | leftParen | rightParen =>
    rw [hkind] at hatom
    exact absurd hatom (by decide)

theorem negated (h : Spells .factor text f) : Spells .factor ("not" ++ " " ++ text) (.not f) := by
  intro start
  have hlist : ("not" ++ " " ++ text).toList = "not".toList ++ ' ' :: text.toList := by
    simp [String.toList_append]
  rw [hlist, Token.scanFrom_append_blank]
  have hword : Token.scanFrom start "not".toList = [Token.ofWord start "not".toList] :=
    Token.scanFrom_keyword start 'n' ['o', 't'] (by decide) (by decide) (by decide)
  rw [hword]
  exact .negated _ (by rfl) (h _)

theorem grouped (h : Spells (.chain .or) text f) : Spells .factor ("(" ++ text ++ ")") f := by
  intro start
  have hlist : ("(" ++ text ++ ")").toList = '(' :: (text.toList ++ [')']) := by
    simp [String.toList_append]
  rw [hlist, Token.scanFrom_symbol _ _ _ (by decide) (by decide),
    Token.scanFrom_append _ _ _ _ (by decide),
    Token.scanFrom_symbol _ _ _ (by decide) (by decide), Token.scanFrom_nil]
  exact .grouped _ _ (by rfl) (h _) (by rfl)

theorem joined (op : Connective) (hleft : Spells op.link left f)
    (hright : Spells (.chain op) right g) :
    Spells (.chain op) (left ++ " " ++ Script.ascii.symbols.ofConnective op ++ " " ++ right)
      (.binary op f g) := by
  intro start
  have hlist : (left ++ " " ++ Script.ascii.symbols.ofConnective op ++ " " ++ right).toList =
      left.toList ++ ' ' ::
        ((Script.ascii.symbols.ofConnective op).toList ++ ' ' :: right.toList) := by
    simp [String.toList_append]
  have hword (start : Nat) :
      ∃ joint, Token.scanFrom start (Script.ascii.symbols.ofConnective op).toList = [joint] ∧
        joint.kind = op.token := by
    cases op with
    | and =>
      exact ⟨_, Token.scanFrom_keyword start 'a' ['n', 'd'] (by decide) (by decide) (by decide),
        by rfl⟩
    | or =>
      exact ⟨_, Token.scanFrom_keyword start 'o' ['r'] (by decide) (by decide) (by decide),
        by rfl⟩
  rw [hlist, Token.scanFrom_append_blank, Token.scanFrom_append_blank]
  obtain ⟨joint, hscan, hjoint⟩ := hword (start + left.toList.length + 1)
  rw [hscan]
  exact .join joint (hleft start) hjoint (hright _)

end Spells

namespace Formula

/-- The level of the reader that reads the printed formula without parentheses. -/
def level : Formula → Level
  | .binary op _ _ => .chain op
  | _ => .factor

theorem toText_not (f : Formula) :
    (Formula.not f).toText =
      "not" ++ " " ++ Printer.parenthesize (f.precedence < 3) f.toText := by
  rfl

theorem toText_binary (op : Connective) (f g : Formula) :
    (Formula.binary op f g).toText =
      Printer.parenthesize ((Printer.mk Script.ascii.symbols false).wrapsLeft op f) f.toText ++
        " " ++ Script.ascii.symbols.ofConnective op ++ " " ++
        Printer.parenthesize (Printer.wrapsRight op g) g.toText := by
  cases op <;> rfl

theorem spells_disjunction {text : String} {f : Formula} (h : Spells f.level text f) :
    Spells (.chain .or) text f := by
  have hfactor (h : Spells .factor text f) : Spells (.chain .or) text f := .link .or (.link .and h)
  cases f with
  | atom name => exact hfactor h
  | not operand => exact hfactor h
  | binary op left right =>
    cases op with
    | and => exact .link .or h
    | or => exact h

theorem spells_parenthesized {text : String} {f : Formula} (op : Connective)
    (h : Spells f.level text f) : Spells op.link (Printer.parenthesize true text) f := by
  have hfactor : Spells .factor (Printer.parenthesize true text) f := (spells_disjunction h).grouped
  cases op with
  | and => exact hfactor
  | or => exact .link .and hfactor

theorem spells_left {text : String} {f : Formula} (op : Connective) (h : Spells f.level text f) :
    Spells op.link
      (Printer.parenthesize ((Printer.mk Script.ascii.symbols false).wrapsLeft op f) text) f := by
  cases hwraps : (Printer.mk Script.ascii.symbols false).wrapsLeft op f with
  | true => exact spells_parenthesized op h
  | false =>
    -- what stands without parentheses binds stronger than the connective
    have hfactor (h : Spells .factor text f) : Spells op.link text f := by
      cases op with
      | and => exact h
      | or => exact .link .and h
    cases f with
    | atom name => exact hfactor h
    | not operand => exact hfactor h
    | binary op' left right =>
      cases op' with
      | or => cases op <;> simp [Printer.wrapsLeft, precedence, connective?] at hwraps
      | and =>
        cases op with
        | and => simp [Printer.wrapsLeft, connective?] at hwraps
        | or => exact h

theorem spells_right {text : String} {f : Formula} (op : Connective) (h : Spells f.level text f) :
    Spells (.chain op) (Printer.parenthesize (Printer.wrapsRight op f) text) f := by
  cases hwraps : Printer.wrapsRight op f with
  | true => exact .link op (spells_parenthesized op h)
  | false =>
    -- a right operand may go on with the chain, but a disjunction binds weaker than a conjunction
    cases op with
    | or => exact spells_disjunction h
    | and =>
      cases f with
      | atom name => exact .link .and h
      | not operand => exact .link .and h
      | binary op' left right =>
        cases op' with
        | and => exact h
        | or => simp [Printer.wrapsRight, precedence] at hwraps

theorem spells_operand {text : String} {f : Formula} (h : Spells f.level text f) :
    Spells .factor (Printer.parenthesize (f.precedence < 3) text) f := by
  cases f with
  | atom name => exact h
  | not operand => exact h
  | binary op left right =>
    have hwraps : decide ((Formula.binary op left right).precedence < 3) = true := by
      cases op <;> rfl
    rw [hwraps]
    exact (spells_disjunction h).grouped

/-- The printed text of a formula derives it, if the names of its atoms are lexemes. -/
theorem spells_toText (f : Formula) (h : ∀ name ∈ f.atomNames, IsLexeme name) :
    Spells f.level f.toText f := by
  induction f with
  | atom name => exact Spells.atom (h name (List.mem_singleton_self name))
  | not operand ih =>
    rw [toText_not]
    exact (spells_operand (ih h)).negated
  | binary op left right ihleft ihright =>
    rw [toText_binary]
    have hleft := ihleft fun name hname => h name (List.mem_append_left _ hname)
    have hright := ihright fun name hname => h name (List.mem_append_right _ hname)
    exact Spells.joined op (spells_left op hleft) (spells_right op hright)

theorem parse_toText (f : Formula) (h : ∀ name ∈ f.atomNames, IsLexeme name) :
    parse f.toText = .ok f := by
  rw [parse, ofTokens_eq_ok_iff]
  exact spells_disjunction (spells_toText f h) 0

theorem isWord_of_isConstantName {name : String} (h : isConstantName name = true) :
    IsWord name := by
  rw [isConstantName, Bool.or_eq_true, beq_iff_eq, beq_iff_eq] at h
  rcases h with rfl | rfl <;> decide

theorem isLexeme_of_isConstantName (name : String) (h : isConstantName name = true) :
    IsLexeme name := (isWord_of_isConstantName h).isLexeme

theorem isLexeme_of_derives {level : Level} {tokens : List Token} {f : Formula} (start : Nat)
    (cs : List Char) (h : Derives level tokens f)
    (hmem : ∀ token ∈ tokens, token ∈ Token.scanFrom start cs) :
    ∀ name ∈ f.atomNames, IsLexeme name := by
  induction h with
  | link h ih => exact ih hmem
  | join joint hleft hjoint hright ihleft ihright =>
    intro name hname
    rcases List.mem_append.mp hname with hname | hname
    · exact ihleft (fun token ht => hmem token (List.mem_append_left _ ht)) name hname
    · exact ihright (fun token ht =>
        hmem token (List.mem_append_right _ (List.mem_cons_of_mem _ ht))) name hname
  | negated sign hsign h ih =>
    exact ih fun token ht => hmem token (List.mem_cons_of_mem _ ht)
  | grouped opening closing hopening h hclosing ih =>
    exact ih fun token ht => hmem token (List.mem_cons_of_mem _ (List.mem_append_left _ ht))
  | verum token h =>
    -- the token of a constant has the name of the constant as its text
    have ht := hmem token List.mem_cons_self
    have hlexeme := Token.isLexeme_of_mem token start cs ht (by rw [h]; rfl)
    intro name hname
    rw [List.mem_singleton.mp hname, ← (Token.text_of_constant token start cs ht).1 h]
    exact hlexeme
  | falsum token h =>
    have ht := hmem token List.mem_cons_self
    have hlexeme := Token.isLexeme_of_mem token start cs ht (by rw [h]; rfl)
    intro name hname
    rw [List.mem_singleton.mp hname, ← (Token.text_of_constant token start cs ht).2 h]
    exact hlexeme
  | named token h =>
    intro name hname
    rw [List.mem_singleton.mp hname]
    refine Token.isLexeme_of_mem token start cs (hmem token List.mem_cons_self) ?_
    rcases h with h | h <;> rw [h] <;> rfl

theorem isLexeme_of_parse (text : String) (f : Formula) (h : parse text = .ok f) :
    ∀ name ∈ f.atomNames, IsLexeme name := by
  rw [parse, ofTokens_eq_ok_iff] at h
  exact isLexeme_of_derives 0 text.toList h fun _ ht => ht

theorem empty_notMem_of_parse {text : String} {f : Formula} (h : parse text = .ok f) :
    "" ∉ f.atomNames :=
  fun hmem => not_isLexeme_empty (isLexeme_of_parse text f h "" hmem)

end Formula

/-- A formula is read back from its text just if the names of its atoms are lexemes; so every
formula that is read is read back. -/
theorem parse_toText_iff_names_are_lexemes :
    (∀ f : Formula, Formula.parse f.toText = .ok f ↔ ∀ name ∈ f.atomNames, IsLexeme name) ∧
      ∀ (text : String) (f : Formula), Formula.parse text = .ok f →
        Formula.parse f.toText = .ok f := by
  constructor
  · intro f
    exact ⟨fun h => Formula.isLexeme_of_parse f.toText f h, Formula.parse_toText f⟩
  · intro text f h
    exact Formula.parse_toText f (Formula.isLexeme_of_parse text f h)

/-- A text with superfluous parentheses and blanks, and a chain that groups to the left. -/
theorem parse_toText_of_left_chain :
    Formula.parse " ((x and(y)) and not (not true or ¬))" =
        .ok (.binary .and (.binary .and (.atom "x") (.atom "y"))
          (.not (.binary .or (.not (.atom "true")) (.atom "¬")))) ∧
      Formula.parse (Formula.binary .and (.binary .and (.atom "x") (.atom "y"))
          (.not (.binary .or (.not (.atom "true")) (.atom "¬")))).toText =
        .ok (.binary .and (.binary .and (.atom "x") (.atom "y"))
          (.not (.binary .or (.not (.atom "true")) (.atom "¬")))) := by
  have hread : Formula.parse " ((x and(y)) and not (not true or ¬))" =
      .ok (.binary .and (.binary .and (.atom "x") (.atom "y"))
        (.not (.binary .or (.not (.atom "true")) (.atom "¬")))) := by cbv
  exact ⟨hread, parse_toText_iff_names_are_lexemes.2 _ _ hread⟩

end CubeCover
