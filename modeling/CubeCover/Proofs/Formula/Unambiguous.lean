import CubeCover.Proofs.Formula.Grammar

/-! The rules of the grammar, and the texts that the reader accepts: just those whose tokens derive
a formula. No list of tokens derives two formulas, and a text without a formula is refused. -/
namespace CubeCover

/-- The formula that a single token writes, if it is a literal. -/
def Token.literal? (token : Token) : Option Formula :=
  match token.kind with
  | .verum => some .verum
  | .falsum => some .falsum
  | .word | .symbol => some (.atom token.text)
  | _ => none

namespace Derives

theorem literal {token : Token} {f : Formula} (h : token.literal? = some f) :
    Derives .factor [token] f := by
  unfold Token.literal? at h
  cases hkind : token.kind with
  | verum =>
    rw [hkind] at h
    exact Option.some.inj h ▸ .verum token hkind
  | falsum =>
    rw [hkind] at h
    exact Option.some.inj h ▸ .falsum token hkind
  | word =>
    rw [hkind] at h
    exact Option.some.inj h ▸ .named token (Or.inl hkind)
  | symbol =>
    rw [hkind] at h
    exact Option.some.inj h ▸ .named token (Or.inr hkind)
  | negation | conjunction | disjunction | leftParen | rightParen =>
    rw [hkind] at h
    exact absurd h (by simp)

/-- A chain is a link, or a link that a token joins to a chain. -/
theorem chain_iff (op : Connective) (tokens : List Token) (f : Formula) :
    Derives (.chain op) tokens f ↔
      Derives op.link tokens f ∨
        ∃ left joint right g h, tokens = left ++ joint :: right ∧ joint.kind = op.token ∧
          f = .binary op g h ∧ Derives op.link left g ∧ Derives (.chain op) right h := by
  constructor
  · intro h
    cases h with
    | link h => exact Or.inl h
    | join joint hleft hjoint hright =>
      exact Or.inr ⟨_, joint, _, _, _, rfl, hjoint, rfl, hleft, hright⟩
  · intro h
    rcases h with h | ⟨left, joint, right, g, h, rfl, hjoint, rfl, hleft, hright⟩
    · exact .link h
    · exact .join joint hleft hjoint hright

/-- A factor is a negated factor, a disjunction in parentheses, or a literal. -/
theorem factor_iff (tokens : List Token) (f : Formula) :
    Derives .factor tokens f ↔
      (∃ sign rest g, tokens = sign :: rest ∧ sign.kind = .negation ∧ f = .not g ∧
        Derives .factor rest g) ∨
      (∃ opening inner closing, tokens = opening :: (inner ++ [closing]) ∧
        opening.kind = .leftParen ∧ closing.kind = .rightParen ∧
        Derives (.chain .or) inner f) ∨
      ∃ token : Token, tokens = [token] ∧ token.literal? = some f := by
  constructor
  · intro h
    cases h with
    | negated sign hsign h => exact Or.inl ⟨sign, _, _, rfl, hsign, rfl, h⟩
    | grouped opening closing hopening h hclosing =>
      exact Or.inr (Or.inl ⟨opening, _, closing, rfl, hopening, hclosing, h⟩)
    | verum token h => exact Or.inr (Or.inr ⟨token, rfl, by rw [Token.literal?, h]⟩)
    | falsum token h => exact Or.inr (Or.inr ⟨token, rfl, by rw [Token.literal?, h]⟩)
    | named token h =>
      refine Or.inr (Or.inr ⟨token, rfl, ?_⟩)
      rcases h with h | h <;> rw [Token.literal?, h]
  · intro h
    rcases h with ⟨sign, rest, g, rfl, hsign, rfl, h⟩ |
        ⟨opening, inner, closing, rfl, hopening, hclosing, h⟩ | ⟨token, rfl, h⟩
    · exact .negated sign hsign h
    · exact .grouped opening closing hopening h hclosing
    · exact .literal h

/-- The tokens alone decide which formula they derive, since the reader finds it. -/
theorem unique {level : Level} {tokens : List Token} {f g : Formula} (hf : Derives level tokens f)
    (hg : Derives level tokens g) : f = g := by
  -- the two derivations are never compared: both say what the one reader yields
  have hreadf := Level.outcome_of_derives hf [] (Level.stops_nil level)
  have hreadg := Level.outcome_of_derives hg [] (Level.stops_nil level)
  have hsame : (f, []) = (g, ([] : List Token)) := Except.ok.inj (hreadf.symm.trans hreadg)
  exact congrArg Prod.fst hsame

end Derives

/-- A text is read as a formula just if its tokens derive the formula, and refused just if they
derive none. The rules of the grammar leave no choice: one list of tokens has one formula. -/
theorem parse_accepts_exactly_the_grammar :
    (∀ (text : String) (f : Formula),
      Formula.parse text = .ok f ↔ Derives (.chain .or) (Token.scan text) f) ∧
    (∀ text : String, (∃ e : ParseError, Formula.parse text = .error e) ↔
      ¬ ∃ f, Derives (.chain .or) (Token.scan text) f) ∧
    (∀ (level : Level) (tokens : List Token) (f g : Formula),
      Derives level tokens f → Derives level tokens g → f = g) ∧
    (∀ (tokens : List Token) (f : Formula), Derives (.chain .or) tokens f ↔
      Derives (.chain .and) tokens f ∨
        ∃ left joint right g h, tokens = left ++ joint :: right ∧ joint.kind = .disjunction ∧
          f = .binary .or g h ∧ Derives (.chain .and) left g ∧ Derives (.chain .or) right h) ∧
    (∀ (tokens : List Token) (f : Formula), Derives (.chain .and) tokens f ↔
      Derives .factor tokens f ∨
        ∃ left joint right g h, tokens = left ++ joint :: right ∧ joint.kind = .conjunction ∧
          f = .binary .and g h ∧ Derives .factor left g ∧ Derives (.chain .and) right h) ∧
    (∀ (tokens : List Token) (f : Formula), Derives .factor tokens f ↔
      (∃ sign rest g, tokens = sign :: rest ∧ sign.kind = .negation ∧ f = .not g ∧
        Derives .factor rest g) ∨
      (∃ opening inner closing, tokens = opening :: (inner ++ [closing]) ∧
        opening.kind = .leftParen ∧ closing.kind = .rightParen ∧
        Derives (.chain .or) inner f) ∨
      ∃ token : Token, tokens = [token] ∧ token.literal? = some f) := by
  have haccepts (text : String) (f : Formula) :
      Formula.parse text = .ok f ↔ Derives (.chain .or) (Token.scan text) f :=
    Formula.ofTokens_eq_ok_iff (Token.scan text) f
  refine ⟨haccepts, ?_, fun _ _ _ _ => Derives.unique, Derives.chain_iff .or,
    Derives.chain_iff .and, Derives.factor_iff⟩
  intro text
  constructor
  · rintro ⟨e, he⟩ ⟨f, hf⟩
    rw [← haccepts, he] at hf
    cases hf
  · intro hnone
    cases hread : Formula.parse text with
    | error e => exact ⟨e, rfl⟩
    | ok f => exact absurd ⟨f, (haccepts text f).mp hread⟩ hnone

/-- Without parentheses the negation takes the first word alone, and the conjunction goes before
the disjunction. -/
theorem parse_accepts_mixed_chain :
    Formula.parse "not x and y or z" =
        .ok (.binary .or (.binary .and (.not (.atom "x")) (.atom "y")) (.atom "z")) ∧
      ∀ f, Derives (.chain .or) (Token.scan "not x and y or z") f →
        f = .binary .or (.binary .and (.not (.atom "x")) (.atom "y")) (.atom "z") := by
  have hread : Formula.parse "not x and y or z" =
      .ok (.binary .or (.binary .and (.not (.atom "x")) (.atom "y")) (.atom "z")) := by cbv
  obtain ⟨haccepts, _, hunique, _⟩ := parse_accepts_exactly_the_grammar
  refine ⟨hread, ?_⟩
  intro f hf
  exact hunique _ _ f _ hf ((haccepts _ _).mp hread)

end CubeCover
