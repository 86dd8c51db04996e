import CubeCover.Proofs.Formula.Slot

/-! What the parser says of a text that is no formula. It names the first token with which the tokens
before it no longer begin a sentence, or the end of the text if all tokens begin one; and it says what
has to come there: an operand, an operator or a closing parenthesis, or the end. -/
namespace CubeCover

/-- The least place such that no sentence begins with the tokens up to and with the one there, or the
number of tokens if a longer sentence begins with all of them. -/
def IsRefusalPlace (tokens : List Token) (p : Nat) : Prop :=
  (p < tokens.length ∧ ¬ BeginsSentence (tokens.take (p + 1)) ∧
    ∀ q < p, BeginsSentence (tokens.take (q + 1))) ∨
  (p = tokens.length ∧ ∃ token rest, IsSentence (tokens ++ token :: rest))

/-- Just the tokens of these kinds may come next. -/
def GoesOnWith (kinds : TokenKind → Bool) (tokens : List Token) : Prop :=
  ∀ token : Token, BeginsSentence (tokens ++ [token]) ↔ kinds token.kind = true

/-- The kinds of tokens that may follow an operand inside parentheses. -/
def TokenKind.endsOperand (kind : TokenKind) : Bool := kind.isOperator || kind == .rightParen

theorem Formula.ofTokens_error_cases {tokens : List Token} {e : ParseError}
    (h : Formula.ofTokens tokens = .error e) :
    (tokens = [] ∧ e = .emptyText) ∨ (tokens ≠ [] ∧ Level.RefusedAt (.operand 0) tokens e) := by
  unfold Formula.ofTokens at h
  split at h
  · exact Or.inl ⟨rfl, (Except.error.inj h).symm⟩
  · rename_i hne
    refine Or.inr ⟨hne, ?_⟩
    split at h
    · rename_i e' hread
      obtain rfl := Except.error.inj h
      apply Level.refusedAt_of_error (.chain .or)
      rw [Level.outcome, hread]
    · exact absurd h (by simp)
    · -- a formula is read, and the token after it does not prolong it
      rename_i f token rest hlength hread
      obtain rfl := Except.error.inj h
      have houtcome : (Level.chain .or).outcome tokens = .ok (f, token :: rest) := by
        rw [Level.outcome, hread]
      have hstops := Level.stops_of_outcome _ _ _ _ houtcome
      rw [Level.stops_cons, Level.prolongs_disjunction] at hstops
      obtain ⟨used, rfl, hused⟩ := Level.derives_of_outcome _ _ _ _ houtcome
      refine ⟨used, token :: rest, _, rfl, Slot.after?_of_derives hused 0, .outside token ?_⟩
      rw [← Option.not_isSome_iff_eq_none, Slot.next?_operator_isSome, hstops]
      simp

namespace Slot

/-- Tokens that lead to an operator outside all parentheses are not refused. -/
theorem isSentence_iff (tokens : List Token) :
    IsSentence tokens ↔ (operand 0).after? tokens = some (operator 0) := by
  constructor
  · rintro ⟨f, hf⟩
    exact after?_of_derives hf 0
  · intro h
    cases hread : Formula.ofTokens tokens with
    | ok f => exact ⟨f, (Formula.ofTokens_eq_ok_iff tokens f).mp hread⟩
    | error e =>
      exfalso
      rcases Formula.ofTokens_error_cases hread with ⟨rfl, _⟩ |
          ⟨_, used, after, slot, rfl, hslot, hrefuses⟩
      · cases h
      · rw [after?_append, hslot, Option.bind_some] at h
        cases after with
        | nil => exact hrefuses.ne_operator_zero (Option.some.inj h)
        | cons token rest =>
          rw [after?_cons, hrefuses.next?_eq_none token rfl] at h
          cases h

/-- Tokens that complete a sentence at a slot: an operand if there has to be one, and all closing
parentheses. -/
def completion : Slot → List Token
  | operand depth => ⟨.verum, "true", 0, 4⟩ :: List.replicate depth ⟨.rightParen, ")", 0, 1⟩
  | operator depth => List.replicate depth ⟨.rightParen, ")", 0, 1⟩

theorem after?_completion (s : Slot) : s.after? s.completion = some (operator 0) := by
  have hclose (depth : Nat) :
      (operator depth).after? (operator depth).completion = some (operator 0) := by
    induction depth with
    | zero => rfl
    | succ depth ih =>
      simp only [completion, List.replicate_succ] at ih ⊢
      exact ih
  cases s with
  | operand depth => exact hclose depth
  | operator depth => exact hclose depth

theorem beginsSentence_iff (tokens : List Token) :
    BeginsSentence tokens ↔ ∃ slot, (operand 0).after? tokens = some slot := by
  constructor
  · rintro ⟨rest, hrest⟩
    rw [isSentence_iff, after?_append, Option.bind_eq_some_iff] at hrest
    obtain ⟨slot, hslot, _⟩ := hrest
    exact ⟨slot, hslot⟩
  · rintro ⟨slot, hslot⟩
    refine ⟨slot.completion, ?_⟩
    rw [isSentence_iff, after?_append, hslot, Option.bind_some, after?_completion]

variable {tokens : List Token} {slot : Slot}

theorem beginsSentence_concat_iff (h : (operand 0).after? tokens = some slot) (token : Token) :
    BeginsSentence (tokens ++ [token]) ↔ (slot.next? token.kind).isSome = true := by
  rw [beginsSentence_iff, after?_concat h, Option.isSome_iff_exists]

theorem goesOnWith_iff (h : (operand 0).after? tokens = some slot) (kinds : TokenKind → Bool) :
    GoesOnWith kinds tokens ↔ ∀ kind, (slot.next? kind).isSome = kinds kind := by
  have htoken (token : Token) : (BeginsSentence (tokens ++ [token]) ↔ kinds token.kind = true) ↔
      (slot.next? token.kind).isSome = kinds token.kind := by
    rw [beginsSentence_concat_iff h, Bool.coe_iff_coe]
  constructor
  · intro hgoes kind
    exact (htoken ⟨kind, "", 0, 0⟩).mp (hgoes _)
  · intro hkinds token
    exact (htoken token).mpr (hkinds token.kind)

/-- Tokens that are no sentence and go on with an operand stand before an operand. -/
theorem needsOperand_iff (h : (operand 0).after? tokens = some slot) :
    ¬ IsSentence tokens ∧ GoesOnWith TokenKind.startsOperand tokens ↔
      ∃ depth, slot = operand depth := by
  rw [isSentence_iff, h, goesOnWith_iff h]
  cases slot with
  | operand depth => simp [next?_operand_isSome]
  | operator depth =>
    -- a word may not come after an operand
    have hword : ¬ ∀ kind, ((operator depth).next? kind).isSome = kind.startsOperand := by
      intro hkinds
      have hword := hkinds .word
      rw [next?_operator_isSome] at hword
      exact absurd hword (by simp [TokenKind.isOperator, TokenKind.startsOperand])
    simp [hword]

theorem needsOperator_iff (h : (operand 0).after? tokens = some slot) :
    ¬ IsSentence tokens ∧ GoesOnWith TokenKind.endsOperand tokens ∧ 0 < openParens tokens ↔
      ∃ depth, slot = operator (depth + 1) := by
  have hdepth := depth_of_after? h
  rw [isSentence_iff, h, goesOnWith_iff h]
  cases slot with
  | operand depth =>
    have hword : ¬ ∀ kind, ((operand depth).next? kind).isSome = kind.endsOperand := by
      intro hkinds
      exact absurd (hkinds .word) (by simp [next?_operand_isSome, TokenKind.startsOperand,
        TokenKind.endsOperand, TokenKind.isOperator])
    simp [hword]
  | operator depth =>
    cases depth with
    | zero => simp
    | succ depth =>
      have hopen : 0 < openParens tokens := by
        simp only [Slot.depth] at hdepth
        omega
      simp [hopen, next?_operator_isSome, TokenKind.endsOperand]

theorem mayEnd_iff (h : (operand 0).after? tokens = some slot) :
    IsSentence tokens ∧ GoesOnWith TokenKind.isOperator tokens ∧ openParens tokens = 0 ↔
      slot = operator 0 := by
  have hdepth := depth_of_after? h
  rw [isSentence_iff, h, goesOnWith_iff h, Option.some.injEq]
  constructor
  · exact And.left
  · rintro rfl
    refine ⟨rfl, fun kind => by simp [next?_operator_isSome], ?_⟩
    simp only [Slot.depth] at hdepth
    omega

/-- The tokens up to a slot that has no room for the next one end at the only place of refusal. -/
theorem isRefusalPlace_iff {used after : List Token} (h : (operand 0).after? used = some slot)
    (hnext : ∀ token ∈ after.head?, slot.next? token.kind = none)
    (hend : after = [] → slot ≠ operator 0) (q : Nat) :
    IsRefusalPlace (used ++ after) q ↔ q = used.length := by
  -- all beginnings of the used tokens begin sentences
  have hbegins (n : Nat) (hn : n ≤ used.length) : BeginsSentence ((used ++ after).take n) := by
    rw [List.take_append_of_le_length hn, beginsSentence_iff]
    rw [← List.take_append_drop n used, after?_append, Option.bind_eq_some_iff] at h
    obtain ⟨s, hs, _⟩ := h
    exact ⟨s, hs⟩
  cases after with
  | nil =>
    simp only [List.append_nil] at hbegins ⊢
    constructor
    · rintro (⟨hq, hnot, _⟩ | ⟨hq, _⟩)
      · exact absurd (hbegins (q + 1) hq) hnot
      · exact hq
    · rintro rfl
      have hne : ¬ IsSentence used := by
        rw [isSentence_iff, h, Option.some.injEq]
        exact hend rfl
      obtain ⟨rest, hrest⟩ := (beginsSentence_iff used).mpr ⟨slot, h⟩
      cases rest with
      | nil =>
        rw [List.append_nil] at hrest
        exact absurd hrest hne
      | cons token rest => exact Or.inr ⟨rfl, token, rest, hrest⟩
  | cons token rest =>
    have hnone : ¬ BeginsSentence (used ++ [token]) := by
      rw [beginsSentence_concat_iff h, hnext token rfl]
      simp
    have htake : (used ++ token :: rest).take (used.length + 1) = used ++ [token] :=
      List.take_length_add_append 1
    constructor
    · rintro (⟨hq, hnot, hall⟩ | ⟨_, next, more, hmore⟩)
      · rcases Nat.lt_trichotomy q used.length with hlt | heq | hgt
        · exact absurd (hbegins (q + 1) hlt) hnot
        · exact heq
        · exact absurd (htake ▸ hall used.length hgt) hnone
      · exact absurd ⟨rest ++ next :: more, by simpa using hmore⟩ hnone
    · rintro rfl
      exact Or.inl ⟨by simp, htake ▸ hnone, fun q hq => hbegins (q + 1) hq⟩

end Slot

/-- A text that is refused has one place of refusal. The parser names the token there, or none at the
end of the text. It asks for a formula if there are no tokens, for an operand where nothing else may
come and the tokens before are no sentence, for a closing parenthesis where an operator or such a
parenthesis has to come inside parentheses, and for the end where the tokens before are a sentence and
an operator alone may follow outside all parentheses. -/
theorem refusal_names_first_wrong_token (text : String) (e : ParseError)
    (h : Formula.parse text = .error e) :
    ∃ p, (∀ q, IsRefusalPlace (Token.scan text) q ↔ q = p) ∧
      e.found? = (Token.scan text)[p]?.map Token.text ∧
      (e.expected = "formula" ↔ Token.scan text = []) ∧
      (e.expected = "operand" ↔ Token.scan text ≠ [] ∧
        ¬ IsSentence ((Token.scan text).take p) ∧
        GoesOnWith TokenKind.startsOperand ((Token.scan text).take p)) ∧
      (e.expected = "')'" ↔ ¬ IsSentence ((Token.scan text).take p) ∧
        GoesOnWith TokenKind.endsOperand ((Token.scan text).take p) ∧
        0 < openParens ((Token.scan text).take p)) ∧
      (e.expected = "end of input" ↔ IsSentence ((Token.scan text).take p) ∧
        GoesOnWith TokenKind.isOperator ((Token.scan text).take p) ∧
        openParens ((Token.scan text).take p) = 0) := by
  rw [Formula.parse] at h
  rcases Formula.ofTokens_error_cases h with ⟨hnil, rfl⟩ |
      ⟨hne, used, after, slot, htokens, hslot, hrefuses⟩
  · have hstart : (Slot.operand 0).after? [] = some (.operand 0) := rfl
    rw [hnil]
    refine ⟨0, Slot.isRefusalPlace_iff hstart (by simp) (by simp), rfl, by simp [ParseError.expected],
      by simp [ParseError.expected], ?_, ?_⟩
    · rw [List.take_nil, Slot.needsOperator_iff hstart]
      simp [ParseError.expected]
    · rw [List.take_nil, Slot.mayEnd_iff hstart]
      simp [ParseError.expected]
  · have hend (hnil : after = []) : slot ≠ .operator 0 := by
      rw [hnil] at hrefuses
      exact hrefuses.ne_operator_zero
    refine ⟨used.length, ?_, ?_, ?_⟩
    · intro q
      rw [htokens]
      exact Slot.isRefusalPlace_iff hslot hrefuses.next?_eq_none hend q
    · rw [hrefuses.found?, htokens, List.getElem?_append_right (Nat.le_refl _), Nat.sub_self,
        List.head?_eq_getElem?]
    · rw [htokens, List.take_left, Slot.needsOperand_iff hslot, Slot.needsOperator_iff hslot,
        Slot.mayEnd_iff hslot, ← htokens]
      generalize after.head? = found? at hrefuses
      cases hrefuses with
      | operand depth _ _ => simp [ParseError.expected, hne]
      | inside depth _ _ => simp [ParseError.expected, hne]
      | outside token _ => simp [ParseError.expected, hne]

/-- Of two words in a group that no operator joins, the second one is the place of refusal. -/
theorem refusal_names_second_word_of_group :
    Formula.parse "(x or y z" = .error (.unclosed (some "z")) ∧
      (∀ q, IsRefusalPlace (Token.scan "(x or y z") q ↔ q = 4) ∧
      GoesOnWith TokenKind.endsOperand ((Token.scan "(x or y z").take 4) := by
  have hread : Formula.parse "(x or y z" = .error (.unclosed (some "z")) := by cbv
  obtain ⟨p, hplace, hfound, _, _, hgroup, _⟩ := refusal_names_first_wrong_token _ _ hread
  have hp : p = 4 := by
    have htexts : (Token.scan "(x or y z").map Token.text = ["(", "x", "or", "y", "z"] := by
      clear hread hplace hfound hgroup
      cbv
    rw [← List.getElem?_map, htexts] at hfound
    obtain ⟨hlast, _⟩ := List.getElem?_eq_some_iff.mp hfound.symm
    have hcases : p = 0 ∨ p = 1 ∨ p = 2 ∨ p = 3 ∨ p = 4 := by
      simp only [List.length_cons, List.length_nil] at hlast
      omega
    rcases hcases with rfl | rfl | rfl | rfl | h
    · exact absurd hfound (by decide)
    · exact absurd hfound (by decide)
    · exact absurd hfound (by decide)
    · exact absurd hfound (by decide)
    · exact h
  subst hp
  exact ⟨hread, hplace, (hgroup.mp rfl).2.1⟩

end CubeCover
