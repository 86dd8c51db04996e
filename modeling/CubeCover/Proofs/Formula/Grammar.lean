import CubeCover.Formula.Parser

/-! The grammar of formulas as a relation between tokens and formulas, and the reader against it.
What derives is read, whatever follows that cannot prolong it, and what is read derives. -/
namespace CubeCover

/-- The tokens of a chain or of a factor, with the formula that they write. -/
inductive Derives : Level → List Token → Formula → Prop
  | link {op : Connective} {tokens : List Token} {f : Formula} (h : Derives op.link tokens f) :
      Derives (.chain op) tokens f
  | join {op : Connective} {left right : List Token} {f g : Formula} (joint : Token)
      (hleft : Derives op.link left f) (hjoint : joint.kind = op.token)
      (hright : Derives (.chain op) right g) :
      Derives (.chain op) (left ++ joint :: right) (.binary op f g)
  | negated {tokens : List Token} {f : Formula} (sign : Token) (hsign : sign.kind = .negation)
      (h : Derives .factor tokens f) : Derives .factor (sign :: tokens) (.not f)
  | grouped {tokens : List Token} {f : Formula} (opening closing : Token)
      (hopening : opening.kind = .leftParen) (h : Derives (.chain .or) tokens f)
      (hclosing : closing.kind = .rightParen) :
      Derives .factor (opening :: (tokens ++ [closing])) f
  | verum (token : Token) (h : token.kind = .verum) : Derives .factor [token] .verum
  | falsum (token : Token) (h : token.kind = .falsum) : Derives .factor [token] .falsum
  | named (token : Token) (h : token.kind = .word ∨ token.kind = .symbol) :
      Derives .factor [token] (.atom token.text)

namespace Level

/-- What a reader yields, without the proof that tokens were used. -/
def outcome (level : Level) (tokens : List Token) : Except ParseError (Formula × List Token) :=
  match level.read tokens with
  | .error e => .error e
  | .ok parsed => .ok (parsed.formula, parsed.rest)

theorem outcome_chain (op : Connective) (tokens : List Token) :
    (Level.chain op).outcome tokens =
      match op.link.outcome tokens with
      | .error e => .error e
      | .ok (left, []) => .ok (left, [])
      | .ok (left, token :: rest) =>
        if token.kind = op.token then
          match (Level.chain op).outcome rest with
          | .error e => .error e
          | .ok (right, rest') => .ok (.binary op left right, rest')
        else .ok (left, token :: rest) := by
  rw [outcome, read, outcome]
  rcases op.link.read tokens with e | ⟨left, rest, h⟩
  · rfl
  · cases rest with
    | nil => rfl
    | cons token rest =>
      dsimp only
      by_cases hjoint : token.kind = op.token
      · simp only [hjoint, if_true, outcome]
        rcases (Level.chain op).read rest with e | ⟨right, rest', h'⟩ <;> rfl
      · simp only [hjoint, if_false]

theorem outcome_factor_nil : Level.factor.outcome [] = .error (.missingOperand none) := by
  rw [outcome, read]

theorem outcome_factor_cons (token : Token) (rest : List Token) :
    Level.factor.outcome (token :: rest) =
      match token.kind with
      | .negation =>
        match Level.factor.outcome rest with
        | .error e => .error e
        | .ok (operand, rest') => .ok (.not operand, rest')
      | .leftParen =>
        match (Level.chain .or).outcome rest with
        | .error e => .error e
        | .ok (_, []) => .error (.unclosed none)
        | .ok (inner, close :: rest') =>
          if close.kind = .rightParen then .ok (inner, rest')
          else .error (.unclosed (some close.text))
      | .verum => .ok (.verum, rest)
      | .falsum => .ok (.falsum, rest)
      | .word => .ok (.atom token.text, rest)
      | .symbol => .ok (.atom token.text, rest)
      | .conjunction => .error (.missingOperand (some token.text))
      | .disjunction => .error (.missingOperand (some token.text))
      | .rightParen => .error (.missingOperand (some token.text)) := by
  rw [outcome, read]
  cases token.kind with
  | negation =>
    simp only [outcome]
    rcases Level.factor.read rest with e | ⟨operand, rest', h⟩ <;> rfl
  | leftParen =>
    simp only [outcome]
    rcases (Level.chain .or).read rest with e | ⟨inner, rest', h⟩
    · rfl
    · cases rest' with
      | nil => rfl
      | cons close rest' =>
        dsimp only
        by_cases hclose : close.kind = .rightParen
        · simp only [hclose, if_true]
        · simp only [hclose, if_false]
  | _ => rfl

/-- A token that could prolong what a reader of the level has read. -/
def prolongs : Level → TokenKind → Bool
  | .factor, _ => false
  | .chain .and, kind => kind == .conjunction
  | .chain .or, kind => kind == .conjunction || kind == .disjunction

/-- Nothing that follows can prolong what a reader of the level has read. -/
def Stops (level : Level) (rest : List Token) : Prop :=
  ∀ token ∈ rest.head?, level.prolongs token.kind = false

theorem stops_nil (level : Level) : level.Stops [] := by
  intro token htoken
  exact absurd htoken (by simp)

theorem stops_cons (level : Level) (token : Token) (rest : List Token) :
    level.Stops (token :: rest) ↔ level.prolongs token.kind = false := by
  simp [Stops]

theorem stops_link (op : Connective) (rest : List Token) (h : (Level.chain op).Stops rest) :
    op.link.Stops rest := by
  intro token htoken
  have hchain := h token htoken
  revert hchain
  cases op <;> cases token.kind <;> decide

theorem prolongs_link_token (op : Connective) : op.link.prolongs op.token = false := by
  cases op <;> decide

theorem prolongs_chain_token (op : Connective) : (Level.chain op).prolongs op.token = true := by
  cases op <;> decide

/-- Tokens that derive a formula are read as that formula, and all that follows is left. -/
theorem outcome_of_derives {level : Level} {tokens : List Token} {f : Formula}
    (h : Derives level tokens f) (rest : List Token) (hstops : level.Stops rest) :
    level.outcome (tokens ++ rest) = .ok (f, rest) := by
  induction h generalizing rest with
  | @link op tokens f h ih =>
    -- after the only link stands no token that joins a second one
    rw [outcome_chain, ih rest (stops_link op rest hstops)]
    cases rest with
    | nil => rfl
    | cons token rest =>
      have hne : token.kind ≠ op.token := by
        intro heq
        rw [stops_cons, heq, prolongs_chain_token] at hstops
        exact absurd hstops (by decide)
      simp only [hne, if_false]
  | @join op left right f g joint hleft hjoint hright ihleft ihright =>
    have hstop : op.link.Stops (joint :: (right ++ rest)) := by
      rw [stops_cons, hjoint]
      exact prolongs_link_token op
    rw [List.append_assoc, List.cons_append, outcome_chain, ihleft _ hstop]
    simp only [hjoint, if_true, ihright rest hstops]
  | negated sign hsign h ih =>
    rw [List.cons_append, outcome_factor_cons, hsign]
    simp only [ih rest (fun _ _ => rfl)]
  | @grouped tokens f opening closing hopening h hclosing ih =>
    have hstop : (Level.chain .or).Stops (closing :: rest) := by
      rw [stops_cons, hclosing]
      rfl
    rw [List.cons_append, List.append_assoc, outcome_factor_cons, hopening]
    simp only [List.cons_append, List.nil_append, ih _ hstop, hclosing, if_true]
  | verum token h =>
    rw [List.cons_append, outcome_factor_cons, h]
    rfl
  | falsum token h =>
    rw [List.cons_append, outcome_factor_cons, h]
    rfl
  | named token h =>
    rw [List.cons_append, outcome_factor_cons]
    rcases h with h | h <;> rw [h] <;> rfl

theorem length_outcome (level : Level) (tokens rest : List Token) (f : Formula)
    (h : level.outcome tokens = .ok (f, rest)) : rest.length < tokens.length := by
  unfold outcome at h
  split at h
  · exact absurd h (by simp)
  · rename_i parsed _
    obtain ⟨_, rfl⟩ := Prod.mk.inj (Except.ok.inj h)
    exact parsed.shorter

theorem derives_of_factor_outcome (token : Token) (tokens rest : List Token) (f : Formula)
    (ih : ∀ (level : Level) (rest' : List Token) (g : Formula),
      level.outcome tokens = .ok (g, rest') → ∃ used, tokens = used ++ rest' ∧ Derives level used g)
    (h : Level.factor.outcome (token :: tokens) = .ok (f, rest)) :
    ∃ used, token :: tokens = used ++ rest ∧ Derives .factor used f := by
  -- the kind of the first token decides which rule was used
  rw [outcome_factor_cons] at h
  cases hkind : token.kind with
  | negation =>
    rw [hkind] at h
    dsimp only at h
    split at h
    · exact absurd h (by simp)
    · rename_i operand rest' hread
      obtain ⟨rfl, rfl⟩ := Prod.mk.inj (Except.ok.inj h)
      obtain ⟨used, rfl, hused⟩ := ih .factor rest' operand hread
      exact ⟨token :: used, rfl, .negated token hkind hused⟩
  | leftParen =>
    rw [hkind] at h
    dsimp only at h
    split at h
    · exact absurd h (by simp)
    · exact absurd h (by simp)
    · rename_i inner close rest' hread
      split at h
      · rename_i hclose
        obtain ⟨rfl, rfl⟩ := Prod.mk.inj (Except.ok.inj h)
        obtain ⟨used, rfl, hused⟩ := ih (.chain .or) (close :: rest') inner hread
        exact ⟨token :: (used ++ [close]), by simp, .grouped token close hkind hused hclose⟩
      · exact absurd h (by simp)
  | verum =>
    rw [hkind] at h
    obtain ⟨rfl, rfl⟩ := Prod.mk.inj (Except.ok.inj h)
    exact ⟨[token], rfl, .verum token hkind⟩
  | falsum =>
    rw [hkind] at h
    obtain ⟨rfl, rfl⟩ := Prod.mk.inj (Except.ok.inj h)
    exact ⟨[token], rfl, .falsum token hkind⟩
  | word =>
    rw [hkind] at h
    obtain ⟨rfl, rfl⟩ := Prod.mk.inj (Except.ok.inj h)
    exact ⟨[token], rfl, .named token (Or.inl hkind)⟩
  | symbol =>
    rw [hkind] at h
    obtain ⟨rfl, rfl⟩ := Prod.mk.inj (Except.ok.inj h)
    exact ⟨[token], rfl, .named token (Or.inr hkind)⟩
  | conjunction | disjunction | rightParen =>
    rw [hkind] at h
    exact absurd h (by simp)

theorem derives_of_chain_outcome (op : Connective) (tokens rest : List Token) (f : Formula)
    (hlink : ∀ (rest' : List Token) (g : Formula), op.link.outcome tokens = .ok (g, rest') →
      ∃ used, tokens = used ++ rest' ∧ Derives op.link used g)
    (ih : ∀ tokens' : List Token, tokens'.length < tokens.length →
      ∀ (rest' : List Token) (g : Formula), (Level.chain op).outcome tokens' = .ok (g, rest') →
      ∃ used, tokens' = used ++ rest' ∧ Derives (.chain op) used g)
    (h : (Level.chain op).outcome tokens = .ok (f, rest)) :
    ∃ used, tokens = used ++ rest ∧ Derives (.chain op) used f := by
  -- a chain is a link alone, or a link that a token joins to a shorter chain
  rw [outcome_chain] at h
  split at h
  · exact absurd h (by simp)
  · rename_i left hread
    obtain ⟨rfl, rfl⟩ := Prod.mk.inj (Except.ok.inj h)
    obtain ⟨used, hused, hleft⟩ := hlink [] left hread
    exact ⟨used, hused, .link hleft⟩
  · rename_i left joint rest' hread
    obtain ⟨used, hused, hleft⟩ := hlink (joint :: rest') left hread
    split at h
    · rename_i hjoint
      split at h
      · exact absurd h (by simp)
      · rename_i right rest'' hread'
        obtain ⟨rfl, rfl⟩ := Prod.mk.inj (Except.ok.inj h)
        have hless : rest'.length < tokens.length := by
          have hlength := length_outcome _ _ _ _ hread
          rw [List.length_cons] at hlength
          omega
        obtain ⟨used', rfl, hright⟩ := ih rest' hless rest'' right hread'
        exact ⟨used ++ joint :: used', by simp [hused], .join joint hleft hjoint hright⟩
    · obtain ⟨rfl, rfl⟩ := Prod.mk.inj (Except.ok.inj h)
      exact ⟨used, hused, .link hleft⟩

/-- To prove something of every level and all tokens, go from shorter lists to a factor, and from the
links of a chain to the chain. -/
theorem read_induction {P : Level → List Token → Prop}
    (factor : ∀ tokens : List Token,
      (∀ (level : Level) (rest : List Token), rest.length < tokens.length → P level rest) →
      P .factor tokens)
    (chain : ∀ (op : Connective) (tokens : List Token), P op.link tokens →
      (∀ rest : List Token, rest.length < tokens.length → P (.chain op) rest) →
      P (.chain op) tokens)
    (level : Level) (tokens : List Token) : P level tokens := by
  -- by induction on the number of tokens; on the same tokens from factors up to disjunctions
  induction hn : tokens.length using Nat.strongRecOn generalizing level tokens with
  | ind n ih =>
    have hshorter (level : Level) (rest : List Token) (h : rest.length < tokens.length) :
        P level rest := ih rest.length (hn ▸ h) level rest rfl
    have hfactor : P .factor tokens := factor tokens hshorter
    have hand : P (.chain .and) tokens := chain .and tokens hfactor (hshorter _)
    cases level with
    | factor => exact hfactor
    | chain op =>
      cases op with
      | and => exact hand
      | or => exact chain .or tokens hand (hshorter _)

/-- What a reader has read derives. -/
theorem derives_of_outcome (level : Level) (tokens rest : List Token) (f : Formula)
    (h : level.outcome tokens = .ok (f, rest)) :
    ∃ used, tokens = used ++ rest ∧ Derives level used f := by
  induction level, tokens using read_induction generalizing rest f with
  | factor tokens ih =>
    cases tokens with
    | nil =>
      rw [outcome_factor_nil] at h
      exact absurd h (by simp)
    | cons token tokens =>
      exact derives_of_factor_outcome token tokens rest f
        (fun level => ih level tokens (Nat.lt_succ_self _)) h
  | chain op tokens hlink ih => exact derives_of_chain_outcome op tokens rest f hlink ih h

end Level

theorem Derives.ne_nil {level : Level} {tokens : List Token} {f : Formula}
    (h : Derives level tokens f) : tokens ≠ [] := by
  induction h with
  | link h ih => exact ih
  | _ => simp

/-- A list of tokens is read as a formula just if it derives the formula as a disjunction. -/
theorem Formula.ofTokens_eq_ok_iff (tokens : List Token) (f : Formula) :
    Formula.ofTokens tokens = .ok f ↔ Derives (.chain .or) tokens f := by
  constructor
  · intro h
    unfold Formula.ofTokens at h
    split at h
    · exact absurd h (by simp)
    · split at h
      · exact absurd h (by simp)
      · -- no token is left, so all of them were used
        rename_i f' hlength hread
        have houtcome : (Level.chain .or).outcome tokens = .ok (f', []) := by
          rw [Level.outcome, hread]
        obtain ⟨used, hused, hderives⟩ := Level.derives_of_outcome _ _ _ _ houtcome
        rw [hused, List.append_nil, ← Except.ok.inj h]
        exact hderives
      · exact absurd h (by simp)
  · intro h
    have houtcome := Level.outcome_of_derives h [] (Level.stops_nil _)
    rw [List.append_nil] at houtcome
    cases tokens with
    | nil => exact absurd rfl h.ne_nil
    | cons token tokens =>
      unfold Level.outcome at houtcome
      split at houtcome
      · exact absurd houtcome (by simp)
      · rename_i parsed hread
        obtain ⟨rfl, hrest⟩ := Prod.mk.inj (Except.ok.inj houtcome)
        obtain ⟨g, rest, hlength⟩ := parsed
        dsimp only at hrest
        subst hrest
        simp only [Formula.ofTokens, hread]

end CubeCover
